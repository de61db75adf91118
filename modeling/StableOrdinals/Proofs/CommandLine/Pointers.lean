import StableOrdinals.Proofs.CommandLine.Failure

/-!
# Commands with pointers

A command of the library takes the store and the key of the reservations out of the configuration,
and so it cannot ask for them where there is no configuration. A machine keeps both behind pointers,
which are null then (`Client.objects?`, `Client.reservations?`), and nothing but the order of its
checks keeps a command from following them. Here the commands stand once more with every use of a
pointer: where it is null, there is no result.

There always is a result, and it is the one of the library: `Pointers.perform_eq`. It is found
command by command from a few laws of `lift`, which takes a procedure without pointers for one with
pointers. So where the configuration cannot be used the store is neither asked for nor touched:
`unusable_configuration_spares_store`.
-/

namespace StableOrdinals

namespace Store

variable {ε δ σ : Type}

def ModifyError.map (f : ε → δ) : ModifyError ε → ModifyError δ
  | .store cause => .store cause
  | .refused cause => .refused (f cause)

def Change.mapError (f : ε → δ) (change : Change ε σ) : Change δ σ := fun w state =>
  ((change w state).1.mapError f, (change w state).2)

variable (store : Store) (f : ε → δ) (change : Change ε σ)

theorem attempt_mapError (name : Text) (state : World × σ) :
    store.attempt name (change.mapError f) state =
      ((store.attempt name change state).1.mapError (ModifyError.map f),
        (store.attempt name change state).2) := by
  unfold attempt
  cases store.load state.1.files name with
  | error cause => rfl
  | ok seen =>
    simp only [Change.mapError]
    generalize change seen state = changed
    rcases changed with ⟨answer, world, kept⟩
    cases answer with
    | error cause => rfl
    | ok w =>
      simp only [Except.mapError]
      generalize store.update world w = updated
      rcases updated with ⟨answer, after⟩
      cases answer <;> rfl

theorem attempts_mapError (name : Text) (retries : Int) (left number : Nat) (state : World × σ) :
    store.attempts name (change.mapError f) retries left number state =
      ((store.attempts name change retries left number state).1.mapError (ModifyError.map f),
        (store.attempts name change retries left number state).2) := by
  induction left generalizing number state with
  | zero => rfl
  | succ left ih =>
    rw [attempts, attempts, attempt_mapError]
    generalize store.attempt name change state = attempted
    rcases attempted with ⟨answer, overtaken, world, kept⟩
    cases overtaken with
    | false => rfl
    | true => exact ih (number + 1) _

theorem modify_mapError (name : Text) (retries : Int) (state : World × σ) :
    store.modify name (change.mapError f) retries state =
      ((store.modify name change retries state).1.mapError (ModifyError.map f),
        (store.modify name change retries state).2) :=
  store.attempts_mapError f change name retries _ 1 state

end Store

namespace CommandLine

abbrev Pointed := ExceptT Failure (StateT Session Option)

namespace Client

variable (client : Client)

/-- The store, which a client has together with a configuration. -/
def objects? : Option Store := client.config.toOption.map client.store

def reservations? : Option Text := client.config.toOption.map Config.annotationKey

end Client

namespace Pointers

open Procedure

variable {α β ε σ : Type} {client : Client} {config : Config}

/-- There is no result where the pointer is null. -/
def follow (pointer : Option α) : Pointed α := fun session =>
  pointer.map fun a => (.ok a, session)

def lift (p : Procedure α) : Pointed α := fun session => some (p.run session)

section Lift

theorem lift_pure (a : α) : lift (pure a) = pure a := rfl

theorem run_lift_bind (p : Procedure β) (f : β → Pointed α) (session : Session) :
    (lift p >>= f) session =
      match p.run session with
      | (.ok b, after) => f b after
      | (.error failure, after) => some (.error failure, after) := by
  change (some (p.run session)).bind (fun pair => ExceptT.bindCont f pair.1 pair.2) = _
  cases p.run session with
  | mk answer after => cases answer <;> rfl

theorem lift_bind (p : Procedure β) (f : β → Procedure α) :
    lift (p >>= f) = lift p >>= fun b => lift (f b) := by
  funext session
  rw [run_lift_bind, lift, run_bind]
  cases p.run session with
  | mk answer after => cases answer <;> rfl

theorem lift_bind_congr {p : Procedure β} {f : β → Pointed α} {g : β → Procedure α}
    (h : ∀ b, f b = lift (g b)) : lift p >>= f = lift (p >>= g) := by
  rw [lift_bind, funext h]

theorem lift_forM {items : List β} {f : β → Pointed Unit} {g : β → Procedure Unit}
    (h : ∀ b, f b = lift (g b)) : items.forM f = lift (items.forM g) := by
  induction items with
  | nil => rfl
  | cons item items ih =>
    change (f item >>= fun _ => items.forM f) = lift (g item >>= fun _ => items.forM g)
    rw [h, ih, lift_bind]

theorem lift_bind_requireConfig {f : Config → Pointed α} {g : Config → Procedure α}
    (h : ∀ config, client.config = .ok config → f config = lift (g config)) :
    lift client.requireConfig >>= f = lift (client.requireConfig >>= g) := by
  unfold Client.requireConfig
  cases hconfig : client.config with
  | error cause => rfl
  | ok config => exact (pure_bind config f).trans (h config hconfig)

end Lift

/-- A change for which the reservations are read. It is refused without a cause where there is no
key. -/
def keyed (key : Option Text) (change : Text → Store.Change ε σ) : Store.Change (Option ε) σ :=
  fun w state =>
  match key with
  | none => (.error none, state)
  | some key => (change key).mapError some w state

section Commands

variable (client)

def modifyObject (name : Text) (refusal : ε → Failure) (change : Text → Store.Change ε σ)
    (kept : σ) : Pointed (Workload × σ) := do
  let _ ← lift client.requireConfig
  let store ← follow client.objects?
  fun session =>
    let (answer, (world, kept)) :=
      store.modify name (keyed client.reservations? change) Store.defaultRetries (session.world, kept)
    match answer with
    | .ok stored => some (.ok (stored, kept), { session with world })
    | .error (.store cause) => some (.error (.store cause), { session with world })
    | .error (.refused (some cause)) => some (.error (refusal cause), { session with world })
    | .error (.refused none) => none

def readReservations (w : Workload) : Pointed OrdinalSet := do
  let key ← follow client.reservations?
  lift (note (Reservations.warnings key w.annotations))
  return Reservations.read key w.annotations

def editReservations (name : Text) (edit : Text → BagEdit) (message : Text) : Pointed Unit := do
  let (stored, ()) ← modifyObject client name .encoding (fun key => (edit key).change) ()
  lift (print (Style.done message))
  let reserved ← readReservations client stored
  lift do print (← ofAllocation (Report.allocation stored.replicas reserved))

def create (name : Text) (argument : Option Text) : Pointed Unit := do
  let _ ← lift client.requireConfig
  let replicas ← lift
    (argument.elim (pure 0) fun argument => liftM (Arguments.replicas argument))
  let store ← follow client.objects?
  lift do
    let stored ← ofStore (store.create · ⟨name, replicas, 0, none⟩)
    print (Style.done
      ("Created " ++ stored.name ++ " with " ++ Text.ofInt stored.replicas.toInt ++ " replicas"))
    let ordinals ← ofAllocation (Allocation.active stored.replicas ∅)
    print (Style.row "ordinals" (Text.ofOrdinalSet ordinals))

def listRow (name : Text) : Pointed Unit := do
  let store ← follow client.objects?
  match store.load (← lift files) name with
  | .error cause =>
    if cause.isUnreachable then throw (.store cause)
    else
      lift (print ("  " ++ Text.padRight 24 name ++ " "
        ++ Style.colored Style.yellow cause.message ++ "\n"))
  | .ok w =>
    let reserved ← readReservations client w
    lift (print ("  " ++ Text.padRight 24 name ++ " "
      ++ Text.padRight 10 (Text.ofInt w.replicas.toInt) ++ " "
      ++ Text.ofOrdinalSet reserved ++ "\n"))

def list : Pointed Unit := do
  let _ ← lift client.requireConfig
  let store ← follow client.objects?
  match ← lift (ofStore fun world => (store.list world.files, world)) with
  | [] =>
    let store ← follow client.objects?
    lift (print (Style.colored Style.dim ("  No objects in " ++ store.directory) ++ "\n"))
  | names =>
    lift (print Client.listHeading)
    names.forM (listRow client)
    lift (print "\n")

def inspect (name : Text) : Pointed Unit := do
  let _ ← lift client.requireConfig
  let store ← follow client.objects?
  let w ← lift (ofStore fun world => (store.load world.files name, world))
  lift (print (Style.title w.name ++ Style.row "version" (Text.ofNat w.version.toNat)))
  let reserved ← readReservations client w
  lift do
    print (← ofAllocation (Report.allocation w.replicas reserved))
    print "\n"

def scale (name argument : Text) : Pointed Unit := do
  let target ← lift (liftM (Arguments.replicas argument))
  let (stored, rescaling) ←
    modifyObject client name .allocation (fun key => Rescaling.change key target)
      Rescaling.unchanged
  lift do
    print (Style.done
      ("Scaled " ++ stored.name ++ " to " ++ Text.ofInt stored.replicas.toInt ++ " replicas"))
    print rescaling.rows

def delete (name : Text) : Pointed Unit := do
  let _ ← lift client.requireConfig
  let store ← follow client.objects?
  lift do
    ofStore (store.remove · name)
    print (Style.done ("Deleted " ++ name))

def editSlots (name : Text) (arguments : List Text) (edit : OrdinalSet → Text → BagEdit)
    (message : OrdinalSet → Text) : Pointed Unit := do
  let _ ← lift client.requireConfig
  let slots ← lift (liftM (Arguments.ordinals arguments))
  editReservations client name (edit slots) (message slots)

def clear (name : Text) : Pointed Unit := do
  let _ ← lift client.requireConfig
  editReservations client name BagEdit.clear ("Cleared reservations on " ++ name)

/-- The commands that do not work on the store have no pointers. -/
def perform : Command → List Text → Pointed Unit
  | .create, [name] => create client name none
  | .create, [name, replicas] => create client name (some replicas)
  | .list, [] => list client
  | .inspect, [name] => inspect client name
  | .scale, [name, replicas] => scale client name replicas
  | .delete, [name] => delete client name
  | .reserve, name :: ordinal :: more =>
    editSlots client name (ordinal :: more) (fun slots key => .add key slots)
      fun slots => "Reserved " ++ Text.ofOrdinalSet slots ++ " on " ++ name
  | .unreserve, name :: ordinal :: more =>
    editSlots client name (ordinal :: more) (fun slots key => .remove key slots)
      fun slots => "Released " ++ Text.ofOrdinalSet slots ++ " on " ++ name
  | .clear, [name] => clear client name
  | .compute, arguments => lift (computeAllocation arguments)
  | .init, [] => lift client.init
  | .help, _ => lift (print Command.helpText)
  | command, _ => throw (.usage command)

end Commands

section Agreement

theorem run_modifyObject (store : Store) (name : Text) (refusal : ε → Failure)
    (change : Store.Change ε σ) (kept : σ) (session : Session) :
    (CommandLine.modifyObject store name refusal change kept).run session =
      match store.modify name change Store.defaultRetries (session.world, kept) with
      | (.ok stored, (world, kept)) => (.ok (stored, kept), { session with world })
      | (.error (.store cause), (world, _)) => (.error (.store cause), { session with world })
      | (.error (.refused cause), (world, _)) =>
        (.error (refusal cause), { session with world }) := by
  unfold CommandLine.modifyObject act
  dsimp only [ExceptT.run, ExceptT.mk]
  generalize store.modify name change Store.defaultRetries (session.world, kept) = modified
  rcases modified with ⟨answer, world, kept⟩
  cases answer with
  | ok stored => rfl
  | error cause => cases cause <;> rfl

section Configured

variable (hconfig : client.config = .ok config)

include hconfig

theorem requireConfig_eq : client.requireConfig = pure config := by
  rw [Client.requireConfig, hconfig]

theorem follow_objects? : follow client.objects? = pure (client.store config) := by
  rw [Client.objects?, hconfig]
  rfl

theorem follow_reservations? : follow client.reservations? = pure config.annotationKey := by
  rw [Client.reservations?, hconfig]
  rfl

theorem readReservations_eq (w : Workload) :
    readReservations client w = lift (CommandLine.readReservations config w) := by
  rw [readReservations, follow_reservations? hconfig, pure_bind]
  rfl

theorem modifyObject_eq (name : Text) (refusal : ε → Failure) (change : Text → Store.Change ε σ)
    (kept : σ) : modifyObject client name refusal change kept = lift (CommandLine.modifyObject
      (client.store config) name refusal (change config.annotationKey) kept) := by
  have hkeyed : keyed client.reservations? change =
      (change config.annotationKey).mapError some := by
    rw [Client.reservations?, hconfig]
    rfl
  rw [modifyObject, requireConfig_eq hconfig, lift_pure, pure_bind, follow_objects? hconfig, pure_bind]
  funext session
  rw [hkeyed, Store.modify_mapError, lift, run_modifyObject]
  generalize (client.store config).modify name (change config.annotationKey) Store.defaultRetries
    (session.world, kept) = modified
  rcases modified with ⟨answer, world, kept⟩
  cases answer with
  | ok stored => rfl
  | error cause => cases cause <;> rfl

theorem editReservations_eq (name : Text) (edit : Text → BagEdit) (message : Text) :
    editReservations client name edit message =
      lift (client.editReservations config name (edit config.annotationKey) message) := by
  rw [editReservations, modifyObject_eq hconfig]
  apply lift_bind_congr
  rintro ⟨stored, _⟩
  apply lift_bind_congr
  intro _
  rw [readReservations_eq hconfig]
  exact (lift_bind _ _).symm

theorem listRow_eq (name : Text) :
    listRow client name = lift (client.listRow config name) := by
  rw [listRow, follow_objects? hconfig, pure_bind]
  apply lift_bind_congr
  intro files
  cases (client.store config).load files name with
  | error cause =>
    dsimp only
    split_ifs <;> rfl
  | ok w =>
    dsimp only
    rw [readReservations_eq hconfig]
    exact (lift_bind _ _).symm

end Configured

variable (client)

theorem create_eq (name : Text) (argument : Option Text) :
    create client name argument = lift (client.create name argument) := by
  apply lift_bind_requireConfig
  intro config hconfig
  apply lift_bind_congr
  intro replicas
  rw [follow_objects? hconfig, pure_bind]

theorem list_eq : list client = lift client.list := by
  apply lift_bind_requireConfig
  intro config hconfig
  rw [follow_objects? hconfig, pure_bind]
  apply lift_bind_congr
  intro names
  cases names with
  | nil =>
    dsimp only
    rw [pure_bind]
    rfl
  | cons name names =>
    apply lift_bind_congr
    intro _
    rw [lift_forM (listRow_eq hconfig)]
    exact (lift_bind _ _).symm

theorem inspect_eq (name : Text) : inspect client name = lift (client.inspect name) := by
  apply lift_bind_requireConfig
  intro config hconfig
  rw [follow_objects? hconfig, pure_bind]
  apply lift_bind_congr
  intro w
  apply lift_bind_congr
  intro _
  rw [readReservations_eq hconfig]
  exact (lift_bind _ _).symm

theorem scale_eq (name argument : Text) :
    scale client name argument = lift (client.scale name argument) := by
  apply lift_bind_congr
  intro target
  cases hconfig : client.config with
  | error cause =>
    rw [modifyObject, Client.requireConfig, hconfig]
    rfl
  | ok config =>
    rw [modifyObject_eq hconfig, requireConfig_eq hconfig, pure_bind]
    exact (lift_bind _ _).symm

theorem delete_eq (name : Text) : delete client name = lift (client.delete name) := by
  apply lift_bind_requireConfig
  intro config hconfig
  rw [follow_objects? hconfig, pure_bind]

theorem editSlots_eq (name : Text) (arguments : List Text) (edit : OrdinalSet → Text → BagEdit)
    (message : OrdinalSet → Text) :
    editSlots client name arguments edit message = lift (do
      let config ← client.requireConfig
      let slots ← Arguments.ordinals arguments
      client.editReservations config name (edit slots config.annotationKey) (message slots)) := by
  apply lift_bind_requireConfig
  intro config hconfig
  apply lift_bind_congr
  intro slots
  exact editReservations_eq hconfig name (edit slots) (message slots)

theorem clear_eq (name : Text) : clear client name = lift (client.clear name) := by
  apply lift_bind_requireConfig
  intro config hconfig
  exact editReservations_eq hconfig name BagEdit.clear _

/-- No command ever follows a null pointer, and each does what it does in the library. -/
theorem perform_eq (command : Command) (arguments : List Text) :
    perform client command arguments = lift (command.perform client arguments) := by
  fun_cases perform client command arguments
  · exact create_eq client _ _
  · exact create_eq client _ _
  · exact list_eq client
  · exact inspect_eq client _
  · exact scale_eq client _ _
  · exact delete_eq client _
  · exact editSlots_eq client _ _ _ _
  · exact editSlots_eq client _ _ _ _
  · exact clear_eq client _
  · rfl
  · rfl
  · rfl
  · rw [Command.perform] <;> first | rfl | assumption

end Agreement

end Pointers

theorem Arguments.eq_badReplicas {argument : Text} {failure : Failure}
    (h : Arguments.replicas argument = .error failure) : failure = .badReplicas argument := by
  unfold Arguments.replicas at h
  cases hentered : Text.enteredInt32? argument with
  | none => simpa [hentered] using h.symm
  | some n =>
    simp only [hentered] at h
    split_ifs at h
    exact (Except.error.inj h).symm

def Command.onStore : List Command :=
  [.create, .list, .inspect, .scale, .delete, .reserve, .unreserve, .clear]

/-- Without a configuration a command that works on the store is nothing but a failure, whatever the
session. Scaling is the only one that reads an argument before it asks for the configuration. -/
theorem Command.perform_eq_throw (environment : Environment) (cause : ConfigError) {command : Command}
    (hcommand : command ∈ Command.onStore) (arguments : List Text) :
    ∃ failure : Failure, failure.isNoted = false ∧
      command.perform ⟨environment, .error cause⟩ arguments = throw failure := by
  unfold Command.perform
  split
  case h_5 name argument =>
    rw [Client.scale]
    cases hreplicas : Arguments.replicas argument with
    | error failure =>
      obtain rfl := Arguments.eq_badReplicas hreplicas
      exact ⟨_, rfl, rfl⟩
    | ok target => exact ⟨_, rfl, rfl⟩
  case h_10 | h_11 | h_12 => simp [Command.onStore] at hcommand
  all_goals exact ⟨_, rfl, rfl⟩

theorem conclude_throw (command : Text) {failure : Failure} (h : failure.isNoted = false)
    (world : World) : conclude command (throw failure) world = ⟨1, failure.report, world⟩ := by
  change (⟨1, [] ++ failure.report, world.note (failure.remarks command)⟩ : Outcome) = _
  rw [Failure.remarks, h]
  simp

/-- Where the configuration cannot be used, a command that works on the store fails in a way that
depends on nothing else that is stored. It leaves a line on the configuration in the log and
everything else as it was, and follows neither pointer. If it cannot even be told whether there is a
configuration, then no client starts, and nothing is left at all. -/
theorem unusable_configuration_spares_store (environment : Environment) (cause : ConfigError)
    {command : Command} (hcommand : command ∈ Command.onStore) (arguments : List Text) :
    ∃ failure : Failure, ∀ world, Config.load environment world.files = .error cause →
      let outcome := runCommand environment command.name arguments world
      match Client.start environment world with
      | .error _ => cause.isUnreachable = true ∧ outcome = ⟨1, Style.failure cause.message, world⟩
      | .ok (client, started) =>
        client = ⟨environment, .error cause⟩ ∧ started = world.note ["[cli] " ++ cause.message] ∧
          outcome = ⟨1, failure.report, started⟩ ∧
          ∀ session, (Pointers.perform client command arguments).run session =
            some (.error failure, session) := by
  obtain ⟨failure, hnoted, hperform⟩ :=
    Command.perform_eq_throw environment cause hcommand arguments
  refine ⟨failure, fun world hload => ?_⟩
  dsimp only
  by_cases hcause : cause.isUnreachable = true
  · have hstart : Client.start environment world = .error cause := by
      rw [Client.start, hload]
      exact if_pos hcause
    rw [runCommand, withClient, hstart]
    exact ⟨hcause, rfl⟩
  · have hstart : Client.start environment world =
        .ok (⟨environment, .error cause⟩, world.note ["[cli] " ++ cause.message]) := by
      rw [Client.start, hload]
      exact if_neg hcause
    rw [runCommand_name hstart, hstart, hperform]
    refine ⟨rfl, rfl, conclude_throw _ hnoted _, fun session => ?_⟩
    rw [Pointers.perform_eq, hperform]
    rfl

/-- An object is to be scaled, and the key in the configuration is empty. -/
theorem unusable_configuration_spares_store_scale :
    let environment : Environment := ⟨some "/home", "/tmp", Block.format "no block notation"⟩
    let path := environment.configPath
    let store := environment.store (Config.default environment)
    let stored := (store.create ⟨Files.empty [], []⟩ ⟨"web", 3, 0, none⟩).2
    let world : World :=
      { stored with files := (stored.files.write? path "annotation_key: \"\"\n").getD stored.files }
    Command.scale ∈ Command.onStore ∧
      Config.load environment world.files = .error (.emptyKey path) ∧
      ∃ failure : Failure,
        runCommand environment "scale" ["web", "5"] world =
            ⟨1, failure.report, world.note ["[cli] " ++ (ConfigError.emptyKey path).message]⟩ ∧
          ∀ session, (Pointers.perform ⟨environment, .error (.emptyKey path)⟩ .scale
            ["web", "5"]).run session = some (.error failure, session) := by
  intro environment path store stored world
  have hcommand : Command.scale ∈ Command.onStore := by decide
  have hload : Config.load environment world.files = .error (.emptyKey path) := by
    decide +kernel
  clear_value world
  obtain ⟨failure, hfailure⟩ := unusable_configuration_spares_store environment (.emptyKey path)
    hcommand ["web", "5"]
  have hspares := hfailure world hload
  rcases start_cases environment world with ⟨_, _, _, hstart⟩ | ⟨client, started, hstart, _⟩
  · rw [hstart] at hspares
    cases hspares.1
  · rw [hstart] at hspares
    obtain ⟨rfl, rfl, hrun, hperform⟩ := hspares
    exact ⟨hcommand, hload, failure, hrun, hperform⟩

end CommandLine

end StableOrdinals
