import StableOrdinals.Proofs.Allocation.Rescaling
import StableOrdinals.Proofs.CommandLine.Failure
import StableOrdinals.Proofs.CommandLine.Registry

/-!
# Command lines follow the registry

Whatever command is run below a home directory that nobody else uses, the objects afterwards are
what `Registry.step` makes of the objects before, whether the command succeeds or fails
(`isKept_run`). So it is after any number of command lines, from an empty home on:
`command_lines_follow_registry`.
-/

namespace StableOrdinals

open StableOrdinals.Path

variable {environment : Environment} {home : Location} {world : World}

namespace CommandLine

open Procedure Registry

variable {registry : Registry} {session : Session} {name : Text}

theorem Rescaling.change_cases (key : Text) (target : Int32) (w : Workload)
    (state : World × Rescaling) :
    let reserved := Reservations.read key w.annotations
    match (Rescaling.change key target w state).1 with
    | .error _ => ¬ (Allocation.Fits w.replicas reserved ∧ Allocation.Fits target reserved)
    | .ok v => (Allocation.Fits w.replicas reserved ∧ Allocation.Fits target reserved) ∧
        v = { w with replicas := target } := by
  intro reserved
  have hactive {replicas : Int32} (hfits : Allocation.Fits replicas reserved) {e : AllocationError}
      (herror : Reservations.active key replicas w.annotations = .error e) : False := by
    obtain ⟨members, hmembers⟩ := Allocation.exists_active_iff.2 hfits
    cases herror.symm.trans hmembers
  unfold Rescaling.change
  cases hbefore : Reservations.active key w.replicas w.annotations with
  | error e => exact fun hfits => hactive hfits.1 hbefore
  | ok before =>
    have hcurrent : Allocation.Fits w.replicas reserved :=
      Allocation.exists_active_iff.1 ⟨before, hbefore⟩
    cases hadded : Reservations.scaleOut key w.replicas target w.annotations with
    | error e =>
      intro hfits
      obtain ⟨ordinals, hordinals⟩ := Allocation.exists_scaleOut hcurrent hfits.2
      cases hadded.symm.trans hordinals
    | ok added =>
      cases hafter : Reservations.active key target w.annotations with
      | error e => exact fun hfits => hactive hfits.2 hafter
      | ok after => exact ⟨⟨hcurrent, Allocation.exists_active_iff.1 ⟨after, hafter⟩⟩, rfl⟩

namespace Registry

section Modify

variable (hkeeps : ∀ w, IsOrdinary w → environment.format.Keeps w)

include hkeeps

theorem IsKept.modify_edit (h : IsKept environment home registry world.files) (name : Text)
    (bagEdit : BagEdit) (edit : Reservations.Edit)
    (hedit : ∀ bag, bagEdit.apply bag = edit.apply Reservations.defaultKey bag) :
    IsKept environment home (registry.edit name edit)
      (environment.defaultStore.modify name bagEdit.change Store.defaultRetries
        (world, ())).2.1.files := by
  have hstate : IsKept environment home registry (world, ()).1.files := h
  apply hstate.modify hkeeps bagEdit.leavesFiles_change
  · exact fun hnone => edit_of_none hnone edit
  · intro w hrecord hordinary
    have hmade : bagEdit.apply w.annotations = .ok (edit.made Reservations.defaultKey w.annotations) :=
      (hedit w.annotations).trans (edit.apply_eq _ _)
    simp only [BagEdit.change, hmade, Except.map]
    refine ⟨trivial, trivial, hordinary.edit edit, ?_⟩
    rw [Registry.edit, hrecord]
    simp only [Record.ofWorkload, Reservations.Edit.made, Reservations.read_written]

theorem IsKept.modify_scale (h : IsKept environment home registry world.files) (name : Text)
    {target : Int32} (htarget : 0 ≤ target.toInt) (kept : Rescaling) :
    IsKept environment home (registry.scale name target)
      (environment.defaultStore.modify name (Rescaling.change Reservations.defaultKey target)
        Store.defaultRetries (world, kept)).2.1.files := by
  have hstate : IsKept environment home registry (world, kept).1.files := h
  apply hstate.modify hkeeps (Rescaling.leavesFiles_change _ _)
  · exact fun hnone => scale_of_none hnone target
  · intro w hrecord hordinary
    have hcases := Rescaling.change_cases Reservations.defaultKey target w (world, kept)
    cases hchange : (Rescaling.change Reservations.defaultKey target w (world, kept)).1 with
    | error e =>
      rw [hchange] at hcases
      rw [scale, hrecord]
      exact if_neg hcases
    | ok v =>
      rw [hchange] at hcases
      obtain ⟨hfits, rfl⟩ := hcases
      refine ⟨rfl, rfl, ⟨hordinary.valid, htarget, hordinary.annotations⟩, ?_⟩
      rw [scale, hrecord]
      exact if_pos hfits

end Modify

end Registry

/-- A client that starts has the default configuration. If none starts, there are no objects, and
the system does not take the path of any. -/
theorem Registry.IsKept.start_cases (hdefault : environment.format.ReadsDefault)
    (h : IsKept environment home registry world.files) :
    Client.start environment world =
        .ok (⟨environment, .ok (Config.default environment)⟩, world) ∨
      (∃ cause, Client.start environment world = .error cause) ∧ registry = (fun _ => none) ∧
        ∀ name, Workload.isValidName name = true →
          ¬ Files.IsShort environment.defaultStore.directory (Store.draftLeaf name) := by
  have hconfig := h.isHome.load_config hdefault
  split_ifs at hconfig with hlength
  · exact Or.inl (by rw [Client.start, hconfig])
  · have hlong (name : Text) (hvalid : Workload.isValidName name = true) :
        ¬ Files.IsShort environment.defaultStore.directory (Store.draftLeaf name) := by
      rintro ⟨hpath, _⟩
      exact hlength
        (Nat.le_trans (Environment.length_configPath_le h.isHome.directory hvalid) hpath)
    refine Or.inr ⟨⟨_, by rw [Client.start, hconfig]; rfl⟩, ?_, hlong⟩
    obtain ⟨objects, hholds, rfl, _⟩ := h.objects
    funext name
    cases hobject : objects name with
    | none => rw [ofObjects, hobject, Option.map_none]
    | some w =>
      obtain ⟨rfl, hstored⟩ := hholds.object name w hobject
      exact absurd hstored.short (hlong _ hstored.valid)

/-- Where the system takes the path of no object, there are none and there will be none. -/
theorem Registry.step_of_long (hlong : ∀ name, Workload.isValidName name = true →
      ¬ Files.IsShort environment.defaultStore.directory (Store.draftLeaf name))
    (arguments : List Text) :
    Registry.step environment (fun _ => none) arguments = fun _ => none := by
  have hcreate (name : Text) (replicas : Int32) :
      Registry.create environment (fun _ => none) name replicas = fun _ => none :=
    if_neg fun h => hlong name h.1 h.2.2
  have helim {α : Type} (entered : Option α) {f : α → Registry} (hf : ∀ a, f a = fun _ => none) :
      entered.elim (fun _ => none) f = fun _ => none := by
    cases entered with
    | none => rfl
    | some a => exact hf a
  cases arguments with
  | nil => rfl
  | cons name arguments =>
    apply helim
    intro command
    unfold Registry.apply
    split
    · exact hcreate _ 0
    · exact helim _ (hcreate _)
    · exact helim _ fun _ => scale_of_none rfl _
    · exact helim _ fun _ => edit_of_none rfl _
    · exact helim _ fun _ => edit_of_none rfl _
    · exact edit_of_none rfl _
    · exact delete_of_none rfl
    · rfl

namespace Client

variable {client : Client}

theorem leaves_bind_requireConfig {α : Type} {config : Config} {f : Config → Procedure α}
    {Q : Files → Prop} (hclient : client.config = .ok config) (h : Leaves (f config) session Q) :
    Leaves (client.requireConfig >>= f) session Q := by
  unfold Leaves
  rw [ends_bind, ends_requireConfig, hclient]
  exact h

theorem leaves_modifyObject {ε σ : Type} {store : Store} {refusal : ε → Failure}
    {change : Store.Change ε σ} {kept : σ} {Q : Files → Prop}
    (h : Q (store.modify name change Store.defaultRetries (session.world, kept)).2.1.files) :
    Leaves (modifyObject store name refusal change kept) session Q := by
  apply leaves_act
  cases hmodify : store.modify name change Store.defaultRetries (session.world, kept) with
  | mk answer state =>
    rw [hmodify] at h
    cases answer with
    | ok stored => exact h
    | error e => cases e <;> exact h

section Commands

variable (h : IsKept client.environment home registry session.world.files)

include h

theorem init_leaves :
    Leaves client.init session (IsKept client.environment home registry) := by
  unfold Leaves
  rw [Client.init, ends_bind, ends_files, ends_bind, Procedure.ofConfig, ends_liftM]
  cases Config.isPresent client.environment session.world.files with
  | error cause => exact h
  | ok present =>
    apply Leaves.bind (leaves_act h.createDefault)
    intro _
    cases present <;> exact spares_print _

variable (hclient : client.config = .ok (Config.default client.environment))

include hclient

theorem delete_leaves (name : Text) :
    Leaves (client.delete name) session
      (IsKept client.environment home (registry.delete name)) := by
  apply leaves_bind_requireConfig hclient
  exact (leaves_ofStore (h.remove name)).bind fun _ => spares_print _

variable (hkeeps : ∀ w, IsOrdinary w → client.environment.format.Keeps w)

include hkeeps

omit hclient in
theorem editReservations_leaves (name : Text) (bagEdit : BagEdit) (edit : Reservations.Edit)
    (hedit : ∀ bag, bagEdit.apply bag = edit.apply Reservations.defaultKey bag) (message : Text) :
    Leaves (client.editReservations (Config.default client.environment) name bagEdit message) session
      (IsKept client.environment home (registry.edit name edit)) := by
  apply Leaves.bind (leaves_modifyObject (h.modify_edit hkeeps name bagEdit edit hedit))
  rintro ⟨stored, _⟩
  apply (spares_print _).bind
  intro _
  apply ((spares_note _).bind fun _ => spares_pure _).bind
  intro reserved
  exact (spares_ofAllocation _).bind fun rows => spares_print rows

theorem create_leaves (name : Text) (argument : Option Text) :
    Leaves (client.create name argument) session
      (IsKept client.environment home
        ((argument.elim (some 0) enteredReplicas?).elim registry
          (registry.create client.environment name))) := by
  have hlift : (argument.elim (pure 0) fun argument => liftM (Arguments.replicas argument) :
      Procedure Int32) = liftM (argument.elim (.ok 0) Arguments.replicas) := by
    cases argument <;> rfl
  have hentered : (argument.elim (.ok 0) Arguments.replicas).toOption =
      argument.elim (some 0) enteredReplicas? := by
    cases argument with
    | none => rfl
    | some argument => exact Arguments.toOption_replicas argument
  have hnonneg {replicas : Int32}
      (hreplicas : argument.elim (some 0) enteredReplicas? = some replicas) :
      0 ≤ replicas.toInt := by
    cases argument with
    | none =>
      obtain rfl := Option.some.inj hreplicas
      decide
    | some argument => exact nonneg_of_enteredReplicas? hreplicas
  apply leaves_bind_requireConfig hclient
  rw [hlift]
  apply leaves_bind_liftM hentered
  · intro replicas hreplicas
    rw [hreplicas, Option.elim_some]
    apply Leaves.bind (leaves_ofStore (h.create hkeeps name (hnonneg hreplicas)))
    intro stored
    exact (spares_print _).bind fun _ => (spares_ofAllocation _).bind fun _ => spares_print _
  · intro hnone
    rw [hnone]
    exact h

theorem scale_leaves (name argument : Text) :
    Leaves (client.scale name argument) session
      (IsKept client.environment home
        ((enteredReplicas? argument).elim registry (registry.scale name))) := by
  apply leaves_bind_liftM (Arguments.toOption_replicas argument)
  · intro target htarget
    rw [htarget, Option.elim_some]
    apply leaves_bind_requireConfig hclient
    apply Leaves.bind (leaves_modifyObject
      (h.modify_scale hkeeps name (nonneg_of_enteredReplicas? htarget) Rescaling.unchanged))
    intro _
    exact (spares_print _).bind fun _ => spares_print _
  · intro hnone
    rw [hnone]
    exact h

theorem editSlots_leaves (name : Text) (arguments : List Text)
    (bagEdit : Config → OrdinalSet → BagEdit) (edit : OrdinalSet → Reservations.Edit)
    (hedit : ∀ slots bag, (bagEdit (Config.default client.environment) slots).apply bag =
      (edit slots).apply Reservations.defaultKey bag) (message : OrdinalSet → Text) :
    Leaves (do
      let config ← client.requireConfig
      let slots ← Arguments.ordinals arguments
      client.editReservations config name (bagEdit config slots) (message slots)) session
      (IsKept client.environment home
        ((enteredSlots? arguments).elim registry fun slots => registry.edit name (edit slots))) := by
  apply leaves_bind_requireConfig hclient
  apply leaves_bind_liftM (Arguments.toOption_ordinals arguments)
  · intro slots hslots
    rw [hslots]
    exact editReservations_leaves h hkeeps name _ (edit slots) (hedit slots) (message slots)
  · intro hnone
    rw [hnone]
    exact h

theorem clear_leaves (name : Text) :
    Leaves (client.clear name) session
      (IsKept client.environment home (registry.edit name .clear)) := by
  apply leaves_bind_requireConfig hclient
  exact editReservations_leaves h hkeeps name _ .clear (fun _ => rfl) _

end Commands

end Client

/-- One case for each way in which a command can be called. -/
theorem Command.perform_leaves (client : Client) (command : Command) (arguments : List Text)
    (hclient : client.config = .ok (Config.default client.environment))
    (hkeeps : ∀ w, IsOrdinary w → client.environment.format.Keeps w)
    (h : IsKept client.environment home registry session.world.files) :
    Leaves (command.perform client arguments) session
      (IsKept client.environment home (registry.apply client.environment command arguments)) := by
  unfold Command.perform
  split
  · exact Client.create_leaves h hclient hkeeps _ none
  · exact Client.create_leaves h hclient hkeeps _ (some _)
  · exact Client.spares_list.leaves h
  · exact (Client.spares_inspect _).leaves h
  · exact Client.scale_leaves h hclient hkeeps _ _
  · exact Client.delete_leaves h hclient _
  · exact Client.editSlots_leaves h hclient hkeeps _ _ _ .add (fun _ _ => rfl) _
  · exact Client.editSlots_leaves h hclient hkeeps _ _ _ .remove (fun _ _ => rfl) _
  · exact Client.clear_leaves h hclient hkeeps _
  · exact (spares_computeAllocation _).leaves h
  · exact Client.init_leaves h
  · exact (spares_print _).leaves h
  · have hsame : registry.apply client.environment command arguments = registry := by
      -- What is left is no command that changes the registry, or has not the arguments of one.
      unfold Registry.apply
      split <;> simp_all
    rw [hsame]
    exact (spares_throw _).leaves h

theorem conclude_of_leaves {Q : Files → Prop} {p : Procedure Unit}
    (h : Leaves p ⟨world, []⟩ Q) (command : Text) : Q (conclude command p world).world.files := by
  rcases conclude_cases h command with ⟨session, hconclude, hQ⟩ | ⟨failure, session, hconclude, hQ⟩
  · rw [hconclude]
    exact hQ
  · rw [hconclude]
    exact hQ

section Run

variable (hdefault : environment.format.ReadsDefault)
  (hkeeps : ∀ w, IsOrdinary w → environment.format.Keeps w)

include hdefault hkeeps

theorem isKept_run (h : IsKept environment home registry world.files) (arguments : List Text) :
    IsKept environment home (registry.step environment arguments)
      (run environment arguments world).world.files := by
  rcases h.start_cases hdefault with hstart | ⟨⟨cause, hstart⟩, rfl, hlong⟩
  · rw [run, withClient_of_start hstart]
    cases arguments with
    | nil => exact h
    | cons name arguments =>
      dsimp only
      split_ifs with hversion hhelp hunknown
      · have hnone : Command.ofName? name = none := by
          rw [hversion]
          decide
        rw [step, hnone]
        exact h
      · rcases hhelp with rfl | rfl
        · have hnone : Command.ofName? "--help" = none := by decide
          rw [step, hnone]
          exact h
        · have hsome : Command.ofName? "help" = some .help := by decide
          rw [step, hsome]
          exact h
      · rw [step, hunknown]
        exact h
      · obtain ⟨command, hcommand⟩ := Option.ne_none_iff_exists'.1 hunknown
        rw [step, hcommand, procedure, hcommand]
        apply conclude_of_leaves
        exact Command.perform_leaves ⟨environment, _⟩ command arguments rfl hkeeps h
  · rw [Registry.step_of_long hlong, run, withClient, hstart]
    exact h

theorem isKept_foldl (h : IsKept environment home registry world.files)
    (lines : List (List Text)) :
    IsKept environment home (lines.foldl (Registry.step environment) registry)
      (lines.foldl (fun world arguments => (run environment arguments world).world) world).files := by
  induction lines generalizing registry world with
  | nil => exact h
  | cons line lines ih => exact ih (isKept_run hdefault hkeeps h line)

end Run

section Runs

variable (environment) (world)

def registryAt (lines : List (List Text)) (i : ℕ) : Registry :=
  (lines.take i).foldl (Registry.step environment) fun _ => none

def worldAt (lines : List (List Text)) (i : ℕ) : World :=
  (lines.take i).foldl (fun world arguments => (run environment arguments world).world) world

end Runs

def recordText (name : Text) (r : Record) (resolution : Resolution) : Text :=
  Style.title name ++ Style.row "version" (Text.ofNat r.version.toNat)
    ++ Report.rows r.replicas r.reserved resolution ++ "\n"

theorem Registry.IsKept.load_eq (h : IsKept environment home registry world.files) (name : Text) :
    (environment.defaultStore.load world.files name).toOption.map Record.ofWorkload =
      registry name := by
  obtain ⟨hhome, objects, hholds, rfl, _⟩ := h
  have hplain := Environment.plain_store hhome.directory
  cases hload : environment.defaultStore.load world.files name with
  | ok w =>
    rw [ofObjects, (hholds.load_eq_ok_iff hplain).1 hload]
    rfl
  | error e =>
    cases hobject : objects name with
    | none =>
      rw [ofObjects, hobject]
      rfl
    | some w => cases hload.symm.trans (hholds.load_eq hobject)

theorem run_command {client : Client} {started : World}
    (hstart : Client.start environment world = .ok (client, started)) {command : Command}
    (hcommand : command ≠ .help) (arguments : List Text) :
    run environment (command.name :: arguments) world =
      conclude command.name (command.perform client arguments) started := by
  have hnames : command.name ≠ "--version" ∧ ¬ (command.name = "--help" ∨ command.name = "help") ∧
      Command.ofName? command.name = some command := by
    revert hcommand
    cases command <;> decide
  obtain ⟨hversion, hhelp, hsome⟩ := hnames
  rw [run, withClient_of_start hstart]
  dsimp only
  rw [if_neg hversion, if_neg hhelp, hsome, if_neg (Option.some_ne_none command), procedure, hsome]

theorem conclude_of_ends {p : Procedure Unit} {session : Session}
    (h : Ends p ⟨world, []⟩ (fun _ after => after = session) fun _ _ => False) (command : Text) :
    conclude command p world = ⟨0, session.output, session.world⟩ := by
  rcases conclude_cases h command with ⟨_, hconclude, rfl⟩ | ⟨_, _, _, hfalse⟩
  · exact hconclude
  · exact hfalse.elim

theorem ends_inspect (client : Client) {config : Config} (hconfig : client.config = .ok config)
    {w : Workload} (hload : (client.store config).load world.files name = .ok w)
    (hwarnings : Reservations.warnings config.annotationKey w.annotations = [])
    {resolution : Resolution} (hresolve : Allocation.resolve w.replicas
      (Reservations.read config.annotationKey w.annotations) = .ok resolution) :
    Ends (client.inspect name) ⟨world, []⟩
      (fun _ after => after = ⟨world, recordText name
        ⟨w.replicas, Reservations.read config.annotationKey w.annotations, w.version⟩ resolution⟩)
      (fun _ _ => False) := by
  have hname := (client.store config).name_of_load hload
  unfold Client.inspect
  simp only [ends_bind, ends_requireConfig, hconfig, ends_ofStore, hload, ends_print,
    readReservations, bind_assoc, pure_bind, ends_note, hwarnings, World.note_nil,
    ends_ofAllocation, Report.allocation, hresolve, Except.map]
  rw [hname, List.nil_append]
  rfl

theorem run_inspect (hdefault : environment.format.ReadsDefault)
    (h : IsKept environment home registry world.files) {r : Record}
    (hrecord : registry name = some r) {resolution : Resolution}
    (hresolve : Allocation.resolve r.replicas r.reserved = .ok resolution) :
    run environment ["show", name] world = ⟨0, recordText name r resolution, world⟩ := by
  have hstart : Client.start environment world =
      .ok (⟨environment, .ok (Config.default environment)⟩, world) := by
    rcases h.start_cases hdefault with hstart | ⟨_, hnone, _⟩
    · exact hstart
    · rw [hnone] at hrecord
      cases hrecord
  obtain ⟨w, hload, rfl, hordinary⟩ : ∃ w, environment.defaultStore.load world.files name = .ok w ∧
      Record.ofWorkload w = r ∧ IsOrdinary w := by
    obtain ⟨_, objects, hholds, rfl, hordinary⟩ := h
    obtain ⟨w, hobject, hrecord⟩ := Option.map_eq_some_iff.1 hrecord
    exact ⟨w, hholds.load_eq hobject, hrecord, hordinary name w hobject⟩
  have hends := ends_inspect ⟨environment, .ok (Config.default environment)⟩ rfl hload
    hordinary.warnings hresolve
  have hcommand : Command.inspect ≠ .help := by decide
  exact (run_command hstart hcommand [name]).trans (conclude_of_ends hends "show")

/-- From an empty home directory on, the objects in the store are at any time those of the registry.
An object whose allocation is in range is shown as its record. The format has to keep what the
commands write, the default configuration included. -/
theorem command_lines_follow_registry (environment : Environment)
    (hdefault : environment.format.ReadsDefault)
    (hkeeps : ∀ w, Registry.IsOrdinary w → environment.format.Keeps w) (world : World)
    (home : Location) (hhome : world.files.IsDirectory environment.homeDirectory home)
    (hempty : world.files.names home = []) (lines : List (List Text)) (i : ℕ) :
    let registry := registryAt environment lines i
    let after := worldAt environment world lines i
    (∀ config, Config.load environment after.files = .ok config →
        config = Config.default environment) ∧
      (∀ name, (environment.defaultStore.load after.files name).toOption.map Record.ofWorkload =
        registry name) ∧
      (∃ names, environment.defaultStore.list after.files = .ok names ∧
        ∀ name, name ∈ names ↔ registry name ≠ none) ∧
      ∀ name r, registry name = some r → Allocation.Fits r.replicas r.reserved →
        ∃ resolution, Allocation.resolve r.replicas r.reserved = .ok resolution ∧
          run environment ["show", name] after = ⟨0, recordText name r resolution, after⟩ := by
  intro registry after
  have h : IsKept environment home registry after.files :=
    isKept_foldl hdefault hkeeps (isKept_of_names hhome hempty) (lines.take i)
  refine ⟨?_, h.load_eq, ?_, ?_⟩
  · intro config hconfig
    have hload := h.isHome.load_config hdefault
    split_ifs at hload
    · exact Except.ok.inj (hconfig.symm.trans hload)
    · cases hconfig.symm.trans hload
  · obtain ⟨_, objects, hholds, hregistry, _⟩ := h
    obtain ⟨names, hnames, _, hmem⟩ := hholds.list_eq
    refine ⟨names, hnames, fun name => ?_⟩
    rw [hmem, hregistry, ofObjects, Ne, Option.map_eq_none_iff, ← Ne, Option.ne_none_iff_exists']
  · intro name r hrecord hfits
    have hresolve := Allocation.resolve_eq_ok_iff.2 ⟨hfits, rfl⟩
    exact ⟨_, hresolve, run_inspect hdefault h hrecord hresolve⟩

/-- Some of the command lines fail. -/
theorem command_lines_follow_registry_web :
    let environment : Environment := ⟨some "/home/me", "/tmp", Block.format "no block notation"⟩
    let world : World := ⟨((Files.empty []).makeDirectories "/home/me").2, []⟩
    let lines : List (List Text) :=
      [["create", "web", "2"], ["reserve", "web", "1", "-4"], ["reserve", "web", "1", "4"],
        ["scale", "web", "5"], ["create", "web"], ["list"]]
    world.files.IsDirectory environment.homeDirectory ["me", "home"] ∧
      world.files.names ["me", "home"] = [] ∧
      (environment.defaultStore.load (worldAt environment world lines 6).files "web").toOption.map
        Record.ofWorkload = some ⟨5, OrdinalSet.ofList [1, 4], 3⟩ ∧
      (run environment ["show", "web"] (worldAt environment world lines 6)).exit = 0 := by
  intro environment world lines
  have hhome : world.files.IsDirectory environment.homeDirectory ["me", "home"] :=
    ⟨isPlain_of_all (by decide) (by decide), by decide +kernel, by decide +kernel⟩
  have hempty : world.files.names ["me", "home"] = [] := by
    decide +kernel
  have hrecord : registryAt environment lines 6 "web" = some ⟨5, OrdinalSet.ofList [1, 4], 3⟩ := by
    decide +kernel
  have hfits : Allocation.Fits 5 (OrdinalSet.ofList [1, 4]) := by
    decide +kernel
  obtain ⟨_, hload, _, hshow⟩ :=
    command_lines_follow_registry environment (Block.readsDefault _) (fun w _ => Block.keeps _ w)
      world ["me", "home"] hhome hempty lines 6
  obtain ⟨_, _, hrun⟩ := hshow "web" _ hrecord hfits
  refine ⟨hhome, hempty, (hload "web").trans hrecord, ?_⟩
  rw [hrun]

/-- The name is valid and free, but that of the draft is one byte too long, and there is no object
afterwards. -/
theorem long_name_not_created :
    let environment : Environment := ⟨some "/home/me", "/tmp", Block.format "no block notation"⟩
    let world : World := ⟨((Files.empty []).makeDirectories "/home/me").2, []⟩
    let name : Text := List.replicate 246 ('a' : Byte)
    let outcome := run environment ["create", name, "1"] world
    Workload.isValidName name = true ∧ Registry.enteredReplicas? "1" = some 1 ∧
      environment.defaultStore.list world.files = .ok [] ∧ outcome.exit = 1 ∧
      environment.defaultStore.list outcome.world.files = .ok [] := by
  decide +kernel

end CommandLine

end StableOrdinals
