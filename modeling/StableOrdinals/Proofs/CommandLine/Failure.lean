import StableOrdinals.Block.Workload
import StableOrdinals.CommandLine.Program
import StableOrdinals.Proofs.Allocation.Boundary
import StableOrdinals.Proofs.CommandLine.Procedures
import StableOrdinals.Proofs.Store.Modify

/-!
# Commands that fail

A command that fails leaves every file as it was, but for drafts (`Client.KeepsFiles`). Scaling
works out all allocations within the change that it makes, so that nothing is stored if one of them
is out of range. The commands that edit reservations show the allocation only after they have saved
the object, and this is the one way in which a command fails and leaves something behind
(`Client.StoresOutOfRange`).
-/

namespace StableOrdinals

theorem Store.not_isDraftPlace_fileLeaf (store : Store) {files : Files} {name : Text}
    (hname : Workload.isValidName name = true) (holder : Location) :
    ¬ store.IsDraftPlace files (fileLeaf name :: holder) := by
  rintro ⟨other, place, _, _, heq⟩
  exact draftLeaf_ne_fileLeaf hname other (List.cons.inj heq).1.symm

theorem Allocation.fits_empty {replicas : Int32} (h : 0 ≤ replicas.toInt) : Fits replicas ∅ := by
  have hfree : Nat.count (OrdinalSet.IsFree ∅) (Ordinal.largest + 1) = Ordinal.largest + 1 :=
    Nat.count_iff_forall.2 fun _ _ o ho => absurd ho Std.ExtTreeSet.not_mem_empty
  have hlt := replicas.toInt_lt
  refine ⟨h, ?_⟩
  rw [hfree]
  unfold Ordinal.largest
  omega

theorem Config.fileAt?_of_createDefault {environment : Environment} {files files' : Files}
    {cause : ConfigError} (h : Config.createDefault environment files = (.error cause, files'))
    (place : Location) : files'.fileAt? place = files.fileAt? place := by
  unfold createDefault at h
  cases hpresent : isPresent environment files with
  | error cause =>
    simp only [hpresent, Prod.mk.injEq] at h
    rw [h.2]
  | ok present =>
    cases present with
    | true => simp [hpresent] at h
    | false =>
      have hmade := Files.addsDirectories_makeDirectories files environment.configPath.parent
      cases hmake : files.makeDirectories environment.configPath.parent with
      | mk answer made =>
        rw [hmake] at hmade
        cases answer with
        | error cause =>
          simp only [hpresent, writeDefault, hmake, Prod.mk.injEq] at h
          rw [← h.2, hmade.fileAt?_eq]
        | ok _ =>
          cases hwrite : made.write? environment.configPath defaultText with
          | none =>
            simp only [hpresent, writeDefault, hmake, hwrite, Prod.mk.injEq] at h
            rw [← h.2, hmade.fileAt?_eq]
          | some written => simp [hpresent, writeDefault, hmake, hwrite] at h

namespace CommandLine

open Procedure

theorem Rescaling.leavesFiles_change (key : Text) (target : Int32) :
    (Rescaling.change key target).LeavesFiles := by
  intro w state
  unfold Rescaling.change
  cases Reservations.active key w.replicas w.annotations with
  | error e => rfl
  | ok before =>
    cases Reservations.scaleOut key w.replicas target w.annotations with
    | error e => rfl
    | ok added => cases Reservations.active key target w.annotations <;> rfl

theorem BagEdit.leavesFiles_change (edit : BagEdit) : edit.change.LeavesFiles := fun _ _ => rfl

theorem BagEdit.eq_of_change_ok {edit : BagEdit} {seen w : Workload} {state between : World × Unit}
    (h : edit.change seen state = (.ok w, between)) :
    ∃ annotations, w = { seen with annotations } := by
  have hanswer := congrArg Prod.fst h
  rw [change] at hanswer
  cases hbag : edit.apply seen.annotations with
  | error cause =>
    rw [hbag] at hanswer
    cases hanswer
  | ok annotations =>
    rw [hbag] at hanswer
    exact ⟨annotations, (Except.ok.inj hanswer).symm⟩

theorem ends_modifyObject {ε σ : Type} {store : Store} {name : Text} {refusal : ε → Failure}
    {change : Store.Change ε σ} {kept : σ} {session : Session}
    {good : Workload × σ → Session → Prop} {bad : Failure → Session → Prop}
    (hchange : change.LeavesFiles)
    (hgood : ∀ stored world kept',
      store.Modified name change (session.world, kept) (world, kept') stored →
        good (stored, kept') { session with world })
    (hbad : ∀ failure world, store.KeepsFiles session.world.files world.files →
      bad failure { session with world }) :
    Ends (modifyObject store name refusal change kept) session good bad := by
  rw [modifyObject, ends_act]
  rcases store.modify_cases hchange Store.defaultRetries (session.world, kept) with
    ⟨e, ⟨world, kept'⟩, h, hkeeps⟩ | ⟨stored, ⟨world, kept'⟩, h, hmodified⟩
  · rw [h]
    cases e with
    | store cause => exact hbad _ world hkeeps
    | refused cause => exact hbad _ world hkeeps
  · rw [h]
    exact hgood stored world kept' hmodified

namespace Client

variable (client : Client)

/-- Every file stands as it did, unless it is a draft of an object in the store. -/
def KeepsFiles (before after : Files) : Prop :=
  ∀ place, (∀ config, client.config = .ok config →
    ¬ (client.store config).IsDraftPlace after place) →
      after.fileAt? place = before.fileAt? place

/-- An object has been saved whose allocation is out of range, and no other one has changed. -/
def StoresOutOfRange (name : Text) (before after : Files) : Prop :=
  ∃ config seen stored cause, client.config = .ok config ∧
    (client.store config).load before name = .ok seen ∧
    stored.name = name ∧ stored.version = seen.version + 1 ∧ stored.replicas = seen.replicas ∧
    Allocation.resolve stored.replicas
      (Reservations.read config.annotationKey stored.annotations) = .error cause ∧
    (client.store config).save before stored = (.ok (), after) ∧
    ∀ other, other ≠ name →
      (client.store config).load after other = (client.store config).load before other

variable {client} {config : Config} {before after : Files}

theorem keepsFiles_of_fileAt?_eq (h : ∀ place, after.fileAt? place = before.fileAt? place) :
    client.KeepsFiles before after := fun place _ => h place

theorem keepsFiles_refl (files : Files) : client.KeepsFiles files files := fun _ _ => rfl

theorem keepsFiles_of_store (hconfig : client.config = .ok config)
    (h : (client.store config).KeepsFiles before after) : client.KeepsFiles before after :=
  fun place hplace => h place (hplace config hconfig)

theorem create_failsWithin (name : Text) (argument : Option Text) :
    FailsWithin client.KeepsFiles (client.create name argument) := by
  apply failsWithin_bind_requireConfig keepsFiles_refl
  intro config hconfig
  apply FailsWithin.bind keepsFiles_refl
  · cases argument with
    | none => exact spares_pure 0
    | some argument => exact spares_liftM _
  · intro replicas session
    rw [ends_bind, ends_ofStore]
    cases hcreate : (client.store config).create session.world ⟨name, replicas, 0, none⟩ with
    | mk answer world =>
      cases answer with
      | error cause =>
        exact keepsFiles_of_store hconfig ((client.store config).create_keepsFiles hcreate)
      | ok stored =>
        obtain ⟨_, hreplicas, rfl, _⟩ := (client.store config).save_of_create_ok hcreate
        have hfits := Allocation.fits_empty hreplicas
        have hresolve := Allocation.resolve_eq_ok_iff.2 ⟨hfits, rfl⟩
        simp only [ends_bind, ends_print, ends_ofAllocation, Allocation.active, hresolve, Except.map]

theorem scale_failsWithin (name argument : Text) :
    FailsWithin client.KeepsFiles (client.scale name argument) := by
  apply FailsWithin.bind keepsFiles_refl (spares_liftM _)
  intro target
  apply failsWithin_bind_requireConfig keepsFiles_refl
  intro config hconfig session
  rw [ends_bind]
  apply ends_modifyObject (Rescaling.leavesFiles_change _ _)
  · intro stored world rescaling _
    simp only [ends_bind, ends_print]
  · exact fun _ world hkeeps => keepsFiles_of_store hconfig hkeeps

theorem delete_failsWithin (name : Text) : FailsWithin client.KeepsFiles (client.delete name) := by
  apply failsWithin_bind_requireConfig keepsFiles_refl
  intro config hconfig session
  rw [ends_bind, ends_ofStore]
  cases hremove : (client.store config).remove session.world name with
  | mk answer world =>
    cases answer with
    | error cause =>
      exact keepsFiles_of_store hconfig ((client.store config).remove_keepsFiles hremove)
    | ok _ => trivial

theorem init_failsWithin : FailsWithin client.KeepsFiles client.init := by
  apply FailsWithin.bind keepsFiles_refl spares_files
  intro files
  apply FailsWithin.bind keepsFiles_refl (spares_liftM _)
  intro present session
  rw [ends_bind, ends_act]
  cases hdefault : Config.createDefault client.environment session.world.files with
  | mk answer files' =>
    cases answer with
    | error cause => exact keepsFiles_of_fileAt?_eq (Config.fileAt?_of_createDefault hdefault)
    | ok _ => cases present <;> trivial

theorem spares_listRow (config : Config) (name : Text) : Spares (client.listRow config name) := by
  apply spares_files.bind
  intro files
  cases (client.store config).load files name with
  | error cause =>
    dsimp only
    split_ifs
    · exact spares_throw _
    · exact spares_print _
  | ok w => exact ((spares_note _).bind fun _ => spares_pure _).bind fun _ => spares_print _

theorem spares_list : Spares client.list := by
  apply (spares_requireConfig client).bind
  intro config
  apply (spares_ask _).bind
  intro names
  cases names with
  | nil => exact spares_print _
  | cons name names =>
    exact (spares_print _).bind fun _ =>
      (spares_forM fun name => spares_listRow config name).bind fun _ => spares_print _

theorem spares_inspect (name : Text) : Spares (client.inspect name) := by
  apply (spares_requireConfig client).bind
  intro config
  apply (spares_ask _).bind
  intro w
  apply (spares_print _).bind
  intro _
  apply ((spares_note _).bind fun _ => spares_pure _).bind
  intro reserved
  exact (spares_ofAllocation _).bind fun rows => (spares_print rows).bind fun _ => spares_print _

def EditsFiles (client : Client) (name : Text) (before after : Files) : Prop :=
  client.KeepsFiles before after ∨ client.StoresOutOfRange name before after

theorem editsFiles_refl (name : Text) (files : Files) : client.EditsFiles name files files :=
  Or.inl (keepsFiles_refl files)

/-- The edit is saved before the allocation is shown, and nothing else of it can fail by then. -/
theorem editReservations_failsWithin (hconfig : client.config = .ok config) (name : Text)
    (edit : BagEdit) (message : Text) :
    FailsWithin (client.EditsFiles name) (client.editReservations config name edit message) := by
  intro session
  unfold editReservations
  rw [ends_bind]
  apply ends_modifyObject edit.leavesFiles_change
  · rintro stored world kept' ⟨seen, w, between, hload, hchange, hfiles, hupdate, _⟩
    obtain ⟨bag, rfl⟩ := BagEdit.eq_of_change_ok hchange
    obtain ⟨_, _, _, rfl, _, hothers⟩ := (client.store config).update_ok hupdate
    obtain ⟨_, _, _, _, hsave⟩ := (client.store config).save_of_update_ok hupdate
    have hname := (client.store config).name_of_load hload
    simp only [readReservations, bind_assoc, pure_bind, ends_bind, ends_print, ends_note,
      ends_ofAllocation]
    cases hresolve : Allocation.resolve seen.replicas
        (Reservations.read config.annotationKey bag) with
    | ok resolution => simp only [Report.allocation, hresolve, Except.map]
    | error cause =>
      -- The edit has been saved by now.
      simp only [Report.allocation, hresolve, Except.map]
      rw [hfiles] at hsave
      refine Or.inr ⟨config, seen, { seen with annotations := bag, version := seen.version + 1 },
        cause, hconfig, hload, hname, rfl, rfl, hresolve, hsave, ?_⟩
      intro other hother
      rw [← hname] at hother
      rw [← hfiles]
      exact hothers other hother
  · exact fun _ world hkeeps => Or.inl (keepsFiles_of_store hconfig hkeeps)

theorem editSlots_failsWithin (name : Text) (arguments : List Text)
    (edit : Config → OrdinalSet → BagEdit) (message : OrdinalSet → Text) :
    FailsWithin (client.EditsFiles name) (do
      let config ← client.requireConfig
      let slots ← Arguments.ordinals arguments
      client.editReservations config name (edit config slots) (message slots)) := by
  apply failsWithin_bind_requireConfig (editsFiles_refl name)
  intro config hconfig
  apply FailsWithin.bind (editsFiles_refl name) (spares_liftM _)
  exact fun slots => editReservations_failsWithin hconfig name (edit config slots) (message slots)

theorem clear_failsWithin (name : Text) :
    FailsWithin (client.EditsFiles name) (client.clear name) := by
  apply failsWithin_bind_requireConfig (editsFiles_refl name)
  exact fun config hconfig => editReservations_failsWithin hconfig _ _ _

end Client

theorem spares_computeAllocation (arguments : List Text) : Spares (computeAllocation arguments) := by
  apply (spares_liftM _).bind
  intro asked
  apply (spares_print _).bind
  intro _
  apply (spares_ofAllocation _).bind
  intro rows
  apply (spares_print rows).bind
  intro _
  cases asked.target with
  | none => exact spares_print _
  | some target =>
    exact (spares_ofAllocation _).bind fun added => (spares_print _).bind fun _ => spares_print _

/-- The commands that store first and show the allocation afterwards. -/
def Command.editing : List Command := [.reserve, .unreserve, .clear]

/-- Every command, with whatever arguments: one case for each way in which it can be called. -/
theorem perform_failsWithin (client : Client) (command : Command) (arguments : List Text) :
    FailsWithin (fun before after => client.KeepsFiles before after ∨
      command ∈ Command.editing ∧ ∃ object ∈ arguments.head?,
        client.StoresOutOfRange object before after) (command.perform client arguments) := by
  have hspares {p : Procedure Unit} (h : Spares p) : FailsWithin client.KeepsFiles p :=
    h.failsWithin Client.keepsFiles_refl
  unfold Command.perform
  split
  · exact (Client.create_failsWithin _ _).imp fun _ _ => Or.inl
  · exact (Client.create_failsWithin _ _).imp fun _ _ => Or.inl
  · exact (hspares Client.spares_list).imp fun _ _ => Or.inl
  · exact (hspares (Client.spares_inspect _)).imp fun _ _ => Or.inl
  · exact (Client.scale_failsWithin _ _).imp fun _ _ => Or.inl
  · exact (Client.delete_failsWithin _).imp fun _ _ => Or.inl
  · exact (Client.editSlots_failsWithin _ _ _ _).imp fun _ _ =>
      Or.imp_right fun h => ⟨by decide, _, rfl, h⟩
  · exact (Client.editSlots_failsWithin _ _ _ _).imp fun _ _ =>
      Or.imp_right fun h => ⟨by decide, _, rfl, h⟩
  · exact (Client.clear_failsWithin _).imp fun _ _ =>
      Or.imp_right fun h => ⟨by decide, _, rfl, h⟩
  · exact (hspares (spares_computeAllocation _)).imp fun _ _ => Or.inl
  · exact Client.init_failsWithin.imp fun _ _ => Or.inl
  · exact (hspares (spares_print _)).imp fun _ _ => Or.inl
  · exact (hspares (spares_throw _)).imp fun _ _ => Or.inl

theorem start_cases (environment : Environment) (world : World) :
    (∃ cause, cause.isUnreachable = true ∧ Config.load environment world.files = .error cause ∧
        Client.start environment world = .error cause) ∨
      ∃ client started, Client.start environment world = .ok (client, started) ∧
        client.environment = environment ∧
        client.config = Config.load environment world.files ∧ started.files = world.files := by
  unfold Client.start
  cases Config.load environment world.files with
  | ok config => exact Or.inr ⟨_, _, rfl, rfl, rfl, rfl⟩
  | error cause =>
    by_cases hcause : cause.isUnreachable = true
    · exact Or.inl ⟨cause, hcause, rfl, if_pos hcause⟩
    · exact Or.inr ⟨_, _, if_neg hcause, rfl, rfl, rfl⟩

section Start

variable {environment : Environment} {client : Client} {world started : World}
  (h : Client.start environment world = .ok (client, started))

include h

theorem files_of_start : started.files = world.files := by
  rcases start_cases environment world with
    ⟨cause, _, _, herror⟩ | ⟨client', started', hok, _, _, hfiles⟩
  · cases h.symm.trans herror
  · cases h.symm.trans hok
    exact hfiles

theorem withClient_of_start (next : Client → World → Outcome) :
    withClient environment world next = next client started := by
  rw [withClient, h]

theorem runCommand_name (command : Command) (arguments : List Text) :
    runCommand environment command.name arguments world =
      conclude command.name (command.perform client arguments) started := by
  have hname : Command.ofName? command.name = some command := by
    cases command <;> decide
  rw [runCommand, withClient_of_start h, procedure, hname]

end Start

theorem conclude_cases {p : Procedure Unit} {world : World} {good : Unit → Session → Prop}
    {bad : Failure → Session → Prop} (h : Ends p ⟨world, []⟩ good bad) (command : Text) :
    (∃ session, conclude command p world = ⟨0, session.output, session.world⟩ ∧ good () session) ∨
      ∃ failure session, conclude command p world = ⟨1, session.output ++ failure.report,
        session.world.note (failure.remarks command)⟩ ∧ bad failure session := by
  unfold Ends at h
  unfold conclude
  cases hrun : p.run ⟨world, []⟩ with
  | mk answer after =>
    rw [hrun] at h
    cases answer with
    | ok _ => exact Or.inl ⟨after, rfl, h⟩
    | error failure => exact Or.inr ⟨failure, after, rfl, h⟩

theorem conclude_of_failsWithin {R : Files → Files → Prop} {p : Procedure Unit}
    (h : FailsWithin R p) {command : Text} {world : World}
    (hexit : (conclude command p world).exit = 1) :
    R world.files (conclude command p world).world.files := by
  rcases conclude_cases (h ⟨world, []⟩) command with
    ⟨session, hconclude, _⟩ | ⟨failure, session, hconclude, hwithin⟩
  · rw [hconclude] at hexit
    cases hexit
  · rw [hconclude]
    exact hwithin

theorem Command.name_of_ofName? {command : Command} {name : Text}
    (h : Command.ofName? name = some command) : command.name = name := by
  simpa using List.find?_some h

/-- A command that exits with code 1 has left every file as it was, but for drafts, unless it edits
reservations and the allocation of the object that it has saved is out of range. Where no client
starts, nothing has changed at all. -/
theorem failed_command_keeps_files (environment : Environment) (name : Text)
    (arguments : List Text) (world : World)
    (h : (runCommand environment name arguments world).exit = 1) :
    let after := (runCommand environment name arguments world).world
    match Client.start environment world with
    | .error _ => after = world
    | .ok (client, _) => client.KeepsFiles world.files after.files ∨
        (∃ command ∈ Command.editing, command.name = name) ∧ ∃ object ∈ arguments.head?,
          client.StoresOutOfRange object world.files after.files := by
  dsimp only
  rcases start_cases environment world with ⟨cause, _, _, hstart⟩ | ⟨client, started, hstart, _⟩
  · rw [hstart, runCommand, withClient, hstart]
  · have hfiles := files_of_start hstart
    rw [runCommand, withClient_of_start hstart] at h ⊢
    rw [hstart]
    dsimp only
    rw [← hfiles]
    cases hcommand : Command.ofName? name with
    | none =>
      have hthrow : FailsWithin client.KeepsFiles (procedure client name arguments) := by
        rw [procedure, hcommand]
        exact (spares_throw _).failsWithin Client.keepsFiles_refl
      exact Or.inl (conclude_of_failsWithin hthrow h)
    | some command =>
      have hperform := perform_failsWithin client command arguments
      have hprocedure : procedure client name arguments = command.perform client arguments := by
        rw [procedure, hcommand]
      rw [← hprocedure] at hperform
      rcases conclude_of_failsWithin hperform h with hkeeps | ⟨hediting, hstores⟩
      · exact Or.inl hkeeps
      · exact Or.inr ⟨⟨command, hediting, Command.name_of_ofName? hcommand⟩, hstores⟩
/-- An object that is out of range cannot be scaled, and its file stays as it is. -/
theorem failed_command_keeps_files_scale :
    let environment : Environment := ⟨some "/home", "/tmp", Block.format "no block notation"⟩
    let annotations : Annotations := (∅ : Annotations).insert "delete-slots" "[0, 1]"
    let store := environment.store (Config.default environment)
    let world := (store.create ⟨Files.empty [], []⟩ ⟨"web", 2147483647, 0, annotations⟩).2
    let place : Location := Store.fileLeaf "web" :: ["objects", ".slotctl", "home"]
    let outcome := runCommand environment "scale" ["web", "5"] world
    outcome.exit = 1 ∧ (world.files.fileAt? place).isSome = true ∧
      outcome.world.files.fileAt? place = world.files.fileAt? place := by
  intro environment annotations store world place outcome
  have hexit : outcome.exit = 1 := by
    decide +kernel
  have hplace (store : Store) (files : Files) : ¬ store.IsDraftPlace files place :=
    store.not_isDraftPlace_fileLeaf (by decide) _
  have hsome : (world.files.fileAt? place).isSome = true := by
    decide +kernel
  clear_value world
  refine ⟨hexit, hsome, ?_⟩
  have hfailed := failed_command_keeps_files environment "scale" ["web", "5"] world hexit
  rcases start_cases environment world with ⟨cause, _, _, hstart⟩ | ⟨client, started, hstart, _⟩
  · rw [hstart] at hfailed
    exact congrArg (·.files.fileAt? place) hfailed
  · rw [hstart] at hfailed
    rcases hfailed with hkeeps | ⟨⟨command, hcommand, hname⟩, _⟩
    · exact hkeeps place fun config _ => hplace (client.store config) _
    · have hne : ∀ command ∈ Command.editing, command.name ≠ "scale" := by
        decide
      exact absurd hname (hne command hcommand)

/-- The reservations of an object are edited and its file is written, and then the command fails
because there is no room for the replicas any more. -/
theorem failed_command_stores_reservations :
    let environment : Environment := ⟨some "/home", "/tmp", Block.format "no block notation"⟩
    let store := environment.store (Config.default environment)
    let world := (store.create ⟨Files.empty [], []⟩ ⟨"web", 2147483647, 0, none⟩).2
    let outcome := runCommand environment "reserve" ["web", "0", "1"] world
    let place : Location := Store.fileLeaf "web" :: ["objects", ".slotctl", "home"]
    outcome.exit = 1 ∧ (world.files.fileAt? place).isSome ∧
      outcome.world.files.fileAt? place ≠ world.files.fileAt? place := by
  decide +kernel

end CommandLine

end StableOrdinals
