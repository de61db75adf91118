import StableOrdinals.CommandLine.Execution
import StableOrdinals.Proofs.Allocation.Boundary
import StableOrdinals.Proofs.CommandLine.Home
import StableOrdinals.Proofs.Reservations.Commutation

/-!
# The registry behind the objects

To whoever uses the commands, an object is a record of its replicas, its reserved slots and its
version, and the store is a map from names to records. `Registry.apply` says what each command makes
of such a map. It knows neither files nor annotations.

`Registry.IsKept` relates a registry to the files below a home directory. Creating, changing and
removing objects in the store keeps to it, in a format that keeps the objects which the commands
make (`IsOrdinary`).
-/

namespace StableOrdinals

instance Allocation.decidableFits (replicas : Int32) (reserved : OrdinalSet) :
    Decidable (Fits replicas reserved) :=
  match h : resolve replicas reserved with
  | .ok _ => isTrue (resolve_eq_ok_iff.1 h).1
  | .error _ => isFalse fun hfits => by
    rw [resolve_eq_ok_iff.2 ⟨hfits, rfl⟩] at h
    cases h

namespace CommandLine

structure Record where
  replicas : Int32
  reserved : OrdinalSet
  version : UInt64
  deriving DecidableEq

abbrev Registry := Text → Option Record

namespace Registry

def enteredReplicas? (argument : Text) : Option Int32 :=
  (Text.enteredInt32? argument).filter (0 ≤ ·.toInt)

/-- One or more slots, none of them negative. -/
def enteredSlots? (arguments : List Text) : Option OrdinalSet :=
  ((Text.enteredOrdinals? (Text.joinWords arguments)).filter fun given =>
    !given.isEmpty && given.all (0 ≤ ·.toInt)).map OrdinalSet.ofList

variable (environment : Environment) (registry : Registry)

/-- A name that is valid and free is taken, if the system takes the path of its draft. -/
def create (name : Text) (replicas : Int32) : Registry :=
  if Workload.isValidName name = true ∧ registry name = none ∧
      Files.IsShort environment.defaultStore.directory (Store.draftLeaf name) then
    Function.update registry name (some ⟨replicas, ∅, 1⟩)
  else registry

/-- The allocation has to be in range before and afterwards. -/
def scale (name : Text) (target : Int32) : Registry :=
  match registry name with
  | none => registry
  | some r =>
    if Allocation.Fits r.replicas r.reserved ∧ Allocation.Fits target r.reserved then
      Function.update registry name (some ⟨target, r.reserved, r.version + 1⟩)
    else registry

def edit (name : Text) (edit : Reservations.Edit) : Registry :=
  match registry name with
  | none => registry
  | some r =>
    Function.update registry name (some ⟨r.replicas, edit.result r.reserved, r.version + 1⟩)

def delete (name : Text) : Registry := Function.update registry name none

def apply : Command → List Text → Registry
  | .create, [name] => registry.create environment name 0
  | .create, [name, argument] =>
    (enteredReplicas? argument).elim registry (registry.create environment name)
  | .scale, [name, argument] => (enteredReplicas? argument).elim registry (registry.scale name)
  | .reserve, name :: argument :: more =>
    (enteredSlots? (argument :: more)).elim registry fun slots => registry.edit name (.add slots)
  | .unreserve, name :: argument :: more =>
    (enteredSlots? (argument :: more)).elim registry fun slots => registry.edit name (.remove slots)
  | .clear, [name] => registry.edit name .clear
  | .delete, [name] => registry.delete name
  | _, _ => registry

def step : List Text → Registry
  | [] => registry
  | name :: arguments =>
    (Command.ofName? name).elim registry (registry.apply environment · arguments)

end Registry

theorem Registry.nonneg_of_enteredReplicas? {argument : Text} {replicas : Int32}
    (h : enteredReplicas? argument = some replicas) : 0 ≤ replicas.toInt :=
  of_decide_eq_true (Option.filter_eq_some_iff.1 h).2

theorem Arguments.toOption_replicas (argument : Text) :
    (replicas argument).toOption = Registry.enteredReplicas? argument := by
  unfold replicas Registry.enteredReplicas?
  cases Text.enteredInt32? argument with
  | none => rfl
  | some n =>
    rw [Option.filter_some]
    by_cases hneg : n.toInt < 0
    · simp [hneg, Int.not_le.2 hneg, Except.toOption]
    · simp [hneg, Int.not_lt.1 hneg, Except.toOption]

theorem Arguments.toOption_ordinals (arguments : List Text) :
    (ordinals arguments).toOption = Registry.enteredSlots? arguments := by
  unfold ordinals Registry.enteredSlots?
  dsimp only
  cases Text.enteredOrdinals? (Text.joinWords arguments) with
  | none => rfl
  | some given =>
    cases given with
    | nil => rfl
    | cons first rest =>
      dsimp only
      cases hfind : (first :: rest).find? (·.toInt < 0) with
      | none =>
        have hall : (first :: rest).all (0 ≤ ·.toInt) = true := by
          simpa using hfind
        rw [Option.filter_some, if_pos (by simpa using hall)]
        rfl
      | some o =>
        have hneg : o.toInt < 0 := by simpa using List.find?_some hfind
        rw [Option.filter_some, if_neg]
        · rfl
        · intro hall
          have hnonneg := List.all_eq_true.1 hall o (List.mem_of_find?_eq_some hfind)
          have := of_decide_eq_true hnonneg
          omega

def Record.ofWorkload (w : Workload) : Record :=
  ⟨w.replicas, Reservations.read Reservations.defaultKey w.annotations, w.version⟩

namespace Registry

def ofObjects (objects : Store.Objects) : Registry := fun name =>
  (objects name).map Record.ofWorkload

/-- A workload as the commands make it: its annotations are the reserved slots, if it has any. -/
structure IsOrdinary (w : Workload) : Prop where
  valid : Workload.isValidName w.name = true
  replicas : 0 ≤ w.replicas.toInt
  annotations : w.annotations = none ∨
    ∃ slots, w.annotations = Reservations.written Reservations.defaultKey slots (some ∅)

/-- The objects below the home directory, and nothing else, are what the registry says. -/
structure IsKept (environment : Environment) (home : Location) (registry : Registry)
    (files : Files) : Prop where
  isHome : environment.IsHome files home
  objects : ∃ objects, environment.defaultStore.Holds files objects ∧ registry = ofObjects objects ∧
    ∀ name w, objects name = some w → IsOrdinary w

variable {environment : Environment} {home : Location} {registry : Registry} {files : Files}
  {world : World} {objects : Store.Objects} {name : Text}

theorem ofObjects_update (objects : Store.Objects) (name : Text) (found : Option Workload) :
    ofObjects (Function.update objects name found) =
      Function.update (ofObjects objects) name (found.map Record.ofWorkload) := by
  funext other
  unfold ofObjects
  by_cases hother : other = name
  · rw [hother, Function.update_self, Function.update_self]
  · rw [Function.update_of_ne hother, Function.update_of_ne hother]

theorem IsOrdinary.warnings {w : Workload} (h : IsOrdinary w) :
    Reservations.warnings Reservations.defaultKey w.annotations = [] := by
  rcases h.annotations with hnone | ⟨slots, hslots⟩
  · rw [hnone]
    rfl
  · rw [hslots, Reservations.warnings_written]

theorem IsOrdinary.edit {w : Workload} (h : IsOrdinary w) (edit : Reservations.Edit) :
    IsOrdinary { w with annotations := edit.made Reservations.defaultKey w.annotations } where
  valid := h.valid
  replicas := h.replicas
  annotations := by
    dsimp only [Reservations.Edit.made]
    rcases h.annotations with hnone | ⟨slots, hslots⟩
    · rw [hnone]
      exact (Reservations.written_none _ _).imp_right fun h => ⟨_, h⟩
    · rw [hslots]
      -- A bag that is there already is kept, so that what stood under the key leaves no trace.
      exact Or.inr ⟨_, (Reservations.written_written_iff ..).2 fun hnone => (nomatch hnone)⟩

theorem scale_of_none (h : registry name = none) (target : Int32) :
    registry.scale name target = registry := by
  rw [scale, h]

theorem edit_of_none (h : registry name = none) (edit : Reservations.Edit) :
    registry.edit name edit = registry := by
  rw [Registry.edit, h]

theorem delete_of_none (h : registry name = none) : registry.delete name = registry := by
  rw [delete, ← h, Function.update_eq_self]

theorem isKept_of_names (h : files.IsDirectory environment.homeDirectory home)
    (hnames : files.names home = []) : IsKept environment home (fun _ => none) files where
  isHome := Environment.isHome_of_names h hnames
  objects := by
    refine ⟨fun _ => none, Store.holds_none ?_, rfl, nofun⟩
    intro leaf
    rw [Environment.target_store h]
    by_contra hne
    have hstore := Files.at?_holder hne
    have hprogram := Files.at?_holder (show files.at? (Environment.storePlace home) ≠ none by
      simp [hstore])
    rw [Files.at?_of_names hnames] at hprogram
    cases hprogram

theorem isKept_update {found : Option Workload} (hhome : environment.IsHome files home)
    (hholds : environment.defaultStore.Holds files (Function.update objects name found))
    (hordinary : ∀ name w, objects name = some w → IsOrdinary w)
    (hfound : ∀ w ∈ found, IsOrdinary w) :
    IsKept environment home
      (Function.update (ofObjects objects) name (found.map Record.ofWorkload)) files where
  isHome := hhome
  objects := by
    refine ⟨_, hholds, (ofObjects_update objects name found).symm, ?_⟩
    intro other w hother
    rcases Store.update_eq_some_iff.1 hother with ⟨_, hw⟩ | ⟨_, hw⟩
    · exact hfound w hw
    · exact hordinary other w hw

section Operations

theorem IsKept.create (hkeeps : ∀ w, IsOrdinary w → environment.format.Keeps w)
    (h : IsKept environment home registry world.files) (name : Text) {replicas : Int32}
    (hreplicas : 0 ≤ replicas.toInt) :
    IsKept environment home (registry.create environment name replicas)
      (environment.defaultStore.create world ⟨name, replicas, 0, none⟩).2.files := by
  obtain ⟨hhome, objects, hholds, rfl, hordinary⟩ := h
  have hplain := Environment.plain_store hhome.directory
  have hempty := hhome.staysEmpty
  have hwithin := (environment.defaultStore.create_savesAtMost world
    ⟨name, replicas, 0, none⟩).staysWithin hplain
  cases hcreate : environment.defaultStore.create world ⟨name, replicas, 0, none⟩ with
  | mk answer world' =>
    rw [hcreate] at hwithin
    cases answer with
    | ok stored =>
      obtain ⟨hvalid, _, rfl, _⟩ := environment.defaultStore.save_of_create_ok hcreate
      have hmade : IsOrdinary ⟨name, replicas, 1, none⟩ := ⟨hvalid, hreplicas, Or.inl rfl⟩
      obtain ⟨hfree, _, _, hheld⟩ := hholds.create_ok hplain hempty hcreate (hkeeps _ hmade).2
      obtain ⟨_, hstored⟩ := hheld.object name _ (Function.update_self ..)
      rw [Registry.create, if_pos ⟨hstored.valid, by simp [ofObjects, hfree], hstored.short⟩]
      refine isKept_update (hhome.of_staysWithin hwithin) hheld hordinary ?_
      rintro w ⟨⟩
      exact hmade
    | error cause =>
      have hrefused : ¬ (Workload.isValidName name = true ∧ ofObjects objects name = none ∧
          Files.IsShort environment.defaultStore.directory (Store.draftLeaf name)) := by
        rintro ⟨hvalid, hfree, hshort⟩
        have hanswer := hhome.create_succeeds (w := ⟨name, replicas, 0, none⟩) hholds hvalid
          (Option.map_eq_none_iff.1 hfree) hshort hreplicas
          (hkeeps ⟨name, replicas, 1, none⟩ ⟨hvalid, hreplicas, Or.inl rfl⟩).1
        rw [hcreate] at hanswer
        cases hanswer
      rw [Registry.create, if_neg hrefused]
      exact ⟨hhome.of_staysWithin hwithin, objects, hholds.create_error hplain hempty hcreate, rfl,
        hordinary⟩

theorem IsKept.remove (h : IsKept environment home registry world.files) (name : Text) :
    IsKept environment home (registry.delete name)
      (environment.defaultStore.remove world name).2.files := by
  obtain ⟨hhome, objects, hholds, rfl, hordinary⟩ := h
  have hplain := Environment.plain_store hhome.directory
  have hwithin := hholds.remove_staysWithin hplain name
  cases hremove : environment.defaultStore.remove world name with
  | mk answer world' =>
    rw [hremove] at hwithin
    cases answer with
    | ok _ =>
      obtain ⟨_, hheld⟩ := hholds.remove_ok hplain hremove
      exact isKept_update (hhome.of_staysWithin hwithin) hheld hordinary nofun
    | error cause =>
      have hfree : ofObjects objects name = none := by
        cases hobject : objects name with
        | none => rw [ofObjects, hobject, Option.map_none]
        | some w =>
          have hanswer := hholds.remove_succeeds hobject
          rw [hremove] at hanswer
          cases hanswer
      rw [delete_of_none hfree]
      exact ⟨hhome.of_staysWithin hwithin, objects, hholds.remove_error hremove, rfl, hordinary⟩

/-- A change keeps to the registry if it makes of an object what has become of its record. -/
theorem IsKept.modify (hkeeps : ∀ w, IsOrdinary w → environment.format.Keeps w) {ε σ : Type}
    {change : Store.Change ε σ} (hchange : change.LeavesFiles)
    {state : World × σ} (h : IsKept environment home registry state.1.files) {after : Registry}
    (habsent : registry name = none → after = registry)
    (hpresent : ∀ w, registry name = some (Record.ofWorkload w) → IsOrdinary w →
      match (change w state).1 with
      | .error _ => after = registry
      | .ok v => v.name = w.name ∧ v.version = w.version ∧ IsOrdinary v ∧ after =
          Function.update registry name
            (some (Record.ofWorkload { v with version := v.version + 1 }))) :
    IsKept environment home after
      (environment.defaultStore.modify name change Store.defaultRetries state).2.1.files := by
  have hretries := Store.zero_le_defaultRetries
  obtain ⟨hhome, objects, hholds, rfl, hordinary⟩ := h
  have hplain := Environment.plain_store hhome.directory
  cases hobject : objects name with
  | none =>
    obtain ⟨e, hmodify⟩ := hholds.modify_absent hchange hretries hplain hobject
    rw [hmodify, habsent (by rw [ofObjects, hobject, Option.map_none])]
    exact ⟨hhome, objects, hholds, rfl, hordinary⟩
  | some w =>
    have hafter := hpresent w (by rw [ofObjects, hobject, Option.map_some]) (hordinary name w hobject)
    have hfiles := hchange w state
    cases happly : change w state with
    | mk answer between =>
      rw [happly] at hafter hfiles
      cases answer with
      | error e =>
        rw [hholds.modify_refused hchange hretries hobject happly]
        dsimp only at hafter hfiles ⊢
        rw [hafter, hfiles]
        exact ⟨hhome, objects, hholds, rfl, hordinary⟩
      | ok v =>
        obtain ⟨hname, hversion, hv, rfl⟩ := hafter
        have hstored : IsOrdinary { v with version := v.version + 1 } :=
          ⟨hv.valid, hv.replicas, hv.annotations⟩
        rw [(hholds.object name w hobject).1] at hname
        obtain ⟨world, hmodify, hwithin, hheld⟩ := hholds.modify_succeeds hchange hretries hplain
          hhome.staysEmpty hobject happly hname hversion hv.replicas (hkeeps _ hstored)
        rw [hmodify]
        refine isKept_update (hhome.of_staysWithin hwithin) hheld hordinary ?_
        rintro w ⟨⟩
        exact hstored

theorem IsKept.createDefault (h : IsKept environment home registry files) :
    IsKept environment home registry (Config.createDefault environment files).2 := by
  obtain ⟨hhome, objects, hholds, rfl, hordinary⟩ := h
  obtain ⟨hhome', hholds'⟩ := hhome.createDefault hholds
  exact ⟨hhome', objects, hholds', rfl, hordinary⟩

end Operations

end Registry

end CommandLine

end StableOrdinals
