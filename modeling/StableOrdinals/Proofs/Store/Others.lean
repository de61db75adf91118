import Mathlib.Data.Int.Notation
import StableOrdinals.Block.Workload
import StableOrdinals.Proofs.Store.Attempts
import StableOrdinals.Proofs.Store.Modify

/-!
# The other objects

A modification updates its object under the name that the change has left in it. If that is the name
of another object, and the version is the one that this object is stored under (`Usurps`), nothing
tells the update from one of the other object, which is overwritten though nobody has seen it:
`renamed_object_overwrites`.

There is no other way to lose it. Another object is either replaced by the one that usurps its name,
and then this one is the answer, or it is loaded as before (`OtherLeft`). So whatever else a change
does to the fields of its object, another name or another version included, every other object stays
as it is: `modify_leaves_others`.
-/

namespace StableOrdinals.Store

variable {ε σ : Type} (store : Store)

/-- The change gives its object the name of another one, and the version that is stored there. -/
structure Usurps (name : Text) (change : Change ε σ) (state : World × σ) (w current : Workload) :
    Prop where
  changed : ∃ seen, store.load state.1.files name = .ok seen ∧ (change seen state).1 = .ok w
  renamed : w.name ≠ name
  load : store.load state.1.files w.name = .ok current
  version : current.version = w.version

/-- What becomes of another object: it is loaded as before, unless the answer is an object of its
name. That one has usurped the name, and is stored in its place: it is loaded if the format reads it
back. -/
inductive OtherLeft (name : Text) (change : Change ε σ) (before : World × σ) (other : Text)
    (answer : Except (ModifyError ε) Workload) (after : World × σ) : Prop
  | kept (same : store.load after.1.files other = store.load before.1.files other)
      (named : ∀ stored, answer = .ok stored → stored.name ≠ other)
  | replaced (w current : Workload) (usurps : store.Usurps name change before w current)
      (named : w.name = other) (answered : answer = .ok { w with version := w.version + 1 })
      (load : store.format.ReadsBack { w with version := w.version + 1 } →
        store.load after.1.files other = .ok { w with version := w.version + 1 })

variable {store} {name other : Text} {change : Change ε σ} {state : World × σ}

theorem attempt_otherLeft (hchange : change.LeavesStore store) (hother : other ≠ name) :
    ∃ answer after, store.attempt name change state = (answer, false, after) ∧
      store.OtherLeft name change state other answer after := by
  cases hload : store.load state.1.files name with
  | error e => exact ⟨_, _, attempt_of_load_error change hload, .kept rfl nofun⟩
  | ok seen =>
    have hcalled (name : Text) : store.load (change seen state).2.1.files name =
        store.load state.1.files name := (hchange seen state).load_eq name
    rcases attempt_of_load change hload with
      ⟨stored, after, hattempt, hstored⟩ | ⟨e, again, after, hattempt, hunwritten, _, hagain⟩
    · refine ⟨_, _, hattempt, ?_⟩
      obtain ⟨w, current, hanswer, hcurrent, hversion, rfl, _⟩ := hstored.update
      by_cases hw : w.name = other
      · subst hw
        exact .replaced w current ⟨⟨seen, hload, hanswer⟩, hother,
          (hcalled w.name).symm.trans hcurrent, hversion⟩ rfl rfl hstored.load_stored
      · refine .kept ((hstored.load_others other (Ne.symm hw)).trans (hcalled other)) ?_
        intro stored hstored
        rw [← Except.ok.inj hstored]
        exact hw
    · have hkept (name : Text) : store.load after.1.files name = store.load state.1.files name :=
        (hunwritten.load_eq name).trans (hcalled name)
      have hlast : again = false := by
        by_contra hmore
        obtain ⟨_, latest, hlatest, hversion⟩ := hagain (Bool.not_eq_false _ ▸ hmore)
        rw [hkept, hload] at hlatest
        exact hversion (by rw [Except.ok.inj hlatest])
      subst hlast
      exact ⟨.error e, after, hattempt, .kept (hkept other) nofun⟩

theorem modify_otherLeft (hchange : change.LeavesStore store) (hother : other ≠ name)
    (retries : ℤ) : ∃ answer after, store.modify name change retries state = (answer, after) ∧
      store.OtherLeft name change state other answer after := by
  unfold modify
  cases (retries + 1).toNat with
  | zero => exact ⟨_, _, rfl, .kept rfl nofun⟩
  | succ left =>
    obtain ⟨answer, after, hattempt, hleft⟩ := attempt_otherLeft hchange hother
    refine ⟨answer, after, ?_, hleft⟩
    simp only [attempts, hattempt]

/-- A modification whose change leaves the store alone leaves every other object alone, whatever the
change does to its own one, unless it passes this one off as the other. -/
theorem modify_leaves_others (store : Store) (name : Text) (change : Change ε σ)
    (hchange : change.LeavesStore store) (retries : ℤ) (state : World × σ) (other : Text)
    (hother : other ≠ name)
    (hown : ∀ w current, store.Usurps name change state w current → w.name ≠ other) :
    store.load (store.modify name change retries state).2.1.files other =
      store.load state.1.files other := by
  obtain ⟨answer, after, hmodify, hleft⟩ := modify_otherLeft hchange hother retries
  rw [hmodify]
  cases hleft with
  | kept same named => exact same
  | replaced w current usurps named answered load => exact absurd named (hown w current usurps)

/-- Both objects are stored under version 1. The one that the change renames claims to be at version
2, so that its update is refused. -/
theorem modify_leaves_others_renamed :
    let store : Store := ⟨"/store", Block.format "no block notation"⟩
    let world : World := ⟨Files.empty [], []⟩
    let world := (store.create (store.create world ⟨"web", 3, 0, none⟩).2 ⟨"db", 5, 0, none⟩).2
    let change : Change Unit Unit := fun w state =>
      (.ok { w with name := "db", version := w.version + 1 }, state)
    change.LeavesStore store ∧ Text.ofString "db" ≠ Text.ofString "web" ∧
      (∀ w current, store.Usurps "web" change (world, ()) w current → w.name ≠ "db") ∧
      store.load (store.modify "web" change defaultRetries (world, ())).2.1.files "db" =
        store.load world.files "db" := by
  intro store start world change
  have hchange : change.LeavesStore store := fun _ _ => ⟨rfl, rfl, fun _ _ => rfl⟩
  have hversions : (store.load world.files "web").toOption.map Workload.version = some 1 ∧
      (store.load world.files "db").toOption.map Workload.version = some 1 := by
    decide +kernel
  have hother : Text.ofString "db" ≠ Text.ofString "web" := by decide
  clear_value world
  have hown : ∀ w current, store.Usurps "web" change (world, ()) w current → w.name ≠ "db" := by
    rintro w current ⟨⟨seen, hseen, hanswer⟩, _, hload, hversion⟩ _
    obtain rfl := Except.ok.inj hanswer
    have hweb : seen.version = 1 := by
      have hweb := hversions.1
      rw [hseen] at hweb
      exact Option.some.inj hweb
    have hdb : current.version = 1 := by
      have hdb := hversions.2
      change store.load world.files "db" = .ok current at hload
      rw [hload] at hdb
      exact Option.some.inj hdb
    change current.version = seen.version + 1 at hversion
    rw [hdb, hweb] at hversion
    cases hversion
  exact ⟨hchange, hother, hown,
    modify_leaves_others store "web" change hchange defaultRetries (world, ()) "db" hother hown⟩

/-- The change of one object gives it the name of another one, which bears the same version. The
other object has not been seen, and is overwritten. -/
theorem renamed_object_overwrites :
    let store : Store := ⟨"/store", Block.format "no block notation"⟩
    let world : World := ⟨Files.empty [], []⟩
    let world := (store.create (store.create world ⟨"web", 3, 0, none⟩).2 ⟨"db", 5, 0, none⟩).2
    let change : Change Unit Unit := fun w state => (.ok { w with name := "db" }, state)
    change.LeavesStore store ∧ Text.ofString "db" ≠ Text.ofString "web" ∧
      store.load (store.modify "web" change defaultRetries (world, ())).2.1.files "db" ≠
        store.load world.files "db" := by
  intro store start world change
  refine ⟨fun _ _ => ⟨rfl, rfl, fun _ _ => rfl⟩, by decide, ?_⟩
  have hreplicas : (store.load world.files "db").toOption.map Workload.replicas = some 5 ∧
      (store.load (store.modify "web" change defaultRetries (world, ())).2.1.files "db").toOption.map
        Workload.replicas = some 3 := by
    decide +kernel
  intro hsame
  rw [hsame, hreplicas.1] at hreplicas
  exact absurd hreplicas.2 (by decide)

end StableOrdinals.Store
