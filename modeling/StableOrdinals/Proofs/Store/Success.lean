import StableOrdinals.Proofs.Store.Contents
import StableOrdinals.Proofs.Store.Modify

/-!
# Operations that succeed

In a store that holds objects and nothing else, an operation fails only for a reason of its own: an
object that the format keeps is created under any free name that is not too long, and one that is
there is updated by its version, modified and removed. Outside of the directory of the store nothing
is changed, but that the directory may be made (`StaysWithin`).
-/

namespace StableOrdinals.Store

open StableOrdinals.Path

variable {store : Store}
variable {files files' made : Files} {objects : Objects} {name leaf : Text} {w v stored : Workload}
  {world world' : World} {holder : Location}

section Success

variable (h : store.Holds files objects)

include h

theorem Holds.canDraft (hshort : Files.IsShort store.directory (draftLeaf name)) :
    store.CanDraft files (files.target store.directory) name := by
  refine ⟨hshort, ?_⟩
  have hnone : files.at? (draftLeaf name :: files.target store.directory) = none := by
    by_contra hne
    obtain ⟨other, v, hobject, hleaf⟩ := h.only _ hne
    obtain ⟨rfl, hstored⟩ := h.object other v hobject
    exact draftLeaf_ne_fileLeaf hstored.valid name hleaf
  rw [Files.isClosed, hnone]
  rfl

theorem Holds.file_ne_directory (name : Text) :
    files.at? (fileLeaf name :: files.target store.directory) ≠ some .directory := by
  intro hdirectory
  obtain ⟨_, _, _, _, _, hentry⟩ := h.file_of_at? hdirectory
  cases hentry

theorem Holds.save_succeeds
    (hdirectory : files.IsDirectory store.directory (files.target store.directory))
    (hvalid : Workload.isValidName w.name = true)
    (hcontent : ∃ content, w.render store.format = .ok content)
    (hshort : Files.IsShort store.directory (draftLeaf w.name)) :
    (store.save files w).1 = .ok () := by
  obtain ⟨content, hcontent⟩ := hcontent
  obtain ⟨after, hsave, _⟩ := store.save_file hdirectory hvalid hcontent (h.canDraft hshort)
    (h.file_ne_directory w.name)
  rw [hsave]

omit h

theorem put_fst (world : World) (w : Workload) (line : Text) :
    (store.put world w line).1 = (store.save world.files w).1.map fun _ => w := by
  unfold put
  cases store.save world.files w with
  | mk answer files => cases answer <;> rfl

theorem Holds.update_succeeds (h : store.Holds world.files objects) {current : Workload}
    (hobject : objects w.name = some current) (hversion : current.version = w.version)
    (hreplicas : 0 ≤ w.replicas.toInt)
    (hcontent : ∃ content,
      Workload.render store.format { w with version := w.version + 1 } = .ok content) :
    (store.update world w).1 = .ok { w with version := w.version + 1 } := by
  obtain ⟨hname, hstored⟩ := h.object _ current hobject
  have hvalid := hstored.valid
  have hshort := hstored.short
  rw [hname] at hvalid hshort
  have hsave := h.save_succeeds (w := { w with version := w.version + 1 }) hstored.directory
    hvalid hcontent hshort
  unfold update
  rw [if_neg (by omega), h.load_eq hobject]
  dsimp only
  rw [if_neg (not_not.2 hversion), put_fst, hsave]
  rfl

theorem Holds.create_succeeds (h : store.Holds world.files objects)
    (hempty : store.StaysEmpty world.files)
    (hvalid : Workload.isValidName w.name = true) (hreplicas : 0 ≤ w.replicas.toInt)
    (hcontent : ∃ content, Workload.render store.format { w with version := 1 } = .ok content)
    (hcontains : store.contains world.files w.name = .ok false)
    (hmake : (world.files.makeDirectories store.directory).1 = .ok ())
    (hdirectory : (world.files.makeDirectories store.directory).2.IsDirectory store.directory
      (world.files.target store.directory))
    (hshort : Files.IsShort store.directory (draftLeaf w.name)) :
    (store.create world w).1 = .ok { w with version := 1 } := by
  have hmade := h.makeDirectories hempty
  cases hmakes : world.files.makeDirectories store.directory with
  | mk answer made =>
    rw [hmakes] at hmake hdirectory hmade
    have hanswer : answer = .ok () := hmake
    have htarget := target_of_isDirectory hdirectory
    have hsave := hmade.save_succeeds (w := { w with version := 1 }) (by rwa [htarget]) hvalid
      hcontent hshort
    have hsame : store.save world.files { w with version := 1 } =
        store.save made { w with version := 1 } := by
      rw [save, save, hmakes, makeDirectories_of_isDirectory hdirectory, hanswer]
    unfold create
    rw [if_neg (by simp [hvalid]), if_neg (by omega), hcontains]
    dsimp only
    rw [put_fst, hsame, hsave]
    rfl

theorem Holds.remove_succeeds (h : store.Holds world.files objects)
    (hobject : objects name = some w) : (store.remove world name).1 = .ok () := by
  obtain ⟨rfl, hstored⟩ := h.object name w hobject
  have hleaf := isLeaf_fileLeaf hstored.valid
  have hshort := hstored.short.of_length_le hstored.directory.plain.ne_nil
    (isLeaf_draftLeaf hstored.valid) hleaf (length_fileLeaf_le w.name)
  obtain ⟨content, _, hat⟩ := hstored.at?
  obtain ⟨after, hremove, _⟩ := hstored.directory.remove_file hleaf hshort hat
  have hcontains := (h.contains_eq_ok_iff hstored.directory.plain).2 ⟨w, hobject⟩
  unfold remove
  rw [hcontains, file_eq, hremove]

end Success

/-- The directory of the store may have been made, and nothing else has changed outside of it. -/
structure StaysWithin (store : Store) (files after : Files) : Prop where
  directories : Files.KeepsDirectories files after
  at? : ∀ q, (∀ leaf, q ≠ leaf :: files.target store.directory) → after.at? q = files.at? q ∨
    after.at? q = (files.makeDirectories store.directory).2.at? q

theorem staysWithin_refl (store : Store) (files : Files) : store.StaysWithin files files :=
  ⟨⟨fun _ h => h, rfl⟩, fun _ _ => Or.inl rfl⟩

theorem Saved.staysWithin {answer : Except StoreError Unit}
    (hsaved : store.Saved w (files.makeDirectories store.directory).2 answer files') :
    store.StaysWithin files files' := by
  have hkeeps := (Files.addsDirectories_makeDirectories files store.directory).keepsDirectories
  cases hsaved with
  | refused cause => exact ⟨hkeeps, fun _ _ => Or.inr rfl⟩
  | @draftLost holder after cause directory short same at? =>
    refine ⟨hkeeps.trans same.keepsDirectories, ?_⟩
    intro q hq
    rw [← target_of_keepsDirectories hkeeps, target_of_isDirectory directory] at hq
    rw [at?, if_neg (hq _)]
    exact Or.inr rfl
  | @stored holder after content rendered directory short same at? =>
    refine ⟨hkeeps.trans same.keepsDirectories, ?_⟩
    intro q hq
    rw [← target_of_keepsDirectories hkeeps, target_of_isDirectory directory] at hq
    rw [at?, if_neg (hq _), if_neg (hq _)]
    exact Or.inr rfl

theorem SavesAtMost.staysWithin (hplain : IsPlain store.directory)
    {answer : Except StoreError Workload} (h : store.SavesAtMost name files answer files') :
    store.StaysWithin files files' := by
  rcases h with ⟨_, _, rfl⟩ | ⟨stored, rfl, hvalid, _, rfl⟩
  · exact store.staysWithin_refl files'
  · exact (store.saved_of_isPlain hplain hvalid files).staysWithin

theorem Holds.remove_staysWithin (h : store.Holds world.files objects)
    (hplain : IsPlain store.directory) (name : Text) :
    store.StaysWithin world.files (store.remove world name).2.files := by
  rcases store.remove_cases world name with ⟨_, hfiles⟩ | ⟨hvalid, _, hfiles⟩
  · rw [hfiles]
    exact store.staysWithin_refl world.files
  · obtain ⟨holder, hholder, hdelete⟩ :=
      Files.delete?_of_remove hplain (isLeaf_fileLeaf hvalid) hfiles
    obtain rfl := target_of_isDirectory hholder
    refine ⟨(Files.sameDirectories_delete? hdelete (h.file_ne_directory name)).keepsDirectories, ?_⟩
    intro q hq
    rw [Files.at?_delete? hdelete, if_neg (hq _)]
    exact Or.inl rfl

section Modify

variable {ε σ : Type} {change : Change ε σ} {retries : Int} {state between : World × σ}
  (h : store.Holds state.1.files objects) (hchange : change.LeavesFiles) (hretries : 0 ≤ retries)

include h hchange hretries

theorem Holds.modify_absent (hplain : IsPlain store.directory) (hobject : objects name = none) :
    ∃ e, store.modify name change retries state = (.error e, state) := by
  cases hload : store.load state.1.files name with
  | ok w =>
    rw [(h.load_eq_ok_iff hplain).1 hload] at hobject
    cases hobject
  | error e =>
    refine ⟨.store e, ?_⟩
    rw [store.modify_eq_attempt hchange hretries]
    simp only [attempt, hload]

theorem Holds.modify_refused (hobject : objects name = some w) {e : ε}
    (happly : change w state = (.error e, between)) :
    store.modify name change retries state = (.error (.refused e), between) :=
  store.modify_of_refused hchange hretries (h.load_eq hobject) happly

/-- A change that keeps the name and the version is stored under the next version, if the format
keeps the object. -/
theorem Holds.modify_succeeds (hplain : IsPlain store.directory)
    (hempty : store.StaysEmpty state.1.files) (hobject : objects name = some w)
    (happly : change w state = (.ok v, between)) (hname : v.name = name)
    (hversion : v.version = w.version) (hreplicas : 0 ≤ v.replicas.toInt)
    (hkeeps : store.format.Keeps { v with version := v.version + 1 }) :
    ∃ world, store.modify name change retries state =
        (.ok { v with version := v.version + 1 }, (world, between.2)) ∧
      store.StaysWithin state.1.files world.files ∧
      store.Holds world.files
        (Function.update objects name (some { v with version := v.version + 1 })) := by
  subst hname
  have hfiles : between.1.files = state.1.files := by
    rw [← hchange w state, happly]
  rw [← hfiles] at h hempty ⊢
  have hanswer := h.update_succeeds hobject hversion.symm hreplicas hkeeps.1
  have hwithin := (store.update_savesAtMost between.1 v).staysWithin hplain
  cases hupdate : store.update between.1 v with
  | mk answer world =>
    rw [hupdate] at hanswer hwithin
    obtain rfl : answer = _ := hanswer
    obtain ⟨_, _, _, _, _, hheld⟩ := h.update_ok hplain hempty hupdate hkeeps.2
    have hload := h.load_eq hobject
    rw [hfiles] at hload
    exact ⟨world, store.modify_of_updated hchange hretries hload happly hupdate, hwithin, hheld⟩

end Modify

end StableOrdinals.Store
