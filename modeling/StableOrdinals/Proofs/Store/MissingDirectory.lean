import StableOrdinals.Proofs.Files.AllOrNothing
import StableOrdinals.Proofs.Store.Requests

/-!
# A store without its directory

Where the directory of the store is missing, no object is there, and only a creation does anything:
it makes the directory. Any request goes on a tree in which the directory has been made as it goes
without it (`Request.perform_of_made`).
-/

namespace StableOrdinals

open StableOrdinals.Path

namespace Store

open StableOrdinals.Files

variable {store : Store} {files : Files} {world : World} {name : Text} {p : Request}

/-- A creation makes the directory of the store. -/
def Request.isCreation : Request → Bool
  | create _ => true
  | _ => false

/-- Neither of two worlds holds an object, and they say the same about its file. -/
structure BothAbsent (store : Store) (name : Text) (world world' : World) : Prop where
  same : Workload.isValidName name = true →
    store.hasFile world'.files name = store.hasFile world.files name
  absent : Workload.isValidName name = true → store.hasFile world.files name ≠ .ok true

namespace BothAbsent

variable {world' : World} {w : Workload}

theorem contains (h : BothAbsent store name world world') :
    store.contains world'.files name = store.contains world.files name ∧
      store.contains world.files name ≠ .ok true := by
  unfold Store.contains
  split_ifs with hvalid
  · exact ⟨h.same hvalid, h.absent hvalid⟩
  · exact ⟨rfl, nofun⟩

theorem load (h : BothAbsent store name world world') :
    ∃ e, store.load world.files name = .error e ∧ store.load world'.files name = .error e := by
  by_cases hinvalid : Workload.isValidName name = false
  · exact ⟨_, if_pos hinvalid, if_pos hinvalid⟩
  · have hvalid : Workload.isValidName name = true := by simpa using hinvalid
    have habsent := h.absent hvalid
    rw [Store.load, Store.load, if_neg hinvalid, if_neg hinvalid, h.same hvalid]
    cases hhas : store.hasFile world.files name with
    | error e => exact ⟨e, rfl, rfl⟩
    | ok found =>
      cases found with
      | false => exact ⟨_, rfl, rfl⟩
      | true => exact absurd hhas habsent

theorem remove (h : BothAbsent store name world world') :
    ∃ e, store.remove world name = (.error e, world) ∧
      store.remove world' name = (.error e, world') := by
  obtain ⟨hcontains, hmissing⟩ := h.contains
  rw [Store.remove, Store.remove, hcontains]
  cases hfound : store.contains world.files name with
  | error e => exact ⟨e, rfl, rfl⟩
  | ok found =>
    cases found with
    | false => exact ⟨_, rfl, rfl⟩
    | true => exact absurd hfound hmissing

theorem update (h : BothAbsent store w.name world world') :
    ∃ e, store.update world w = (.error e, world) ∧
      store.update world' w = (.error e, world') := by
  obtain ⟨e, hload, hload'⟩ := h.load
  rw [Store.update, Store.update, hload, hload']
  split_ifs
  · exact ⟨_, rfl, rfl⟩
  · exact ⟨e, rfl, rfl⟩

theorem create (h : BothAbsent store w.name world world') (hlog : world'.log = world.log)
    (hsave : ∀ w, store.save world'.files w = store.save world.files w) :
    (∃ e, store.create world w = (.error e, world) ∧ store.create world' w = (.error e, world')) ∨
      store.create world' w = store.create world w := by
  obtain ⟨hcontains, hmissing⟩ := h.contains
  rw [Store.create, Store.create, hcontains]
  split_ifs
  · exact Or.inl ⟨_, rfl, rfl⟩
  · exact Or.inl ⟨_, rfl, rfl⟩
  · cases hfound : store.contains world.files w.name with
    | error e => exact Or.inl ⟨e, rfl, rfl⟩
    | ok found =>
      cases found with
      | true => exact absurd hfound hmissing
      | false =>
        refine Or.inr ?_
        dsimp only
        rw [put, put, hsave]
        cases store.save world.files { w with version := 1 } with
        | mk answer files => cases answer <;> simp [World.note, hlog]

theorem perform (h : BothAbsent store p.name world world') (hcreation : p.isCreation = false) :
    ∃ reply, p.perform store world = (reply, world) ∧ p.perform store world' = (reply, world') := by
  cases p with
  | contains name =>
    exact ⟨_, rfl, congrArg (fun answer => (Reply.found answer, world')) h.contains.1⟩
  | load name =>
    obtain ⟨e, hload, hload'⟩ := h.load
    exact ⟨.object (.error e), congrArg (fun answer => (Reply.object answer, world)) hload,
      congrArg (fun answer => (Reply.object answer, world')) hload'⟩
  | create w => cases hcreation
  | update w =>
    obtain ⟨e, hupdate, hupdate'⟩ := h.update
    exact ⟨.object (.error e), congrArg (Prod.map Reply.object id) hupdate,
      congrArg (Prod.map Reply.object id) hupdate'⟩
  | remove name =>
    obtain ⟨e, hremove, hremove'⟩ := h.remove
    exact ⟨.removed (.error e), congrArg (Prod.map Reply.removed id) hremove,
      congrArg (Prod.map Reply.removed id) hremove'⟩

end BothAbsent

variable (hplain : IsPlain store.directory)

include hplain

section Files

variable (hstatus : files.status store.directory = .ok none)

include hstatus

/-- Without a directory there is no file, though the path may be too long to tell. -/
theorem hasFile_of_missing (hvalid : Workload.isValidName name = true) :
    store.hasFile files name = if longestPath < (store.file name).length then
      .error (.unreachable (store.file name) .nameTooLong) else .ok false := by
  have hleaf := isLeaf_fileLeaf hvalid
  rw [hasFile, existsAt]
  split_ifs with hlong
  · have herror : files.status (store.file name) = .error .nameTooLong :=
      status_of_long (hplain.append hleaf) hlong
    rw [herror]
    rfl
  · rw [file_eq, status_append_of_status hplain hleaf (Nat.not_lt.1 hlong) hstatus]
    rfl

theorem not_hasFile_of_missing (hvalid : Workload.isValidName name = true) :
    store.hasFile files name ≠ .ok true := by
  rw [hasFile_of_missing hplain hstatus hvalid]
  split_ifs <;> nofun

variable {made : Files} (hdots : (".." : Text) ∉ components store.directory)
  (hmake : files.makeDirectories store.directory = (.ok (), made))
  (hmade : made.IsDirectory store.directory (files.target store.directory))

include hdots hmake hmade

theorem hasFile_of_made (hvalid : Workload.isValidName name = true)
    (hlength : (fileLeaf name).length ≤ longestName) :
    store.hasFile made name = store.hasFile files name := by
  have hleaf := isLeaf_fileLeaf hvalid
  have habsent : made.at? (fileLeaf name :: files.target store.directory) = none := by
    have hkept : (files.makeDirectories store.directory).2.at?
          (fileLeaf name :: files.target store.directory) =
        files.at? (fileLeaf name :: files.target store.directory) :=
      at?_makeDirectories hplain hdots (Nat.lt_succ_self _)
    rw [hmake] at hkept
    rw [hkept, at?_of_status_eq_none hplain hdots hstatus]
  rw [hasFile_of_missing hplain hstatus hvalid, hasFile, existsAt]
  split_ifs with hlong
  · have herror : made.status (store.file name) = .error .nameTooLong :=
      status_of_long (hplain.append hleaf) hlong
    rw [herror]
    rfl
  · rw [file_eq, hmade.status_append hleaf ⟨Nat.not_lt.1 hlong, hlength⟩, habsent]
    rfl

end Files

section Worlds

variable (hstatus : world.files.status store.directory = .ok none) {made : Files}
  (hdots : (".." : Text) ∉ components store.directory)
  (hmake : world.files.makeDirectories store.directory = (.ok (), made))
  (hmade : made.IsDirectory store.directory (world.files.target store.directory))

include hstatus hdots hmake hmade

/-- A request goes as it does once the directory has been made: it changes neither world, or it is a
creation that makes the directory itself. -/
theorem Request.perform_of_made (hlength : (fileLeaf p.name).length ≤ longestName) :
    (∃ reply, p.perform store world = (reply, world) ∧
        p.perform store { world with files := made } = (reply, { world with files := made })) ∨
      p.isCreation = true ∧
        p.perform store { world with files := made } = p.perform store world := by
  have habsent : BothAbsent store p.name world { world with files := made } :=
    ⟨fun hvalid => hasFile_of_made hplain hstatus hdots hmake hmade hvalid hlength,
      not_hasFile_of_missing hplain hstatus⟩
  by_cases hcreation : p.isCreation = true
  · cases p with
    | create w =>
      have hsave (w : Workload) : store.save made w = store.save world.files w := by
        rw [save, save, hmake, makeDirectories_of_isDirectory hmade]
      rcases habsent.create rfl hsave with ⟨e, hrefused, hrefused'⟩ | hcreated
      · exact Or.inl ⟨.object (.error e), congrArg (Prod.map Reply.object id) hrefused,
          congrArg (Prod.map Reply.object id) hrefused'⟩
      · exact Or.inr ⟨rfl, congrArg (Prod.map Reply.object id) hcreated⟩
    | _ => cases hcreation
  · exact Or.inl (habsent.perform (by simpa using hcreation))

end Worlds

end Store

end StableOrdinals
