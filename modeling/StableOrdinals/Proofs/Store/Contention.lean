import Mathlib.Algebra.Group.Nat.Defs
import Mathlib.Data.Int.Notation
import StableOrdinals.Block.Workload
import StableOrdinals.Proofs.Store.Attempts
import StableOrdinals.Proofs.Store.Modify
import StableOrdinals.Proofs.Store.Saving

/-!
# Other writers

While the change of a modification is called, other writers may update the object, any number of
times (`Updates`). As long as they do, the attempt ends in a conflict, and the next one starts from
what the last of them has stored. The first attempt that nobody disturbs is accepted. So a
modification that is disturbed `k` times makes `k + 1` attempts, or as many as it is allowed to
make, and then it gives up and leaves what the others have stored: `modify_under_contention`.

This takes an object whose draft can be made and renamed (`Writable`), and a format that keeps what
is stored. Where a directory bears the name of the object's file, behind a NUL byte or without a
path, an object is loaded that cannot be stored: `modify_unwritable_objects`.
-/

namespace StableOrdinals.Store

open StableOrdinals.Path

variable {ε σ : Type} (store : Store)

/-- The objects of that name that others store by their updates, one after the other, while nothing
else touches the store. -/
inductive Updates (name : Text) : Files → List Workload → Files → Prop
  | nil (files : Files) : Updates name files [] files
  | elsewhere {files between after : Files} {written : List Workload}
      (untouched : store.Untouched files between) (rest : Updates name between written after) :
      Updates name files written after
  | cons {world world' : World} {w stored : Workload} {after : Files} {written : List Workload}
      (update : store.update world w = (.ok stored, world')) (named : stored.name = name)
      (rest : Updates name world'.files written after) :
      Updates name world.files (stored :: written) after

structure Writable (files : Files) (holder : Location) (name : Text) : Prop where
  directory : files.IsDirectory store.directory holder
  draft : store.CanDraft files holder name
  file : files.at? (fileLeaf name :: holder) ≠ some .directory

/-- A call that succeeds on an object without renaming it, while others store the objects `written`,
which are read back. If there are none, then what the call has left is going to be stored, and kept.
-/
structure Disturbed (name : Text) (change : Change ε σ) (written : List Workload) (call : Call σ) :
    Prop where
  updates : store.Updates name call.before.1.files written (call.after change).1.files
  changed : ∃ w, call.answer change = .ok w ∧ w.name = name ∧ w.version = call.seen.version ∧
    0 ≤ w.replicas.toInt
  readsBack : ∀ stored ∈ written, store.format.ReadsBack stored
  keeps : written = [] → ∀ w, call.answer change = .ok w →
    store.format.Keeps { w with version := w.version + 1 }

def updatedLine (name : Text) (version : UInt64) : Text :=
  "[store] updated " ++ name ++ " to version " ++ Text.ofNat version.toNat

def conflictLine (name : Text) (held stored : UInt64) : Text :=
  "[store] conflict on " ++ name ++ ": have version " ++ Text.ofNat held.toNat ++ ", stored "
    ++ Text.ofNat stored.toNat

def retryLine (name : Text) (number : ℕ) : Text :=
  "[store] retrying update of " ++ name ++ " (attempt " ++ Text.ofNat number ++ ")"

def Call.conflicted (name : Text) (change : Change ε σ) (number : ℕ) (stored : UInt64)
    (call : Call σ) : World × σ :=
  ((call.after change).1.note [conflictLine name call.seen.version stored, retryLine name number],
    (call.after change).2)

/-- What becomes of a modification that may make `left + 1` more attempts, numbered from `number`,
if others store the objects `written[i]` during its call `i`. -/
structure Contended (name : Text) (change : Change ε σ) (retries : ℤ) (left number : ℕ)
    (first : Workload) (written : List (List Workload)) (start : World × σ) (calls : List (Call σ))
    (answer : Except (ModifyError ε) Workload) (final : World × σ) : Prop where
  /-- There is one call more than there are conflicts, if so many may be made. -/
  length : calls.length = min written.length left + 1
  head : calls.head? = some ⟨first, start⟩
  /-- Each call is given what the others have stored last. -/
  seen : ∀ (i : ℕ) call, calls[i]? = some call → call.seen = (written.take i).flatten.getLastD first
  /-- A conflict is noted, and that another attempt is made, and at last the update. -/
  log : ∀ (i : ℕ) call, calls[i]? = some call →
    (calls[i + 1]?.elim final Call.before).1.log = (call.after change).1.log ++
      match written[i]? with
      | none => [updatedLine name (call.seen.version + 1)]
      | some others => [conflictLine name call.seen.version (others.getLastD call.seen).version,
          retryLine name (number + i)]
  stored : written.length ≤ left → ∃ call ∈ calls.getLast?,
    call.seen = written.flatten.getLastD first ∧ ∃ w, call.answer change = .ok w ∧
      w.version = first.version + UInt64.ofNat written.flatten.length ∧
      answer = .ok { w with version := w.version + 1 } ∧
      store.load final.1.files name = .ok { w with version := w.version + 1 }
  gaveUp : left < written.length → answer = .error (.store (.gaveUp name (retries + 1))) ∧
    final.1.files = (leftBy change start calls).1.files ∧
    store.load final.1.files name = .ok ((written.take (left + 1)).flatten.getLastD first)

variable {store} {files files' : Files} {w current first : Workload} {world world' : World}
  {name : Text} {holder : Location} {change : Change ε σ} {written : List Workload}
  {start final : World × σ} {answer : Except (ModifyError ε) Workload} {retries : ℤ}
  {left number : ℕ} {calls earlier : List (Call σ)}

section Writable

theorem writable_of_load (hplain : IsPlain store.directory)
    (hload : store.load files name = .ok w) (hopen : files.CanOpen (store.draft name))
    (hrename : store.RenamesDraft files name) : ∃ holder, store.Writable files holder name := by
  have hname := store.isValidName_of_load hload
  obtain ⟨holder, hholder⟩ := store.isDirectory_of_load hplain hload
  exact ⟨holder, hholder, (store.canOpen_draft_iff hholder hname).1 hopen,
    (store.renamesDraft_iff hholder hname hopen).1 hrename⟩

/-- Where a file is loaded, a draft that can be made can be renamed. -/
theorem writable_of_canMakeDraft (hload : store.load files name = .ok w) {content : Text}
    (hfile : files.entryAt (store.file name) = .ok (.file content))
    (hdraft : store.CanMakeDraft files name) : ∃ holder, store.Writable files holder name := by
  have hplain := store.isPlain_of_canMakeDraft hload hdraft
  have hname := store.isValidName_of_load hload
  obtain ⟨holder, hholder⟩ := store.isDirectory_of_load hplain hload
  have hopen := hdraft.2
  rw [makeDirectories_of_isDirectory hholder] at hopen
  refine ⟨holder, hholder, (store.canOpen_draft_iff hholder hname).1 hopen, ?_⟩
  intro hdirectory
  rw [file_eq, hholder.entryAt_append (isLeaf_fileLeaf hname), hdirectory] at hfile
  split_ifs at hfile
  cases hfile

theorem Writable.of_untouched (h : store.Writable files holder name)
    (huntouched : store.Untouched files files') : store.Writable files' holder name := by
  obtain ⟨hholder, hdraft, hfile⟩ := h
  obtain rfl := Files.eq_target_of_locate hholder.locate
  have hleaf (leaf : Text) : files'.at? (leaf :: files.target store.directory) =
      files.at? (leaf :: files.target store.directory) := huntouched.at? _ (List.suffix_cons _ _)
  refine ⟨huntouched.isDirectory hholder, ⟨hdraft.1, ?_⟩, ?_⟩
  · rw [Files.isClosed, hleaf]
    exact hdraft.2
  · rw [hleaf]
    exact hfile

theorem Writable.of_update_ok {stored : Workload} (h : store.Writable world.files holder w.name)
    (hupdate : store.update world w = (.ok stored, world')) :
    store.Writable world'.files holder w.name := by
  obtain ⟨current, hload, _, rfl, hsave⟩ := store.save_of_update_ok hupdate
  have hname := store.isValidName_of_load hload
  have hsaved := store.saved_of_isDirectory (w := { w with version := w.version + 1 }) h.directory
    hname
  rw [hsave] at hsaved
  cases hsaved with
  | @stored place after content rendered directory short same at? =>
    obtain rfl := Except.ok.inj (directory.locate.symm.trans h.directory.locate)
    have hne := draftLeaf_ne_fileLeaf hname w.name
    refine ⟨h.directory.of_sameDirectories same, ⟨h.draft.1, ?_⟩, ?_⟩
    · rw [Files.isClosed, at?, if_pos rfl]
      rfl
    · rw [at?, if_neg (by simpa using hne.symm), if_pos rfl]
      simp

theorem Writable.update_eq (h : store.Writable world.files holder w.name)
    (hload : store.load world.files w.name = .ok current) (hversion : current.version = w.version)
    (hreplicas : 0 ≤ w.replicas.toInt) {content : Text}
    (hcontent : Workload.render store.format { w with version := w.version + 1 } = .ok content) :
    ∃ files', store.update world w = (.ok { w with version := w.version + 1 },
      ⟨files', world.log ++ [updatedLine w.name (w.version + 1)]⟩) := by
  obtain ⟨files', hsave, _⟩ := store.save_file (w := { w with version := w.version + 1 })
    h.directory (store.isValidName_of_load hload) hcontent h.draft h.file
  refine ⟨files', ?_⟩
  unfold update
  rw [if_neg (by omega), hload]
  dsimp only
  rw [if_neg (not_not.2 hversion), put, hsave]
  rfl

theorem Writable.modify_eq (h : store.Writable start.1.files holder name)
    (hchange : change.LeavesFiles) (hretries : 0 ≤ retries)
    (hload : store.load start.1.files name = .ok first) {between : World × σ}
    (happly : change first start = (.ok w, between)) (hname : w.name = name)
    (hversion : w.version = first.version) (hreplicas : 0 ≤ w.replicas.toInt)
    (hkeeps : store.format.Keeps { w with version := w.version + 1 }) :
    ∃ world, store.modify name change retries start =
        (.ok { w with version := w.version + 1 }, (world, between.2)) ∧
      store.load world.files name = .ok { w with version := w.version + 1 } := by
  subst hname
  have hfiles : between.1.files = start.1.files := by
    rw [← hchange first start, happly]
  have hload' := hload
  rw [← hfiles] at h hload'
  obtain ⟨⟨content, hcontent⟩, hback⟩ := hkeeps
  obtain ⟨files', hupdate⟩ := h.update_eq hload' hversion.symm hreplicas hcontent
  obtain ⟨_, _, _, _, hstored, _⟩ := store.update_ok hupdate
  exact ⟨_, store.modify_of_updated hchange hretries hload happly hupdate, hstored hback⟩

theorem update_of_version_ne (hload : store.load world.files w.name = .ok current)
    (hversion : current.version ≠ w.version) (hreplicas : 0 ≤ w.replicas.toInt) :
    store.update world w = (.error (.conflict w.name w.version current.version),
      world.note [conflictLine w.name w.version current.version]) := by
  unfold update
  rw [if_neg (by omega), hload]
  dsimp only
  rw [if_pos hversion]
  rfl

end Writable

section Updates

theorem getLastD_append {α : Type} (before after : List α) (a : α) :
    (before ++ after).getLastD a = after.getLastD (before.getLastD a) := by
  simp only [List.getLastD_eq_getLast?, List.getLast?_append]
  cases after.getLast? <;> rfl

theorem eq_zero_of_getElem?_singleton {α : Type} {a b : α} {i : ℕ} (h : [a][i]? = some b) :
    i = 0 ∧ b = a := by
  cases i with
  | zero => exact ⟨rfl, (Option.some.inj h).symm⟩
  | succ i => cases h

theorem ne_add_ofNat {count : ℕ} (hpos : count ≠ 0) (hcount : count < 2 ^ 64) (version : UInt64) :
    version + UInt64.ofNat count ≠ version := by
  intro heq
  have hnat := congrArg UInt64.toNat heq
  have hversion := version.toNat_lt
  rw [UInt64.toNat_add, UInt64.toNat_ofNat_of_lt' hcount] at hnat
  omega

/-- By induction on the updates. Each of them is loaded by the next one, and raises the version. -/
theorem Updates.load_eq (h : store.Updates name files written files')
    (hwritable : store.Writable files holder name)
    (hload : store.load files name = .ok current)
    (hback : ∀ stored ∈ written, store.format.ReadsBack stored) :
    store.Writable files' holder name ∧
      store.load files' name = .ok (written.getLastD current) ∧
      (written.getLastD current).version = current.version + UInt64.ofNat written.length := by
  induction h generalizing current with
  | nil files => exact ⟨hwritable, hload, by simp⟩
  | elsewhere untouched rest ih =>
    refine ih (hwritable.of_untouched untouched) ?_ hback
    rw [untouched.load_eq, hload]
  | @cons world world' w stored after written update named rest ih =>
    rw [List.forall_mem_cons] at hback
    obtain ⟨found, hfound, hversion, hstored, hnext, _⟩ := store.update_ok update
    obtain rfl : w.name = name := by rw [← named, hstored]
    obtain rfl := Except.ok.inj (hload.symm.trans hfound)
    obtain ⟨hwritable', hload', hversion'⟩ :=
      ih (hwritable.of_update_ok update) (hnext hback.1) hback.2
    rw [List.getLastD_cons]
    refine ⟨hwritable', hload', ?_⟩
    calc (written.getLastD stored).version
        = w.version + 1 + UInt64.ofNat written.length := by rw [hversion', hstored]
      _ = current.version + (UInt64.ofNat written.length + 1) := by
          rw [hversion, UInt64.add_assoc, UInt64.add_comm 1]
      _ = current.version + UInt64.ofNat (stored :: written).length := by
          rw [List.length_cons, UInt64.ofNat_add]
          rfl

end Updates

section Attempts

theorem Disturbed.load_eq {call : Call σ} (h : store.Disturbed name change written call)
    (hwritable : store.Writable call.before.1.files holder name)
    (hload : store.load call.before.1.files name = .ok call.seen) :
    store.Writable (call.after change).1.files holder name ∧
      store.load (call.after change).1.files name = .ok (written.getLastD call.seen) ∧
      (written.getLastD call.seen).version =
        call.seen.version + UInt64.ofNat written.length :=
  h.updates.load_eq hwritable hload h.readsBack

variable (hwritable : store.Writable start.1.files holder name)
  (hload : store.load start.1.files name = .ok first)

include hwritable hload

theorem attempt_of_undisturbed (h : store.Disturbed name change [] ⟨first, start⟩) :
    ∃ w world, Call.answer change ⟨first, start⟩ = .ok w ∧ w.version = first.version ∧
      store.attempt name change start = (.ok { w with version := w.version + 1 }, false,
        (world, (Call.after change ⟨first, start⟩).2)) ∧
      world.log = (Call.after change ⟨first, start⟩).1.log ++ [updatedLine name (first.version + 1)] ∧
      store.load world.files name = .ok { w with version := w.version + 1 } := by
  obtain ⟨hwritable', hload', _⟩ := h.load_eq hwritable hload
  obtain ⟨w, hanswer, hname, hversion, hreplicas⟩ := h.changed
  subst hname
  obtain ⟨⟨content, hcontent⟩, hback⟩ := h.keeps rfl w hanswer
  obtain ⟨files', hupdate⟩ := hwritable'.update_eq hload' hversion.symm hreplicas hcontent
  obtain ⟨_, _, _, _, hstored, _⟩ := store.update_ok hupdate
  refine ⟨w, _, hanswer, hversion, ?_, ?_, hstored hback⟩
  · cases happly : change first start with
    | mk answer between =>
      simp only [Call.answer, Call.after, happly] at hanswer hupdate ⊢
      simp only [attempt, hload, happly, hanswer, hupdate]
  · rw [← hversion]

theorem attempt_of_disturbed (h : store.Disturbed name change written ⟨first, start⟩)
    (hsome : written ≠ []) (hcount : written.length < 2 ^ 64) :
    store.attempt name change start =
      (.error (.store (.conflict name first.version (written.getLastD first).version)), true,
        ((Call.after change ⟨first, start⟩).1.note
          [conflictLine name first.version (written.getLastD first).version],
          (Call.after change ⟨first, start⟩).2)) := by
  obtain ⟨_, hload', hversion'⟩ := h.load_eq hwritable hload
  obtain ⟨w, hanswer, hname, hversion, hreplicas⟩ := h.changed
  subst hname
  have hne : (written.getLastD first).version ≠ first.version := by
    rw [hversion']
    exact ne_add_ofNat (by simpa using hsome) hcount first.version
  have hupdate := store.update_of_version_ne hload' (by rwa [hversion]) hreplicas
  cases happly : change first start with
  | mk answer between =>
    simp only [Call.answer, Call.after, happly] at hanswer hupdate hload' ⊢
    simp only [attempt, hload, happly, hanswer, hupdate, hversion]
    simp only [isOvertaken, StoreError.isUnreachable, World.note, hload', hne, Bool.false_eq_true,
      if_false, ne_eq, not_false_eq_true, decide_true]

end Attempts

section Calls

theorem attempts_recorded_last (hload : store.load start.1.files name = .ok first)
    {last : World × σ} (hattempt : store.attempt name change start = (answer, false, last))
    (retries : ℤ) (left number : ℕ) (earlier : List (Call σ)) :
    store.attempts name change.recorded retries (left + 1) number (start.1, (start.2, earlier)) =
      (answer, (last.1, (last.2, earlier ++ [⟨first, start⟩]))) := by
  simp only [attempts, attempt_recorded, hattempt, hload]

theorem attempts_recorded_retry (hload : store.load start.1.files name = .ok first)
    {last : World × σ} (hattempt : store.attempt name change start = (answer, true, last))
    (retries : ℤ) (left number : ℕ) (earlier : List (Call σ)) :
    store.attempts name change.recorded retries (left + 1) number (start.1, (start.2, earlier)) =
      store.attempts name change.recorded retries left (number + 1)
        (last.1.note [retryLine name number], (last.2, earlier ++ [⟨first, start⟩])) := by
  simp only [attempts, attempt_recorded, hattempt, hload]
  rfl

theorem attempts_recorded_head (hload : store.load start.1.files name = .ok first)
    (h : store.attempts name change.recorded retries (left + 1) number
      (start.1, (start.2, earlier)) = (answer, (final.1, (final.2, earlier ++ calls)))) :
    ∃ rest, calls = ⟨first, start⟩ :: rest := by
  cases hattempt : store.attempt name change start with
  | mk found state =>
    obtain ⟨again, last⟩ := state
    cases again with
    | false =>
      rw [attempts_recorded_last hload hattempt] at h
      simp only [Prod.mk.injEq, List.append_cancel_left_eq] at h
      exact ⟨[], h.2.2.2.symm⟩
    | true =>
      rw [attempts_recorded_retry hload hattempt] at h
      obtain ⟨rest, hrest, _, _⟩ := @attempts_trace ε σ store name change retries left
        (number + 1) (last.1.note [retryLine name number], last.2) (earlier ++ [⟨first, start⟩])
      rw [hrest] at h
      simp only [Prod.mk.injEq, List.append_assoc, List.append_cancel_left_eq] at h
      exact ⟨rest, h.2.2.2.symm⟩

variable (hload : store.load start.1.files name = .ok first)
  (hwritable : store.Writable start.1.files holder name)

include hload hwritable

theorem contended_of_undisturbed (h : store.Disturbed name change [] ⟨first, start⟩)
    (hrun : store.attempts name change.recorded retries (left + 1) number
      (start.1, (start.2, earlier)) = (answer, (final.1, (final.2, earlier ++ calls)))) :
    store.Contended name change retries left number first [] start calls answer final := by
  obtain ⟨w, world, hanswer, hversion, hattempt, hlog, hstored⟩ :=
    attempt_of_undisturbed hwritable hload h
  rw [attempts_recorded_last hload hattempt] at hrun
  simp only [Prod.mk.injEq, List.append_cancel_left_eq] at hrun
  obtain ⟨rfl, rfl, _, rfl⟩ := hrun
  constructor
  case length => simp
  case head => rfl
  case seen =>
    intro i call hcall
    obtain ⟨rfl, rfl⟩ := eq_zero_of_getElem?_singleton hcall
    rfl
  case log =>
    intro i call hcall
    obtain ⟨rfl, rfl⟩ := eq_zero_of_getElem?_singleton hcall
    exact hlog
  case stored =>
    intro _
    exact ⟨_, rfl, rfl, w, hanswer, by simpa using hversion, rfl, hstored⟩
  case gaveUp => exact fun hleft => absurd hleft (Nat.not_lt_zero left)

theorem attempts_recorded_of_disturbed (h : store.Disturbed name change written ⟨first, start⟩)
    (hsome : written ≠ []) (hcount : written.length < 2 ^ 64) (retries : ℤ) (left number : ℕ)
    (earlier : List (Call σ)) :
    store.attempts name change.recorded retries (left + 1) number (start.1, (start.2, earlier)) =
      let next := Call.conflicted name change number (written.getLastD first).version ⟨first, start⟩
      store.attempts name change.recorded retries left (number + 1)
        (next.1, (next.2, earlier ++ [⟨first, start⟩])) := by
  rw [attempts_recorded_retry hload (attempt_of_disturbed hwritable hload h hsome hcount)]
  simp only [Call.conflicted, World.note, List.append_assoc, List.cons_append, List.nil_append]

theorem contended_of_exhausted {others : List Workload} {written : List (List Workload)}
    (h : store.Disturbed name change others ⟨first, start⟩) (hsome : others ≠ [])
    (hcount : others.length < 2 ^ 64)
    (hrun : store.attempts name change.recorded retries 1 number
      (start.1, (start.2, earlier)) = (answer, (final.1, (final.2, earlier ++ calls)))) :
    store.Contended name change retries 0 number first (others :: written) start calls answer
      final := by
  have hloaded := (h.load_eq hwritable hload).2.1
  rw [attempts_recorded_of_disturbed hload hwritable h hsome hcount] at hrun
  simp only [attempts, Prod.mk.injEq, List.append_cancel_left_eq] at hrun
  obtain ⟨rfl, hfinal, _, rfl⟩ := hrun
  constructor
  case length => simp
  case head => rfl
  case seen =>
    intro i call hcall
    obtain ⟨rfl, rfl⟩ := eq_zero_of_getElem?_singleton hcall
    rfl
  case log =>
    intro i call hcall
    obtain ⟨rfl, rfl⟩ := eq_zero_of_getElem?_singleton hcall
    change final.1.log = _
    rw [← hfinal]
    rfl
  case stored => exact fun hleft => absurd hleft (by simp)
  case gaveUp =>
    intro _
    refine ⟨rfl, by rw [← hfinal]; rfl, ?_⟩
    rw [← hfinal]
    simpa [Call.conflicted, World.note] using hloaded

end Calls

theorem Contended.cons {others : List Workload} {written : List (List Workload)}
    (h : store.Contended name change retries left (number + 1) (others.getLastD first) written
      (Call.conflicted name change number (others.getLastD first).version ⟨first, start⟩) calls
      answer final)
    (hversion : (others.getLastD first).version =
      first.version + UInt64.ofNat others.length) :
    store.Contended name change retries (left + 1) number first (others :: written) start
      (⟨first, start⟩ :: calls) answer final := by
  constructor
  case length =>
    rw [List.length_cons, List.length_cons, h.length]
    omega
  case head => rfl
  case seen =>
    intro i call hcall
    cases i with
    | zero => rw [← Option.some.inj hcall]; rfl
    | succ i =>
      rw [h.seen i call hcall, List.take_succ_cons, List.flatten_cons, getLastD_append]
  case log =>
    intro i call hcall
    cases i with
    | zero =>
      rw [← Option.some.inj hcall, List.getElem?_cons_succ, ← List.head?_eq_getElem?, h.head]
      rfl
    | succ i =>
      have hlater := h.log i call hcall
      rw [Nat.add_assoc, Nat.add_comm 1] at hlater
      exact hlater
  case stored =>
    intro hleft
    obtain ⟨call, hcall, hseen, w, hanswer, hw, hstored⟩ := h.stored (by simpa using hleft)
    refine ⟨call, ?_, ?_, w, hanswer, ?_, hstored⟩
    · rw [List.getLast?_cons, Option.mem_def.1 hcall]
      rfl
    · rw [hseen, List.flatten_cons, getLastD_append]
    · rw [hw, hversion, List.flatten_cons, List.length_append, UInt64.ofNat_add, UInt64.add_assoc]
  case gaveUp =>
    intro hleft
    obtain ⟨hanswer, hfiles, hloaded⟩ := h.gaveUp (by simpa using hleft)
    refine ⟨hanswer, ?_, ?_⟩
    · rw [hfiles, leftBy, leftBy, List.getLast?_cons]
      cases hlast : calls.getLast? with
      | none =>
        rw [List.getLast?_eq_none_iff.1 hlast] at h
        cases h.head
      | some call => rfl
    · rw [List.take_succ_cons, List.flatten_cons, getLastD_append, hloaded]

/-- By induction on the conflicts. Each of them makes what the others have stored last the object
that the next attempt starts from, if there may be one. -/
theorem contended_of_attempts {written : List (List Workload)}
    (hload : store.load start.1.files name = .ok first)
    (hwritable : store.Writable start.1.files holder name)
    (hwritten : ∀ others ∈ written, others ≠ [] ∧ others.length < 2 ^ 64)
    (hrun : store.attempts name change.recorded retries (left + 1) number
      (start.1, (start.2, earlier)) = (answer, (final.1, (final.2, earlier ++ calls))))
    (hcalls : ∀ (i : ℕ) call, calls[i]? = some call →
      store.Disturbed name change (written[i]?.getD []) call) :
    store.Contended name change retries left number first written start calls answer final := by
  obtain ⟨rest, rfl⟩ := attempts_recorded_head hload hrun
  induction written generalizing left number start first earlier rest with
  | nil => exact contended_of_undisturbed hload hwritable (hcalls 0 _ rfl) hrun
  | cons others written ih =>
    have hfirst : store.Disturbed name change others ⟨first, start⟩ := hcalls 0 _ rfl
    obtain ⟨hsome, hcount⟩ := hwritten others List.mem_cons_self
    cases left with
    | zero => exact contended_of_exhausted hload hwritable hfirst hsome hcount hrun
    | succ left =>
      obtain ⟨hwritable', hload', hversion⟩ := hfirst.load_eq hwritable hload
      have hnext : store.load (Call.conflicted name change number (others.getLastD first).version
          ⟨first, start⟩).1.files name = .ok (others.getLastD first) := hload'
      rw [attempts_recorded_of_disturbed hload hwritable hfirst hsome hcount,
        List.append_cons earlier _ rest] at hrun
      have hlater (i : ℕ) (call : Call σ) (hcall : rest[i]? = some call) :
          store.Disturbed name change (written[i]?.getD []) call := hcalls (i + 1) call hcall
      obtain ⟨last, rfl⟩ := attempts_recorded_head hnext hrun
      have hrest := ih hnext hwritable'
        (fun others' h => hwritten others' (List.mem_cons_of_mem _ h)) last hrun hlater
      exact hrest.cons hversion

/-- A modification whose first calls are disturbed, `written.length` of them, and whose other ones
are not. The format reads back what the others store, and keeps what an undisturbed call leaves. -/
theorem modify_under_contention (store : Store) (hplain : IsPlain store.directory) (name : Text)
    (change : Change ε σ) (retries : ℕ) (start : World × σ) (first : Workload)
    (hload : store.load start.1.files name = .ok first)
    (hopen : start.1.files.CanOpen (store.draft name))
    (hrename : store.RenamesDraft start.1.files name) (written : List (List Workload))
    (hwritten : ∀ others ∈ written, others ≠ [] ∧ others.length < 2 ^ 64)
    (answer : Except (ModifyError ε) Workload) (final : World × σ) (calls : List (Call σ))
    (hrun : store.modify name change.recorded retries (start.1, (start.2, [])) =
      (answer, (final.1, (final.2, calls))))
    (hcalls : ∀ (i : ℕ) call, calls[i]? = some call →
      store.Disturbed name change (written[i]?.getD []) call) :
    store.modify name change retries start = (answer, final) ∧
      store.Contended name change retries retries 1 first written start calls answer final := by
  obtain ⟨holder, hwritable⟩ := writable_of_load hplain hload hopen hrename
  have hleft : ((retries : ℤ) + 1).toNat = retries + 1 := by omega
  unfold modify at hrun ⊢
  rw [hleft] at hrun ⊢
  refine ⟨?_, contended_of_attempts hload hwritable hwritten hrun hcalls⟩
  obtain ⟨recorded, hrecorded, _, _⟩ := @attempts_trace ε σ store name change retries
    (retries + 1) 1 start []
  rw [hrun] at hrecorded
  simp only [Prod.mk.injEq] at hrecorded
  obtain ⟨hanswer, hworld, hkept, _⟩ := hrecorded
  exact (Prod.ext hanswer (Prod.ext hworld hkept)).symm

/-- The first call is disturbed once. -/
theorem modify_under_contention_once :
    let store : Store := ⟨"/objects", Block.format "no block notation"⟩
    let start : World × ℕ := ((store.create ⟨Files.empty [], []⟩ ⟨"web", 0, 0, none⟩).2, 0)
    let change : Change Unit ℕ := fun w (world, count) =>
      (.ok { w with replicas := 3 },
        (if count = 0 then (store.update world { w with replicas := 2 }).2 else world, count + 1))
    ∃ first other answer final calls, store.load start.1.files "web" = .ok first ∧
      store.modify "web" change.recorded 1 (start.1, (start.2, [])) =
        (answer, (final.1, (final.2, calls))) ∧
      (∀ (i : ℕ) call, calls[i]? = some call →
        store.Disturbed "web" change ([[other]][i]?.getD []) call) ∧
      store.modify "web" change 1 start = (answer, final) ∧
      store.Contended "web" change 1 1 1 first [[other]] start calls answer final := by
  intro store start change
  have hdisturbed (w : Workload) (world : World) :
      (change w (world, 0)).2.1 = (store.update world { w with replicas := 2 }).2 := rfl
  have hquiet (w : Workload) (state : World × ℕ) (h : state.2 ≠ 0) :
      (change w state).2.1 = state.1 := if_neg h
  have hplain : IsPlain store.directory := isPlain_of_all (by decide) (by decide)
  have hkeeps (w : Workload) : store.format.Keeps w := Block.keeps "no block notation" w
  have hsome : (store.load start.1.files "web").toOption.isSome = true := by decide +kernel
  obtain ⟨first, hfirst⟩ := Option.isSome_iff_exists.1 hsome
  have hload := eq_ok_of_toOption hfirst
  have hname : first.name = "web" := store.name_of_load hload
  have hopen : start.1.files.CanOpen (store.draft "web") := by decide +kernel
  have hrename : store.RenamesDraft start.1.files "web" := by
    have hholder : start.1.files.IsDirectory store.directory ["objects"] :=
      ⟨hplain, by decide +kernel, by decide +kernel⟩
    rw [store.renamesDraft_iff hholder (by decide) hopen]
    decide +kernel
  obtain ⟨holder, hwritable⟩ := writable_of_load hplain hload hopen hrename
  have htwo : 0 ≤ (2 : Int32).toInt := by decide
  have hthree : 0 ≤ (3 : Int32).toInt := by decide
  rw [← hname] at hwritable
  have hload' : store.load start.1.files first.name = .ok first := by rw [hname, hload]
  obtain ⟨content, hcontent⟩ :=
    (hkeeps { first with replicas := 2, version := first.version + 1 }).1
  obtain ⟨files', hupdate⟩ := Writable.update_eq (w := { first with replicas := 2 }) hwritable
    hload' rfl htwo hcontent
  obtain ⟨calls, hrun, _, htrace⟩ := @attempts_trace Unit ℕ store "web" change 1 2 1 start []
  have hcalls (i : ℕ) (call : Call ℕ) (hcall : calls[i]? = some call) :
      store.Disturbed "web" change
        ([[{ first with replicas := 2, version := first.version + 1 }]][i]?.getD []) call := by
    have hseen := htrace.fresh call (List.mem_of_getElem? hcall)
    have hnamed : call.seen.name = "web" := store.name_of_load hseen
    refine ⟨?_, ⟨_, rfl, hnamed, rfl, hthree⟩, fun w _ => (hkeeps w).2, fun _ _ _ => hkeeps _⟩
    cases i with
    | zero =>
      have hstart := htrace.first call (by rwa [Option.mem_def, List.head?_eq_getElem?])
      rw [hstart] at hseen
      have hfirst : call.seen = first := Except.ok.inj (hseen.symm.trans hload)
      have hafter : (call.after change).1 =
          (store.update start.1 { first with replicas := 2 }).2 := by
        rw [Call.after, hstart, hfirst]
        exact hdisturbed first start.1
      rw [hafter, hupdate, hstart]
      exact .cons hupdate hname (.nil _)
    | succ i =>
      -- The calls have been counted, so that the later ones leave the object alone.
      obtain ⟨hlength, hlater⟩ := List.getElem?_eq_some_iff.1 hcall
      have hcount : call.before.2 ≠ 0 := by
        rw [← hlater, (htrace.retried.getElem i hlength).kept]
        exact Nat.succ_ne_zero _
      rw [Call.after, hquiet call.seen call.before hcount]
      exact .nil _
  obtain ⟨hmodify, hcontended⟩ := modify_under_contention store hplain "web" change 1 start first
    hload hopen hrename [[_]] (by simp) _ _ calls hrun hcalls
  exact ⟨first, _, _, _, calls, hload, hrun, hcalls, hmodify, hcontended⟩

/-- A directory bears the name of the object's file, the path of the store is cut off at a NUL byte,
or it is empty. -/
theorem modify_unwritable_objects :
    let scale : Change Unit Unit := fun w state => (.ok { w with replicas := 2 }, state)
    let format := Block.format "no block notation"
    let written (path : Path) : Files := ((Files.empty []).write? path []).getD (Files.empty [])
    ∀ odd ∈ [(Store.mk "/objects" format, ((Files.empty []).makeDirectories "/objects/web.yaml").2),
        (Store.mk (("s" : Text) ++ 0 :: ("t" : Text)) format, written "s"),
        (Store.mk [] format, written "web.yaml")],
      (∃ first, odd.1.load odd.2 "web" = .ok first) ∧ odd.2.CanOpen (odd.1.draft "web") ∧
        ∃ e after, odd.1.modify "web" scale 3 (⟨odd.2, []⟩, ()) = (.error e, after) := by
  intro scale format written odd hodd
  have hfacts : (odd.1.load odd.2 "web").toOption.isSome = true ∧
      odd.2.CanOpen (odd.1.draft "web") ∧
      (odd.1.modify "web" scale 3 (⟨odd.2, []⟩, ())).1.isOk = false := by
    revert odd
    decide +kernel
  obtain ⟨hload, hopen, hanswer⟩ := hfacts
  obtain ⟨first, hfirst⟩ := Option.isSome_iff_exists.1 hload
  refine ⟨⟨first, eq_ok_of_toOption hfirst⟩, hopen, ?_⟩
  cases hmodify : odd.1.modify "web" scale 3 (⟨odd.2, []⟩, ()) with
  | mk answer after =>
    cases answer with
    | ok stored => rw [hmodify] at hanswer; cases hanswer
    | error e => exact ⟨e, after, rfl⟩

end StableOrdinals.Store
