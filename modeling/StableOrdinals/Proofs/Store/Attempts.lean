import Mathlib.Data.Int.Notation
import Mathlib.Data.List.Chain
import StableOrdinals.Block.Workload
import StableOrdinals.Proofs.Store.Save

/-!
# The attempts of a modification

A change may do whatever it likes to the world, the store included, and it may succeed or fail. What
a modification does by itself is told by the calls of the change: `Change.recorded` puts each of
them on a list, with the object that it was given and the state that it was called in.

The calls form a `Trace`. Each is given what is loaded under the name at that moment, and between
one call and the next nothing is written (`Unwritten`), but somebody else has stored the object
under another version. A modification that succeeds writes once, after the last call, and one that
fails writes nothing at all: `modify_writes_at_most_once`.
-/

namespace StableOrdinals.Store

variable {ε σ : Type} (store : Store) (name : Text) (change : Change ε σ)

/-- A call of a change: the object that it is given and the state that it is called in. -/
structure Call (σ : Type) where
  seen : Workload
  before : World × σ

def Call.answer (call : Call σ) : Except ε Workload := (change call.seen call.before).1

def Call.after (call : Call σ) : World × σ := (change call.seen call.before).2

/-- The change with a list of its calls beside its own state. -/
def Change.recorded : Change ε (σ × List (Call σ)) := fun w (world, (kept, calls)) =>
  let call : Call σ := ⟨w, (world, kept)⟩
  (call.answer change, ((call.after change).1, ((call.after change).2, calls ++ [call])))

/-- No object has been written: all are loaded as before, and every entry is the same, unless a
draft could not be renamed and was lost. -/
structure Unwritten (before after : Files) : Prop where
  load_eq : ∀ other, store.load after other = store.load before other
  files : after = before ∨ ∃ w : Workload,
    store.save before w = (.error (.notStored w.name), after) ∧
      store.SameButDraft before after w.name

/-- Another attempt is made. The object has been stored under another version than the one that was
seen, and not by the attempt. -/
structure Retried (call next : Call σ) : Prop where
  changed : ∃ w, call.answer change = .ok w
  unwritten : store.Unwritten (call.after change).1.files next.before.1.files
  kept : next.before.2 = (call.after change).2
  overtaken : next.seen.version ≠ call.seen.version

/-- What the call has left is stored under the next version, in place of an object of the same
version, and nothing else is stored. -/
structure Stored (call : Call σ) (stored : Workload) (final : World × σ) : Prop where
  update : ∃ w current, call.answer change = .ok w ∧
    store.load (call.after change).1.files w.name = .ok current ∧ current.version = w.version ∧
    stored = { w with version := w.version + 1 } ∧
    store.update (call.after change).1 w = (.ok stored, final.1)
  load_stored : store.format.ReadsBack stored →
    store.load final.1.files stored.name = .ok stored
  load_others : ∀ other, other ≠ stored.name →
    store.load final.1.files other = store.load (call.after change).1.files other
  kept : final.2 = (call.after change).2

def leftBy (start : World × σ) (calls : List (Call σ)) : World × σ :=
  calls.getLast?.elim start (Call.after change)

structure Trace (start : World × σ) (calls : List (Call σ))
    (answer : Except (ModifyError ε) Workload) (final : World × σ) : Prop where
  fresh : ∀ call ∈ calls, store.load call.before.1.files name = .ok call.seen
  first : ∀ call ∈ calls.head?, call.before = start
  retried : calls.IsChain (store.Retried change)
  idle : calls = [] → final = start
  stored : ∀ w, answer = .ok w → ∃ call ∈ calls.getLast?, store.Stored change call w final
  failed : ∀ e, answer = .error e →
    store.Unwritten (leftBy change start calls).1.files final.1.files

variable {store name change}
variable {files files' : Files} {w current : Workload} {world world' : World}
  {start after final : World × σ} {call : Call σ} {calls : List (Call σ)}
  {answer : Except (ModifyError ε) Workload}

theorem unwritten_refl (files : Files) : store.Unwritten files files :=
  ⟨fun _ => rfl, Or.inl rfl⟩

/-- Saving an object that is there fails before anything is written, or because a directory bears
the name of its file. -/
theorem save_error_cases {e : StoreError} (hsave : store.save files w = (.error e, files'))
    (hload : store.load files w.name = .ok current) : files' = files ∨ e = .notStored w.name := by
  by_cases hplain : Path.IsPlain store.directory
  · have hname := store.isValidName_of_load hload
    obtain ⟨holder, h⟩ := store.isDirectory_of_load hplain hload
    cases hcontent : w.render store.format with
    | error cause =>
      rw [store.save_of_notEncoded h hcontent] at hsave
      exact Or.inl (Prod.mk.inj hsave).2.symm
    | ok content =>
      by_cases hdraft : store.CanDraft files holder w.name
      · by_cases hdirectory : files.at? (fileLeaf w.name :: holder) = some .directory
        · obtain ⟨lost, hlost, _⟩ := store.save_of_directory h hname hcontent hdraft hdirectory
          rw [hsave] at hlost
          exact Or.inr (Except.error.inj (Prod.mk.inj hlost).1)
        · obtain ⟨stored, hstored, _⟩ := store.save_file h hname hcontent hdraft hdirectory
          rw [hsave] at hstored
          cases hstored
      · rw [store.save_of_not_canDraft h hname hcontent hdraft] at hsave
        exact Or.inl (Prod.mk.inj hsave).2.symm
  · obtain ⟨cause, hcause⟩ := store.save_of_not_plain hplain hload
    rw [hcause] at hsave
    exact Or.inl (Prod.mk.inj hsave).2.symm

theorem unwritten_of_update {e : StoreError} (h : store.update world w = (.error e, world')) :
    store.Unwritten world.files world'.files := by
  obtain ⟨hdraft, hothers⟩ := store.update_error h
  refine ⟨hothers, ?_⟩
  rcases store.update_cases world w with
    ⟨_, hfiles⟩ | ⟨current, next, hload, _, rfl, hanswer, hfiles⟩
  · rw [h] at hfiles
    exact Or.inl hfiles
  · rw [h] at hanswer hfiles
    cases hsave : store.save world.files { w with version := w.version + 1 } with
    | mk saved files' =>
      rw [hsave] at hanswer hfiles
      cases saved with
      | ok _ => cases hanswer
      | error cause =>
        rcases save_error_cases hsave hload with hsame | rfl
        · exact Or.inl (hfiles.trans hsame)
        · refine Or.inr ⟨{ w with version := w.version + 1 }, ?_, hdraft⟩
          rw [hsave, hfiles]

theorem stored_of_update {stored : Workload} (hanswer : call.answer change = .ok w)
    (hupdate : store.update (call.after change).1 w = (.ok stored, final.1))
    (hkept : final.2 = (call.after change).2) : store.Stored change call stored final := by
  obtain ⟨current, hload, hversion, rfl, hstored, hothers⟩ := store.update_ok hupdate
  exact ⟨⟨w, current, hanswer, hload, hversion, rfl, hupdate⟩, hstored, hothers, hkept⟩

theorem attempt_of_load_error (change : Change ε σ) {e : StoreError}
    (h : store.load start.1.files name = .error e) :
    store.attempt name change start = (.error (.store e), false, start) := by
  simp only [attempt, h]

/-- An attempt that has loaded the object calls the change once. It writes once or not at all, and
asks for another attempt only if somebody else has written. -/
theorem attempt_of_load (change : Change ε σ)
    (hload : store.load start.1.files name = .ok w) :
    (∃ stored after, store.attempt name change start = (.ok stored, false, after) ∧
        store.Stored change ⟨w, start⟩ stored after) ∨
      ∃ e again after, store.attempt name change start = (.error e, again, after) ∧
        store.Unwritten (Call.after change ⟨w, start⟩).1.files after.1.files ∧
        after.2 = (Call.after change ⟨w, start⟩).2 ∧
        (again = true → (∃ w', Call.answer change ⟨w, start⟩ = .ok w') ∧
          ∃ latest, store.load after.1.files name = .ok latest ∧ latest.version ≠ w.version) := by
  cases hchange : change w start with
  | mk answer between =>
    have hafter : Call.after change ⟨w, start⟩ = between := congrArg Prod.snd hchange
    have hanswer : Call.answer change ⟨w, start⟩ = answer := congrArg Prod.fst hchange
    rw [hafter]
    cases answer with
    | error e =>
      refine Or.inr ⟨.refused e, false, between, ?_, unwritten_refl _, rfl, nofun⟩
      simp only [attempt, hload, hchange]
    | ok w' =>
      cases hupdate : store.update between.1 w' with
      | mk updated world =>
        cases updated with
        | ok stored =>
          refine Or.inl ⟨stored, (world, between.2), ?_, stored_of_update hanswer ?_ ?_⟩
          · simp only [attempt, hload, hchange, hupdate]
          · rw [hafter]
            exact hupdate
          · rw [hafter]
        | error e =>
          refine Or.inr ⟨.store e, store.isOvertaken world.files name w.version e,
            (world, between.2), ?_, unwritten_of_update hupdate, rfl, ?_⟩
          · simp only [attempt, hload, hchange, hupdate]
          · intro hagain
            refine ⟨⟨w', hanswer⟩, ?_⟩
            unfold isOvertaken at hagain
            cases hlatest : store.load world.files name with
            | error cause => simp [hlatest] at hagain
            | ok latest => exact ⟨latest, rfl, by simp_all⟩

theorem attempt_recorded (store : Store) (name : Text) (change : Change ε σ) (start : World × σ)
    (calls : List (Call σ)) :
    store.attempt name change.recorded (start.1, (start.2, calls)) =
      match store.attempt name change start with
      | (answer, again, after) => (answer, again, (after.1, (after.2, calls ++
          match store.load start.1.files name with
          | .ok w => [⟨w, start⟩]
          | .error _ => []))) := by
  cases hload : store.load start.1.files name with
  | error e => simp only [attempt, hload, List.append_nil]
  | ok w =>
    cases hchange : change w start with
    | mk answer between =>
      cases answer with
      | error e =>
        simp only [attempt, hload, Change.recorded, Call.answer, Call.after, hchange]
      | ok w' =>
        simp only [attempt, hload, Change.recorded, Call.answer, Call.after, hchange]
        cases store.update between.1 w' with
        | mk updated world => cases updated <;> rfl

theorem trace_nil (start : World × σ) (e : ModifyError ε) :
    store.Trace name change start [] (.error e) start where
  fresh := nofun
  first := nofun
  retried := .nil
  idle _ := rfl
  stored := nofun
  failed _ _ := unwritten_refl _

theorem trace_singleton (hload : store.load start.1.files name = .ok w)
    (hstored : ∀ stored, answer = .ok stored → store.Stored change ⟨w, start⟩ stored final)
    (hfailed : ∀ e, answer = .error e →
      store.Unwritten (Call.after change ⟨w, start⟩).1.files final.1.files) :
    store.Trace name change start [⟨w, start⟩] answer final where
  fresh := List.forall_mem_singleton.2 hload
  first _ h := Option.some.inj h ▸ rfl
  retried := .singleton _
  idle := nofun
  stored stored h := ⟨_, rfl, hstored stored h⟩
  failed := hfailed

theorem Trace.cons {next : World × σ} (h : store.Trace name change next calls answer final)
    (hload : store.load start.1.files name = .ok w)
    (hchanged : ∃ w', Call.answer change ⟨w, start⟩ = .ok w')
    (hunwritten : store.Unwritten (Call.after change ⟨w, start⟩).1.files next.1.files)
    (hkept : next.2 = (Call.after change ⟨w, start⟩).2)
    (hlatest : ∃ latest, store.load next.1.files name = .ok latest ∧ latest.version ≠ w.version) :
    store.Trace name change start (⟨w, start⟩ :: calls) answer final where
  fresh := List.forall_mem_cons.2 ⟨hload, h.fresh⟩
  first _ h := Option.some.inj h ▸ rfl
  retried := by
    refine List.isChain_cons.2 ⟨?_, h.retried⟩
    intro call hcall
    have hbefore := h.first call hcall
    have hfresh := h.fresh call (List.mem_of_mem_head? hcall)
    obtain ⟨latest, hloaded, hversion⟩ := hlatest
    refine ⟨hchanged, by rwa [hbefore], by rwa [hbefore], ?_⟩
    rw [hbefore] at hfresh
    obtain rfl := Except.ok.inj (hfresh.symm.trans hloaded)
    exact hversion
  idle := nofun
  stored stored hanswer := by
    obtain ⟨call, hcall, hstored⟩ := h.stored stored hanswer
    refine ⟨call, ?_, hstored⟩
    rw [List.getLast?_cons]
    rw [Option.mem_def] at hcall ⊢
    rw [hcall]
    rfl
  failed e hanswer := by
    have hfailed := h.failed e hanswer
    unfold leftBy at hfailed ⊢
    rw [List.getLast?_cons]
    cases hlast : calls.getLast? with
    | none =>
      rw [h.idle (List.getLast?_eq_none_iff.1 hlast)]
      exact hunwritten
    | some call =>
      rw [hlast] at hfailed
      exact hfailed

/-- By induction on the attempts that are left. The calls before stand in front on the list. -/
theorem attempts_trace (retries : ℤ) (left number : ℕ) (start : World × σ)
    (earlier : List (Call σ)) :
    ∃ calls,
      store.attempts name change.recorded retries left number (start.1, (start.2, earlier)) =
        ((store.attempts name change retries left number start).1,
          ((store.attempts name change retries left number start).2.1,
            ((store.attempts name change retries left number start).2.2, earlier ++ calls))) ∧
      calls.length ≤ left ∧
      store.Trace name change start calls (store.attempts name change retries left number start).1
        (store.attempts name change retries left number start).2 := by
  induction left generalizing number start earlier with
  | zero => exact ⟨[], by simp only [attempts, List.append_nil], le_rfl, trace_nil start _⟩
  | succ left ih =>
    have hrecorded := attempt_recorded store name change start earlier
    cases hload : store.load start.1.files name with
    | error e =>
      have hattempt := attempt_of_load_error change hload
      rw [hload, hattempt] at hrecorded
      refine ⟨[], ?_, Nat.zero_le _, ?_⟩
      · simp only [attempts, hrecorded, hattempt]
      · simp only [attempts, hattempt]
        exact trace_nil start _
    | ok w =>
      rw [hload] at hrecorded
      rcases attempt_of_load change hload with
        ⟨stored, after, hattempt, hstored⟩ |
        ⟨e, again, after, hattempt, hunwritten, hkept, hagain⟩
      · rw [hattempt] at hrecorded
        refine ⟨[⟨w, start⟩], ?_, Nat.le_add_left 1 left, ?_⟩
        · simp only [attempts, hrecorded, hattempt]
        · simp only [attempts, hattempt]
          exact trace_singleton hload (fun _ h => Except.ok.inj h ▸ hstored) nofun
      · rw [hattempt] at hrecorded
        cases again with
        | false =>
          refine ⟨[⟨w, start⟩], ?_, Nat.le_add_left 1 left, ?_⟩
          · simp only [attempts, hrecorded, hattempt]
          · simp only [attempts, hattempt]
            exact trace_singleton hload nofun fun _ _ => hunwritten
        | true =>
          obtain ⟨hchanged, hlatest⟩ := hagain rfl
          obtain ⟨calls, heq, hlength, htrace⟩ := ih (number + 1)
            (after.1.note ["[store] retrying update of " ++ name ++ " (attempt "
              ++ Text.ofNat number ++ ")"], after.2) (earlier ++ [⟨w, start⟩])
          refine ⟨⟨w, start⟩ :: calls, ?_, Nat.succ_le_succ hlength, ?_⟩
          · simp only [attempts, hrecorded, hattempt]
            simpa only [List.append_assoc, List.singleton_append] using heq
          · simp only [attempts, hattempt]
            exact htrace.cons hload hchanged hunwritten hkept hlatest

/-- A modification calls its change once for each attempt, each time on what is loaded then, and
makes another attempt only after somebody else has stored the object under another version. If it
succeeds, it has written once, after the last call, and if it fails, what is stored is what the
calls have left. -/
theorem modify_writes_at_most_once (store : Store) (name : Text) (change : Change ε σ)
    (retries : ℤ) (start : World × σ) :
    let (answer, final) := store.modify name change retries start
    ∃ calls,
      store.modify name change.recorded retries (start.1, (start.2, [])) =
        (answer, (final.1, (final.2, calls))) ∧
      calls.length ≤ (retries + 1).toNat ∧
      store.Trace name change start calls answer final :=
  attempts_trace retries (retries + 1).toNat 1 start []

/-- The change stores the object itself when it is called first, so that it is called again, on what
it has stored, and its second answer is written. -/
theorem modify_writes_at_most_once_overtaken :
    let store : Store := ⟨"/store", Block.format "no block notation"⟩
    let world := (store.create ⟨Files.empty [], []⟩ ⟨"web", 3, 0, none⟩).2
    let change : Change Unit Bool := fun w (world, again) =>
      if again then (.ok { w with replicas := 5 }, (world, true))
      else (.ok w, ((store.update world w).2, true))
    ∃ stored final calls, store.modify "web" change 3 (world, false) = (.ok stored, final) ∧
      stored.replicas = 5 ∧ stored.version = 3 ∧ calls.length = 2 ∧
      store.Trace "web" change (world, false) calls (.ok stored) final := by
  intro store world change
  have hanswer : (store.modify "web" change 3 (world, false)).1.toOption.map
      (fun stored => (stored.replicas, stored.version)) = some (5, 3) := by
    decide +kernel
  have hcalls :
      (store.modify "web" change.recorded 3 (world, (false, []))).2.2.2.length = 2 := by
    decide +kernel
  clear_value world
  have hmodify := modify_writes_at_most_once store "web" change 3 (world, false)
  cases hrun : store.modify "web" change 3 (world, false) with
  | mk answer final =>
    rw [hrun] at hanswer hmodify
    obtain ⟨calls, hrecorded, _, htrace⟩ := hmodify
    rw [hrecorded] at hcalls
    cases answer with
    | error e => cases hanswer
    | ok stored =>
      have hfields := Option.some.inj hanswer
      exact ⟨stored, final, calls, rfl, congrArg Prod.fst hfields, congrArg Prod.snd hfields, hcalls,
        htrace⟩

end StableOrdinals.Store
