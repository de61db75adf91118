import Mathlib.Data.List.Forall2
import StableOrdinals.Ordinal.Notation

/-!
# Entered ordinals

`IsRuns` relates a text to its maximal runs of bytes that are no separators, in the order in which
they stand. Each text has exactly one such list of runs, which is the list of its words
(`words_eq_iff`).

`readOrdinals?` goes through a text once, from its first byte to its last. The bytes of a word that
has not ended are pending; a separator ends it, and so does the end of the text. By induction on the
text, with any word pending, it reads what is read from the words.

What is entered is read run by run, all or nothing, and separators at the ends, or more than one in
a row, make no difference: `entered_run_by_run`.
-/

namespace StableOrdinals.Text

section Words

variable {sep : Byte → Bool} {s t gap run rest : Text} {runs : List Text}

theorem words_append_cons {c : Byte} (h : sep c = true) (s t : Text) :
    words sep (s ++ c :: t) = words sep s ++ words sep t := by
  rw [words, split_append_cons h, List.filter_append]
  rfl

theorem words_cons {c : Byte} (h : sep c = true) (s : Text) : words sep (c :: s) = words sep s := by
  rw [words, split_cons_of_sep h]
  rfl

theorem words_of_forall (hne : run ≠ []) (h : ∀ c ∈ run, sep c = false) : words sep run = [run] := by
  rw [words, split_of_forall h]
  simp [hne]

theorem words_gap_append (h : ∀ c ∈ gap, sep c = true) (s : Text) :
    words sep (gap ++ s) = words sep s := by
  induction gap with
  | nil => rfl
  | cons c gap ih =>
    rw [List.forall_mem_cons] at h
    rw [List.cons_append, words_cons h.1, ih h.2]

theorem words_of_gap (h : ∀ c ∈ gap, sep c = true) : words sep gap = [] := by
  rw [← List.append_nil gap, words_gap_append h]
  rfl

theorem words_append_of_head? (h : ∀ c ∈ rest.head?, sep c = true) (s : Text) :
    words sep (s ++ rest) = words sep s ++ words sep rest := by
  cases rest with
  | nil => rw [List.append_nil]; exact (List.append_nil _).symm
  | cons c rest =>
    have hc := h c rfl
    rw [words_append_cons hc, words_cons hc]

theorem words_append_gap (h : ∀ c ∈ gap, sep c = true) (s : Text) :
    words sep (s ++ gap) = words sep s := by
  rw [words_append_of_head? (fun c hc => h c (List.mem_of_mem_head? hc)), words_of_gap h,
    List.append_nil]

theorem words_join {glue : Text} (hne : glue ≠ []) (h : ∀ c ∈ glue, sep c = true)
    (pieces : List Text) : words sep (join glue pieces) = pieces.flatMap (words sep) := by
  induction pieces with
  | nil => rfl
  | cons piece pieces ih =>
    cases pieces with
    | nil => simp [join]
    | cons next pieces =>
      have hjoin : join glue (piece :: next :: pieces) =
          piece ++ (glue ++ join glue (next :: pieces)) := by
        simp only [join, List.intercalate_cons_cons, List.append_assoc]
      have hhead : ∀ c ∈ (glue ++ join glue (next :: pieces)).head?, sep c = true := by
        rw [List.head?_append_of_ne_nil _ hne]
        exact fun c hc => h c (List.mem_of_mem_head? hc)
      rw [hjoin, words_append_of_head? hhead, words_gap_append h, ih]
      rfl

/-- The maximal runs of bytes that are no separators, in order. Only separators stand in front of a
run and behind the last one, and a run goes on up to the next separator or to the end. -/
inductive IsRuns (sep : Byte → Bool) : Text → List Text → Prop
  | nil {gap : Text} (blank : ∀ c ∈ gap, sep c = true) : IsRuns sep gap []
  | cons {gap run rest : Text} {runs : List Text} (blank : ∀ c ∈ gap, sep c = true)
      (ne_nil : run ≠ []) (solid : ∀ c ∈ run, sep c = false) (ends : ∀ c ∈ rest.head?, sep c = true)
      (others : IsRuns sep rest runs) : IsRuns sep (gap ++ run ++ rest) (run :: runs)

theorem IsRuns.words_eq (h : IsRuns sep s runs) : words sep s = runs := by
  induction h with
  | nil blank => exact words_of_gap blank
  | cons blank ne_nil solid ends others ih =>
    rw [words_append_of_head? ends, words_gap_append blank, words_of_forall ne_nil solid, ih]
    rfl

theorem IsRuns.cons_sep {c : Byte} (hc : sep c = true) (h : IsRuns sep s runs) :
    IsRuns sep (c :: s) runs := by
  cases h with
  | nil blank => exact .nil (List.forall_mem_cons.2 ⟨hc, blank⟩)
  | @cons gap run rest runs blank ne_nil solid ends others =>
    change IsRuns sep ((c :: gap) ++ run ++ rest) (run :: runs)
    exact .cons (List.forall_mem_cons.2 ⟨hc, blank⟩) ne_nil solid ends others

theorem IsRuns.cons_byte {c : Byte} (hc : sep c = false) (h : IsRuns sep s runs) :
    ∃ next, IsRuns sep (c :: s) next := by
  by_cases hs : ∀ d ∈ s.head?, sep d = true
  · refine ⟨[c] :: runs, ?_⟩
    change IsRuns sep ([] ++ [c] ++ s) ([c] :: runs)
    exact .cons (List.forall_mem_nil _) (List.cons_ne_nil _ _) (List.forall_mem_singleton.2 hc) hs h
  · cases h with
    | nil blank => exact absurd (fun d hd => blank d (List.mem_of_mem_head? hd)) hs
    | @cons gap run rest runs blank ne_nil solid ends others =>
      cases gap with
      | nil =>
        refine ⟨(c :: run) :: runs, ?_⟩
        change IsRuns sep ([] ++ (c :: run) ++ rest) ((c :: run) :: runs)
        exact .cons (List.forall_mem_nil _) (List.cons_ne_nil _ _) (List.forall_mem_cons.2 ⟨hc, solid⟩)
          ends others
      | cons d gap =>
        refine absurd ?_ hs
        rintro e ⟨⟩
        exact blank d List.mem_cons_self

theorem exists_isRuns (sep : Byte → Bool) (s : Text) : ∃ runs, IsRuns sep s runs := by
  induction s with
  | nil => exact ⟨[], .nil (List.forall_mem_nil _)⟩
  | cons c s ih =>
    obtain ⟨runs, h⟩ := ih
    cases hc : sep c with
    | true => exact ⟨runs, h.cons_sep hc⟩
    | false => exact h.cons_byte hc

theorem words_eq_iff : words sep s = runs ↔ IsRuns sep s runs := by
  refine ⟨?_, IsRuns.words_eq⟩
  rintro rfl
  obtain ⟨runs, h⟩ := exists_isRuns sep s
  rwa [h.words_eq]

end Words

theorem mapM_eq_some_iff_forall₂ {α β : Type} {f : α → Option β} {as : List α} {bs : List β} :
    as.mapM f = some bs ↔ List.Forall₂ (fun a b => f a = some b) as bs := by
  induction as generalizing bs with
  | nil => simp [eq_comm]
  | cons a as ih =>
    rw [List.mapM_cons, List.forall₂_cons_left_iff]
    cases f a with
    | none => simp
    | some b =>
      cases hrest : as.mapM f with
      | none => simp [← ih, hrest]
      | some rest => simp [← ih, hrest, eq_comm]

theorem mapM_eq_none_iff {α β : Type} {f : α → Option β} {as : List α} :
    as.mapM f = none ↔ ∃ a ∈ as, f a = none := by
  induction as with
  | nil => simp
  | cons a as ih =>
    rw [List.mapM_cons, List.exists_mem_cons_iff, ← ih]
    cases f a with
    | none => simp
    | some b => cases as.mapM f <;> simp

/-- What has been read of a text: ordinals, and the bytes of a word that has not ended. -/
structure Reading where
  ordinals : List Ordinal
  pending : Text

namespace Reading

def flush? (reading : Reading) : Option Reading :=
  if reading.pending = [] then some reading
  else (enteredInt32? reading.pending).map fun o => ⟨reading.ordinals ++ [o], []⟩

def absorb? (reading : Reading) (c : Byte) : Option Reading :=
  if isOrdinalSeparator c then reading.flush?
  else some { reading with pending := reading.pending ++ [c] }

end Reading

def readOrdinals? (s : Text) : Option (List Ordinal) :=
  ((s.foldlM Reading.absorb? ⟨[], []⟩).bind Reading.flush?).map Reading.ordinals

/-- By induction on what is left of the text, with any word pending that holds no separator. -/
theorem foldlM_absorb? (s : Text) (reading : Reading)
    (h : ∀ c ∈ reading.pending, isOrdinalSeparator c = false) :
    ((s.foldlM Reading.absorb? reading).bind Reading.flush?).map Reading.ordinals =
      ((words isOrdinalSeparator (reading.pending ++ s)).mapM enteredInt32?).map
        (reading.ordinals ++ ·) := by
  obtain ⟨ordinals, pending⟩ := reading
  dsimp only at h ⊢
  induction s generalizing ordinals pending with
  | nil =>
    change (Reading.flush? ⟨ordinals, pending⟩).map Reading.ordinals = _
    rw [List.append_nil, Reading.flush?]
    by_cases hne : pending = []
    · subst hne
      rw [if_pos rfl]
      exact congrArg some (List.append_nil _).symm
    · rw [if_neg hne, words_of_forall hne h, List.mapM_cons, List.mapM_nil]
      cases enteredInt32? pending <;> rfl
  | cons c s ih =>
    rw [List.foldlM_cons, Reading.absorb?]
    by_cases hc : isOrdinalSeparator c = true
    · rw [if_pos hc, Reading.flush?]
      by_cases hne : pending = []
      · subst hne
        rw [if_pos rfl, List.nil_append, words_cons hc]
        exact ih ordinals [] (List.forall_mem_nil _)
      · rw [if_neg hne, words_append_cons hc, words_of_forall hne h, List.singleton_append,
          List.mapM_cons]
        cases enteredInt32? pending with
        | none => rfl
        | some o =>
          refine (ih (ordinals ++ [o]) [] (List.forall_mem_nil _)).trans ?_
          rw [List.nil_append]
          cases (words isOrdinalSeparator s).mapM enteredInt32? with
          | none => rfl
          | some rest => exact congrArg some (List.append_assoc ordinals [o] rest)
    · rw [if_neg hc]
      refine (ih ordinals (pending ++ [c]) ?_).trans ?_
      · intro d hd
        rcases List.mem_append.1 hd with hd | hd
        · exact h d hd
        · rw [List.mem_singleton.1 hd]
          simpa using hc
      · rw [List.append_assoc, List.singleton_append]

theorem readOrdinals?_eq (s : Text) : readOrdinals? s = enteredOrdinals? s := by
  rw [readOrdinals?, foldlM_absorb? s ⟨[], []⟩ (List.forall_mem_nil _), enteredOrdinals?]
  exact Option.map_id'

/-- Going through a text byte by byte reads what stands in its maximal runs between separators, one
ordinal in each, and fails if one of the runs is no ordinal. Separators in front, at the end or
behind another one change nothing. -/
theorem entered_run_by_run (s : Text) :
    readOrdinals? s = enteredOrdinals? s ∧
      (∃! runs, IsRuns isOrdinalSeparator s runs) ∧
      (∀ ordinals, enteredOrdinals? s = some ordinals ↔ ∃ runs, IsRuns isOrdinalSeparator s runs ∧
        List.Forall₂ (fun run o => enteredInt32? run = some o) runs ordinals) ∧
      (enteredOrdinals? s = none ↔ ∃ runs, IsRuns isOrdinalSeparator s runs ∧
        ∃ run ∈ runs, enteredInt32? run = none) ∧
      ∀ gap : Text, (∀ c ∈ gap, isOrdinalSeparator c = true) →
        enteredOrdinals? (gap ++ s) = enteredOrdinals? s ∧
          enteredOrdinals? (s ++ gap) = enteredOrdinals? s ∧
          ∀ c, isOrdinalSeparator c = true → ∀ t,
            enteredOrdinals? (s ++ c :: gap ++ t) = enteredOrdinals? (s ++ c :: t) := by
  refine ⟨readOrdinals?_eq s, ?_, ?_, ?_, ?_⟩
  · exact ⟨_, words_eq_iff.1 rfl, fun runs h => h.words_eq.symm⟩
  · intro ordinals
    simp only [← words_eq_iff, exists_eq_left', ← mapM_eq_some_iff_forall₂]
    rfl
  · simp only [← words_eq_iff, exists_eq_left', ← mapM_eq_none_iff]
    rfl
  · intro gap hgap
    refine ⟨?_, ?_, ?_⟩
    · rw [enteredOrdinals?, words_gap_append hgap]
      rfl
    · rw [enteredOrdinals?, words_append_gap hgap]
      rfl
    · intro c hc t
      have happend : s ++ c :: gap ++ t = s ++ c :: (gap ++ t) := by
        rw [List.append_assoc, List.cons_append]
      rw [enteredOrdinals?, enteredOrdinals?, happend, words_append_cons hc, words_append_cons hc,
        words_gap_append hgap]

example : enteredOrdinals? ",2\t, -4 ,,007," = some [2, -4, 7] := by decide

end StableOrdinals.Text
