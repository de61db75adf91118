import StableOrdinals.Proofs.Reservations.Grammar

/-!
# The scanner and the grammar

The scanner goes over a text by index, while the grammar speaks of the pieces that a text consists
of. What connects them is what is left of the text at an index, `s.drop i`: passing over something
takes it off the front. Each function of the scanner succeeds exactly where what is left starts with
what the function looks for, and so `isIntegerArray_iff` says that the scanner lets through what the
grammar derives.
-/

namespace StableOrdinals.Reservations

open Text

variable {p : Byte → Bool} {s rest : Text} {i j n : ℕ}

theorem drop_eq_cons_iff {c : Byte} :
    s.drop i = c :: rest ↔ s[i]? = some c ∧ s.drop (i + 1) = rest := by
  rw [← List.head?_drop, ← List.tail_drop]
  cases s.drop i <;> simp

theorem drop_skip (p : Byte → Bool) (s : Text) (i : ℕ) :
    s.drop (skip p s i) = (s.drop i).dropWhile p := by
  fun_induction skip p s i with
  | case1 i h hp ih => rw [ih, List.drop_eq_getElem_cons h, List.dropWhile_cons_of_pos hp]
  | case2 i h hp => rw [List.drop_eq_getElem_cons h, List.dropWhile_cons_of_neg hp]
  | case3 i h => rw [List.drop_of_length_le (Nat.le_of_not_lt h), List.dropWhile_nil]

theorem skip_le_length (h : i ≤ s.length) : skip p s i ≤ s.length := by
  fun_induction skip p s i with
  | case1 i hi hp ih => exact ih hi
  | case2 i hi hp => exact h
  | case3 i hi => exact h

theorem exists_drop_eq_append_skip (p : Byte → Bool) (s : Text) (i : ℕ) :
    ∃ skipped, (∀ c ∈ skipped, p c = true) ∧ s.drop i = skipped ++ s.drop (skip p s i) :=
  ⟨(s.drop i).takeWhile p, fun _ hc => List.mem_takeWhile_imp hc, by
    rw [drop_skip, List.takeWhile_append_dropWhile]⟩

theorem drop_skip_of_drop {skipped : Text} (h : s.drop i = skipped ++ rest)
    (hskipped : ∀ c ∈ skipped, p c = true) (hrest : ∀ c ∈ rest.head?, p c = false) :
    s.drop (skip p s i) = rest := by
  rw [drop_skip, h, List.dropWhile_append_of_pos hskipped]
  cases rest with
  | nil => rfl
  | cons c rest => rw [List.dropWhile_cons_of_neg (by simp [hrest c rfl])]

section Integers

variable {number : Text} {v : ℤ}

theorem naturalAt?_sound (h : naturalAt? s i = some j) :
    ∃ number n, IsNatural number n ∧ s.drop i = number ++ s.drop j := by
  unfold naturalAt? at h
  split at h
  · cases h
  · rename_i hdigit
    obtain ⟨c, hc, hdigit⟩ := (Option.any_eq_true _ _).1 (Bool.not_eq_false _ ▸ hdigit)
    split at h <;> obtain rfl := Option.some.inj h
    · rename_i hzero
      exact ⟨_, _, .zero, drop_eq_cons_iff.2 ⟨hzero, rfl⟩⟩
    · rename_i hzero
      have hdrop := drop_eq_cons_iff.2 ⟨hc, rfl⟩
      have hnumber : (s.drop i).takeWhile isDigit = c :: (s.drop (i + 1)).takeWhile isDigit := by
        rw [hdrop, List.takeWhile_cons_of_pos hdigit]
      have hall : ((s.drop i).takeWhile isDigit).all isDigit = true :=
        List.all_eq_true.2 fun d hd => List.mem_takeWhile_imp hd
      have hvalue : toNat? ((s.drop i).takeWhile isDigit) =
          some (digitsValue ((s.drop i).takeWhile isDigit)) :=
        if_pos ⟨by rw [hnumber]; exact List.cons_ne_nil _ _, hall⟩
      refine ⟨_, _, isNatural_of_toNat? hvalue fun hhead => ?_, ?_⟩
      · rw [hnumber, List.head?_cons] at hhead
        exact absurd (hc.trans hhead) hzero
      · rw [drop_skip, List.takeWhile_append_dropWhile]

theorem naturalAt?_complete (hnumber : IsNatural number n) (hdrop : s.drop i = number ++ rest)
    (hrest : ∀ c ∈ rest.head?, isDigit c = false) :
    ∃ j, naturalAt? s i = some j ∧ s.drop j = rest := by
  have hdigits := isDigit_of_isNatural hnumber
  cases hnumber with
  | zero =>
    obtain ⟨hzero, hbehind⟩ := drop_eq_cons_iff.1 hdrop
    refine ⟨i + 1, ?_, hbehind⟩
    rw [naturalAt?, hzero]
    rfl
  | @positive lead digits lead_pos lt_ten =>
    obtain ⟨hlead, -⟩ := drop_eq_cons_iff.1 hdrop
    have hdigit := isDigit_digit lead (lt_ten lead List.mem_cons_self)
    have hzero : digit lead ≠ '0' := by
      intro heq
      rw [heq] at hdigit
      exact lead_pos.ne hdigit.2
    refine ⟨skip isDigit s i, ?_, drop_skip_of_drop hdrop hdigits hrest⟩
    rw [naturalAt?, hlead, Option.any_some, hdigit.1, if_neg Bool.noConfusion,
      if_neg fun heq => hzero (Option.some.inj heq)]

theorem integerAt?_sound (h : integerAt? s i = some j) :
    ∃ number v, IsInteger number v ∧ s.drop i = number ++ s.drop j := by
  unfold integerAt? at h
  obtain ⟨number, n, hnumber, hdrop⟩ := naturalAt?_sound h
  split at hdrop
  · rename_i hsign
    exact ⟨_, _, .negated hnumber, drop_eq_cons_iff.2 ⟨hsign, hdrop⟩⟩
  · exact ⟨_, _, .plain hnumber, hdrop⟩

theorem integerAt?_complete (hnumber : IsInteger number v) (hdrop : s.drop i = number ++ rest)
    (hrest : ∀ c ∈ rest.head?, isDigit c = false) :
    ∃ j, integerAt? s i = some j ∧ s.drop j = rest := by
  cases hnumber with
  | plain natural =>
    have hsign : s[i]? ≠ some ('-' : Byte) := by
      obtain ⟨c, digits, rfl⟩ := List.exists_cons_of_ne_nil natural.ne_nil
      obtain ⟨hc, -⟩ := drop_eq_cons_iff.1 hdrop
      have hdigit := isDigit_of_isNatural natural c List.mem_cons_self
      rintro hsign
      obtain rfl := Option.some.inj (hc.symm.trans hsign)
      revert hdigit
      decide
    rw [integerAt?, if_neg hsign]
    exact naturalAt?_complete natural hdrop hrest
  | negated natural =>
    obtain ⟨hsign, hdrop⟩ := drop_eq_cons_iff.1 hdrop
    rw [integerAt?, if_pos hsign]
    exact naturalAt?_complete natural hdrop hrest

end Integers

section Arrays

variable {items : Text} {numbers : List ℤ}

theorem itemsAt?_sound (h : itemsAt? s i = some j) :
    ∃ items numbers, IsItems items numbers ∧ s.drop i = items ++ "]" ++ s.drop j := by
  fun_induction itemsAt? s i with
  | case1 i hi => cases h
  | case2 i k hi behind hbracket =>
    obtain rfl := Option.some.inj h
    obtain ⟨number, v, hnumber, hdrop⟩ := integerAt?_sound hi
    obtain ⟨blanks, hblanks, hskip⟩ := exists_drop_eq_append_skip isBlank s k
    refine ⟨_, _, .single hnumber hblanks, ?_⟩
    rw [hdrop, hskip, drop_eq_cons_iff.2 ⟨hbracket, rfl⟩, List.append_assoc, List.append_assoc]
    rfl
  | case3 i k hi behind hbracket hcomma ih =>
    obtain ⟨number, v, hnumber, hdrop⟩ := integerAt?_sound hi
    obtain ⟨after, hafter, hskip⟩ := exists_drop_eq_append_skip isBlank s k
    obtain ⟨before, hbefore, hskip'⟩ := exists_drop_eq_append_skip isBlank s (behind + 1)
    obtain ⟨items, numbers, hitems, hrest⟩ := ih h
    refine ⟨_, _, .cons hnumber hafter hbefore hitems, ?_⟩
    rw [hdrop, hskip, drop_eq_cons_iff.2 ⟨hcomma, rfl⟩, hskip', hrest]
    simp only [List.append_assoc]
    rfl
  | case4 i k hi behind hbracket hcomma => cases h

theorem drop_skip_blanks {blanks : Text} {c : Byte} (hblanks : IsBlanks blanks)
    (hdrop : s.drop i = blanks ++ c :: rest) (hc : isBlank c = false) :
    s[skip isBlank s i]? = some c ∧ s.drop (skip isBlank s i + 1) = rest :=
  drop_eq_cons_iff.1 (drop_skip_of_drop hdrop hblanks (by simpa using hc))

theorem itemsAt?_of_bracket {k : ℕ} (hk : integerAt? s i = some k)
    (hbracket : s[skip isBlank s k]? = some (']' : Byte)) :
    itemsAt? s i = some (skip isBlank s k + 1) := by
  rw [itemsAt?]
  split
  · rename_i hnone
    cases hk.symm.trans hnone
  · rename_i j hj
    obtain rfl := Option.some.inj (hk.symm.trans hj)
    rw [if_pos hbracket]

theorem itemsAt?_of_comma {k : ℕ} (hk : integerAt? s i = some k)
    (hcomma : s[skip isBlank s k]? = some (',' : Byte)) :
    itemsAt? s i = itemsAt? s (skip isBlank s (skip isBlank s k + 1)) := by
  rw [itemsAt?]
  split
  · rename_i hnone
    cases hk.symm.trans hnone
  · rename_i j hj
    obtain rfl := Option.some.inj (hk.symm.trans hj)
    have hbracket : s[skip isBlank s k]? ≠ some (']' : Byte) := by
      rw [hcomma]
      decide
    rw [if_neg hbracket, dif_pos hcomma]

theorem isDigit_head?_append {blanks : Text} {c : Byte} (hblanks : IsBlanks blanks)
    (hc : isDigit c = false) : ∀ d ∈ (blanks ++ c :: rest).head?, isDigit d = false := by
  intro d hd
  cases blanks with
  | nil =>
    obtain rfl := Option.some.inj hd
    exact hc
  | cons b blanks =>
    obtain rfl := Option.some.inj hd
    have hb := hblanks b List.mem_cons_self
    rw [Bool.eq_false_iff]
    intro hdigit
    rw [not_isBlank_of_isDigit hdigit] at hb
    cases hb

theorem IsItems.head?_not_isBlank {rest : Text} (h : IsItems items numbers) :
    ∀ c ∈ (items ++ rest).head?, isBlank c = false := by
  obtain ⟨number, behind, v, hnumber, rfl⟩ := h.exists_integer
  obtain ⟨c, digits, rfl⟩ := List.exists_cons_of_ne_nil hnumber.ne_nil
  intro d hd
  obtain rfl := Option.some.inj hd
  exact hnumber.not_isBlank c List.mem_cons_self

theorem itemsAt?_complete (hitems : IsItems items numbers)
    (hdrop : s.drop i = items ++ (']' : Byte) :: rest) :
    ∃ j, itemsAt? s i = some j ∧ s.drop j = rest ∧ j ≤ s.length := by
  induction hitems generalizing i with
  | @single number after v integer blanks_after =>
    rw [List.append_assoc] at hdrop
    obtain ⟨k, hk, hdrop⟩ :=
      integerAt?_complete integer hdrop (isDigit_head?_append blanks_after (by decide))
    obtain ⟨hbracket, hrest⟩ := drop_skip_blanks blanks_after hdrop (by decide)
    exact ⟨_, itemsAt?_of_bracket hk hbracket, hrest, (List.getElem?_eq_some_iff.1 hbracket).1⟩
  | @cons number after before items v numbers integer blanks_after blanks_before hitems ih =>
    have hform : number ++ after ++ "," ++ before ++ items ++ (']' : Byte) :: rest =
        number ++ (after ++ (',' : Byte) :: (before ++ (items ++ (']' : Byte) :: rest))) := by
      simp only [List.append_assoc]
      rfl
    rw [hform] at hdrop
    obtain ⟨k, hk, hdrop⟩ :=
      integerAt?_complete integer hdrop (isDigit_head?_append blanks_after (by decide))
    obtain ⟨hcomma, hdrop⟩ := drop_skip_blanks blanks_after hdrop (by decide)
    rw [itemsAt?_of_comma hk hcomma]
    exact ih (drop_skip_of_drop hdrop blanks_before hitems.head?_not_isBlank)

theorem skip_eq_length_iff (h : i ≤ s.length) :
    skip isBlank s i = s.length ↔ IsBlanks (s.drop i) := by
  constructor
  · intro hend
    obtain ⟨blanks, hblanks, hdrop⟩ := exists_drop_eq_append_skip isBlank s i
    rw [hend, List.drop_length, List.append_nil] at hdrop
    rwa [hdrop]
  · intro hblanks
    have hnil : s.drop (skip isBlank s i) = [] := by
      rw [drop_skip, List.dropWhile_eq_nil_iff]
      exact hblanks
    exact le_antisymm (skip_le_length h) (List.drop_eq_nil_iff.1 hnil)

/-- What an array is up to the bracket that closes it. -/
theorem bodyAt?_sound (h : bodyAt? s i = some j) {before after : Text} (hbefore : IsBlanks before)
    (hafter : IsBlanks after) : ∃ body numbers, s.drop i = body ++ s.drop j ∧
      IsArray (before ++ "[" ++ body ++ after) numbers := by
  obtain ⟨inner, hinner, hdrop⟩ := exists_drop_eq_append_skip isBlank s i
  simp only [bodyAt?] at h
  split at h
  · rename_i hclose
    obtain rfl := Option.some.inj h
    refine ⟨inner ++ "]", [], ?_, ?_⟩
    · rw [hdrop, drop_eq_cons_iff.2 ⟨hclose, rfl⟩, List.append_assoc]
      rfl
    · rw [← List.append_assoc]
      exact .empty hbefore hinner hafter
  · obtain ⟨items, numbers, hitems, hdrop'⟩ := itemsAt?_sound h
    refine ⟨inner ++ items ++ "]", numbers, ?_, ?_⟩
    · rw [hdrop, hdrop']
      simp only [List.append_assoc]
    · rw [← List.append_assoc, ← List.append_assoc]
      exact .items hbefore hinner hitems hafter

theorem bodyAt?_of_blanks {inner : Text} (hinner : IsBlanks inner)
    (hdrop : s.drop i = inner ++ (']' : Byte) :: rest) :
    ∃ j, bodyAt? s i = some j ∧ s.drop j = rest ∧ j ≤ s.length := by
  obtain ⟨hclose, hrest⟩ := drop_skip_blanks hinner hdrop (by decide)
  exact ⟨_, if_pos hclose, hrest, (List.getElem?_eq_some_iff.1 hclose).1⟩

theorem bodyAt?_of_items {inner : Text} (hinner : IsBlanks inner) (hitems : IsItems items numbers)
    (hdrop : s.drop i = inner ++ (items ++ (']' : Byte) :: rest)) :
    ∃ j, bodyAt? s i = some j ∧ s.drop j = rest ∧ j ≤ s.length := by
  have hdrop := drop_skip_of_drop hdrop hinner hitems.head?_not_isBlank
  have hclose : s[skip isBlank s i]? ≠ some (']' : Byte) := by
    obtain ⟨number, behind, v, hnumber, rfl⟩ := hitems.exists_integer
    obtain ⟨c, digits, rfl⟩ := List.exists_cons_of_ne_nil hnumber.ne_nil
    obtain ⟨hc, -⟩ := drop_eq_cons_iff.1 hdrop
    intro hclose
    obtain rfl := Option.some.inj (hc.symm.trans hclose)
    rcases mem_of_isInteger hnumber _ List.mem_cons_self with h | h <;> revert h <;> decide
  rw [bodyAt?]
  simp only [if_neg hclose]
  exact itemsAt?_complete hitems hdrop

/-- The scanner lets through the arrays of integers and nothing else. -/
theorem isIntegerArray_iff : isIntegerArray s = true ↔ ∃ numbers, IsArray s numbers := by
  have hiff : isIntegerArray s = true ↔ s[skip isBlank s 0]? = some ('[' : Byte) ∧
      ∃ j, bodyAt? s (skip isBlank s 0 + 1) = some j ∧ skip isBlank s j = s.length := by
    simp only [isIntegerArray, Bool.and_eq_true, decide_eq_true_eq, Option.any_eq_true]
  rw [hiff]
  constructor
  · rintro ⟨hopen, j, hbody, hend⟩
    obtain ⟨before, hbefore, hs⟩ := exists_drop_eq_append_skip isBlank s 0
    obtain ⟨after, hafter, hs'⟩ := exists_drop_eq_append_skip isBlank s j
    obtain ⟨body, numbers, hdrop, harray⟩ := bodyAt?_sound hbody hbefore hafter
    rw [hend, List.drop_length, List.append_nil] at hs'
    rw [hs'] at hdrop
    rw [List.drop_zero, drop_eq_cons_iff.2 ⟨hopen, hdrop⟩] at hs
    refine ⟨numbers, ?_⟩
    rw [hs]
    simp only [List.append_assoc] at harray
    exact harray
  · rintro ⟨numbers, h⟩
    -- What stands behind the first bracket is passed over up to the blanks at the end.
    have hopened {before behind after : Text} (hbefore : IsBlanks before) (hafter : IsBlanks after)
        (hs : s.drop 0 = before ++ (('[' : Byte) :: behind))
        (hbody : ∀ i, s.drop i = behind →
          ∃ j, bodyAt? s i = some j ∧ s.drop j = after ∧ j ≤ s.length) :
        s[skip isBlank s 0]? = some ('[' : Byte) ∧
          ∃ j, bodyAt? s (skip isBlank s 0 + 1) = some j ∧ skip isBlank s j = s.length := by
      obtain ⟨hopen, hdrop⟩ := drop_skip_blanks hbefore hs (by decide)
      obtain ⟨j, hj, hrest, hle⟩ := hbody _ hdrop
      refine ⟨hopen, j, hj, (skip_eq_length_iff hle).2 ?_⟩
      rwa [hrest]
    cases h with
    | @empty before inner after blanks_before blanks_inner blanks_after =>
      refine hopened blanks_before blanks_after ?_ fun i => bodyAt?_of_blanks blanks_inner
      simp only [List.drop_zero, List.append_assoc]
      rfl
    | @items before inner items after numbers blanks_before blanks_inner items_eq blanks_after =>
      refine hopened blanks_before blanks_after ?_ fun i => bodyAt?_of_items blanks_inner items_eq
      simp only [List.drop_zero, List.append_assoc]
      rfl

end Arrays

end StableOrdinals.Reservations
