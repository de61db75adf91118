import StableOrdinals.Proofs.Reservations.Scanner

/-!
# What decodes

The scanner lets through what the grammar derives, and cutting at the commas gives the numbers of
the derivation. So `decode_iff_isArray` says that a text decodes exactly if it is derived with
32-bit numbers only, and that its value is then their set.
-/

namespace StableOrdinals.Reservations

open Text

variable {s : Text} {numbers : List ℤ} {slots : OrdinalSet}

theorem mapM_cons_eq_some_iff {α β : Type} {f : α → Option β} {a : α} {as : List α} {bs : List β} :
    (a :: as).mapM f = some bs ↔
      ∃ b bs', f a = some b ∧ as.mapM f = some bs' ∧ b :: bs' = bs := by
  simp only [List.mapM_cons, Option.bind_eq_bind, Option.bind_eq_some_iff, Option.pure_def,
    Option.some.injEq]
  constructor
  · rintro ⟨b, hb, bs', hbs', h⟩
    exact ⟨b, bs', hb, hbs', h⟩
  · rintro ⟨b, bs', hb, hbs', h⟩
    exact ⟨b, hb, bs', hbs', h⟩

theorem int32?_eq_some_iff {i : ℤ} {o : Int32} : int32? i = some o ↔ i = o.toInt := by
  constructor
  · intro h
    rw [int32?, Option.ite_none_right_eq_some, Option.some.injEq] at h
    obtain ⟨hrange, rfl⟩ := h
    exact (Int32.toInt_ofInt_of_le (by omega) (by omega)).symm
  · rintro rfl
    exact int32?_toInt o

theorem mapM_int32?_eq_some_iff {ordinals : List Ordinal} :
    numbers.mapM int32? = some ordinals ↔ numbers = ordinals.map (·.toInt) := by
  induction numbers generalizing ordinals with
  | nil => simp [eq_comm]
  | cons i numbers ih =>
    simp only [mapM_cons_eq_some_iff, int32?_eq_some_iff, ih]
    constructor
    · rintro ⟨o, rest, rfl, rfl, rfl⟩
      rfl
    · intro h
      cases ordinals with
      | nil => cases h
      | cons o ordinals =>
        obtain ⟨hi, hnumbers⟩ := List.cons.inj h
        exact ⟨o, ordinals, hi, hnumbers, rfl⟩

theorem decode_eq_some_iff : decode s = some slots ↔
    ∃ ordinals : List Ordinal, IsArray s (ordinals.map (·.toInt)) ∧
      OrdinalSet.ofList ordinals = slots := by
  rw [decode, Option.ite_none_right_eq_some, isIntegerArray_iff, Option.map_eq_some_iff]
  constructor
  · rintro ⟨⟨numbers, harray⟩, ordinals, hvalue, hslots⟩
    rw [harray.slots?_eq, mapM_int32?_eq_some_iff] at hvalue
    exact ⟨ordinals, hvalue ▸ harray, hslots⟩
  · rintro ⟨ordinals, harray, hslots⟩
    refine ⟨⟨_, harray⟩, ordinals, ?_, hslots⟩
    rw [harray.slots?_eq, mapM_int32?_eq_some_iff]

theorem exists_ordinals_iff : (∃ ordinals : List Ordinal, numbers = ordinals.map (·.toInt)) ↔
    ∀ i ∈ numbers, -2 ^ 31 ≤ i ∧ i ≤ 2 ^ 31 - 1 := by
  constructor
  · rintro ⟨ordinals, rfl⟩ i hi
    obtain ⟨o, _, rfl⟩ := List.mem_map.1 hi
    have := o.le_toInt
    have := o.toInt_lt
    omega
  · intro h
    refine ⟨numbers.map Int32.ofInt, ?_⟩
    rw [List.map_map]
    have hrange (i : ℤ) (hi : i ∈ numbers) : (Int32.ofInt i).toInt = i :=
      Int32.toInt_ofInt_of_le (by have := h i hi; omega) (by have := h i hi; omega)
    exact ((List.map_congr_left hrange).trans (List.map_id' numbers)).symm

/-- A text decodes exactly if the grammar derives it with 32-bit numbers only, and then it decodes
to the set of these numbers. -/
theorem decode_iff_isArray (s : Text) :
    ((decode s).isSome = true ↔
        ∃ numbers, IsArray s numbers ∧ ∀ i ∈ numbers, -2 ^ 31 ≤ i ∧ i ≤ 2 ^ 31 - 1) ∧
      ∀ slots, decode s = some slots → ∀ numbers, IsArray s numbers →
        ∀ o : Ordinal, o ∈ slots ↔ o.toInt ∈ numbers := by
  constructor
  · rw [Option.isSome_iff_exists]
    simp only [decode_eq_some_iff, ← exists_ordinals_iff]
    constructor
    · rintro ⟨_, ordinals, harray, rfl⟩
      exact ⟨_, harray, ordinals, rfl⟩
    · rintro ⟨_, harray, ordinals, rfl⟩
      exact ⟨_, ordinals, harray, rfl⟩
  · intro slots hdecode numbers harray o
    obtain ⟨ordinals, harray', rfl⟩ := decode_eq_some_iff.1 hdecode
    have hvalue : numbers.mapM int32? = some ordinals := by
      rw [← harray.slots?_eq, harray'.slots?_eq, mapM_int32?_eq_some_iff]
    obtain rfl := mapM_int32?_eq_some_iff.1 hvalue
    rw [OrdinalSet.mem_ofList, List.mem_map]
    constructor
    · exact fun ho => ⟨o, ho, rfl⟩
    · rintro ⟨p, hp, heq⟩
      exact Int32.toInt_inj.1 heq ▸ hp

end StableOrdinals.Reservations
