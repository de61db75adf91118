import Mathlib.Data.Nat.Nth
import StableOrdinals.Allocation

/-!
# The boundary as a count of free numbers

A number is free if no reservation bears it. The scan never looks for free numbers, yet its boundary
is the least number below which there are as many of them as there are replicas:
`Resolution.boundary_le_iff`. The invariant of the scan is `Resolution.IsScanOf`, whose clauses
speak of the reservations seen so far; `IsScanOf.absorb` is one step and `isScanOf_scan` the run.

`Allocation.resolve_eq_ok_iff` says when there is an allocation at all, namely when the replicas
fit into the free ordinals.
-/

namespace StableOrdinals

theorem map_eq_ok_iff {ε α β : Type} {f : α → β} {answer : Except ε α} {b : β} :
    answer.map f = .ok b ↔ ∃ a, answer = .ok a ∧ f a = b := by
  cases answer <;> simp [Except.map]

theorem OrdinalSet.pairwise_toList (slots : OrdinalSet) :
    slots.toList.Pairwise (fun o p => o.toInt < p.toInt) := by
  refine slots.ordered_toList.imp ?_
  intro o p h
  exact Int32.lt_iff_toInt_lt.1 (Std.compare_eq_lt.1 h)

theorem OrdinalSet.toList_eq {slots : OrdinalSet} {ordinals : List Ordinal}
    (hsorted : ordinals.Pairwise (fun o p => o.toInt < p.toInt))
    (hmem : ∀ o, o ∈ slots ↔ o ∈ ordinals) : slots.toList = ordinals := by
  have hnodup (l : List Ordinal) (h : l.Pairwise (fun o p => o.toInt < p.toInt)) : l.Nodup := by
    refine h.imp ?_
    rintro o p hlt rfl
    exact lt_irrefl _ hlt
  have hperm : slots.toList.Perm ordinals := by
    rw [List.perm_ext_iff_of_nodup (hnodup _ slots.pairwise_toList) (hnodup _ hsorted)]
    intro o
    rw [Std.ExtTreeSet.mem_toList, hmem]
  refine List.Perm.eq_of_pairwise ?_ slots.pairwise_toList hsorted hperm
  intro o p _ _ hop hpo
  exact absurd hop (not_lt_of_gt hpo)

theorem OrdinalSet.toList_eq_append {slots least : OrdinalSet} (hsub : ∀ o ∈ least, o ∈ slots)
    (habove : ∀ o ∈ least, ∀ p ∈ slots, p ∉ least → o.toInt < p.toInt) :
    slots.toList = least.toList ++ (slots \ least).toList := by
  apply toList_eq
  · refine List.pairwise_append.2 ⟨least.pairwise_toList, (slots \ least).pairwise_toList, ?_⟩
    intro o ho p hp
    rw [Std.ExtTreeSet.mem_toList] at ho hp
    obtain ⟨hslot, hnot⟩ := Std.ExtTreeSet.mem_diff_iff.1 hp
    exact habove o ho p hslot hnot
  · intro o
    rw [List.mem_append, Std.ExtTreeSet.mem_toList, Std.ExtTreeSet.mem_toList,
      Std.ExtTreeSet.mem_diff_iff]
    by_cases ho : o ∈ least
    · exact iff_of_true (hsub o ho) (Or.inl ho)
    · simp [ho]

namespace OrdinalSet

variable (reserved : OrdinalSet)

def IsFree (i : ℕ) : Prop := ∀ o ∈ reserved, o.toInt ≠ i

instance : DecidablePred reserved.IsFree := fun i =>
  decidable_of_iff (reserved.toList.all (·.toInt ≠ i) = true) (by
    simp only [IsFree, List.all_eq_true, Std.ExtTreeSet.mem_toList, decide_eq_true_eq])

/-- How many reservations lie from zero on below a bound. -/
def countBelow (bound : ℕ) : ℕ :=
  reserved.toList.countP fun o : Ordinal => 0 ≤ o.toInt ∧ o.toInt < bound

def rank (o : Ordinal) : ℕ := Nat.count reserved.IsFree o.toInt.toNat

theorem isFree_toNat {o : Ordinal} (h : 0 ≤ o.toInt) :
    reserved.IsFree o.toInt.toNat ↔ o ∉ reserved := by
  constructor
  · intro hfree ho
    exact hfree o ho (Int.toNat_of_nonneg h).symm
  · intro ho p hp heq
    rw [Int.toNat_of_nonneg h, Int32.toInt_inj] at heq
    exact ho (heq ▸ hp)

theorem count_add_countBelow (bound : ℕ) :
    Nat.count reserved.IsFree bound + reserved.countBelow bound = bound := by
  let below := reserved.toList.filter fun o : Ordinal => 0 ≤ o.toInt ∧ o.toInt < bound
  have hmem (o : Ordinal) : o ∈ below ↔ o ∈ reserved ∧ 0 ≤ o.toInt ∧ o.toInt < bound := by
    rw [List.mem_filter, Std.ExtTreeSet.mem_toList, decide_eq_true_eq]
  have hnodup : (below.map fun o => o.toInt.toNat).Nodup := by
    refine List.pairwise_map.2 ((reserved.pairwise_toList.filter _).imp_of_mem ?_)
    intro o p ho hp hlt
    have h₁ := ((hmem o).1 ho).2.1
    have h₂ := ((hmem p).1 hp).2.1
    omega
  have hset : (below.map fun o => o.toInt.toNat).toFinset =
      ({i ∈ Finset.range bound | ¬ reserved.IsFree i} : Finset ℕ) := by
    ext i
    simp only [List.mem_toFinset, List.mem_map, hmem, Finset.mem_filter, Finset.mem_range]
    constructor
    · rintro ⟨o, ⟨ho, h₀, hlt⟩, rfl⟩
      exact ⟨by omega, fun hfree => (reserved.isFree_toNat h₀).1 hfree ho⟩
    · rintro ⟨hi, hres⟩
      simp only [IsFree, not_forall, not_not] at hres
      obtain ⟨o, ho, heq⟩ := hres
      exact ⟨o, ⟨ho, by omega, by omega⟩, by omega⟩
  have hbelow : reserved.countBelow bound =
      ({i ∈ Finset.range bound | ¬ reserved.IsFree i} : Finset ℕ).card := by
    rw [← hset, List.toFinset_card_of_nodup hnodup, List.length_map, countBelow,
      List.countP_eq_length_filter]
  rw [hbelow, Nat.count_eq_card_filter_range, Finset.card_filter_add_card_filter_not,
    Finset.card_range]

theorem isFree_iff {i : ℕ} (h : i ≤ Ordinal.largest) :
    reserved.IsFree i ↔ Ordinal.ofNat i ∉ reserved := by
  have hi := Ordinal.toInt_ofNat h
  have h₀ : 0 ≤ (Ordinal.ofNat i).toInt := by omega
  rw [← isFree_toNat reserved h₀, hi, Int.toNat_natCast]

theorem isFree_of_largest_lt {i : ℕ} (h : Ordinal.largest < i) : reserved.IsFree i := by
  intro o _ heq
  have := o.toInt_lt
  unfold Ordinal.largest at h
  omega

theorem isFree_mono {more : OrdinalSet} (h : ∀ o ∈ reserved, o ∈ more) {i : ℕ}
    (hi : more.IsFree i) : reserved.IsFree i := fun o ho => hi o (h o ho)

theorem infinite_isFree : (Set.ofPred reserved.IsFree).Infinite := by
  apply Set.infinite_of_forall_exists_gt
  intro i
  refine ⟨i + Ordinal.largest + 1, ?_, by omega⟩
  exact isFree_of_largest_lt reserved (by omega)

theorem rank_le_rank {o p : Ordinal} (h : o.toInt ≤ p.toInt) :
    reserved.rank o ≤ reserved.rank p := Nat.count_monotone _ (by omega)

theorem rank_anti {more : OrdinalSet} (h : ∀ o ∈ reserved, o ∈ more) (o : Ordinal) :
    more.rank o ≤ reserved.rank o := Nat.count_mono_left fun _ _ => isFree_mono reserved h

end OrdinalSet

namespace Resolution

variable {seen : List Ordinal} {r : Resolution} (replicas : ℕ) (reserved : OrdinalSet)

/-- What a scan has found after the reservations `seen`. -/
structure IsScanOf (replicas : ℕ) (seen : List Ordinal) (r : Resolution) : Prop where
  mem_consumed : ∀ o, o ∈ r.consumed ↔ o ∈ seen ∧ 0 ≤ o.toInt ∧ o.toInt < r.boundary
  boundary_eq : r.boundary = replicas + r.consumed.size
  /-- The last number below the boundary is not among them. -/
  last_free : ∀ o ∈ seen, 0 ≤ o.toInt → o.toInt + 1 ≠ r.boundary

theorem isScanOf_start : IsScanOf replicas [] (start replicas) where
  mem_consumed o := by simp [start]
  boundary_eq := by simp [start]
  last_free o ho := by simp at ho

/-- A reservation at or above the boundary changes nothing, and one below it lies above all that
were seen, so that the number it adds at the top is free. -/
theorem IsScanOf.absorb {replicas : ℕ} (h : IsScanOf replicas seen r) {slot : Ordinal}
    (habove : ∀ o ∈ seen, o.toInt < slot.toInt) :
    IsScanOf replicas (seen ++ [slot]) (r.absorb slot) := by
  by_cases hbelow : 0 ≤ slot.toInt ∧ slot.toInt < r.boundary
  · rw [absorb_of_lt hbelow.1 hbelow.2]
    have hnew : slot ∉ r.consumed := by
      intro hslot
      exact lt_irrefl _ (habove slot ((h.mem_consumed slot).1 hslot).1)
    refine ⟨?_, ?_, ?_⟩
    · intro o
      simp only [Std.ExtTreeSet.mem_insert, Std.LawfulEqCmp.compare_eq_iff_eq, h.mem_consumed,
        List.mem_append, List.mem_singleton]
      grind
    · change r.boundary + 1 = replicas + (r.consumed.insert slot).size
      rw [Std.ExtTreeSet.size_insert, if_neg (by simpa using hnew), h.boundary_eq]
      omega
    · intro o ho h₀
      rw [List.mem_append, List.mem_singleton] at ho
      grind
  · rw [absorb_of_not hbelow]
    refine ⟨?_, h.boundary_eq, ?_⟩
    · intro o
      rw [h.mem_consumed, List.mem_append, List.mem_singleton]
      grind
    · intro o ho h₀
      rw [List.mem_append, List.mem_singleton] at ho
      grind [h.last_free]

theorem IsScanOf.foldl {replicas : ℕ} (h : IsScanOf replicas seen r) (rest : List Ordinal)
    (hsorted : (seen ++ rest).Pairwise (fun o p => o.toInt < p.toInt)) :
    IsScanOf replicas (seen ++ rest) (rest.foldl Resolution.absorb r) := by
  induction rest generalizing seen r with
  | nil => simpa using h
  | cons slot rest ih =>
    have habove : ∀ o ∈ seen, o.toInt < slot.toInt := fun o ho =>
      (List.pairwise_append.1 hsorted).2.2 o ho slot (by simp)
    rw [List.append_cons] at hsorted ⊢
    exact ih (h.absorb habove) hsorted

theorem isScanOf_scan :
    IsScanOf replicas reserved.toList (scan replicas reserved) :=
  (isScanOf_start replicas).foldl reserved.toList reserved.pairwise_toList

theorem mem_consumed_scan (o : Ordinal) : o ∈ (scan replicas reserved).consumed ↔
    o ∈ reserved ∧ 0 ≤ o.toInt ∧ o.toInt < (scan replicas reserved).boundary := by
  rw [(isScanOf_scan replicas reserved).mem_consumed, Std.ExtTreeSet.mem_toList]

theorem isFree_pred_boundary (h : 0 < (scan replicas reserved).boundary) :
    reserved.IsFree ((scan replicas reserved).boundary - 1) := by
  intro o ho heq
  have := (isScanOf_scan replicas reserved).last_free o (Std.ExtTreeSet.mem_toList.2 ho) (by omega)
  omega

theorem size_consumed_scan : (scan replicas reserved).consumed.size =
    reserved.countBelow (scan replicas reserved).boundary := by
  have hlist : (scan replicas reserved).consumed.toList = reserved.toList.filter fun o : Ordinal =>
      0 ≤ o.toInt ∧ o.toInt < (scan replicas reserved).boundary := by
    apply OrdinalSet.toList_eq (reserved.pairwise_toList.filter _)
    intro o
    rw [mem_consumed_scan, List.mem_filter, Std.ExtTreeSet.mem_toList, decide_eq_true_eq]
  rw [← Std.ExtTreeSet.length_toList, hlist, ← List.countP_eq_length_filter, OrdinalSet.countBelow]

theorem count_boundary :
    Nat.count reserved.IsFree (scan replicas reserved).boundary = replicas := by
  have hsum := reserved.count_add_countBelow (scan replicas reserved).boundary
  rw [← size_consumed_scan] at hsum
  have := (isScanOf_scan replicas reserved).boundary_eq
  omega

/-- The boundary is the least number with `replicas` free numbers below it. -/
theorem boundary_le_iff (m : ℕ) :
    (scan replicas reserved).boundary ≤ m ↔ replicas ≤ Nat.count reserved.IsFree m := by
  have hcount := count_boundary replicas reserved
  constructor
  · intro h
    have := Nat.count_monotone reserved.IsFree h
    omega
  · intro h
    by_contra! hlt
    have hfree := isFree_pred_boundary replicas reserved (by omega)
    have hle : Nat.count reserved.IsFree m ≤
        Nat.count reserved.IsFree ((scan replicas reserved).boundary - 1) :=
      Nat.count_monotone _ (by omega)
    have hstrict := Nat.count_strict_mono hfree
      (show _ < (scan replicas reserved).boundary by omega)
    omega

theorem lt_boundary_iff (m : ℕ) :
    m < (scan replicas reserved).boundary ↔ Nat.count reserved.IsFree m < replicas := by
  have := boundary_le_iff replicas reserved m
  omega

end Resolution

namespace Allocation

/-- There are `replicas` free numbers among the ordinals that a member can have. -/
def Fits (replicas : Int32) (reserved : OrdinalSet) : Prop :=
  0 ≤ replicas.toInt ∧
    replicas.toInt.toNat ≤ Nat.count reserved.IsFree (Ordinal.largest + 1)

variable {replicas target : Int32} {reserved : OrdinalSet}

theorem resolve_eq_ok_iff {r : Resolution} : resolve replicas reserved = .ok r ↔
    Fits replicas reserved ∧ r = Resolution.scan replicas.toInt.toNat reserved := by
  unfold resolve Fits
  have hle := Resolution.boundary_le_iff replicas.toInt.toNat reserved (Ordinal.largest + 1)
  by_cases hneg : replicas.toInt < 0
  · rw [if_pos hneg]
    simp only [reduceCtorEq, false_iff]
    omega
  · rw [if_neg hneg]
    by_cases hbeyond : Ordinal.largest + 1 <
        (Resolution.scan replicas.toInt.toNat reserved).boundary
    · simp only [if_pos hbeyond, reduceCtorEq, false_iff]
      omega
    · simp only [if_neg hbeyond, Except.ok.injEq]
      constructor
      · rintro rfl
        exact ⟨⟨by omega, by omega⟩, rfl⟩
      · rintro ⟨_, rfl⟩
        rfl

theorem map_resolve_eq_ok_iff {α : Type} {f : Resolution → α} {a : α} :
    (resolve replicas reserved).map f = .ok a ↔
      Fits replicas reserved ∧ a = f (Resolution.scan replicas.toInt.toNat reserved) := by
  simp only [map_eq_ok_iff, resolve_eq_ok_iff]
  constructor
  · rintro ⟨_, ⟨hfits, rfl⟩, rfl⟩
    exact ⟨hfits, rfl⟩
  · rintro ⟨hfits, rfl⟩
    exact ⟨_, ⟨hfits, rfl⟩, rfl⟩

theorem Fits.anti {more : OrdinalSet} (h : Fits target more) (h₀ : 0 ≤ replicas.toInt)
    (hle : replicas.toInt ≤ target.toInt) (hsub : ∀ o ∈ reserved, o ∈ more) :
    Fits replicas reserved := by
  have hcount : Nat.count more.IsFree (Ordinal.largest + 1) ≤
      Nat.count reserved.IsFree (Ordinal.largest + 1) :=
    Nat.count_mono_left fun _ _ => reserved.isFree_mono hsub
  have := h.2
  exact ⟨h₀, by omega⟩

end Allocation

end StableOrdinals
