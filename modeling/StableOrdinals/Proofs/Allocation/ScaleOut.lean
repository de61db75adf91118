import StableOrdinals.Proofs.Allocation.Members

/-!
# Growth of an allocation

`scaleOut` walks upwards from the last active ordinal and skips reservations, while `active` rescans
all of them with more replicas. Both arrive at the same ordinals, since both list free numbers by
their rank: the walk starts at the boundary, below which there are as many free numbers as there are
replicas, so that it takes up the list where the active set leaves off.
`Allocation.scaleOut_agrees_with_active` is the comparison.
-/

namespace StableOrdinals

variable {reserved : OrdinalSet}

theorem Resolution.maxActive_scan {replicas : ℕ} (hpos : 0 < (scan replicas reserved).boundary)
    (h : (scan replicas reserved).boundary ≤ Ordinal.largest + 1) :
    (scan replicas reserved).maxActive =
      some (Ordinal.ofNat ((scan replicas reserved).boundary - 1)) := by
  have hfree := isFree_pred_boundary replicas reserved hpos
  have hnot : Ordinal.ofNat ((scan replicas reserved).boundary - 1) ∉
      (scan replicas reserved).consumed := by
    intro hmem
    exact (reserved.isFree_iff (by omega)).1 hfree ((mem_consumed_scan replicas reserved _).1 hmem).1
  obtain ⟨b, hb⟩ := Nat.exists_eq_succ_of_ne_zero hpos.ne'
  rw [hb, Nat.succ_sub_one] at hnot ⊢
  rw [maxActive, hb, highestFree, if_neg hnot]

theorem Resolution.following_maxActive {replicas : ℕ}
    (h : (scan replicas reserved).boundary ≤ Ordinal.largest + 1) :
    Allocation.following (scan replicas reserved).maxActive =
      (scan replicas reserved).boundary := by
  rcases Nat.eq_zero_or_pos (scan replicas reserved).boundary with hzero | hpos
  · rw [maxActive, hzero]
    rfl
  · rw [maxActive_scan hpos h, Allocation.following, Option.elim_some,
      Ordinal.toInt_ofNat (by omega), Int.toNat_natCast]
    omega

namespace Allocation

theorem takeFree_eq_ok_iff {room next wanted : ℕ} {ordinals : List Ordinal}
    (hroom : next + room ≤ Ordinal.largest + 1) :
    takeFree reserved room next wanted = .ok ordinals ↔
      Nat.count reserved.IsFree next + wanted ≤ Nat.count reserved.IsFree (next + room) ∧
        ordinals = (List.range' (Nat.count reserved.IsFree next) wanted).map fun k =>
          Ordinal.ofNat (Nat.nth reserved.IsFree k) := by
  induction room, next, wanted using takeFree.induct reserved generalizing ordinals with
  | case1 room next =>
    have := Nat.count_monotone reserved.IsFree (Nat.le_add_right next room)
    simp [takeFree, this, eq_comm]
  | case2 next wanted =>
    simp only [takeFree, reduceCtorEq, false_iff, Nat.add_zero]
    omega
  | case3 room next wanted hres ih =>
    have hcount : Nat.count reserved.IsFree (next + 1) = Nat.count reserved.IsFree next :=
      Nat.count_succ_eq_count_iff.2 fun hfree => (reserved.isFree_iff (by omega)).1 hfree hres
    rw [takeFree, if_pos hres, ih (by omega), hcount, Nat.add_assoc, Nat.add_comm 1 room]
  | case4 room next wanted hfree ih =>
    have hfree' : reserved.IsFree next := (reserved.isFree_iff (by omega)).2 hfree
    have hcount : Nat.count reserved.IsFree (next + 1) = Nat.count reserved.IsFree next + 1 :=
      Nat.count_succ_eq_succ_count_iff.2 hfree'
    rw [takeFree, if_neg hfree, List.range'_succ, List.map_cons, Nat.nth_count hfree', ← hcount]
    simp only [map_eq_ok_iff, ih (show next + 1 + room ≤ Ordinal.largest + 1 by omega), hcount,
      Nat.add_assoc, Nat.add_comm 1]
    constructor
    · rintro ⟨_, ⟨hle, rfl⟩, rfl⟩
      exact ⟨hle, rfl⟩
    · rintro ⟨hle, rfl⟩
      exact ⟨_, ⟨hle, rfl⟩, rfl⟩

theorem maxActive_eq_ok_iff {replicas : Int32} {last : Option Ordinal} :
    maxActive replicas reserved = .ok last ↔ Fits replicas reserved ∧
      last = (Resolution.scan replicas.toInt.toNat reserved).maxActive := map_resolve_eq_ok_iff

theorem mapError_eq_ok_iff {ε ε' α : Type} {f : ε → ε'} {answer : Except ε α} {a : α} :
    answer.mapError f = .ok a ↔ answer = .ok a := by
  cases answer <;> simp [Except.mapError]

variable {current target : Int32}

theorem scaleOut_eq_ok_iff (h₀ : 0 ≤ current.toInt) (hlt : current.toInt < target.toInt)
    {ordinals : List Ordinal} :
    scaleOut current target reserved = .ok ordinals ↔ Fits target reserved ∧
      ordinals = (List.range' current.toInt.toNat (target.toInt - current.toInt).toNat).map
        fun k => Ordinal.ofNat (Nat.nth reserved.IsFree k) := by
  rw [scaleOut, if_neg (by omega), if_neg (by omega), if_neg (by omega)]
  by_cases hfits : Fits current reserved
  · let b := (Resolution.scan current.toInt.toNat reserved).boundary
    have hb : b ≤ Ordinal.largest + 1 := hfits.boundary_le
    have hcount : Nat.count reserved.IsFree b = current.toInt.toNat :=
      Resolution.count_boundary current.toInt.toNat reserved
    rw [maxActive_eq_ok_iff.2 ⟨hfits, rfl⟩]
    change (takeFree reserved (Ordinal.largest + 1 - following _) (following _) _).mapError _ = _ ↔ _
    rw [Resolution.following_maxActive hb, mapError_eq_ok_iff, takeFree_eq_ok_iff (by omega)]
    change Nat.count reserved.IsFree b + _ ≤ Nat.count reserved.IsFree (b + (_ - b)) ∧ _ ↔ _
    rw [hcount, Nat.add_sub_cancel' hb]
    refine and_congr_left fun _ => ?_
    constructor
    · intro h
      exact ⟨by omega, by omega⟩
    · intro h
      have := h.2
      omega
  · have hmax : ∀ last, maxActive current reserved ≠ .ok last := fun last h =>
      hfits (maxActive_eq_ok_iff.1 h).1
    have htarget : ¬ Fits target reserved := fun h => hfits (h.anti h₀ hlt.le fun _ ho => ho)
    cases hm : maxActive current reserved with
    | ok last => exact absurd hm (hmax last)
    | error e =>
      constructor
      · intro h
        cases h
      · intro h
        exact absurd h.1 htarget

theorem mem_of_scaleOut_eq_ok (h₀ : 0 ≤ current.toInt) (hlt : current.toInt < target.toInt)
    {ordinals : List Ordinal} (h : scaleOut current target reserved = .ok ordinals)
    {o : Ordinal} :
    o ∈ ordinals ↔ 0 ≤ o.toInt ∧ o ∉ reserved ∧ current.toInt.toNat ≤ reserved.rank o ∧
      reserved.rank o < target.toInt.toNat := by
  obtain ⟨hfits, rfl⟩ := (scaleOut_eq_ok_iff h₀ hlt).1 h
  rw [hfits.mem_nth (by omega)]
  rw [show current.toInt.toNat + (target.toInt - current.toInt).toNat = target.toInt.toNat by omega]

theorem lt_of_maxActive {last o : Ordinal} (h : maxActive current reserved = .ok (some last))
    (ho : current.toInt.toNat ≤ reserved.rank o) : last.toInt < o.toInt := by
  obtain ⟨hfits, hlast⟩ := maxActive_eq_ok_iff.1 h
  have hfollow := Resolution.following_maxActive hfits.boundary_le
  rw [← hlast, following, Option.elim_some] at hfollow
  have hle := (Resolution.boundary_le_iff current.toInt.toNat reserved o.toInt.toNat).2 ho
  omega

/-- Growing from `current` to `target` replicas succeeds exactly if there is an allocation for
`target`, and hands out what that allocation adds to the one for `current`. -/
theorem scaleOut_agrees_with_active (current target : Int32) (reserved : OrdinalSet)
    (h₀ : 0 ≤ current.toInt) (hlt : current.toInt < target.toInt) :
    ((∃ ordinals, scaleOut current target reserved = .ok ordinals) ↔
        ∃ after, active target reserved = .ok after) ∧
      ∀ ordinals, scaleOut current target reserved = .ok ordinals →
        ∃ before after, active current reserved = .ok before ∧
          active target reserved = .ok after ∧
          (∀ o ∈ before, o ∈ after) ∧
          ordinals = (after \ before).toList ∧
          ordinals.Pairwise (fun o p => o.toInt < p.toInt) ∧
          (ordinals.length : ℤ) = target.toInt - current.toInt ∧
          (∃ last, maxActive current reserved = .ok last ∧
            ∀ m ∈ last, ∀ o ∈ ordinals, m.toInt < o.toInt) ∧
          ∀ o ∈ ordinals, o ∉ reserved := by
  refine ⟨?_, ?_⟩
  · rw [exists_active_iff]
    simp only [scaleOut_eq_ok_iff h₀ hlt, exists_and_left, exists_eq, and_true]
  · intro ordinals h
    obtain ⟨hfits, hlist⟩ := (scaleOut_eq_ok_iff h₀ hlt).1 h
    have hmem (o : Ordinal) := mem_of_scaleOut_eq_ok (o := o) h₀ hlt h
    have hcurrent : Fits current reserved := hfits.anti h₀ hlt.le fun _ ho => ho
    obtain ⟨before, hbefore⟩ := exists_active_iff.2 hcurrent
    obtain ⟨after, hafter⟩ := exists_active_iff.2 hfits
    have hsorted : ordinals.Pairwise (fun o p => o.toInt < p.toInt) := by
      rw [hlist]
      exact hfits.pairwise_nth (by omega)
    refine ⟨before, after, hbefore, hafter, ?_, ?_, hsorted, ?_, ?_, ?_⟩
    · intro o ho
      rw [mem_of_active_eq_ok hbefore] at ho
      rw [mem_of_active_eq_ok hafter]
      exact ⟨ho.1, ho.2.1, by omega⟩
    · refine (OrdinalSet.toList_eq hsorted fun o => ?_).symm
      rw [Std.ExtTreeSet.mem_diff_iff, mem_of_active_eq_ok hbefore, mem_of_active_eq_ok hafter, hmem]
      constructor
      · rintro ⟨⟨hnonneg, hfree, hrank⟩, hnot⟩
        refine ⟨hnonneg, hfree, ?_, hrank⟩
        by_contra! hlow
        exact hnot ⟨hnonneg, hfree, hlow⟩
      · rintro ⟨hnonneg, hfree, hge, hrank⟩
        refine ⟨⟨hnonneg, hfree, hrank⟩, ?_⟩
        rintro ⟨_, _, hlow⟩
        omega
    · rw [hlist, List.length_map, List.length_range']
      omega
    · refine ⟨_, maxActive_eq_ok_iff.2 ⟨hcurrent, rfl⟩, ?_⟩
      intro m hm o ho
      exact lt_of_maxActive (maxActive_eq_ok_iff.2 ⟨hcurrent, hm.symm⟩) ((hmem o).1 ho).2.2.1
    · intro o ho
      exact ((hmem o).1 ho).2.1

/-- The reservations of 6 and 7 are latent at two replicas and consumed at five. -/
theorem scaleOut_agrees_with_active_latent :
    ∃ before after, active 2 (OrdinalSet.ofList [1, 6, 7, 3]) = .ok before ∧
      active 5 (OrdinalSet.ofList [1, 6, 7, 3]) = .ok after ∧
      [4, 5, 8] = (after \ before).toList := by
  have h : scaleOut 2 5 (OrdinalSet.ofList [1, 6, 7, 3]) = .ok [4, 5, 8] := by decide +kernel
  obtain ⟨before, after, hbefore, hafter, _, hlist, _⟩ :=
    (scaleOut_agrees_with_active 2 5 (OrdinalSet.ofList [1, 6, 7, 3])
      (by decide) (by decide)).2 _ h
  exact ⟨before, after, hbefore, hafter, hlist⟩

end Allocation

end StableOrdinals
