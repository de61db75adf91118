import StableOrdinals.Proofs.Reservations.Edits

/-!
# Edits that commute

A bag is determined by what it holds under each key, and by whether it is there at all (`bag_ext`).
Of two writes in a row the second one settles what the key holds. The first one is seen afterwards
only if it has made a bag that the second one alone would not have made (`written_written_iff`).

So two edits in a row write what both of them make of the set, unless they release again all that
the first one has reserved in an object without a bag (`Edit.made_made`). This comes up neither for
edits of one kind nor for edits of disjoint sets, and the order of these does not matter:
`edits_commute`.
-/

namespace StableOrdinals.Reservations

theorem bag_ext {bag other : Bag} (hnone : bag = none ↔ other = none)
    (hvalue : ∀ key, value? key bag = value? key other) : bag = other := by
  cases bag with
  | none => exact (hnone.1 rfl).symm
  | some annotations =>
    cases other with
    | none => cases hnone.2 rfl
    | some others =>
      congr 1
      apply Std.ExtTreeMap.ext_getElem?
      exact hvalue

section Written

variable (key : Text) (earlier slots : OrdinalSet) (bag : Bag)

theorem value?_written_written (other : Text) :
    value? other (written key slots (written key earlier bag)) =
      value? other (written key slots bag) := by
  by_cases h : other = key
  · rw [h, value?_written, value?_written]
  · rw [value?_written_of_ne _ _ _ h, value?_written_of_ne _ _ _ h, value?_written_of_ne _ _ _ h]

/-- The empty set is written into the bag that another set has made, but makes none itself. -/
theorem written_written_iff :
    written key slots (written key earlier bag) = written key slots bag ↔
      (bag = none → slots = ∅ → earlier = ∅) := by
  constructor
  · intro heq hbag hslots
    have hnone := (written_eq_none_iff key slots bag).2 ⟨hbag, hslots⟩
    rw [← heq, written_eq_none_iff, written_eq_none_iff] at hnone
    exact hnone.1.2
  · intro h
    apply bag_ext _ (value?_written_written key earlier slots bag)
    rw [written_eq_none_iff, written_eq_none_iff, written_eq_none_iff]
    constructor
    · exact fun ⟨⟨hbag, _⟩, hslots⟩ => ⟨hbag, hslots⟩
    · exact fun ⟨hbag, hslots⟩ => ⟨⟨hbag, h hbag hslots⟩, hslots⟩

end Written

namespace Edit

theorem result_result (edit : Edit) (reserved : OrdinalSet) :
    edit.result (edit.result reserved) = edit.result reserved := by
  apply Std.ExtTreeSet.ext_mem
  intro o
  cases edit <;>
    simp only [result, Std.ExtTreeSet.mem_union_iff, Std.ExtTreeSet.mem_diff_iff] <;> tauto

/-- If the second edit keeps what the first one has reserved out of nothing, the bag is as if the
set that both of them make had been written at once. -/
theorem made_made (edit next : Edit) (key : Text) (bag : Bag)
    (h : ∀ o ∈ edit.result ∅, o ∈ next.result (edit.result ∅)) :
    next.made key (edit.made key bag) =
      written key (next.result (edit.result (read key bag))) bag := by
  rw [made, made, read_written, written_written_iff]
  rintro rfl hempty
  apply Std.ExtTreeSet.eq_empty_iff_forall_not_mem.2
  intro o ho
  exact Std.ExtTreeSet.eq_empty_iff_forall_not_mem.1 hempty o (h o ho)

theorem made_self (edit : Edit) (key : Text) (bag : Bag) :
    edit.made key (edit.made key bag) = edit.made key bag := by
  rw [made_made, result_result, ← made]
  intro o ho
  rwa [result_result]

theorem apply_bind_apply (edit next : Edit) (key : Text) (bag : Bag) :
    (edit.apply key bag >>= fun bag => next.apply key bag) =
      .ok (next.made key (edit.made key bag)) := by
  rw [apply_eq, bind, Monad.toBind, Except.instMonad]
  exact apply_eq key _ next

end Edit

section Pairs

variable (key : Text) (slots others : OrdinalSet) (bag : Bag)

theorem add_add : (Edit.add others).made key ((Edit.add slots).made key bag) =
    (Edit.add (slots ∪ others)).made key bag := by
  have hkept : ∀ o ∈ ∅ ∪ slots, o ∈ ∅ ∪ slots ∪ others := fun o ho =>
    Std.ExtTreeSet.mem_union_iff.2 (Or.inl ho)
  have hunion : read key bag ∪ slots ∪ others = read key bag ∪ (slots ∪ others) := by
    apply Std.ExtTreeSet.ext_mem
    intro o
    simp only [Std.ExtTreeSet.mem_union_iff, or_assoc]
  calc (Edit.add others).made key ((Edit.add slots).made key bag)
      = written key (read key bag ∪ slots ∪ others) bag := Edit.made_made _ _ key bag hkept
    _ = (Edit.add (slots ∪ others)).made key bag := by rw [hunion]; rfl

theorem remove_remove : (Edit.remove others).made key ((Edit.remove slots).made key bag) =
    (Edit.remove (slots ∪ others)).made key bag := by
  have hkept : ∀ o ∈ ∅ \ slots, o ∈ (∅ \ slots) \ others := fun o ho =>
    absurd (Std.ExtTreeSet.mem_diff_iff.1 ho).1 Std.ExtTreeSet.not_mem_empty
  have hdiff : (read key bag \ slots) \ others = read key bag \ (slots ∪ others) := by
    apply Std.ExtTreeSet.ext_mem
    intro o
    simp only [Std.ExtTreeSet.mem_diff_iff, Std.ExtTreeSet.mem_union_iff, not_or, and_assoc]
  calc (Edit.remove others).made key ((Edit.remove slots).made key bag)
      = written key ((read key bag \ slots) \ others) bag := Edit.made_made _ _ key bag hkept
    _ = (Edit.remove (slots ∪ others)).made key bag := by rw [hdiff]; rfl

theorem union_comm : slots ∪ others = others ∪ slots := by
  apply Std.ExtTreeSet.ext_mem
  intro o
  rw [Std.ExtTreeSet.mem_union_iff, Std.ExtTreeSet.mem_union_iff, or_comm]

variable {slots others}

theorem remove_add_of_disjoint (h : ∀ o ∈ slots, o ∉ others) :
    (Edit.remove others).made key ((Edit.add slots).made key bag) =
      (Edit.add slots).made key ((Edit.remove others).made key bag) := by
  have hadded : ∀ o ∈ ∅ ∪ slots, o ∈ (∅ ∪ slots) \ others := by
    intro o ho
    have hslot := (Std.ExtTreeSet.mem_union_iff.1 ho).resolve_left Std.ExtTreeSet.not_mem_empty
    exact Std.ExtTreeSet.mem_diff_iff.2 ⟨ho, h o hslot⟩
  have hremoved : ∀ o ∈ ∅ \ others, o ∈ ∅ \ others ∪ slots := fun o ho =>
    Std.ExtTreeSet.mem_union_iff.2 (Or.inl ho)
  have hresult : (read key bag ∪ slots) \ others = read key bag \ others ∪ slots := by
    apply Std.ExtTreeSet.ext_mem
    intro o
    have := h o
    simp only [Std.ExtTreeSet.mem_diff_iff, Std.ExtTreeSet.mem_union_iff]
    tauto
  calc (Edit.remove others).made key ((Edit.add slots).made key bag)
      = written key ((read key bag ∪ slots) \ others) bag := Edit.made_made _ _ key bag hadded
    _ = written key (read key bag \ others ∪ slots) bag := by rw [hresult]
    _ = (Edit.add slots).made key ((Edit.remove others).made key bag) :=
        (Edit.made_made (.remove others) (.add slots) key bag hremoved).symm

end Pairs

/-- Two additions may be made in either order or at once, and so may two removals. An addition and a
removal of other slots may be made in either order, and an edit that is repeated changes nothing.
None of them fails. -/
theorem edits_commute (key : Text) (bag : Bag) (slots others : OrdinalSet) :
    (∃ after, (do add key others (← add key slots bag)) = .ok after ∧
        (do add key slots (← add key others bag)) = .ok after ∧
        add key (slots ∪ others) bag = .ok after) ∧
      (∃ after, (do remove key others (← remove key slots bag)) = .ok after ∧
        (do remove key slots (← remove key others bag)) = .ok after ∧
        remove key (slots ∪ others) bag = .ok after) ∧
      ((∀ o ∈ slots, o ∉ others) → ∃ after,
        (do remove key others (← add key slots bag)) = .ok after ∧
        (do add key slots (← remove key others bag)) = .ok after) ∧
      ∀ edit : Edit, ∃ after, edit.apply key bag = .ok after ∧ edit.apply key after = .ok after := by
  refine ⟨?_, ?_, fun hdisjoint => ?_, fun edit => ?_⟩
  · refine ⟨_, (Edit.apply_bind_apply (.add slots) (.add others) key bag).trans ?_,
      (Edit.apply_bind_apply (.add others) (.add slots) key bag).trans ?_,
      Edit.apply_eq key bag (.add (slots ∪ others))⟩
    · rw [add_add]
    · rw [add_add, union_comm]
  · refine ⟨_, (Edit.apply_bind_apply (.remove slots) (.remove others) key bag).trans ?_,
      (Edit.apply_bind_apply (.remove others) (.remove slots) key bag).trans ?_,
      Edit.apply_eq key bag (.remove (slots ∪ others))⟩
    · rw [remove_remove]
    · rw [remove_remove, union_comm]
  · refine ⟨_, Edit.apply_bind_apply (.add slots) (.remove others) key bag, ?_⟩
    rw [remove_add_of_disjoint key bag hdisjoint]
    exact Edit.apply_bind_apply (.remove others) (.add slots) key bag
  · exact ⟨_, edit.apply_eq key bag, by rw [Edit.apply_eq, Edit.made_self]⟩

/-- The sets have no slot in common, and the key holds a malformed value. -/
theorem edits_commute_malformed :
    let bag : Bag := some ((∅ : Annotations).insert "slots" "[7")
    let slots := OrdinalSet.ofList [4, -1]
    let others := OrdinalSet.ofList [2, 9]
    (∀ o ∈ slots, o ∉ others) ∧ ∃ after,
      (do remove "slots" others (← add "slots" slots bag)) = .ok after ∧
      (do add "slots" slots (← remove "slots" others bag)) = .ok after := by
  intro bag slots others
  have hall : ([4, -1] : List Ordinal).all (· ∉ [2, 9]) = true := by decide
  have hdisjoint : ∀ o ∈ slots, o ∉ others := by
    intro o ho
    rw [OrdinalSet.mem_ofList] at ho ⊢
    exact of_decide_eq_true (List.all_eq_true.1 hall o ho)
  exact ⟨hdisjoint, (edits_commute "slots" bag slots others).2.2.1 hdisjoint⟩

end StableOrdinals.Reservations
