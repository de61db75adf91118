import StableOrdinals.Proofs.CommandLine.Simulation
import StableOrdinals.Proofs.Store.Contention

/-!
# What scaling reports

Scaling asks for the members before, for those to take up and for the members afterwards, one after
the other, within the change that it makes. If both allocations are in range, then the three answers
fit together, and what is printed is the difference (`Rescaling.rows_eq`). If one is out of range,
the change is refused and no file is touched: `scale_reports_difference`.
-/

namespace StableOrdinals.CommandLine

open Procedure Registry

variable {environment : Environment} {world : World} {config : Config} {name argument : Text}
  {w : Workload} {key : Text} {current target : Int32} {reserved before after : OrdinalSet}

/-- The rows that tell one set of members from the one before. -/
def Rescaling.difference (current target : Int32) (before after : OrdinalSet) : Text :=
  (if current.toInt < target.toInt then
      Style.row "new" (Style.colored Style.green (Text.ofOrdinals (after \ before).toList))
    else [])
    ++ (if target.toInt < current.toInt then
        Style.row "removed" (Style.colored Style.yellow
          (Text.ofOrdinalSet (before.greatest (current.toInt - target.toInt).toNat)))
      else [])
    ++ Style.row "ordinals" (Text.ofOrdinalSet after)

def scaledText (name : Text) (current target : Int32) (before after : OrdinalSet) : Text :=
  Style.done ("Scaled " ++ name ++ " to " ++ Text.ofInt target.toInt ++ " replicas")
    ++ Rescaling.difference current target before after

namespace Rescaling

theorem rows_eq (hbefore : Allocation.active current reserved = .ok before)
    (hafter : Allocation.active target reserved = .ok after) {added : List Ordinal}
    (hadded : Allocation.scaleOut current target reserved = .ok added) :
    (⟨before, added, after⟩ : Rescaling).rows = difference current target before after := by
  rw [Allocation.scaleOut_of_active hbefore hafter] at hadded
  obtain rfl := Except.ok.inj hadded
  unfold rows difference
  rcases lt_trichotomy current.toInt target.toInt with hlt | heq | hgt
  · have hlength := Allocation.length_toList_diff hbefore hafter hlt.le
    have hnew : (after \ before).toList ≠ [] := by
      apply List.ne_nil_of_length_pos
      omega
    have hnobody := Allocation.diff_active_of_le hbefore hafter hlt.le
    simp only [if_pos hlt, if_neg hlt.asymm, if_neg hnew, hnobody, Std.ExtTreeSet.isEmpty_empty,
      if_true]
  · have hnobody := Allocation.diff_active_of_le hbefore hafter heq.le
    simp only [heq, lt_irrefl, if_false, if_true, hnobody, Std.ExtTreeSet.isEmpty_empty]
  · have hlength := Allocation.length_toList_diff hafter hbefore hgt.le
    have hsome : ¬ (before \ after).isEmpty = true := by
      rw [← Std.ExtTreeSet.isEmpty_toList]
      intro hnil
      rw [List.isEmpty_iff.1 hnil, List.length_nil] at hlength
      omega
    have hgreatest := Allocation.diff_eq_greatest hafter hbefore hgt.le
    simp only [if_pos hgt, if_neg hgt.asymm, if_neg hsome, if_true]
    rw [hgreatest]

theorem change_of_active (hbefore : Reservations.active key w.replicas w.annotations = .ok before)
    (hafter : Reservations.active key target w.annotations = .ok after)
    (state : World × Rescaling) :
    ∃ noted rescaling, change key target w state =
        (.ok { w with replicas := target }, (noted, rescaling)) ∧
      rescaling.rows = difference w.replicas target before after := by
  have hadded : Reservations.scaleOut key w.replicas target w.annotations = _ :=
    Allocation.scaleOut_of_active hbefore hafter
  rcases hchange : change key target w state with ⟨answer, noted, rescaling⟩
  simp only [change, hbefore, hadded, hafter, Prod.mk.injEq] at hchange
  obtain ⟨rfl, _, rfl⟩ := hchange
  exact ⟨noted, _, rfl, rows_eq hbefore hafter hadded⟩

theorem change_of_error {cause : AllocationError}
    (hcause : Reservations.active key w.replicas w.annotations = .error cause ∨
      Reservations.active key target w.annotations = .error cause) (state : World × Rescaling) :
    ∃ refusal between, change key target w state = (.error refusal, between) := by
  have hcases := change_cases key target w state
  cases hchange : change key target w state with
  | mk answer between =>
    cases answer with
    | error refusal => exact ⟨refusal, between, rfl⟩
    | ok v =>
      rw [hchange] at hcases
      obtain ⟨⟨hcurrent, htarget⟩, _⟩ := hcases
      obtain ⟨before, hbefore⟩ := Allocation.exists_active_iff.2 hcurrent
      obtain ⟨after, hafter⟩ := Allocation.exists_active_iff.2 htarget
      rcases hcause with herror | herror
      · cases herror.symm.trans hbefore
      · cases herror.symm.trans hafter

end Rescaling

theorem replicas_of_entered (h : enteredReplicas? argument = some target) :
    Arguments.replicas argument = .ok target :=
  eq_ok_of_toOption ((Arguments.toOption_replicas argument).trans h)

theorem conclude_of_fails {p : Procedure Unit} {Q : Files → Prop}
    (h : Ends p ⟨world, []⟩ (fun _ _ => False) fun _ after => Q after.world.files) (command : Text) :
    (conclude command p world).exit = 1 ∧ Q (conclude command p world).world.files := by
  rcases conclude_cases h command with ⟨_, _, hfalse⟩ | ⟨failure, session, hconclude, hQ⟩
  · exact hfalse.elim
  · rw [hconclude]
    exact ⟨rfl, hQ⟩

section Scale

variable (hentered : enteredReplicas? argument = some target)
  (hload : (environment.store config).load world.files name = .ok w)

include hentered hload

theorem ends_scale_of_active {holder : Location}
    (hwritable : (environment.store config).Writable world.files holder name)
    (hkeeps : environment.format.Keeps { w with replicas := target, version := w.version + 1 })
    (hbefore : Reservations.active config.annotationKey w.replicas w.annotations = .ok before)
    (hafter : Reservations.active config.annotationKey target w.annotations = .ok after) :
    ∃ world',
      (environment.store config).load world'.files name =
        .ok { w with replicas := target, version := w.version + 1 } ∧
      Ends (Client.scale ⟨environment, .ok config⟩ name argument) ⟨world, []⟩
        (fun _ session => session = ⟨world', scaledText name w.replicas target before after⟩)
        fun _ _ => False := by
  have htarget := nonneg_of_enteredReplicas? hentered
  have hname := (environment.store config).name_of_load hload
  obtain ⟨noted, rescaling, hchange, hrows⟩ :=
    Rescaling.change_of_active hbefore hafter (world, Rescaling.unchanged)
  have hretries := Store.zero_le_defaultRetries
  have hleaves := Rescaling.leavesFiles_change config.annotationKey target
  have hstate : (environment.store config).load (world, Rescaling.unchanged).1.files name = .ok w :=
    hload
  have hstart : (environment.store config).Writable (world, Rescaling.unchanged).1.files holder name :=
    hwritable
  obtain ⟨world', hmodify, hstored⟩ :=
    hstart.modify_eq hleaves hretries hstate hchange hname rfl htarget hkeeps
  refine ⟨world', hstored, ?_⟩
  simp only [Client.scale, replicas_of_entered hentered, ends_bind, ends_liftM, ends_requireConfig,
    modifyObject, Client.store, ends_act, hmodify, ends_print, List.nil_append, hrows, hname,
    scaledText]

theorem ends_scale_of_error {cause : AllocationError}
    (hcause : Reservations.active config.annotationKey w.replicas w.annotations = .error cause ∨
      Reservations.active config.annotationKey target w.annotations = .error cause) :
    Ends (Client.scale ⟨environment, .ok config⟩ name argument) ⟨world, []⟩
      (fun _ _ => False) fun _ session => session.world.files = world.files := by
  obtain ⟨refusal, between, hchange⟩ :=
    Rescaling.change_of_error hcause (world, Rescaling.unchanged)
  have hretries := Store.zero_le_defaultRetries
  have hleaves := Rescaling.leavesFiles_change config.annotationKey target
  have hstate : (environment.store config).load (world, Rescaling.unchanged).1.files name = .ok w :=
    hload
  have hmodify := (environment.store config).modify_of_refused hleaves hretries hstate hchange
  have hfiles := hleaves w (world, Rescaling.unchanged)
  rw [hchange] at hfiles
  simpa only [Client.scale, replicas_of_entered hentered, ends_bind, ends_liftM, ends_requireConfig,
    modifyObject, Client.store, ends_act, hmodify] using hfiles

end Scale

end StableOrdinals.CommandLine
