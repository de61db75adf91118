import StableOrdinals.CommandLine.Execution

/-!
# How procedures end

`Ends` states what holds when a procedure has ended, once for the case that it ends well and once
for the case that it fails. There is one lemma for each way in which procedures are built, so that a
statement on a command comes down to statements on the store and on the allocation.

A procedure that `Spares` the files leaves them as they are, however it ends. `FailsWithin` bounds
what one that fails does to them.
-/

namespace StableOrdinals.CommandLine.Procedure

variable {α β : Type} {session : Session} {good : α → Session → Prop}
  {bad : Failure → Session → Prop}

/-- It ends well with a good answer, or it fails in a bad way. -/
def Ends (p : Procedure α) (session : Session) (good : α → Session → Prop)
    (bad : Failure → Session → Prop) : Prop :=
  match p.run session with
  | (.ok a, after) => good a after
  | (.error failure, after) => bad failure after

theorem Ends.imp {p : Procedure α} {good' : α → Session → Prop} {bad' : Failure → Session → Prop}
    (h : Ends p session good bad) (hgood : ∀ a after, good a after → good' a after)
    (hbad : ∀ failure after, bad failure after → bad' failure after) :
    Ends p session good' bad' := by
  unfold Ends at h ⊢
  cases hrun : p.run session with
  | mk answer after =>
    rw [hrun] at h
    cases answer with
    | ok a => exact hgood a after h
    | error failure => exact hbad failure after h

@[simp] theorem ends_pure (a : α) : Ends (pure a) session good bad ↔ good a session := Iff.rfl

@[simp] theorem ends_throw (failure : Failure) :
    Ends (throw failure) session good bad ↔ bad failure session := Iff.rfl

theorem run_bind (p : Procedure β) (f : β → Procedure α) (session : Session) :
    (p >>= f).run session =
      match p.run session with
      | (.ok b, after) => (f b).run after
      | (.error failure, after) => (.error failure, after) := by
  rw [ExceptT.run_bind]
  change StateT.bind p.run _ session = _
  rw [StateT.bind]
  cases p.run session with
  | mk answer after => cases answer <;> rfl

@[simp] theorem ends_bind {p : Procedure β} {f : β → Procedure α} :
    Ends (p >>= f) session good bad ↔
      Ends p session (fun b after => Ends (f b) after good bad) bad := by
  unfold Ends
  rw [run_bind]
  cases p.run session with
  | mk answer after => cases answer <;> rfl

@[simp] theorem ends_print {good : Unit → Session → Prop} (s : Text) :
    Ends (print s) session good bad ↔ good () { session with output := session.output ++ s } :=
  Iff.rfl

@[simp] theorem ends_note {good : Unit → Session → Prop} (lines : List Text) :
    Ends (note lines) session good bad ↔
      good () { session with world := session.world.note lines } := Iff.rfl

@[simp] theorem ends_files {good : Files → Session → Prop} :
    Ends files session good bad ↔ good session.world.files session := Iff.rfl

theorem ends_act {f : World → Except Failure α × World} :
    Ends (act f) session good bad ↔
      match f session.world with
      | (.ok a, world) => good a { session with world }
      | (.error failure, world) => bad failure { session with world } := by
  unfold Ends
  change (match ((f session.world).1, { session with world := (f session.world).2 }) with
    | (.ok a, after) => good a after
    | (.error failure, after) => bad failure after) ↔ _
  cases f session.world with
  | mk answer world => cases answer <;> rfl

theorem ends_ofStore {f : World → Except StoreError α × World} :
    Ends (ofStore f) session good bad ↔
      match f session.world with
      | (.ok a, world) => good a { session with world }
      | (.error cause, world) => bad (.store cause) { session with world } := by
  rw [ofStore, ends_act]
  cases f session.world with
  | mk answer world => cases answer <;> rfl

theorem ends_liftM {answer : Except Failure α} :
    Ends (liftM answer) session good bad ↔
      match answer with
      | .ok a => good a session
      | .error failure => bad failure session := by
  cases answer <;> rfl

theorem ends_ofAllocation {answer : Except AllocationError α} :
    Ends (ofAllocation answer) session good bad ↔
      match answer with
      | .ok a => good a session
      | .error cause => bad (.allocation cause) session := by
  cases answer <;> rfl

theorem ends_requireConfig {client : Client} {good : Config → Session → Prop} :
    Ends client.requireConfig session good bad ↔
      match client.config with
      | .ok config => good config session
      | .error cause => bad (.noConfig cause client.environment.configPath) session := by
  unfold Client.requireConfig
  cases client.config <;> rfl

/-- Whether it ends well or fails, the files are as they were. -/
def Spares (p : Procedure α) : Prop :=
  ∀ session, Ends p session (fun _ after => after.world.files = session.world.files)
    (fun _ after => after.world.files = session.world.files)

theorem spares_pure (a : α) : Spares (pure a : Procedure α) := fun _ => rfl

theorem spares_throw (failure : Failure) : Spares (throw failure : Procedure α) := fun _ => rfl

theorem spares_print (s : Text) : Spares (print s) := fun _ => rfl

theorem spares_note (lines : List Text) : Spares (note lines) := fun _ => rfl

theorem spares_files : Spares files := fun _ => rfl

theorem spares_liftM (answer : Except Failure α) : Spares (liftM answer : Procedure α) := by
  intro session
  rw [ends_liftM]
  cases answer <;> rfl

theorem spares_ofAllocation (answer : Except AllocationError α) :
    Spares (ofAllocation answer) := spares_liftM _

theorem spares_requireConfig (client : Client) : Spares client.requireConfig := by
  intro session
  rw [ends_requireConfig]
  cases client.config <;> rfl

theorem spares_ask (ask : World → Except StoreError α) :
    Spares (ofStore fun world => (ask world, world)) := by
  intro session
  rw [ends_ofStore]
  cases ask session.world <;> rfl

theorem Spares.bind {p : Procedure β} {f : β → Procedure α} (h : Spares p)
    (hf : ∀ b, Spares (f b)) : Spares (p >>= f) := by
  intro session
  rw [ends_bind]
  apply (h session).imp
  · intro b after hafter
    apply (hf b after).imp <;> exact fun _ _ heq => heq.trans hafter
  · exact fun _ _ heq => heq

theorem spares_forM {items : List β} {f : β → Procedure Unit} (h : ∀ b, Spares (f b)) :
    Spares (items.forM f) := by
  induction items with
  | nil => exact spares_pure ()
  | cons item items ih => exact (h item).bind fun _ => ih

/-- Whether it ends well or fails, it leaves files with `Q`. -/
def Leaves (p : Procedure α) (session : Session) (Q : Files → Prop) : Prop :=
  Ends p session (fun _ after => Q after.world.files) (fun _ after => Q after.world.files)

section Leaves

variable {Q : Files → Prop}

theorem Spares.leaves {p : Procedure α} (h : Spares p) (hQ : Q session.world.files) :
    Leaves p session Q := by
  apply (h session).imp
  · intro _ after heq
    rwa [heq]
  · intro _ after heq
    rwa [heq]

theorem Leaves.bind {p : Procedure β} {f : β → Procedure α} (h : Leaves p session Q)
    (hf : ∀ b, Spares (f b)) : Leaves (p >>= f) session Q := by
  unfold Leaves
  rw [ends_bind]
  exact h.imp (fun b _ hQ => (hf b).leaves hQ) fun _ _ hQ => hQ

theorem leaves_bind_liftM {answer : Except Failure β} {entered : Option β}
    (hanswer : answer.toOption = entered) {f : β → Procedure α}
    (hsome : ∀ b, entered = some b → Leaves (f b) session Q)
    (hnone : entered = none → Q session.world.files) : Leaves (liftM answer >>= f) session Q := by
  unfold Leaves
  rw [ends_bind, ends_liftM]
  cases answer with
  | ok b => exact hsome b hanswer.symm
  | error failure => exact hnone hanswer.symm

theorem leaves_act {f : World → Except Failure α × World}
    (h : Q (f session.world).2.files) : Leaves (act f) session Q := by
  unfold Leaves
  rw [ends_act]
  cases hf : f session.world with
  | mk answer world =>
    rw [hf] at h
    cases answer <;> exact h

theorem leaves_ofStore {f : World → Except StoreError α × World}
    (h : Q (f session.world).2.files) : Leaves (ofStore f) session Q := by
  apply leaves_act
  cases hf : f session.world with
  | mk answer world =>
    rw [hf] at h
    exact h

end Leaves

/-- If it fails, then with a change of the files that is within `R`. -/
def FailsWithin (R : Files → Files → Prop) (p : Procedure α) : Prop :=
  ∀ session, Ends p session (fun _ _ => True)
    (fun _ after => R session.world.files after.world.files)

section FailsWithin

variable {R R' : Files → Files → Prop}

theorem FailsWithin.imp {p : Procedure α} (h : FailsWithin R p)
    (hR : ∀ before after, R before after → R' before after) : FailsWithin R' p :=
  fun session => (h session).imp (fun _ _ _ => trivial) fun _ _ => hR _ _

variable (hR : ∀ files, R files files)

include hR

theorem Spares.failsWithin {p : Procedure α} (h : Spares p) : FailsWithin R p := by
  intro session
  apply (h session).imp
  · exact fun _ _ _ => trivial
  · intro _ after heq
    rw [heq]
    exact hR session.world.files

theorem FailsWithin.bind {p : Procedure β} {f : β → Procedure α} (h : Spares p)
    (hf : ∀ b, FailsWithin R (f b)) : FailsWithin R (p >>= f) := by
  intro session
  rw [ends_bind]
  apply (h session).imp
  · intro b after heq
    rw [← heq]
    exact hf b after
  · intro _ after heq
    rw [heq]
    exact hR session.world.files

theorem failsWithin_bind_requireConfig {client : Client} {f : Config → Procedure α}
    (hf : ∀ config, client.config = .ok config → FailsWithin R (f config)) :
    FailsWithin R (client.requireConfig >>= f) := by
  intro session
  rw [ends_bind, ends_requireConfig]
  cases hconfig : client.config with
  | error cause => exact hR session.world.files
  | ok config => exact hf config hconfig session

end FailsWithin

end StableOrdinals.CommandLine.Procedure
