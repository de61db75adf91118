import StableOrdinals.CommandLine.Procedure

/-!
# Arguments

How the arguments of a command are read.
-/

namespace StableOrdinals.CommandLine.Arguments

def replicas (argument : Text) : Except Failure Int32 :=
  match Text.enteredInt32? argument with
  | none => .error (.badReplicas argument)
  | some n => if n.toInt < 0 then .error (.badReplicas argument) else .ok n

/-- One or more ordinals, of which none is negative. -/
def ordinals (arguments : List Text) : Except Failure OrdinalSet :=
  let text := Text.joinWords arguments
  match Text.enteredOrdinals? text with
  | none => .error (.badOrdinals text)
  | some [] => .error .noOrdinals
  | some given =>
    match given.find? (·.toInt < 0) with
    | some o => .error (.negativeOrdinal o)
    | none => .ok (OrdinalSet.ofList given)

structure Computation where
  replicas : Int32
  reserved : OrdinalSet
  target : Option Int32

/-- Takes the first `--to` and its value out of the arguments, wherever they stand. -/
def takeTarget : List Text → Except Failure (Option Int32 × List Text)
  | [] => .ok (none, [])
  | argument :: rest =>
    if argument = "--to" then
      match rest with
      | [] => .error (.usage .compute)
      | value :: rest => (replicas value).map fun target => (some target, rest)
    else (takeTarget rest).map fun (target, others) => (target, argument :: others)

def computation : List Text → Except Failure Computation
  | [] => .error (.usage .compute)
  | first :: rest => do
    let count ← replicas first
    let (target, others) ← takeTarget rest
    let reserved ← if others = [] then .ok ∅ else ordinals others
    .ok ⟨count, reserved, target⟩

end StableOrdinals.CommandLine.Arguments
