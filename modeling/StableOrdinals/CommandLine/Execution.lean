import StableOrdinals.CommandLine.Arguments
import StableOrdinals.CommandLine.Report

/-!
# Execution of commands

Each command checks its arguments and the configuration, works on the store, and prints the result.
`Command.perform` is the procedure of a command with its arguments.
-/

namespace StableOrdinals.CommandLine

open Procedure

/-- What scaling did to the members of a workload. -/
structure Rescaling where
  before : OrdinalSet
  added : List Ordinal
  after : OrdinalSet

namespace Rescaling

def unchanged : Rescaling := ⟨∅, [], ∅⟩

def rows (r : Rescaling) : Text :=
  let removed := r.before \ r.after
  (if r.added = [] then []
    else Style.row "new" (Style.colored Style.green (Text.ofOrdinals r.added)))
    ++ (if removed.isEmpty then []
        else Style.row "removed" (Style.colored Style.yellow (Text.ofOrdinalSet removed)))
    ++ Style.row "ordinals" (Text.ofOrdinalSet r.after)

/-- Change the replicas to `target` and keep what that does to the members. The reservations are
read once for each of the three answers. -/
def change (key : Text) (target : Int32) : Store.Change AllocationError Rescaling :=
  fun w (world, kept) =>
    let world := world.note (Reservations.warnings key w.annotations)
    match Reservations.active key w.replicas w.annotations with
    | .error e => (.error e, (world, kept))
    | .ok before =>
      let world := world.note (Reservations.warnings key w.annotations)
      match Reservations.scaleOut key w.replicas target w.annotations with
      | .error e => (.error e, (world, { kept with before }))
      | .ok added =>
        let world := world.note (Reservations.warnings key w.annotations)
        match Reservations.active key target w.annotations with
        | .error e => (.error e, (world, { kept with before, added }))
        | .ok after => (.ok { w with replicas := target }, (world, ⟨before, added, after⟩))

end Rescaling

/-- Change a stored object, where `refusal` is what it comes to if the change is refused. -/
def modifyObject {ε σ : Type} (store : Store) (name : Text) (refusal : ε → Failure)
    (change : Store.Change ε σ) (kept : σ) : Procedure (Workload × σ) :=
  act fun world =>
    let (answer, (world, kept)) := store.modify name change Store.defaultRetries (world, kept)
    match answer with
    | .ok stored => (.ok (stored, kept), world)
    | .error (.store cause) => (.error (.store cause), world)
    | .error (.refused cause) => (.error (refusal cause), world)

def readReservations (config : Config) (w : Workload) : Procedure OrdinalSet := do
  note (Reservations.warnings config.annotationKey w.annotations)
  return Reservations.read config.annotationKey w.annotations

/-- An edit of a bag that leaves some lines in the log. -/
structure BagEdit where
  apply : Bag → Except EncodingError Bag
  remarks : Bag → List Text

namespace BagEdit

def add (key : Text) (slots : OrdinalSet) : BagEdit :=
  ⟨Reservations.add key slots, Reservations.warnings key⟩

def remove (key : Text) (slots : OrdinalSet) : BagEdit :=
  ⟨Reservations.remove key slots, Reservations.warnings key⟩

def clear (key : Text) : BagEdit := ⟨Reservations.clear key, fun _ => []⟩

def change (edit : BagEdit) : Store.Change EncodingError Unit := fun w (world, kept) =>
  ((edit.apply w.annotations).map fun annotations => { w with annotations },
    (world.note (edit.remarks w.annotations), kept))

end BagEdit

def computeAllocation (arguments : List Text) : Procedure Unit := do
  let asked ← Arguments.computation arguments
  print "\n"
  print (← ofAllocation (Report.allocation asked.replicas asked.reserved))
  match asked.target with
  | none => pure ()
  | some target =>
    let added ← ofAllocation (Allocation.scaleOut asked.replicas target asked.reserved)
    print (Style.row ("-> " ++ Text.ofInt target.toInt)
      (Style.colored Style.green (Text.ofOrdinals added)))
  print "\n"

namespace Client

variable (client : Client)

/-- Edit the reservations of a stored object and show the allocation that results. -/
def editReservations (config : Config) (name : Text) (edit : BagEdit) (message : Text) :
    Procedure Unit := do
  let (stored, ()) ← modifyObject (client.store config) name .encoding edit.change ()
  print (Style.done message)
  let reserved ← readReservations config stored
  print (← ofAllocation (Report.allocation stored.replicas reserved))

def create (name : Text) (argument : Option Text) : Procedure Unit := do
  let config ← client.requireConfig
  let replicas ← argument.elim (pure 0) fun argument => liftM (Arguments.replicas argument)
  let stored ← ofStore ((client.store config).create · ⟨name, replicas, 0, none⟩)
  print (Style.done
    ("Created " ++ stored.name ++ " with " ++ Text.ofInt stored.replicas.toInt ++ " replicas"))
  let ordinals ← ofAllocation (Allocation.active stored.replicas ∅)
  print (Style.row "ordinals" (Text.ofOrdinalSet ordinals))

def listHeading : Text :=
  "\n" ++ Style.dim ++ "  " ++ Text.padRight 24 "NAME" ++ " " ++ Text.padRight 10 "REPLICAS"
    ++ " RESERVED\n" ++ Style.reset

def listRow (config : Config) (name : Text) : Procedure Unit := do
  match (client.store config).load (← files) name with
  | .error cause =>
    if cause.isUnreachable then throw (.store cause)
    else
      print ("  " ++ Text.padRight 24 name ++ " " ++ Style.colored Style.yellow cause.message
        ++ "\n")
  | .ok w =>
    let reserved ← readReservations config w
    print ("  " ++ Text.padRight 24 name ++ " "
      ++ Text.padRight 10 (Text.ofInt w.replicas.toInt) ++ " "
      ++ Text.ofOrdinalSet reserved ++ "\n")

def list : Procedure Unit := do
  let config ← client.requireConfig
  match ← ofStore fun world => ((client.store config).list world.files, world) with
  | [] =>
    print (Style.colored Style.dim ("  No objects in " ++ config.storeDirectory) ++ "\n")
  | names =>
    print listHeading
    names.forM (client.listRow config)
    print "\n"

def inspect (name : Text) : Procedure Unit := do
  let config ← client.requireConfig
  let w ← ofStore fun world => ((client.store config).load world.files name, world)
  print (Style.title w.name ++ Style.row "version" (Text.ofNat w.version.toNat))
  let reserved ← readReservations config w
  print (← ofAllocation (Report.allocation w.replicas reserved))
  print "\n"

def scale (name argument : Text) : Procedure Unit := do
  let target ← Arguments.replicas argument
  let config ← client.requireConfig
  let (stored, rescaling) ←
    modifyObject (client.store config) name .allocation
      (Rescaling.change config.annotationKey target) Rescaling.unchanged
  print (Style.done
    ("Scaled " ++ stored.name ++ " to " ++ Text.ofInt stored.replicas.toInt ++ " replicas"))
  print rescaling.rows

def delete (name : Text) : Procedure Unit := do
  let config ← client.requireConfig
  ofStore ((client.store config).remove · name)
  print (Style.done ("Deleted " ++ name))

def reserve (name : Text) (arguments : List Text) : Procedure Unit := do
  let config ← client.requireConfig
  let slots ← Arguments.ordinals arguments
  client.editReservations config name (.add config.annotationKey slots)
    ("Reserved " ++ Text.ofOrdinalSet slots ++ " on " ++ name)

def unreserve (name : Text) (arguments : List Text) : Procedure Unit := do
  let config ← client.requireConfig
  let slots ← Arguments.ordinals arguments
  client.editReservations config name (.remove config.annotationKey slots)
    ("Released " ++ Text.ofOrdinalSet slots ++ " on " ++ name)

def clear (name : Text) : Procedure Unit := do
  let config ← client.requireConfig
  client.editReservations config name (.clear config.annotationKey) ("Cleared reservations on " ++ name)

def init : Procedure Unit := do
  let path := client.environment.configPath
  let present ← ofConfig (Config.isPresent client.environment (← files))
  act fun world =>
    let (answer, files) := Config.createDefault client.environment world.files
    (answer.mapError .configNotWritten, { world with files })
  if present then print (Style.remark ("Config already exists at " ++ path))
  else print (Style.done ("Wrote " ++ path))

end Client

/-- The procedure of a command. Arguments that do not fit are answered with its usage. -/
def Command.perform (client : Client) : Command → List Text → Procedure Unit
  | .create, [name] => client.create name none
  | .create, [name, replicas] => client.create name (some replicas)
  | .list, [] => client.list
  | .inspect, [name] => client.inspect name
  | .scale, [name, replicas] => client.scale name replicas
  | .delete, [name] => client.delete name
  | .reserve, name :: ordinal :: more => client.reserve name (ordinal :: more)
  | .unreserve, name :: ordinal :: more => client.unreserve name (ordinal :: more)
  | .clear, [name] => client.clear name
  | .compute, arguments => computeAllocation arguments
  | .init, [] => client.init
  | .help, _ => print helpText
  | command, _ => throw (.usage command)

end StableOrdinals.CommandLine
