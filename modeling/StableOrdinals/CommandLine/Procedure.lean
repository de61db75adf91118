import StableOrdinals.CommandLine.Command
import StableOrdinals.Config
import StableOrdinals.Ordinal.Notation
import StableOrdinals.Store

/-!
# Procedures

A procedure runs in a session, which holds the world and what has been printed so far. It ends
well or with a failure; what it printed and did to the world before the failure stays.

`Failure.report` is what a failure prints and `Failure.remarks` what it leaves in the log.
-/

namespace StableOrdinals

def Environment.store (environment : Environment) (config : Config) : Store :=
  ⟨config.storeDirectory, environment.format⟩

namespace CommandLine

inductive Failure
  | unknownCommand (name : Text)
  | usage (command : Command)
  | badReplicas (argument : Text)
  | badOrdinals (text : Text)
  | noOrdinals
  | negativeOrdinal (o : Ordinal)
  /-- There is no usable configuration; `path` is where it would be. -/
  | noConfig (cause : ConfigError) (path : Path)
  | configNotWritten (cause : ConfigError)
  | store (cause : StoreError)
  | allocation (cause : AllocationError)
  | encoding (cause : EncodingError)
  deriving DecidableEq, Repr

namespace Failure

def message : Failure → Text
  | unknownCommand name => "Unknown command: " ++ name
  | usage command => "Usage: slotctl " ++ command.usage
  | badReplicas argument =>
    "Replicas must be a non-negative integer, got '" ++ argument ++ "'"
  | badOrdinals text => "Invalid ordinal list: '" ++ text ++ "'"
  | noOrdinals => "No ordinals given."
  | negativeOrdinal o => "Ordinal " ++ Text.ofInt o.toInt ++ " is negative."
  | noConfig cause _ => cause.message
  | configNotWritten cause => cause.message
  | store cause => cause.message
  | allocation cause => cause.message
  | encoding cause => cause.message

/-- What to do about it. -/
def hint : Failure → Text
  | unknownCommand _ => Style.hint "Run 'slotctl help' for available commands."
  | noConfig _ path => Style.hint ("Fix " ++ path ++ " or run 'slotctl init'.")
  | _ => []

def report (failure : Failure) : Text := Style.failure failure.message ++ failure.hint

def isNoted : Failure → Bool
  | allocation _ => true
  | store cause => cause.isUnreachable
  | configNotWritten (.unreachable ..) => true
  | _ => false

def remarks (command : Text) (failure : Failure) : List Text :=
  if failure.isNoted then ["[cli] " ++ command ++ " failed: " ++ failure.message] else []

end Failure

structure Session where
  world : World
  output : Text

abbrev Procedure := ExceptT Failure (StateM Session)

namespace Procedure

def print (s : Text) : Procedure Unit :=
  modify fun session => { session with output := session.output ++ s }

def note (lines : List Text) : Procedure Unit :=
  modify fun session => { session with world := session.world.note lines }

def files : Procedure Files := return (← get).world.files

/-- Do something to the world that may fail. -/
def act {α : Type} (f : World → Except Failure α × World) : Procedure α :=
  ExceptT.mk fun session =>
    let (answer, world) := f session.world
    (answer, { session with world })

def ofStore {α : Type} (f : World → Except StoreError α × World) : Procedure α :=
  act fun world => let (answer, world) := f world; (answer.mapError .store, world)

/-- The configuration file is looked for in order to write it. -/
def ofConfig {α : Type} (answer : Except ConfigError α) : Procedure α :=
  liftM (answer.mapError Failure.configNotWritten)

def ofAllocation {α : Type} (answer : Except AllocationError α) : Procedure α :=
  liftM (answer.mapError Failure.allocation)

end Procedure

/-- What a command finds when it starts. -/
structure Client where
  environment : Environment
  config : Except ConfigError Config

namespace Client

variable (client : Client)

/-- An unusable configuration is noted in the log. No client starts where it cannot be told whether
there is a configuration. -/
def start (environment : Environment) (world : World) : Except ConfigError (Client × World) :=
  match Config.load environment world.files with
  | .ok config => .ok (⟨environment, .ok config⟩, world)
  | .error cause =>
    if cause.isUnreachable then .error cause
    else .ok (⟨environment, .error cause⟩, world.note ["[cli] " ++ cause.message])

def store (config : Config) : Store := client.environment.store config

def requireConfig : Procedure Config :=
  match client.config with
  | .ok config => pure config
  | .error cause => throw (.noConfig cause client.environment.configPath)

end Client

end CommandLine

end StableOrdinals
