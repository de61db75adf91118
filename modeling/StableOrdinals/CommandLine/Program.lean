import StableOrdinals.CommandLine.Execution

/-!
# The program

`runCommand` runs one command, `run` a whole command line. Both answer with the exit code, the
output and the world as it is afterwards. Exit code 0 means success and 1 failure.
-/

namespace StableOrdinals.CommandLine

structure Outcome where
  exit : UInt32
  output : Text
  world : World

/-- Run a procedure and report the failure that it may end with. -/
def conclude (command : Text) (procedure : Procedure Unit) (world : World) : Outcome :=
  match procedure.run ⟨world, []⟩ with
  | (.ok (), session) => ⟨0, session.output, session.world⟩
  | (.error failure, session) =>
    ⟨1, session.output ++ failure.report, session.world.note (failure.remarks command)⟩

def procedure (client : Client) (name : Text) (arguments : List Text) : Procedure Unit :=
  match Command.ofName? name with
  | some command => command.perform client arguments
  | none => throw (.unknownCommand name)

/-- Start a client and go on with it. Where none starts, the program only says why. -/
def withClient (environment : Environment) (world : World) (next : Client → World → Outcome) :
    Outcome :=
  match Client.start environment world with
  | .error cause => ⟨1, Style.failure cause.message, world⟩
  | .ok (client, world) => next client world

def runCommand (environment : Environment) (name : Text) (arguments : List Text) (world : World) :
    Outcome :=
  withClient environment world fun client world =>
    conclude name (procedure client name arguments) world

def versionText : Text :=
  Style.colored (Style.brown ++ Style.bold) "slotctl" ++ Style.colored Style.dim " version 0.1.0"
    ++ "\n"

def usageText : Text :=
  "\n" ++ Style.colored (Style.blue ++ Style.bold) "  slotctl"
    ++ Style.colored Style.dim "  stable ordinals with reserved slots" ++ "\n"
    ++ Command.helpText
    ++ Style.colored Style.dim
      ("    slotctl --version        Show version\n"
        ++ "    slotctl --help           Show this help")
    ++ "\n\n"

/-- A command line without a known command shows the usage. -/
def run (environment : Environment) (arguments : List Text) (world : World) : Outcome :=
  withClient environment world fun client world =>
    match arguments with
    | [] => ⟨1, usageText, world⟩
    | name :: rest =>
      if name = "--version" then ⟨0, versionText, world⟩
      else if name = "--help" ∨ name = "help" then ⟨0, usageText, world⟩
      else if Command.ofName? name = none then
        ⟨1, Style.failure (Failure.unknownCommand name).message ++ usageText, world⟩
      else conclude name (procedure client name rest) world

end StableOrdinals.CommandLine
