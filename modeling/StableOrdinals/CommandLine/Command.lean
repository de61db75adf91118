import StableOrdinals.CommandLine.Style

/-!
# Commands

The commands, how each is called, and the help text that lists them.
-/

namespace StableOrdinals.CommandLine

inductive Command
  | create
  | list
  | inspect
  | scale
  | delete
  | reserve
  | unreserve
  | clear
  | compute
  | init
  | help
  deriving DecidableEq, Repr

namespace Command

def all : List Command :=
  [create, list, inspect, scale, delete, reserve, unreserve, clear, compute, init, help]

def name : Command → Text
  | create => "create"
  | list => "list"
  | inspect => "show"
  | scale => "scale"
  | delete => "delete"
  | reserve => "reserve"
  | unreserve => "unreserve"
  | clear => "clear"
  | compute => "calc"
  | init => "init"
  | help => "help"

def ofName? (s : Text) : Option Command := all.find? (·.name = s)

/-- The arguments as the help text shows them. -/
def parameters : Command → Text
  | create => "<name> [replicas]"
  | inspect => "<name>"
  | scale => "<name> <replicas>"
  | delete => "<name>"
  | reserve => "<name> <ordinals>"
  | unreserve => "<name> <ordinals>"
  | clear => "<name>"
  | compute => "<replicas> [ordinals] [--to N]"
  | list | init | help => []

/-- How the command is called, as a complaint about its arguments shows it. -/
def usage : Command → Text
  | compute => "calc <replicas> [ordinals] [--to <target>]"
  | command =>
    if command.parameters = [] then command.name else command.name ++ " " ++ command.parameters

def summary : Command → Text
  | create => "Create a workload object"
  | list => "List workload objects"
  | inspect => "Show reservations and active ordinals"
  | scale => "Change replicas, print new ordinals"
  | delete => "Delete an object and its reservations"
  | reserve => "Reserve (delete) ordinals, e.g. 2,4"
  | unreserve => "Release reserved ordinals"
  | clear => "Release all reserved ordinals"
  | compute => "Compute ordinals without a stored object"
  | init => "Write the default config file"
  | help => "Show this help message"

def groups : List (Text × List Command) :=
  [("Objects", [create, list, inspect, scale, delete]),
    ("Reservations", [reserve, unreserve, clear]),
    ("Tools", [compute, init, help])]

def helpLine (command : Command) : Text :=
  Style.colored Style.blue
      ("    " ++ Text.padRight 34 (command.name ++ " " ++ command.parameters))
    ++ Style.colored Style.dim command.summary ++ "\n"

def helpGroup (heading : Text) (commands : List Command) : Text :=
  "\n" ++ Style.colored (Style.brown ++ Style.bold) ("  " ++ heading) ++ "\n"
    ++ commands.flatMap helpLine

def helpText : Text :=
  (groups.flatMap fun (heading, commands) => helpGroup heading commands) ++ "\n"

end Command

end StableOrdinals.CommandLine
