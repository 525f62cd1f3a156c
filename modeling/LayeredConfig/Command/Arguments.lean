import LayeredConfig.Command.Options
import LayeredConfig.Decimal.Whole
import LayeredConfig.Query
/-!
# Arguments

The commands of the program and what each of them is told on the command line.
-/
namespace LayeredConfig.Command

/-- Which configuration is asked for, and which part of it. -/
structure QueryArguments where
  bootstrap : String
  app : String
  envs : List String
  datacenter : Option String
  zone : Option String
  path : Option String

def QueryArguments.query (a : QueryArguments) : Except ConfigError Query :=
  Query.of a.app a.envs a.datacenter a.zone

/-- How a configuration is printed: as indented JSON, or as one line for every leaf. -/
inductive OutputFormat where
  | json
  | flat
  deriving DecidableEq, Repr

/-- A command with its arguments. -/
inductive Request where
  | welcome
  | implementations
  | print (query : QueryArguments) (format : OutputFormat)
  | watch (query : QueryArguments) (intervalSeconds : Option Nat)

def logLevels : List String := ["trace", "debug", "info", "warn", "error"]

def outputFormats : List (String × OutputFormat) := [("json", .json), ("flat", .flat)]

/-- The options of the commands that load a configuration. -/
def queryRules : List OptionRule := [
  { long := "bootstrap", short := some 'b', required := true,
    variableName := some "RELOADABLE_CONFIG_BOOTSTRAP", accepts := fun value => !value.isEmpty },
  { long := "app", short := some 'a', required := true,
    variableName := some "RELOADABLE_CONFIG_APP" },
  { long := "env", short := some 'e', repeatable := true },
  { long := "datacenter", variableName := some "RELOADABLE_CONFIG_DATACENTER" },
  { long := "zone", variableName := some "RELOADABLE_CONFIG_ZONE" },
  { long := "path" },
  { long := "log-level", short := some 'l', variableName := some "LOG_LEVEL",
    accepts := logLevels.contains },
  { long := "pretty", isFlag := true },
  { long := "json", isFlag := true, excludes := ["pretty"] }]

def secondsMax : Nat := Width.unsignedMax 64

def printRules : List OptionRule :=
  queryRules ++ [{ long := "format", accepts := fun value => (outputFormats.lookup value).isSome }]

def watchRules : List OptionRule :=
  queryRules ++ [{
    long := "interval-secs", variableName := some "RELOADABLE_CONFIG_INTERVAL_SECS",
    accepts := fun value => (Decimal.natural? secondsMax value).isSome }]

/-- The arguments that the options of a query stand for. -/
def QueryArguments.ofGiven (g : Given) : QueryArguments where
  bootstrap := (g.first? "bootstrap").getD ""
  app := (g.first? "app").getD ""
  envs := g.all "env"
  datacenter := g.first? "datacenter"
  zone := g.first? "zone"
  path := g.first? "path"

def commandNames : List String := ["print", "watch", "implementations", "help"]

/-- Help can be asked for in general or for one command. -/
def isHelpTopic : List String → Bool
  | [] => true
  | [name] => commandNames.contains name
  | _ => false

/-- What a command line comes to: a request, or a halt in the command of a name. -/
def Request.ofWords (env : Environment) : List String → Except (Halt × Option String) Request
  | [] | ["--"] => .ok .welcome
  | "print" :: words => within "print" do
    let g ← readOptions printRules env words
    let format := ((g.first? "format").bind fun name => outputFormats.lookup name).getD .json
    pure (.print (.ofGiven g) format)
  | "watch" :: words => within "watch" do
    let g ← readOptions watchRules env words
    let interval := (g.first? "interval-secs").bind (Decimal.natural? secondsMax)
    pure (.watch (.ofGiven g) interval)
  | "implementations" :: words => within "implementations" do
    let _ ← readOptions [] env words
    pure .implementations
  | "help" :: topics => .error (if isHelpTopic topics then .help else .usage, none)
  | words =>
    match readOptions [] env words with
    | .ok _ => .ok .welcome
    | .error halt => .error (halt, none)
where
  -- A halt happens in the command of a name.
  within (command : String) (read : Except Halt Request) :
      Except (Halt × Option String) Request :=
    read.mapError fun halt => (halt, some command)

end LayeredConfig.Command
