import LayeredConfig.Command.Arguments
import LayeredConfig.Command.Flat
import LayeredConfig.Live.Extractor
import LayeredConfig.Live.Stage
/-!
# The program

What the program answers to a command line, given its environment and what is known of the files.
An answer names the files that were read, so that one can find out about them and ask again.
-/
namespace LayeredConfig.Command

open LayeredConfig.Live

def programName : String := "reloadable-config"

def programVersion : String := "0.1.0"

/-- How a run of the program ended: its exit code, what it printed, the error that it reported, and
the files that it read. -/
structure Ended where
  code : Nat := 0
  output : String := ""
  error : Option String := none
  asked : List String := []

/-- The exit code of a run that failed. -/
def failureCode : Nat := 1

/-- The exit code of a run that was broken off. -/
def brokenOffCode : Nat := 101

/-- The exit code for a command line that makes no sense. -/
def usageCode : Nat := 2

def linesText (lines : List String) : String :=
  String.join (lines.map (· ++ "\n"))

/-- What is printed where no command is given. -/
def welcome : String := linesText [
  "",
  "  " ++ programName ++ " v" ++ programVersion ++ ": layered, hot-reloadable configuration",
  "",
  "  No command provided. To get started:",
  "",
  "    " ++ programName ++ " print -b bootstrap.yaml -a <app>    Print the merged configuration",
  "    " ++ programName ++ " watch -b bootstrap.yaml -a <app>    Report changes until interrupted",
  "    " ++ programName ++
    " implementations                      List available sources and transformers",
  "    " ++ programName ++ " --help                               See all commands and options",
  ""]

/-- What is printed where help is asked for. -/
def helpText : String := linesText [
  "Layered, hot-reloadable configuration",
  "",
  "Usage: " ++ programName ++ " [COMMAND]",
  "",
  "Commands:",
  "  print            Load the configuration once and print it",
  "  watch            Refresh periodically and report every change until interrupted",
  "  implementations  List the registered source and transformer implementations"]

/-- What is printed where the version is asked for. -/
def versionText (command : Option String) : String :=
  programName ++ (command.elim "" ("-" ++ ·)) ++ " " ++ programVersion ++ "\n"

/-- The line of an entry of a registry. -/
def entryLine {α : Type} (e : Entry α) : String :=
  "  " ++ e.name ++
    (if e.aliases.isEmpty then "" else " (aliases: " ++ String.intercalate ", " e.aliases ++ ")") ++
    (if e.order = 0 then "" else " [order " ++ toString e.order ++ "]")

def registryLines {α : Type} (r : Registry α) : List String :=
  (r.kind ++ "s:") :: r.entries.map entryLine

def implementationsText (r : Registries) : String :=
  linesText (registryLines r.sources ++ [""] ++ registryLines r.transformers)

/-- A run that ended with an error. One that says that a reader broke down is not reported. -/
def failed (asked : List String) (e : ConfigError) : Ended :=
  if e.isBreakdown then { code := brokenOffCode, asked }
  else { code := failureCode, error := some e.message, asked }

def printed (t : Tree) (path : Option String) (format : OutputFormat) :
    Except ConfigError String := do
  let v ← select t path
  match format with
  | .json => pure (linesText [Json.writeIndented v])
  | .flat => pure (linesText (flatLines (path.getD "") v))

/-- The tree in the outcome of getting it. -/
def treeOf : Outcome → Except ConfigError Tree
  | .replied (.outcome result) => result.bind Tree.ofValue
  | _ => .error .refreshAborted

def runPrint (env : Environment) (disk : Files.Disk) (a : QueryArguments)
    (format : OutputFormat) : Ended :=
  let prepared := do
    let b ← Bootstrap.load disk.read a.bootstrap
    let q ← a.query
    Assembly.ofBootstrap b (.builtin env) disk q
  match prepared with
  | .error e => failed [a.bootstrap] e
  | .ok assembly =>
    let (l, outcome) := assembly.start.step (.run .getOrRefresh)
    let asked := a.bootstrap :: l.session.world.surroundings.rest.asked
    match (treeOf outcome).bind fun t => printed t a.path format with
    | .ok output => { output, asked }
    | .error e => failed asked e

/-- How often a configuration is refreshed if nothing else is said, in milliseconds. -/
def defaultInterval : Nat := 30000

/-- The cell that is watched follows the whole tree or the value at a path. -/
def watchedExtractor (path : Option String) : Extractor :=
  match path with
  | none => .whole
  | some path => if Text.isBlankText path then .whole else .atPath .any path

/-- The script that begins to watch: it makes the cell, adds a listener and starts the loop. -/
def watchScript (path : Option String) : Script Surroundings :=
  .derive (watchedExtractor path) fun
    | .error e => .done (.outcome (.error e))
    | .ok c => .register c "watch" (fun _ => .done .nothing) fun _ =>
      .start fun started => .done (.flag started)

/-- The lines that tell of changes: one for every call of the listener, the latest first. -/
def changeLines (history : List Event) : List String :=
  history.filterMap fun
    | .called _ _ _ value => some (Json.write (value.getD .null))
    | _ => none

/-- A configuration that is being watched. -/
structure Watching where
  timeline : Timeline Surroundings
  interval : Nat
  bootstrap : String

namespace Watching

def lines (w : Watching) : List String :=
  (changeLines w.timeline.session.world.history).reverse

def asked (w : Watching) : List String :=
  w.bootstrap :: w.timeline.session.world.surroundings.rest.asked

/-- The watch after some milliseconds, during which the files are as `disk` says. -/
def after (w : Watching) (disk : Files.Disk) (millis : Nat) : Watching :=
  let change (d : Surroundings) : Surroundings := { d with rest := { d.rest with disk } }
  let (l, _) := w.timeline.step (.perform (.alter change (.done .nothing)))
  { w with timeline := (l.step (.pause millis)).1 }

end Watching

def startWatch (env : Environment) (disk : Files.Disk) (a : QueryArguments)
    (intervalSeconds : Option Nat) : Except ConfigError Watching := do
  let b ← Bootstrap.load disk.read a.bootstrap
  let interval := (intervalSeconds.map (· * 1000)).getD (b.refreshInterval.getD defaultInterval)
  let q ← a.query
  let assembly ← Assembly.ofBootstrap (b.withRefreshInterval interval) (.builtin env) disk q
  let (timeline, outcome) := assembly.start.step (.perform (watchScript a.path))
  match outcome with
  | .replied (.flag true) => pure ⟨timeline, interval, a.bootstrap⟩
  | .replied (.outcome (.error e)) => throw e
  | _ => throw (.invalidSettings "watch needs a non-zero refresh interval")

/-- How the program goes on: it has ended, or it watches. -/
inductive Run where
  | ended (result : Ended)
  | watching (watch : Watching)

def run (env : Environment) (disk : Files.Disk) (words : List String) : Run :=
  match Request.ofWords env words with
  | .error (.usage, _) => .ended { code := usageCode }
  | .error (.help, _) => .ended { output := helpText }
  | .error (.version, command) => .ended { output := versionText command }
  | .ok .welcome => .ended { output := welcome }
  | .ok .implementations => .ended { output := implementationsText (.builtin env) }
  | .ok (.print a format) => .ended (runPrint env disk a format)
  | .ok (.watch a interval) =>
    match startWatch env disk a interval with
    | .ok watch => .watching watch
    | .error e => .ended (failed [a.bootstrap] e)

end LayeredConfig.Command
