import LayeredConfig.Command.Program
/-!
# The program on a system

Gives the program the variables of its process and the files of the system, and prints what it
answers. Which files matter is not known beforehand: the program is run on what is known of them,
and run again whenever it has asked for a file of which nothing was known.
-/
namespace LayeredConfig.Command

/-- What is known of files, by their paths. -/
abbrev Known := List (String × Except FileFault String)

/-- The system's number for the error that a directory was read like a file. -/
def isADirectoryCode : UInt32 := 21

/-- Why the system could not read the file at a path. -/
def faultOf (path : String) : IO.Error → FileFault
  | .noFileOrDirectory .. => .notFound
  | .inappropriateType _ code _ => if code = isADirectoryCode then .isADirectory else .notADirectory
  | .invalidArgument .. => if path.toList.contains '\x00' then .nulInName else .nameTooLong
  | e => .reported (toString e)

def readPath (path : String) : IO (Except FileFault String) := do
  try
    match String.fromUTF8? (← IO.FS.readBinFile path) with
    | some content => pure (.ok content)
    | none => pure (.error .notUtf8)
  catch e => pure (.error (faultOf path e))

/-- Reads the files at those paths of which nothing is known. -/
def learn (known : Known) (paths : List String) : IO Known :=
  paths.foldlM (fun known path => do
    if (known.lookup path).isSome then pure known
    else pure ((path, ← readPath path) :: known)) known

/-- Gives an answer that depends on files once everything that it asks for is known. -/
partial def settle {α : Type} (answer : Files.Disk → α) (asked : α → List String)
    (known : Known) : IO α := do
  let result := answer { known }
  let more ← learn known (asked result)
  if more.length = known.length then pure result else settle answer asked more

/-- The longest sleep, in milliseconds. -/
def sleepMax : Nat := Width.unsignedMax 32

/-- Watches until the process is stopped, and prints each change. `shown` counts the lines that were
printed. Files are read anew for each round. -/
partial def watchOn (w : Watching) (shown millis : Nat) : IO Unit := do
  let known ← learn [] w.asked
  let next ← settle (w.after · millis) Watching.asked known
  let out ← IO.getStdout
  for line in next.lines.drop shown do
    out.putStrLn line
  out.flush
  let pause := min next.interval sleepMax
  IO.sleep (UInt32.ofNat pause)
  watchOn next next.lines.length pause

/-- The files that a run has asked for. -/
def Run.asked : Run → List String
  | .ended e => e.asked
  | .watching w => w.asked

def readEnvironment : IO Environment := do
  let block ← IO.FS.readBinFile "/proc/self/environ"
  pure (.ofBlock block.toList)

/-- Runs the program with the words of its command line; the result is the exit code. -/
def runOnSystem (words : List String) : IO UInt32 := do
  let env ← readEnvironment
  match ← settle (run env · words) Run.asked [] with
  | .ended e =>
    IO.print e.output
    if let some message := e.error then IO.eprintln ("Error: " ++ message)
    if e.code = usageCode then IO.eprint helpText
    pure (UInt32.ofNat e.code)
  | .watching w =>
    watchOn w 0 0
    pure 0

end LayeredConfig.Command

def main (words : List String) : IO UInt32 :=
  LayeredConfig.Command.runOnSystem words
