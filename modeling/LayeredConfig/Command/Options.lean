import LayeredConfig.Environment.Basic
import LayeredConfig.Text.Pieces
/-!
# Options

Reading the options on a command line. An option has a long name and may have a short one; it is a
flag or takes a value, which follows it or is joined to it. A value that is not given may come from
a variable of the environment.
-/
namespace LayeredConfig.Command

/-- An option. Flags accept no value; `accepts` says which values are allowed. -/
structure OptionRule where
  long : String
  short : Option Char := none
  isFlag : Bool := false
  repeatable : Bool := false
  required : Bool := false
  variableName : Option String := none
  accepts : String → Bool := fun _ => true
  excludes : List String := []

/-- Why a command line is not carried out. -/
inductive Halt where
  | usage
  | help
  | version
  deriving DecidableEq, Repr

/-- The values that were given to options, in order; a flag has the empty value. -/
abbrev Given := List (String × String)

def Given.all (g : Given) (long : String) : List String :=
  (g.filter fun (name, _) => name == long).map Prod.snd

def Given.first? (g : Given) (long : String) : Option String :=
  (g.all long).head?

/-- The option was given. -/
def Given.has (g : Given) (long : String) : Bool :=
  (g.first? long).isSome

/-- A word that is read as options and cannot be a value of its own. -/
def looksLikeOption (word : String) : Bool :=
  match word.toList with
  | '-' :: _ :: _ => true
  | _ => false

def addValue (rule : OptionRule) (value : String) (g : Given) : Except Halt Given :=
  if !rule.accepts value || (!rule.repeatable && g.has rule.long) then .error .usage
  else .ok (g ++ [(rule.long, value)])

/-- What a word of options leads to: options added, or an option that takes the next word as its
value. -/
inductive WordRead where
  | complete (given : Given)
  | pending (rule : OptionRule) (given : Given)

/-- Options that every command has: they end the reading. -/
def haltOf? (long : String) (short : Option Char) : Option Halt :=
  if long == "help" || short == some 'h' then some .help
  else if long == "version" || short == some 'V' then some .version
  else none

/-- Reads a word with a long name, possibly with a value behind an equals sign. -/
def readLong (rules : List OptionRule) (g : Given) (body : List Char) : Except Halt WordRead :=
  let (name, value) := match Text.cutAtFirst ['='] body with
    | some (name, value) => (String.ofList name, some (String.ofList value))
    | none => (String.ofList body, none)
  match haltOf? name none, value with
  | some halt, none => .error halt
  | some _, some _ => .error .usage
  | none, value =>
    match rules.find? (fun rule => rule.long == name), value with
    | none, _ => .error .usage
    | some rule, none =>
      if rule.isFlag then (addValue rule "" g).map .complete else .ok (.pending rule g)
    | some rule, some value =>
      if rule.isFlag then .error .usage else (addValue rule value g).map .complete

/-- Reads short names written together; what follows one that takes a value is the value. -/
def readShort (rules : List OptionRule) (g : Given) : List Char → Except Halt WordRead
  | [] => .ok (.complete g)
  | c :: rest =>
    match haltOf? "" (some c) with
    | some halt => .error halt
    | none =>
      match rules.find? (fun rule => rule.short == some c) with
      | none => .error .usage
      | some rule =>
        if rule.isFlag then do readShort rules (← addValue rule "" g) rest
        else match rest with
          | [] => .ok (.pending rule g)
          | '=' :: value => (addValue rule (String.ofList value) g).map .complete
          | value => (addValue rule (String.ofList value) g).map .complete

/-- Reads words; `pending` is an option that still needs its value. -/
def readWords (rules : List OptionRule) :
    Option OptionRule → Given → List String → Except Halt Given
  | some _, _, [] => .error .usage
  | none, g, [] => .ok g
  | some rule, g, word :: rest =>
    if looksLikeOption word then .error .usage
    else do readWords rules none (← addValue rule word g) rest
  | none, g, word :: rest =>
    match word.toList with
    | ['-', '-'] => if rest.isEmpty then .ok g else .error .usage
    | '-' :: '-' :: body => do
      match ← readLong rules g body with
      | .complete g => readWords rules none g rest
      | .pending rule g => readWords rules (some rule) g rest
    | '-' :: c :: body => do
      match ← readShort rules g (c :: body) with
      | .complete g => readWords rules none g rest
      | .pending rule g => readWords rules (some rule) g rest
    | _ => .error .usage

/-- Adds values from the environment for options that were not given. -/
def addVariables (env : Environment) : List OptionRule → Given → Except Halt Given
  | [], g => .ok g
  | rule :: rest, g =>
    match if g.has rule.long then none else rule.variableName.bind env.var? with
    | some value => do addVariables env rest (← addValue rule value g)
    | none => addVariables env rest g

/-- Every required option has a value, and none stands beside one that it excludes. -/
def isComplete (rules : List OptionRule) (g : Given) : Bool :=
  rules.all fun rule =>
    if g.has rule.long then !rule.excludes.any g.has else !rule.required

/-- The values of options from the words of a command line and from the environment. -/
def readOptions (rules : List OptionRule) (env : Environment) (words : List String) :
    Except Halt Given := do
  let g ← readWords rules none [] words
  let g ← addVariables env rules g
  if isComplete rules g then pure g else throw .usage

end LayeredConfig.Command
