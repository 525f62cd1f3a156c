import LayeredConfig.Live.Source
import LayeredConfig.Tree.Merge
/-!
# Fetching

A fetch asks the sources in order and lays their trees over each other; the result goes through the
transformers in order. It can stop at every source and transformer to wait for the answer. A source
that may fail is passed over if it does; any other failure ends the fetch, and so does a source
whose reader breaks down.
-/
namespace LayeredConfig.Live

variable {σ : Type}

/-- What a fetch is waiting for, with what it has got so far. -/
inductive Progress where
  | source (index : Nat) (merged : Tree)
  | transformer (index : Nat) (tree : Tree)

/-- How far a fetch has got. -/
inductive Fetched where
  | waiting (pace : Pace) (progress : Progress)
  | over (result : Except ConfigError Tree)

def Pace.waits : Pace → Bool
  | .atOnce => false
  | .after millis => millis != 0
  | .fromFiles => true

def askSource (plan : Plan σ) (index : Nat) (s : Source σ) : StateM (World σ) Pace :=
  modifyGet fun w =>
    let (pace, surroundings) := s.ask plan.query w.surroundings
    (pace, { w with surroundings }.log (.asked index))

/-- The tree so far with the answer of a source laid over it. -/
def takeSource (plan : Plan σ) (s : Source σ) (merged : Tree) :
    StateM (World σ) (Except ConfigError Tree) :=
  modifyGet fun w =>
    let (answer, surroundings) := s.answer plan.query w.surroundings
    let taken := match answer with
      | .ok tree => .ok (merged.mergedWith tree)
      | .error e =>
        if s.allowErrors surroundings && !e.isBreakdown then .ok merged
        else .error (.sourceFetch s.name plan.query.describe (.error e))
    (taken, { w with surroundings })

def askTransformer (index : Nat) (t : Transformer σ) (tree : Tree) : StateM (World σ) Pace :=
  modifyGet fun w =>
    let (pace, surroundings) := t.ask tree w.surroundings
    (pace, { w with surroundings }.log (.transformed index))

def takeTransformer (t : Transformer σ) (tree : Tree) :
    StateM (World σ) (Except ConfigError Tree) :=
  modifyGet fun w =>
    let (answer, surroundings) := t.answer tree w.surroundings
    (answer.mapError fun e => .transform t.name (.error e), { w with surroundings })

/-- Goes on with transformers, counting from `index`. -/
def throughTransformers (index : Nat) (tree : Tree) :
    List (Transformer σ) → StateM (World σ) Fetched
  | [] => return .over (.ok tree)
  | t :: rest => do
    let pace ← askTransformer index t tree
    if pace.waits then return .waiting pace (.transformer index tree)
    else match ← takeTransformer t tree with
      | .ok tree => throughTransformers (index + 1) tree rest
      | .error e => return .over (.error e)

/-- Goes on with sources, counting from `index`, and then with the transformers. -/
def throughSources (plan : Plan σ) (index : Nat) (merged : Tree) :
    List (Source σ) → StateM (World σ) Fetched
  | [] => throughTransformers 0 merged plan.transformers
  | s :: rest => do
    let pace ← askSource plan index s
    if pace.waits then return .waiting pace (.source index merged)
    else match ← takeSource plan s merged with
      | .ok merged => throughSources plan (index + 1) merged rest
      | .error e => return .over (.error e)

def fetch (plan : Plan σ) : StateM (World σ) Fetched :=
  throughSources plan 0 .empty plan.sources

/-- Goes on with a fetch whose wait is over. -/
def Progress.resume (plan : Plan σ) : Progress → StateM (World σ) Fetched
  | .source index merged =>
    match plan.sources.drop index with
    | [] => return .over (.ok merged)
    | s :: rest => do
      match ← takeSource plan s merged with
      | .ok merged => throughSources plan (index + 1) merged rest
      | .error e => return .over (.error e)
  | .transformer index tree =>
    match plan.transformers.drop index with
    | [] => return .over (.ok tree)
    | t :: rest => do
      match ← takeTransformer t tree with
      | .ok tree => throughTransformers (index + 1) tree rest
      | .error e => return .over (.error e)

end LayeredConfig.Live
