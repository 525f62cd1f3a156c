import LayeredConfig.Bootstrap
import LayeredConfig.Live.Rehearsal.Action
import LayeredConfig.Live.Rehearsal.Parts
/-!
# Stages

The surroundings of a configuration that is made of built-in sources and transformers: the files,
and the state that sources and transformers keep. A rehearsal may add sources that are set by hand,
of which the configuration of a bootstrap document has none; what is there for them stands at the
end.
-/
namespace LayeredConfig.Live

/-- The state of everything of which a configuration is made. `asked` lists the files that were
read, the last one first; `manual` are the sources that are set by hand. Times in caches are in
microseconds. -/
structure Stage where
  disk : Files.Disk := {}
  asked : List String := []
  sources : List BuiltinSource := []
  transformers : List BuiltinTransformer := []
  manual : List ManualSource := []
  cacheTime : Nat := 0

namespace Stage

def noteAsked (s : Stage) (paths : List String) : Stage :=
  { s with asked := paths.reverse ++ s.asked }

/-- The source has to read files to answer a query. -/
def sourceReads (s : Stage) (index : Nat) (q : Query) : Bool :=
  match s.sources[index]? with
  | some (.files source) =>
    (layerPaths source.directory source.format q).any fun path =>
      (source.cache.get? s.cacheTime (Files.components path)).isNone
  | _ => false

/-- The answer of a source, and the stage afterwards. -/
def answer (s : Stage) (index : Nat) (q : Query) : Except ConfigError Tree × Stage :=
  match s.sources[index]? with
  | none => (.error .noValue, s)
  | some source =>
    let (result, source, paths) := source.get s.disk.read s.cacheTime q
    (result, { s with sources := s.sources.set index source }.noteAsked paths)

/-- The transformer has to read files to transform a tree. -/
def transformerReads (s : Stage) (index : Nat) (t : Tree) : Bool :=
  match s.transformers[index]? with
  | some (.secrets source) =>
    (source.substitution.keys t).any fun key =>
      (source.substitution.cache.get? s.cacheTime key).isNone
  | _ => false

/-- The answer of a transformer, and the stage afterwards. -/
def transform (s : Stage) (index : Nat) (t : Tree) : Except ConfigError Tree × Stage :=
  match s.transformers[index]? with
  | none => (.error .noValue, s)
  | some transformer =>
    let (result, transformer, paths) := transformer.transform s.disk.read s.cacheTime t
    (result, { s with transformers := s.transformers.set index transformer }.noteAsked paths)

end Stage

/-- The surroundings of a configuration. -/
abbrev Surroundings := Desk Stage

namespace Surroundings

def onStage {α : Type} (f : Stage → α × Stage) (d : Surroundings) : α × Surroundings :=
  let (result, rest) := f d.rest
  (result, { d with rest })

end Surroundings

/-- What answers that come from files make the caller wait for. -/
def paceOf (reads : Bool) : Pace := if reads then .fromFiles else .atOnce

def Source.builtin (index : Nat) (source : BuiltinSource) : Source Surroundings where
  name := source.name
  allowErrors _ := source.allowErrors
  ask q d := (paceOf (d.rest.sourceReads index q), d)
  answer q := Surroundings.onStage (·.answer index q)
  close := Surroundings.onStage fun s =>
    (.ok (), { s with sources := s.sources.modify index BuiltinSource.close })

def Transformer.builtin (index : Nat) (t : BuiltinTransformer) : Transformer Surroundings where
  name := t.name
  ask tree d := (paceOf (d.rest.transformerReads index tree), d)
  answer tree := Surroundings.onStage (·.transform index tree)

/-- A configuration that is being put together. -/
structure Assembly where
  plan : Plan Surroundings
  stage : Stage := {}

namespace Assembly

def addSource (a : Assembly) (source : BuiltinSource) : Assembly where
  plan := { a.plan with
    sources := a.plan.sources ++ [.builtin a.stage.sources.length source] }
  stage := { a.stage with sources := a.stage.sources ++ [source] }

def addTransformer (a : Assembly) (t : BuiltinTransformer) : Assembly where
  plan := { a.plan with
    transformers := a.plan.transformers ++ [.builtin a.stage.transformers.length t] }
  stage := { a.stage with transformers := a.stage.transformers ++ [t] }

/-- How much work a script may be, unless something else is said. -/
def defaultFuel : Nat := 1000000000

def start (a : Assembly) : Timeline Surroundings where
  session := {
    plan := a.plan
    fuel := defaultFuel
    world := { surroundings := { rest := a.stage } } }

end Assembly

/-- The configuration that a bootstrap document describes, for a query. -/
def Assembly.ofBootstrap (b : Bootstrap) (r : Registries) (disk : Files.Disk) (q : Query) :
    Except ConfigError Assembly := do
  let (sources, transformers) ← b.parts r
  let a : Assembly := {
    plan := {
      query := q
      order := if b.reverseUpdateOrder then .reverse else .registration
      getTimeout := b.getTimeout
      refreshInterval := b.refreshInterval }
    stage := { disk } }
  pure (transformers.foldl addTransformer (sources.foldl addSource a))

/-- The tree of a configuration that is refreshed once and then closed. -/
def Assembly.fetchOnce (a : Assembly) : Outcome × Stage :=
  let (l, outcome) := a.start.step (.run .refresh)
  let (l, _) := l.step (.perform (.shut (.done .nothing)))
  (outcome, l.session.world.surroundings.rest)

/-! ### Rehearsals -/

def Source.manual (index : Nat) (source : ManualSource) : Source Surroundings where
  name := source.name
  allowErrors d := (d.rest.manual[index]?).any ManualSource.allowErrors
  ask _ := Surroundings.onStage fun s =>
    (.after ((s.manual[index]?).elim 0 ManualSource.delay),
      { s with manual := s.manual.modify index fun m => { m with calls := m.calls + 1 } })
  answer _ := Surroundings.onStage fun s =>
    ((s.manual[index]?).elim (.error .noValue) ManualSource.tree, s)
  close := Surroundings.onStage fun s =>
    let fails := (s.manual[index]?).any ManualSource.closeFails
    (if fails then .error (.invalidSettings "close failed") else .ok (),
      { s with manual := s.manual.modify index fun m => { m with closes := m.closes + 1 } })

namespace Assembly

/-- Adds a source that is set by hand. -/
def addManual (a : Assembly) (source : ManualSource) : Assembly where
  plan := { a.plan with
    sources := a.plan.sources ++ [.manual a.stage.manual.length source] }
  stage := { a.stage with manual := a.stage.manual ++ [source] }

/-- Adds a transformer that is a function. -/
def addFunction (a : Assembly) (name : String) (f : Tree → Except ConfigError Tree) : Assembly :=
  { a with plan := { a.plan with transformers := a.plan.transformers ++ [.ofFunction name f] } }

end Assembly

end LayeredConfig.Live
