import LayeredConfig.Files.Layers
import LayeredConfig.Proofs.Recall
import Mathlib.Data.List.Forall2
/-!
# Layers are seen as they were

A source of layered files is in use: it is asked for queries, files come and go, time passes, and it
is closed now and then. What files show of a layer is said without the source: the tree in the
document, or that there is no file; a file that cannot be read and a document that is no tree are
failures. Of every reading of a layer since the source was last closed it is on record when it was
made and what the files were then.

A get sees each of its layers as the last reading that succeeded showed it, be it content or that
there was nothing, unless the lifetime has passed since; otherwise it reads the layer, and sees what
the files show now. What it gives follows from what it sees: the layers laid over each other, or the
first failure.

The proof is one induction over the layers of a query, in which every reading may be remembered by
the time that the next layer is looked at.
-/
namespace LayeredConfig.FileSource

/-! ### What files show -/

/-- What files show of a layer. -/
inductive Shows (format : FileFormat) (files : Files.Reader) (path : String) :
    Except ConfigError (Option Tree) → Prop
  | present {content : String} {t : Tree} (text : files path = .ok content)
      (tree : Tree.ofDocument format.extension content path = .ok t) :
      Shows format files path (.ok (some t))
  | absent (missing : files path = .error .notFound) : Shows format files path (.ok none)
  | unparsable {content : String} {e : ConfigError} (text : files path = .ok content)
      (noTree : Tree.ofDocument format.extension content path = .error e) :
      Shows format files path (.error e)
  | unreadable {fault : FileFault} (failed : files path = .error fault)
      (there : fault ≠ .notFound) : Shows format files path (.error (.file path fault))

/-- The layer for all environments. -/
def baseLayer (directory : String) (format : FileFormat) (q : Query) : String :=
  Files.join directory (q.app ++ "." ++ format.extension)

/-- What a query gives if all of its layers are read. -/
inductive Freshly (directory : String) (format : FileFormat) (files : Files.Reader) (q : Query) :
    Except ConfigError Tree → Prop
  | merged {found : List (Option Tree)}
      (each : List.Forall₂ (fun path here => Shows format files path (.ok here))
        (layerPaths directory format q) found) (some : found.reduceOption ≠ []) :
      Freshly directory format files q (.ok (Tree.mergeAll found.reduceOption))
  | missing {found : List (Option Tree)}
      (each : List.Forall₂ (fun path here => Shows format files path (.ok here))
        (layerPaths directory format q) found) (none : found.reduceOption = []) :
      Freshly directory format files q (.error (.fileNotFound (baseLayer directory format q)))
  | refused {before after : List String} {path : String} {e : ConfigError}
      (split : layerPaths directory format q = before ++ path :: after)
      (earlier : ∀ p ∈ before, ∃ found, Shows format files p (.ok found))
      (fails : Shows format files path (.error e)) : Freshly directory format files q (.error e)

/-- A reading of a layer: where and when, and what the files were then. -/
structure Reading where
  path : String
  time : Nat
  files : Files.Reader

/-- The last reading of a layer that did not fail showed `known`, and `ttl` has not passed since.
The readings stand with the latest first. -/
def Known (format : FileFormat) (ttl : Nat) (readings : List Reading) (now : Nat) (path : String)
    (known : Option Tree) : Prop :=
  ∃ later r earlier, readings = later ++ r :: earlier ∧
    Files.components r.path = Files.components path ∧
    Shows format r.files r.path (.ok known) ∧ now < r.time + ttl ∧
    ∀ other ∈ later, Files.components other.path = Files.components path →
      ∃ e, Shows format other.files other.path (.error e)

/-- The readings on record once layers were read, one after the other. -/
def nowRead (files : Files.Reader) (now : Nat) (paths : List String) (readings : List Reading) :
    List Reading :=
  (paths.map fun path => ⟨path, now, files⟩).reverse ++ readings

/-- A layer as a get saw it, and whether the get had to read it. -/
structure Sight where
  path : String
  found : Except ConfigError (Option Tree)
  anew : Bool

/-- What a get that looks at `paths` one after the other sees, with `readings` on record. -/
inductive Looks (format : FileFormat) (files : Files.Reader) (ttl now : Nat) :
    List Reading → List String → List Sight → Prop
  | done (readings) : Looks format files ttl now readings [] []
  | remembered {readings path rest sights known}
      (remembers : Known format ttl readings now path known)
      (others : Looks format files ttl now readings rest sights) :
      Looks format files ttl now readings (path :: rest) (⟨path, .ok known, false⟩ :: sights)
  | readAnew {readings path rest sights found}
      (forgotten : ∀ known, ¬ Known format ttl readings now path known)
      (shows : Shows format files path (.ok found))
      (others : Looks format files ttl now (⟨path, now, files⟩ :: readings) rest sights) :
      Looks format files ttl now readings (path :: rest) (⟨path, .ok found, true⟩ :: sights)
  | refused {readings path rest e}
      (forgotten : ∀ known, ¬ Known format ttl readings now path known)
      (fails : Shows format files path (.error e)) :
      Looks format files ttl now readings (path :: rest) [⟨path, .error e, true⟩]

namespace Sight

/-- The paths of the layers that were read. -/
def pathsRead (sights : List Sight) : List String :=
  (sights.filter Sight.anew).map Sight.path

/-- The layers that were there, in order. -/
def present (sights : List Sight) : List Tree :=
  sights.filterMap fun s => s.found.toOption.join

/-- The layers that were there, unless one of them could not be got. -/
def trees : List Sight → Except ConfigError (List Tree)
  | [] => .ok []
  | s :: rest => do
    let found ← s.found
    let others ← trees rest
    .ok (found.toList ++ others)

/-- Nothing failed. -/
def Complete (sights : List Sight) : Prop := ∀ s ∈ sights, ∃ found, s.found = .ok found

theorem trees_of_complete {sights : List Sight} (complete : Complete sights) :
    trees sights = .ok (present sights) := by
  induction sights with
  | nil => rfl
  | cons s rest ih =>
    obtain ⟨⟨found, here⟩, others⟩ := List.forall_mem_cons.1 complete
    have later : trees rest = .ok (present rest) := ih others
    rw [trees, here, later]
    cases found with
    | none => simp [present, here, Except.toOption, Bind.bind, Except.bind]
    | some t => simp [present, here, Except.toOption, Bind.bind, Except.bind]

/-- The first failure is what comes of it. -/
theorem trees_of_failure {before : List Sight} {s : Sight} {e : ConfigError}
    (complete : Complete before) (fails : s.found = .error e) :
    trees (before ++ [s]) = .error e := by
  induction before with
  | nil =>
    rw [List.nil_append, trees, fails]
    rfl
  | cons first rest ih =>
    obtain ⟨⟨found, here⟩, others⟩ := List.forall_mem_cons.1 complete
    rw [List.cons_append, trees, here, ih others]
    rfl

end Sight

open Sight

/-! ### The source reads what files show -/

section Looking

variable {format : FileFormat} {files : Files.Reader} {ttl now : Nat} {readings : List Reading}
  {path : String} {paths : List String} {sights : List Sight} {cache : LayerCache}

theorem shows_iff {found : Except ConfigError (Option Tree)} :
    Shows format files path found ↔ parseLayer format files path = found := by
  constructor
  · intro shows
    cases shows with
    | present text tree => simp [parseLayer, text, tree, Except.map]
    | absent missing => simp [parseLayer, missing]
    | unparsable text noTree => simp [parseLayer, text, noTree, Except.map]
    | unreadable failed there => simp [parseLayer, failed]
  · rintro rfl
    cases text : files path with
    | ok content =>
      cases tree : Tree.ofDocument format.extension content path with
      | ok t => simpa [parseLayer, text, tree, Except.map] using Shows.present text tree
      | error e => simpa [parseLayer, text, tree, Except.map] using Shows.unparsable text tree
    | error fault =>
      by_cases missing : fault = .notFound
      · subst missing
        simpa [parseLayer, text] using Shows.absent text
      · simpa [parseLayer, text] using Shows.unreadable text missing

/-- A reading as an attempt to get the layer. -/
def attempt (format : FileFormat) (r : Reading) : Attempt (List String) (Option Tree) :=
  ⟨Files.components r.path, r.time, parseLayer format r.files r.path⟩

theorem known_iff {known : Option Tree} : Known format ttl readings now path known ↔
    Remembered ttl (readings.map (attempt format)) now (Files.components path) known := by
  constructor
  · rintro ⟨later, r, earlier, rfl, same, shows, fresh, failed⟩
    refine ⟨r.time, ⟨later.map (attempt format), earlier.map (attempt format), ?_, ?_⟩, fresh⟩
    · rw [List.map_append, List.map_cons, attempt, shows_iff.1 shows, same]
    · refine List.forall_mem_map.2 fun other member key => ?_
      obtain ⟨e, fails⟩ := failed other member key
      exact ⟨e, shows_iff.1 fails⟩
  · rintro ⟨time, ⟨later, earlier, split, failed⟩, fresh⟩
    obtain ⟨later, rest, rfl, rfl, behind⟩ := List.map_eq_append_iff.1 split
    obtain ⟨r, earlier, rfl, same, rfl⟩ := List.map_eq_cons_iff.1 behind
    obtain ⟨key, rfl, shows⟩ := Attempt.mk.inj same
    refine ⟨later, r, earlier, rfl, key, shows_iff.2 shows, fresh, fun other member here => ?_⟩
    obtain ⟨e, fails⟩ := failed _ (List.mem_map_of_mem member) here
    exact ⟨e, shows_iff.2 fails⟩

theorem nowRead_nil (files : Files.Reader) (now : Nat) (readings : List Reading) :
    nowRead files now [] readings = readings := rfl

theorem nowRead_cons (files : Files.Reader) (now : Nat) (path : String) (paths : List String)
    (readings : List Reading) : nowRead files now (path :: paths) readings =
      nowRead files now paths (⟨path, now, files⟩ :: readings) := by
  simp [nowRead]

namespace Looks

/-- What was read shows what the files are now. -/
theorem shows_of_anew (looks : Looks format files ttl now readings paths sights) {s : Sight}
    (member : s ∈ sights) (anew : s.anew = true) : Shows format files s.path s.found := by
  induction looks with
  | done => cases member
  | remembered _ _ ih =>
    rcases List.mem_cons.1 member with rfl | member
    · cases anew
    · exact ih member
  | readAnew _ shows _ ih =>
    rcases List.mem_cons.1 member with rfl | member
    · exact shows
    · exact ih member
  | refused _ fails =>
    obtain rfl := List.mem_singleton.1 member
    exact fails

/-- A get that does not fail looks at all layers. -/
theorem paths_of_complete (looks : Looks format files ttl now readings paths sights)
    (complete : Complete sights) : sights.map Sight.path = paths := by
  induction looks with
  | done => rfl
  | remembered _ _ ih | readAnew _ _ _ ih =>
    rw [List.map_cons, ih (List.forall_mem_cons.1 complete).2]
  | refused _ _ =>
    obtain ⟨⟨found, here⟩, -⟩ := List.forall_mem_cons.1 complete
    cases here

/-- The first failure is the end. -/
theorem last_of_error (looks : Looks format files ttl now readings paths sights) {s : Sight}
    (member : s ∈ sights) {e : ConfigError} (fails : s.found = .error e) :
    s.anew = true ∧ ∃ before after, sights = before ++ [s] ∧ Complete before ∧
      paths = before.map Sight.path ++ s.path :: after := by
  induction looks with
  | done => cases member
  | @remembered _ path rest _ known _ _ ih =>
    rcases List.mem_cons.1 member with rfl | member
    · cases fails
    · obtain ⟨anew, before, after, rfl, complete, rfl⟩ := ih member
      exact ⟨anew, ⟨path, .ok known, false⟩ :: before, after, rfl,
        List.forall_mem_cons.2 ⟨⟨known, rfl⟩, complete⟩, rfl⟩
  | @readAnew _ path rest _ found _ _ _ ih =>
    rcases List.mem_cons.1 member with rfl | member
    · cases fails
    · obtain ⟨anew, before, after, rfl, complete, rfl⟩ := ih member
      exact ⟨anew, ⟨path, .ok found, true⟩ :: before, after, rfl,
        List.forall_mem_cons.2 ⟨⟨found, rfl⟩, complete⟩, rfl⟩
  | @refused _ path rest e _ _ =>
    obtain rfl := List.mem_singleton.1 member
    exact ⟨rfl, [], rest, rfl, List.forall_mem_nil _, rfl⟩

/-- Without a lifetime every layer is read. -/
theorem anew_of_zero (looks : Looks format files 0 now readings paths sights)
    (past : ∀ r ∈ readings, r.time ≤ now) : ∀ s ∈ sights, s.anew = true := by
  induction looks with
  | done => exact List.forall_mem_nil _
  | remembered remembers _ _ =>
    obtain ⟨later, r, earlier, rfl, -, -, fresh, -⟩ := remembers
    have order : r.time ≤ now := past r (List.mem_append_right _ List.mem_cons_self)
    omega
  | readAnew _ _ _ ih =>
    exact List.forall_mem_cons.2 ⟨rfl, ih (List.forall_mem_cons.2 ⟨Nat.le_refl _, past⟩)⟩
  | refused _ _ => exact List.forall_mem_singleton.2 rfl

/-- What is made of layers that were all read is what a fresh reading gives. -/
theorem freshly {directory : String} {q : Query} {outcome : Except ConfigError Tree}
    (looks : Looks format files ttl now readings (layerPaths directory format q) sights)
    (anew : ∀ s ∈ sights, s.anew = true)
    (merged : Complete sights → present sights ≠ [] →
      outcome = .ok (Tree.mergeAll (present sights)))
    (missing : Complete sights → present sights = [] →
      outcome = .error (.fileNotFound (baseLayer directory format q)))
    (refused : ∀ s ∈ sights, ∀ e, s.found = .error e → outcome = .error e) :
    Freshly directory format files q outcome := by
  have shows : ∀ s ∈ sights, Shows format files s.path s.found := fun s member =>
    looks.shows_of_anew member (anew s member)
  by_cases complete : Complete sights
  · let found := sights.map fun s => s.found.toOption.join
    have each : List.Forall₂ (fun path here => Shows format files path (.ok here))
        (layerPaths directory format q) found := by
      rw [← looks.paths_of_complete complete, List.forall₂_map_left_iff, List.forall₂_map_right_iff,
        List.forall₂_same]
      intro s member
      obtain ⟨here, same⟩ := complete s member
      simpa [same, Except.toOption] using shows s member
    have there : found.reduceOption = present sights := List.filterMap_map
    by_cases none : present sights = []
    · rw [missing complete none]
      exact .missing each (there.trans none)
    · rw [merged complete none, ← there]
      exact .merged each (there ▸ none)
  · obtain ⟨s, member, fails⟩ : ∃ s ∈ sights, ∀ found, s.found ≠ .ok found := by
      simpa [Complete] using complete
    cases gave : s.found with
    | ok found => exact absurd gave (fails found)
    | error e =>
      obtain ⟨-, before, after, rfl, earlier, split⟩ := looks.last_of_error member gave
      rw [refused s member e gave]
      refine .refused split (List.forall_mem_map.2 fun b there => ?_) (gave ▸ shows s member)
      obtain ⟨found, here⟩ := earlier b there
      exact ⟨found, here ▸ shows b (List.mem_append_left _ there)⟩

end Looks

/-- What comes of looking at layers one after the other. -/
structure Reports (format : FileFormat) (files : Files.Reader) (now : Nat) (cache : LayerCache)
    (readings : List Reading) (sights : List Sight) (got : LayersRead (List Tree)) : Prop where
  outcome : got.outcome = trees sights
  paths : got.paths = pathsRead sights
  recalls : got.cache.Recalls ((nowRead files now got.paths readings).map (attempt format)) now
  lifetime : got.cache.ttl = cache.ttl
  unkept : ∀ s ∈ sights, ∀ e, s.found = .error e → ∀ later, now ≤ later →
    got.cache.get? later (Files.components s.path) = none

theorem layers_of_known {known : Option Tree}
    (found : cache.get? now (Files.components path) = some known) (rest : List String) :
    layers format files now cache (path :: rest) =
      let others := layers format files now cache rest
      ⟨others.outcome.map (known.toList ++ ·), others.cache, others.paths⟩ := by
  simp [layers, layer, found]

theorem layers_of_read {content : Option Tree}
    (missing : cache.get? now (Files.components path) = none)
    (gave : parseLayer format files path = .ok content) (rest : List String) :
    layers format files now cache (path :: rest) =
      let others := layers format files now (cache.put now (Files.components path) content) rest
      ⟨others.outcome.map (content.toList ++ ·), others.cache, path :: others.paths⟩ := by
  simp [layers, layer, missing, gave]

theorem layers_of_refused {e : ConfigError}
    (missing : cache.get? now (Files.components path) = none)
    (gave : parseLayer format files path = .error e) (rest : List String) :
    layers format files now cache (path :: rest) = ⟨.error e, cache, [path]⟩ := by
  simp [layers, layer, missing, gave]

/-- By induction on the paths: at each of them the cache recalls the readings on record. -/
theorem layers_reports (format : FileFormat) (files : Files.Reader)
    (recalls : cache.Recalls (readings.map (attempt format)) now) (paths : List String) :
    ∃ sights, Looks format files cache.ttl now readings paths sights ∧
      Reports format files now cache readings sights (layers format files now cache paths) := by
  induction paths generalizing cache readings with
  | nil => exact ⟨[], .done _, rfl, rfl, recalls, rfl, List.forall_mem_nil _⟩
  | cons path rest ih =>
    cases found : cache.get? now (Files.components path) with
    | some known =>
      obtain ⟨sights, looks, reports⟩ := ih recalls
      have remembers := known_iff.2 ((recalls.found now (Nat.le_refl now) _ _).1 found)
      refine ⟨_, .remembered remembers looks, ?_⟩
      rw [layers_of_known found]
      constructor
      · simp only [trees, reports.outcome]
        cases trees sights <;> rfl
      · simp [pathsRead, reports.paths]
      · exact reports.recalls
      · exact reports.lifetime
      · exact List.forall_mem_cons.2 ⟨nofun, reports.unkept⟩
    | none =>
      have forgotten : ∀ known, ¬ Known format cache.ttl readings now path known :=
        fun known remembers =>
          (recalls.missing (Nat.le_refl now) _).1 found known (known_iff.1 remembers)
      cases gave : parseLayer format files path with
      | ok content =>
        have recalls' : (cache.put now (Files.components path) content).Recalls
            ((⟨path, now, files⟩ :: readings).map (attempt format)) now := by
          rw [List.map_cons, attempt, gave]
          exact recalls.succeeded _ content
        obtain ⟨sights, looks, reports⟩ := ih recalls'
        rw [TtlCache.ttl_put] at looks
        refine ⟨_, .readAnew forgotten (shows_iff.2 gave) looks, ?_⟩
        rw [layers_of_read found gave]
        constructor
        · simp only [trees, reports.outcome]
          cases trees sights <;> rfl
        · simp [pathsRead, reports.paths]
        · rw [nowRead_cons]
          exact reports.recalls
        · exact reports.lifetime.trans (TtlCache.ttl_put cache now _ content)
        · exact List.forall_mem_cons.2 ⟨nofun, reports.unkept⟩
      | error e =>
        refine ⟨_, .refused forgotten (shows_iff.2 gave), ?_⟩
        rw [layers_of_refused found gave]
        refine ⟨rfl, rfl, ?_, rfl, ?_⟩
        · rw [nowRead_cons, nowRead_nil, List.map_cons, attempt, gave]
          exact recalls.failed _ e
        · -- what was not found before is not found later
          refine List.forall_mem_cons.2 ⟨fun _ _ later order => ?_, List.forall_mem_nil _⟩
          exact (recalls.missing order _).2 fun known remembered =>
            forgotten known (known_iff.2 (remembered.earlier order))

/-- Nothing but the layers that are read is looked at: with other files that are the same there, all
is the same. -/
theorem layers_congr {files' : Files.Reader}
    (same : ∀ p ∈ (layers format files now cache paths).paths, files' p = files p) :
    layers format files' now cache paths = layers format files now cache paths := by
  induction paths generalizing cache with
  | nil => rfl
  | cons path rest ih =>
    cases found : cache.get? now (Files.components path) with
    | some known =>
      rw [layers_of_known found] at same
      rw [layers_of_known found, layers_of_known found, ih same]
    | none =>
      have shown (here : files' path = files path) :
          parseLayer format files' path = parseLayer format files path := by
        rw [parseLayer, parseLayer, here]
      cases gave : parseLayer format files path with
      | ok content =>
        rw [layers_of_read found gave] at same
        obtain ⟨here, later⟩ := List.forall_mem_cons.1 same
        rw [layers_of_read found gave, layers_of_read found ((shown here).trans gave), ih later]
      | error e =>
        rw [layers_of_refused found gave] at same
        have here := same path (List.mem_singleton_self _)
        rw [layers_of_refused found gave, layers_of_refused found ((shown here).trans gave)]

end Looking

/-! ### A source in use -/

/-- A source in use. The readings on record are those since it was last closed, with the latest
first. -/
structure Usage where
  source : FileSource
  files : Files.Reader
  now : Nat
  readings : List Reading := []

namespace Usage

/-- What can happen to a source in use. Files that are written or removed give another reader. -/
inductive Move where
  | get (q : Query)
  | files (files : Files.Reader)
  | pass (micros : Nat)
  | close

/-- The source with nothing in its cache. -/
def opened (s : FileSource) (ttl : Nat) (files : Files.Reader) (now : Nat) : Usage where
  source := { s with cache := .new ttl }
  files
  now

def got (u : Usage) (q : Query) : LayersRead Tree :=
  u.source.get u.files u.now q

def step (u : Usage) : Move → Usage
  | .get q =>
    { u with
      source := { u.source with cache := (u.got q).cache }
      readings := nowRead u.files u.now (u.got q).paths u.readings }
  | .files files => { u with files }
  | .pass micros => { u with now := u.now + micros }
  | .close => { u with source := u.source.close, readings := [] }

def after (u : Usage) (moves : List Move) : Usage := moves.foldl step u

/-- What a get gives is decided by what it sees of its layers. -/
structure Sees (directory : String) (format : FileFormat) (ttl : Nat) (u : Usage) (q : Query)
    (sights : List Sight) : Prop where
  -- One after the other, layers are remembered or read.
  looks : Looks format u.files ttl u.now u.readings (layerPaths directory format q) sights
  paths : (u.got q).paths = pathsRead sights
  -- Of the files no more is looked at than that.
  only : ∀ files, (∀ path ∈ pathsRead sights, files path = u.files path) →
    { u with files }.got q = u.got q
  -- If all of them can be got, those that are there are laid over each other.
  complete : Complete sights → sights.map Sight.path = layerPaths directory format q
  merged : Complete sights → present sights ≠ [] →
    (u.got q).outcome = .ok (Tree.mergeAll (present sights))
  missing : Complete sights → present sights = [] →
    (u.got q).outcome = .error (.fileNotFound (baseLayer directory format q))
  -- The first that cannot be got is the last one that is looked at, and it is not kept.
  refused : ∀ s ∈ sights, ∀ e, s.found = .error e →
    (∃ before after, sights = before ++ [s] ∧ Complete before ∧
      layerPaths directory format q = before.map Sight.path ++ s.path :: after) ∧
    s.anew = true ∧ Shows format u.files s.path (.error e) ∧ (u.got q).outcome = .error e ∧
    ∀ later, u.now ≤ later → (u.got q).cache.get? later (Files.components s.path) = none
  -- With a lifetime of zero it is as if nothing had been read before.
  fresh : ttl = 0 → (∀ s ∈ sights, s.anew = true) ∧
    Freshly directory format u.files q (u.got q).outcome

variable {u : Usage} {q : Query} {sights : List Sight}

/-- The cache recalls the readings on record. -/
def Recalls (u : Usage) : Prop :=
  u.source.cache.Recalls (u.readings.map (attempt u.source.format)) u.now

/-- What a get makes of the layers that are there. -/
theorem got_outcome (u : Usage) (q : Query) : (u.got q).outcome =
    match (layers u.source.format u.files u.now u.source.cache
      (layerPaths u.source.directory u.source.format q)).outcome with
    | .error e => .error e
    | .ok [] => .error (.fileNotFound (baseLayer u.source.directory u.source.format q))
    | .ok trees => .ok (Tree.mergeAll trees) := rfl

theorem got_congr {files : Files.Reader}
    (same : ∀ path ∈ (u.got q).paths, files path = u.files path) :
    { u with files }.got q = u.got q := by
  simp only [got, FileSource.get]
  rw [layers_congr same]

theorem Recalls.sees (recalls : u.Recalls) (q : Query) :
    ∃ sights, Sees u.source.directory u.source.format u.source.cache.ttl u q sights ∧
      (u.step (.get q)).Recalls ∧ (u.got q).cache.ttl = u.source.cache.ttl := by
  obtain ⟨sights, looks, reports⟩ := layers_reports u.source.format u.files recalls
    (layerPaths u.source.directory u.source.format q)
  refine ⟨sights, ?_, reports.recalls, reports.lifetime⟩
  have gives := u.got_outcome q
  rw [reports.outcome] at gives
  have merged (complete : Complete sights) (some : present sights ≠ []) :
      (u.got q).outcome = .ok (Tree.mergeAll (present sights)) := by
    rw [gives, trees_of_complete complete]
    cases there : present sights with
    | nil => exact absurd there some
    | cons t rest => rfl
  have missing (complete : Complete sights) (none : present sights = []) : (u.got q).outcome =
      .error (.fileNotFound (baseLayer u.source.directory u.source.format q)) := by
    rw [gives, trees_of_complete complete, none]
  have refused (s : Sight) (member : s ∈ sights) (e : ConfigError) (fails : s.found = .error e) :
      (u.got q).outcome = .error e := by
    obtain ⟨-, before, after, rfl, complete, -⟩ := looks.last_of_error member fails
    rw [gives, trees_of_failure complete fails]
  refine ⟨looks, reports.paths, fun files same => ?_, looks.paths_of_complete, merged, missing,
    fun s member e fails => ?_, fun zero => ?_⟩
  · exact got_congr (reports.paths ▸ same)
  · obtain ⟨anew, last⟩ := looks.last_of_error member fails
    exact ⟨last, anew, fails ▸ looks.shows_of_anew member anew, refused s member e fails,
      reports.unkept s member e fails⟩
  · rw [zero] at looks
    have past : ∀ r ∈ u.readings, r.time ≤ u.now :=
      List.forall_mem_map.1 recalls.inOrder.past
    have anew := looks.anew_of_zero past
    exact ⟨anew, looks.freshly anew merged missing refused⟩

/-- Whatever happens, the source stays as it is but for its cache, and what it remembers it recalls
rightly. -/
theorem Recalls.step (recalls : u.Recalls) (m : Move) : (u.step m).Recalls ∧
    (u.step m).source.cache.ttl = u.source.cache.ttl ∧
    (u.step m).source.directory = u.source.directory ∧
    (u.step m).source.format = u.source.format := by
  cases m with
  | get q =>
    obtain ⟨-, -, recalls', lifetime⟩ := recalls.sees q
    exact ⟨recalls', lifetime, rfl, rfl⟩
  | files files => exact ⟨recalls, rfl, rfl, rfl⟩
  | pass micros => exact ⟨recalls.passed (Nat.le_add_right _ _), rfl, rfl, rfl⟩
  | close => exact ⟨.empty _ _, rfl, rfl, rfl⟩

theorem Recalls.after (recalls : u.Recalls) (moves : List Move) : (u.after moves).Recalls ∧
    (u.after moves).source.cache.ttl = u.source.cache.ttl ∧
    (u.after moves).source.directory = u.source.directory ∧
    (u.after moves).source.format = u.source.format := by
  induction moves generalizing u with
  | nil => exact ⟨recalls, rfl, rfl, rfl⟩
  | cons m rest ih =>
    obtain ⟨recalls', lifetime, directory, format⟩ := recalls.step m
    obtain ⟨recalls'', lifetime', directory', format'⟩ := ih recalls'
    exact ⟨recalls'', lifetime'.trans lifetime, directory'.trans directory, format'.trans format⟩

theorem recalls_opened (s : FileSource) (ttl : Nat) (files : Files.Reader) (now : Nat) :
    (opened s ttl files now).Recalls :=
  .empty ttl now

/-- Layers are seen as they were, in every run. A lifetime below zero is one of zero. -/
theorem layers_seen_as_they_were (s : FileSource) (ttl : Nat) (files : Files.Reader) (start : Nat)
    (moves : List Move) (q : Query) :
    (∃ sights, Sees s.directory s.format ttl ((opened s ttl files start).after moves) q sights) ∧
      ∀ millis ≤ 0, (.ofMillis millis : LayerCache) = .new 0 := by
  constructor
  · obtain ⟨recalls, lifetime, directory, format⟩ := (recalls_opened s ttl files start).after moves
    obtain ⟨sights, sees, -⟩ := recalls.sees q
    rw [lifetime, directory, format] at sees
    exact ⟨sights, sees⟩
  · intro millis negative
    rw [TtlCache.ofMillis, Int.toNat_of_nonpos negative]

/-- For a thousand microseconds a layer is seen that was removed, and one is not seen that was
written. What cannot be parsed is read anew once the source was closed. -/
theorem layers_seen_as_they_were_overTime :
    let s : FileSource := { directory := "conf", format := .json }
    let q : Query := ⟨"svc", ["dev"], none, none⟩
    let first := Files.Disk.empty.write "conf/svc.json" (.text "\x7b\"a\":1\x7d")
    let second :=
      (first.remove "conf/svc.json").write "conf/dev/svc.json" (.text "\x7b\"b\":2\x7d")
    let third := second.write "conf/dev/svc.json" (.text "\x7b")
    let run := (opened s 1000 first.read 0).after
    let u := run [.get q, .files second.read, .pass 999]
    let v := run [.get q, .files second.read, .pass 999, .get q, .pass 1]
    let w := run [.get q, .files second.read, .pass 1000, .get q, .files third.read, .close]
    let gave (u : Usage) : Option String :=
      (((u.got q).outcome.map Tree.display).tryCatch fun e => .ok e.message).toOption
    (∃ sights, Sees "conf" .json 1000 u q sights ∧ pathsRead sights = [] ∧
      gave u = some "\x7b\"a\":1\x7d") ∧
    (∃ sights, Sees "conf" .json 1000 v q sights ∧
      pathsRead sights = ["conf/svc.json", "conf/dev/svc.json"] ∧
      gave v = some "\x7b\"b\":2\x7d") ∧
    ∃ sights, Sees "conf" .json 1000 w q sights ∧
      pathsRead sights = ["conf/svc.json", "conf/dev/svc.json"] ∧
      gave w = some "Config parse error in conf/dev/svc.json:\n  the document is malformed" := by
  intro s q first second third run u v w gave
  have sees (moves : List Move) : ∃ sights, Sees "conf" .json 1000 (run moves) q sights :=
    (layers_seen_as_they_were s 1000 first.read 0 moves q).1
  refine ⟨?_, ?_, ?_⟩
  · obtain ⟨sights, sees⟩ := sees [.get q, .files second.read, .pass 999]
    have paths : (u.got q).paths = [] := by decide +kernel
    exact ⟨sights, sees, sees.paths.symm.trans paths, by decide +kernel⟩
  · obtain ⟨sights, sees⟩ := sees [.get q, .files second.read, .pass 999, .get q, .pass 1]
    have paths : (v.got q).paths = ["conf/svc.json", "conf/dev/svc.json"] := by decide +kernel
    exact ⟨sights, sees, sees.paths.symm.trans paths, by decide +kernel⟩
  · obtain ⟨sights, sees⟩ := sees
      [.get q, .files second.read, .pass 1000, .get q, .files third.read, .close]
    have paths : (w.got q).paths = ["conf/svc.json", "conf/dev/svc.json"] := by decide +kernel
    exact ⟨sights, sees, sees.paths.symm.trans paths, by decide +kernel⟩

end Usage

end LayeredConfig.FileSource
