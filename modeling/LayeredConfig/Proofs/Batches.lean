import LayeredConfig.Live.Stage
import LayeredConfig.Proofs.Resolution
import Mathlib.Data.List.ReduceOption
/-!
# Making instances in batches

The instances that a list of nodes asks for are made one after the other, until a node fails; what
comes behind that node is not touched. A node that is not enabled or that names no implementation is
skipped, and it makes no difference whether such a node is in the list or not, except for the
positions that are reported.

An entry's `make` says what its builder gives and not what it does. To say what is not touched, the
builders here act on a state, in which they may leave traces, and two steps of each are told apart:
it is configured, and it builds.

Main statements: `Builders.createFrom_of_makes`, which carries a batch on behind the nodes that did
not fail, `Builders.createFrom_sameWork`, which compares two batches that differ in skipped nodes,
`Tree.SameWork.makings`, which does the same for whole documents, and `Registry.batches_in_order`,
which puts them together.
-/
namespace LayeredConfig

variable {α β γ δ σ : Type}

/-! ### The entry that a node asks for -/

/-- The entry as an implementation whose only instance is the entry itself. -/
def Entry.ofItself (e : Entry α) : Entry (Entry α) where
  name := e.name
  aliases := e.aliases
  qualifiedName := e.qualifiedName
  order := e.order
  make _ := .ok e

namespace Registry

variable {r : Registry α} {node : Value} {fields : Fields}

/-- The registry that makes the entries themselves. -/
def ofEntries (r : Registry α) : Registry (Entry α) where
  kind := r.kind
  entries := r.entries.map Entry.ofItself

/-- The entry that a node asks for, or the error that it asks for none of them. -/
def asksFor (r : Registry α) (node : Value) : Except ConfigError (Option (Entry α)) :=
  r.ofEntries.create node

theorem lowest_map_ofItself (entries : List (Entry α)) :
    lowest (entries.map Entry.ofItself) = (lowest entries).map Entry.ofItself := by
  induction entries with
  | nil => simp [lowest]
  | cons e rest ih =>
    simp only [List.map_cons, lowest, ih]
    cases lowest rest with
    | none => simp
    | some best =>
      have order (e : Entry α) : e.ofItself.order = e.order := rfl
      simp only [Option.map_some, order]
      split <;> simp

theorem resolve_ofEntries (r : Registry α) (request : String) :
    r.ofEntries.resolve request = (r.resolve request).map Entry.ofItself := by
  by_cases blank : Blank request
  · simp [resolve_of_blank blank]
  · have answers (e : Entry α) (name : String) : e.ofItself.answersTo name = e.answersTo name := rfl
    simp only [resolve_of_not_blank blank, ofEntries, List.filter_map, Function.comp_def, answers,
      lowest_map_ofItself]

theorem names_ofEntries (r : Registry α) :
    r.ofEntries.entries.map Entry.name = r.entries.map Entry.name := by
  simp [ofEntries, Entry.ofItself]

/-- The instance that a node asks for is what the entry that it asks for makes. -/
theorem create_eq (r : Registry α) (node : Value) :
    r.create node = match r.asksFor node with
      | .error e => .error e
      | .ok none => .ok none
      | .ok (some e) =>
        match e.make (Settings.ofNode e.name node) with
        | .ok made => .ok (some made)
        | .error cause => .error (r.creationError (selectedName node) node cause) := by
  cases node with
  | obj fields =>
    -- both registries take the same branches until an entry is found
    simp only [asksFor, create]
    by_cases disabled : isDisabled fields = true
    · simp only [if_pos disabled]
    · simp only [if_neg disabled]
      cases selected : selector? fields with
      | none => simp
      | some selector =>
        cases selector with
        | str name =>
          have called : selectedName (.obj fields) = Text.trim name := by
            simp [selectedName, Value.fields, selected]
          by_cases empty : (Text.trim name).isEmpty = true
          · simp only [if_pos empty]
          · simp only [if_neg empty, make, resolve_ofEntries, names_ofEntries, called]
            cases r.resolve (Text.trim name) with
            | none => rfl
            | some e =>
              simp only [Option.map_some, Entry.ofItself]
              cases outcome : e.make (Settings.ofNode e.name (.obj fields)) with
              | error cause => simp [Except.map, outcome]
              | ok made => simp [Except.map, outcome]
        | _ => rfl
  | _ => rfl

/-! ### Skipped nodes -/

/-- The object says that it is not enabled. -/
inductive Disabled (fields : Fields) : Prop
  | off (said : Fields.get? fields "enabled" = some (.bool false)) : Disabled fields
  | inWords {word : String} (said : Fields.get? fields "enabled" = some (.str word))
      (off : Text.lowerAscii (Text.trim word) = "false") : Disabled fields

/-- The object selects no implementation, or a blank one. -/
inductive Unselective (fields : Fields) : Prop
  | silent (selected : selector? fields = none) : Unselective fields
  | null (selected : selector? fields = some .null) : Unselective fields
  | blank {name : String} (selected : selector? fields = some (.str name)) (blank : Blank name) :
      Unselective fields

/-- Nodes for which nothing is made, and which are in order all the same. -/
inductive Skipped : Value → Prop
  | disabled {fields : Fields} (disabled : Disabled fields) : Skipped (.obj fields)
  | unselective {fields : Fields} (unselective : Unselective fields) : Skipped (.obj fields)

theorem isDisabled_iff : isDisabled fields = true ↔ Disabled fields := by
  have off : Text.lowerAscii "false" = "false" := by decide +kernel
  constructor
  · intro disabled
    unfold isDisabled at disabled
    split at disabled
    next b said =>
      obtain rfl : b = false := by simpa using disabled
      exact .off said
    next word said =>
      have same : Text.lowerAscii (Text.trim word) = Text.lowerAscii "false" := by
        simpa [Text.sameIgnoringCase] using disabled
      exact .inWords said (same.trans off)
    next => simp at disabled
  · intro disabled
    cases disabled with
    | off said => simp [isDisabled, said]
    | inWords said word => simp [isDisabled, said, Text.sameIgnoringCase, word, off]

/-- Nothing is made for the nodes that are skipped, and for no others. -/
theorem create_eq_none_iff : r.create node = .ok none ↔ Skipped node := by
  constructor
  · intro nothing
    cases node with
    | obj fields =>
      by_cases disabled : isDisabled fields = true
      · exact .disabled (isDisabled_iff.1 disabled)
      · refine .unselective ?_
        simp only [create, if_neg disabled] at nothing
        cases selected : selector? fields with
        | none => exact .silent selected
        | some selector =>
          rw [selected] at nothing
          cases selector with
          | null => exact .null selected
          | str name =>
            by_cases empty : (Text.trim name).isEmpty = true
            · exact .blank selected (trim_isEmpty_iff.1 empty)
            · -- a name that is not blank gives an instance or an error
              simp only [if_neg empty] at nothing
              cases outcome : r.make (.obj fields) (Text.trim name) with
              | error e => simp [outcome, Except.map] at nothing
              | ok made => simp [outcome, Except.map] at nothing
          | _ => cases nothing
    | _ => cases nothing
  · intro skipped
    cases skipped with
    | disabled disabled => simp [create, isDisabled_iff.2 disabled]
    | unselective unselective =>
      simp only [create]
      split
      · simp
      · cases unselective with
        | silent selected => simp [selected]
        | null selected => simp [selected]
        | blank selected blank => simp [selected, trim_isEmpty_iff.2 blank]

theorem asksFor_of_skipped (skipped : Skipped node) : r.asksFor node = .ok none :=
  create_eq_none_iff.2 skipped

end Registry

/-- Two lists of nodes that are the same but for nodes that are skipped. -/
inductive SameWork : List Value → List Value → Prop
  | nil : SameWork [] []
  | keep (node : Value) {nodes nodes' : List Value} (rest : SameWork nodes nodes') :
      SameWork (node :: nodes) (node :: nodes')
  | left {node : Value} (skipped : Registry.Skipped node) {nodes nodes' : List Value}
      (rest : SameWork nodes nodes') : SameWork (node :: nodes) nodes'
  | right {node : Value} (skipped : Registry.Skipped node) {nodes nodes' : List Value}
      (rest : SameWork nodes nodes') : SameWork nodes (node :: nodes')

theorem SameWork.refl (nodes : List Value) : SameWork nodes nodes := by
  induction nodes with
  | nil => exact .nil
  | cons node rest ih => exact .keep node ih

/-! ### Results that differ in positions -/

/-- Related values, or the same error but for the position of the node that it reports. -/
inductive UpToIndex (R : α → β → Prop) : Except ConfigError α → Except ConfigError β → Prop
  | ok {a : α} {b : β} (related : R a b) : UpToIndex R (.ok a) (.ok b)
  | error (e : ConfigError) : UpToIndex R (.error e) (.error e)
  | moved (kind : String) (i j : Nat) (name : String) (cause : ConfigError) :
      UpToIndex R (.error (.batchCreation kind i name cause))
        (.error (.batchCreation kind j name cause))

namespace UpToIndex

variable {R : α → β → Prop} {S : γ → δ → Prop}

theorem refl (x : Except ConfigError α) : UpToIndex Eq x x := by
  cases x with
  | error e => exact .error e
  | ok a => exact .ok rfl

theorem bind {x : Except ConfigError α} {y : Except ConfigError β} {f : α → Except ConfigError γ}
    {g : β → Except ConfigError δ} (first : UpToIndex R x y)
    (next : ∀ a b, R a b → UpToIndex S (f a) (g b)) : UpToIndex S (x >>= f) (y >>= g) := by
  cases first with
  | ok related => exact next _ _ related
  | error e => exact .error e
  | moved kind i j name cause => exact .moved kind i j name cause

theorem bind_same {f : α → Except ConfigError γ} {g : α → Except ConfigError δ}
    (x : Except ConfigError α) (next : ∀ a, UpToIndex S (f a) (g a)) :
    UpToIndex S (x >>= f) (x >>= g) :=
  bind (refl x) fun a _ same => same ▸ next a

theorem map {x y : Except ConfigError α} (same : UpToIndex Eq x y) (f : α → β) :
    UpToIndex Eq (x.map f) (y.map f) := by
  cases same with
  | ok related => exact .ok (congrArg f related)
  | error e => exact .error e
  | moved kind i j name cause => exact .moved kind i j name cause

end UpToIndex

/-! ### Builders that leave traces -/

/-- How builders are configured and how they build, given the entry, the settings and the state on
which all of them act. What a builder keeps for itself is part of that state. -/
structure Builders (σ α : Type) where
  configure : Entry α → Settings → σ → Except Cause Unit × σ
  build : Entry α → Settings → σ → Except Cause α × σ

namespace Builders

variable {b : Builders σ α} {r : Registry α} {s s' s'' : σ} {node : Value}
  {nodes before : List Value}

/-- A builder is configured, and builds if that went well. -/
def make (b : Builders σ α) (e : Entry α) (settings : Settings) (s : σ) : Except Cause α × σ :=
  match b.configure e settings s with
  | (.error cause, s) => (.error cause, s)
  | (.ok (), s) => b.build e settings s

/-- The instance that a node asks for, and the state afterwards. -/
def create (b : Builders σ α) (r : Registry α) (node : Value) (s : σ) :
    Except ConfigError (Option α) × σ :=
  match r.asksFor node with
  | .error e => (.error e, s)
  | .ok none => (.ok none, s)
  | .ok (some e) =>
    match b.make e (Settings.ofNode e.name node) s with
    | (.ok made, s) => (.ok (some made), s)
    | (.error cause, s) =>
      (.error (r.creationError (Registry.selectedName node) node cause), s)

/-- The instances that nodes ask for, from the position `index` in a list on, and the state
afterwards. -/
def createFrom (b : Builders σ α) (r : Registry α) (index : Nat) :
    List Value → σ → Except ConfigError (List α) × σ
  | [], s => (.ok [], s)
  | node :: rest, s =>
    match b.create r node s with
    | (.error e, s) => (.error (.batchCreation r.kind index (Registry.selectedName node) e), s)
    | (.ok one, s) =>
      let (made, s) := b.createFrom r (index + 1) rest s
      (made.map (one.toList ++ ·), s)

def createAll (b : Builders σ α) (r : Registry α) (nodes : List Value) (s : σ) :
    Except ConfigError (List α) × σ :=
  b.createFrom r 0 nodes s

/-- Two lists put in front, the second one first, are one list put in front. -/
theorem map_append_append (front front' : List α) (made : Except ConfigError (List α)) :
    (made.map (front' ++ ·)).map (front ++ ·) = made.map (front ++ front' ++ ·) := by
  cases made with
  | error e => simp [Except.map]
  | ok made => simp [Except.map]

theorem map_self (made : Except ConfigError (List α)) : made.map (fun list => list) = made :=
  congrFun Except.map_id made

/-- Builders that leave no traces. -/
def traceless : Builders Unit α where
  configure _ _ s := (.ok (), s)
  build e settings s := (e.make settings, s)

/-- What builders without traces make is what the registry makes. -/
theorem traceless_create (r : Registry α) (node : Value) (s : Unit) :
    traceless.create r node s = (r.create node, ()) := by
  rw [create, r.create_eq node]
  cases r.asksFor node with
  | error e => simp
  | ok one =>
    cases one with
    | none => simp
    | some e =>
      simp only [make, traceless]
      cases e.make (Settings.ofNode e.name node) with
      | error cause => simp
      | ok made => simp

theorem traceless_createFrom (r : Registry α) (index : Nat) (nodes : List Value) (s : Unit) :
    traceless.createFrom r index nodes s = (r.createFrom index nodes, ()) := by
  induction nodes generalizing index s with
  | nil => simp [createFrom, Registry.createFrom]
  | cons node rest ih =>
    simp only [createFrom, Registry.createFrom, traceless_create]
    cases r.create node with
    | error e => simp
    | ok one =>
      simp only [ih]
      cases one with
      | none => simp [map_self]
      | some made => simp

/-! ### One node after the other -/

theorem createFrom_of_error {e : ConfigError} (failed : b.create r node s = (.error e, s'))
    (index : Nat) (rest : List Value) : b.createFrom r index (node :: rest) s =
      (.error (.batchCreation r.kind index (Registry.selectedName node) e), s') := by
  simp [createFrom, failed]

theorem createFrom_of_ok {one : Option α} (made : b.create r node s = (.ok one, s'))
    (index : Nat) (rest : List Value) : b.createFrom r index (node :: rest) s =
      ((b.createFrom r (index + 1) rest s').1.map (one.toList ++ ·),
        (b.createFrom r (index + 1) rest s').2) := by
  simp [createFrom, made]

theorem create_of_skipped (skipped : Registry.Skipped node) (b : Builders σ α) (r : Registry α)
    (s : σ) : b.create r node s = (.ok none, s) := by
  simp [create, Registry.asksFor_of_skipped skipped]

theorem createFrom_of_skipped (skipped : Registry.Skipped node) (index : Nat)
    (rest : List Value) : b.createFrom r index (node :: rest) s =
      b.createFrom r (index + 1) rest s := by
  simp [createFrom_of_ok (create_of_skipped skipped b r s), map_self]

/-- Nodes that are created one after the other, none of which fails: what is made for each, and the
state afterwards. -/
inductive Makes (b : Builders σ α) (r : Registry α) :
    σ → List Value → List (Option α) → σ → Prop
  | nil {s : σ} : Makes b r s [] [] s
  | cons {s s' s'' : σ} {node : Value} {one : Option α} {nodes : List Value}
      {made : List (Option α)} (first : b.create r node s = (.ok one, s'))
      (rest : Makes b r s' nodes made s'') : Makes b r s (node :: nodes) (one :: made) s''

/-- The nodes in `before` are created one after the other, and the one behind them fails: its error,
and the state that it leaves. -/
def FailsBehind (b : Builders σ α) (r : Registry α) (s : σ) (before : List Value) (bad : Value)
    (e : ConfigError) (s'' : σ) : Prop :=
  ∃ made s', b.Makes r s before made s' ∧ b.create r bad s' = (.error e, s'')

/-- Either no node fails, or there is a first that does. -/
theorem makes_or_fails (b : Builders σ α) (r : Registry α) (s : σ) (nodes : List Value) :
    (∃ made s', b.Makes r s nodes made s') ∨ ∃ before bad rest e s',
      nodes = before ++ bad :: rest ∧ b.FailsBehind r s before bad e s' := by
  induction nodes generalizing s with
  | nil => exact .inl ⟨[], s, .nil⟩
  | cons node nodes ih =>
    rcases outcome : b.create r node s with ⟨e | one, s'⟩
    · exact .inr ⟨[], node, nodes, e, s', by simp, [], s, .nil, outcome⟩
    · rcases ih s' with ⟨made, s'', makes⟩ | ⟨before, bad, rest, e, s'', split, behind⟩
      · exact .inl ⟨one :: made, s'', .cons outcome makes⟩
      · obtain ⟨made, t, makes, failed⟩ := behind
        refine .inr ⟨node :: before, bad, rest, e, s'', by simp [split], ?_⟩
        exact ⟨one :: made, t, .cons outcome makes, failed⟩

/-- Behind nodes that do not fail the work goes on with the rest, in the state that they leave. -/
theorem createFrom_of_makes {made : List (Option α)} (makes : b.Makes r s before made s')
    (index : Nat) (rest : List Value) : b.createFrom r index (before ++ rest) s =
      ((b.createFrom r (index + before.length) rest s').1.map (made.reduceOption ++ ·),
        (b.createFrom r (index + before.length) rest s').2) := by
  induction makes generalizing index with
  | nil => simp [map_self]
  | @cons _ _ _ _ one _ made first makes ih =>
    -- what was made first is put in front of what was made behind it
    have listed : (one :: made).reduceOption = one.toList ++ made.reduceOption := by
      cases one <;> simp
    rw [List.cons_append, createFrom_of_ok first, ih, listed, List.length_cons]
    simp only [map_append_append, Nat.add_assoc, Nat.add_comm 1]

theorem createAll_of_makes {made : List (Option α)} (makes : b.Makes r s nodes made s') :
    b.createAll r nodes s = (.ok made.reduceOption, s') := by
  have behind := createFrom_of_makes makes 0 []
  simpa [createAll, createFrom, Except.map] using behind

theorem createAll_of_fails {bad : Value} {e : ConfigError}
    (fails : b.FailsBehind r s before bad e s') (rest : List Value) :
    b.createAll r (before ++ bad :: rest) s =
      (.error (.batchCreation r.kind before.length (Registry.selectedName bad) e), s') := by
  obtain ⟨made, t, makes, failed⟩ := fails
  have behind := createFrom_of_makes makes 0 (bad :: rest)
  simpa [createAll, createFrom_of_error failed, Except.map] using behind

/-- Two batches that differ in skipped nodes leave the same state, and they give the same but for
the positions at which their nodes stand. -/
theorem createFrom_sameWork {nodes' : List Value} (same : SameWork nodes nodes')
    (b : Builders σ α) (r : Registry α) (s : σ) (i j : Nat) :
    UpToIndex Eq (b.createFrom r i nodes s).1 (b.createFrom r j nodes' s).1 ∧
      (b.createFrom r i nodes s).2 = (b.createFrom r j nodes' s).2 := by
  induction same generalizing s i j with
  | nil => exact ⟨.ok rfl, rfl⟩
  | keep node rest ih =>
    -- the node finds the same state in both batches
    rcases outcome : b.create r node s with ⟨e | one, s'⟩
    · simp only [createFrom_of_error outcome]
      exact ⟨.moved r.kind i j (Registry.selectedName node) e, by simp⟩
    · simp only [createFrom_of_ok outcome]
      exact ⟨(ih s' (i + 1) (j + 1)).1.map _, (ih s' (i + 1) (j + 1)).2⟩
  | left skipped rest ih =>
    rw [createFrom_of_skipped skipped]
    exact ih s (i + 1) j
  | right skipped rest ih =>
    rw [createFrom_of_skipped skipped]
    exact ih s i (j + 1)

/-- A batch is the nodes created one after the other, up to the first that fails: what stands behind
it reaches no builder, since the state is left as that node leaves it. Skipped nodes do not
matter. -/
structure InOrder (b : Builders σ α) (r : Registry α) : Prop where
  made : ∀ s nodes made s', b.Makes r s nodes made s' →
    b.createAll r nodes s = (.ok made.reduceOption, s')
  fails : ∀ s before bad e s' rest, b.FailsBehind r s before bad e s' →
    b.createAll r (before ++ bad :: rest) s =
      (.error (.batchCreation r.kind before.length (Registry.selectedName bad) e), s')
  either : ∀ s nodes, (∃ made s', b.Makes r s nodes made s') ∨
    ∃ before bad rest e s', nodes = before ++ bad :: rest ∧ b.FailsBehind r s before bad e s'
  neutral : ∀ s nodes nodes', SameWork nodes nodes' →
    UpToIndex Eq (b.createAll r nodes s).1 (b.createAll r nodes' s).1 ∧
      (b.createAll r nodes s).2 = (b.createAll r nodes' s).2

theorem inOrder (b : Builders σ α) (r : Registry α) : b.InOrder r where
  made _ _ _ _ := createAll_of_makes
  fails _ _ _ _ _ rest fails := createAll_of_fails fails rest
  either := makes_or_fails b r
  neutral s _ _ same := createFrom_sameWork same b r s 0 0

end Builders

namespace Registry

variable {r : Registry α} {nodes before : List Value}

/-- None of the nodes fails: what is made for each of them. -/
def Makes (r : Registry α) (nodes : List Value) (made : List (Option α)) : Prop :=
  List.Forall₂ (fun node one => r.create node = .ok one) nodes made

/-- The nodes in `before` do not fail, and the one behind them does. -/
def FailsBehind (r : Registry α) (before : List Value) (bad : Value) (e : ConfigError) : Prop :=
  (∃ made, r.Makes before made) ∧ r.create bad = .error e

theorem traceless_makes_iff {made : List (Option α)} {s t : Unit} :
    Builders.traceless.Makes r s nodes made t ↔ r.Makes nodes made := by
  constructor
  · intro makes
    induction makes with
    | nil => exact .nil
    | cons first rest ih =>
      rw [Builders.traceless_create] at first
      exact .cons (Prod.mk.inj first).1 ih
  · intro makes
    induction makes with
    | nil => exact .nil
    | @cons node one nodes made first rest ih =>
      have first' : Builders.traceless.create r node s = (.ok one, t) := by
        rw [Builders.traceless_create, first]
      exact .cons first' ih

theorem traceless_failsBehind_iff {bad : Value} {e : ConfigError} {s t : Unit} :
    Builders.traceless.FailsBehind r s before bad e t ↔ r.FailsBehind before bad e := by
  simp [Builders.FailsBehind, FailsBehind, traceless_makes_iff, Builders.traceless_create]

theorem traceless_createAll (r : Registry α) (nodes : List Value) (s : Unit) :
    Builders.traceless.createAll r nodes s = (r.createAll nodes, ()) :=
  Builders.traceless_createFrom r 0 nodes s

theorem createAll_of_makes {made : List (Option α)} (makes : r.Makes nodes made) :
    r.createAll nodes = .ok made.reduceOption := by
  have makes' : Builders.traceless.Makes r () nodes made () := traceless_makes_iff.2 makes
  have all := Builders.createAll_of_makes makes'
  rw [traceless_createAll] at all
  exact (Prod.mk.inj all).1

theorem createAll_of_fails {bad : Value} {e : ConfigError} (fails : r.FailsBehind before bad e)
    (rest : List Value) : r.createAll (before ++ bad :: rest) =
      .error (.batchCreation r.kind before.length (selectedName bad) e) := by
  have fails' : Builders.traceless.FailsBehind r () before bad e () :=
    traceless_failsBehind_iff.2 fails
  have all := Builders.createAll_of_fails fails' rest
  rw [traceless_createAll] at all
  exact (Prod.mk.inj all).1

theorem createAll_sameWork {nodes' : List Value} (same : SameWork nodes nodes') (r : Registry α) :
    UpToIndex Eq (r.createAll nodes) (r.createAll nodes') := by
  have neutral := ((Builders.traceless.inOrder r).neutral () nodes nodes' same).1
  simpa only [traceless_createAll] using neutral

/-- A batch is the nodes created one after the other, up to the first that fails, and skipped nodes
do not matter. The same holds for builders that leave traces. -/
structure InOrder (r : Registry α) : Prop where
  made : ∀ nodes made, r.Makes nodes made → r.createAll nodes = .ok made.reduceOption
  fails : ∀ before bad e rest, r.FailsBehind before bad e →
    r.createAll (before ++ bad :: rest) =
      .error (.batchCreation r.kind before.length (selectedName bad) e)
  either : ∀ nodes, (∃ made, r.Makes nodes made) ∨
    ∃ before bad rest e, nodes = before ++ bad :: rest ∧ r.FailsBehind before bad e
  skipped : ∀ node, r.create node = .ok none ↔ Skipped node
  neutral : ∀ nodes nodes', SameWork nodes nodes' →
    UpToIndex Eq (r.createAll nodes) (r.createAll nodes')
  builders : ∀ {σ : Type} (b : Builders σ α), b.InOrder r
  -- Builders that leave no traces make what the registry makes.
  traceless : ∀ node nodes, Builders.traceless.create r node () = (r.create node, ()) ∧
    Builders.traceless.createAll r nodes () = (r.createAll nodes, ())

theorem inOrder (r : Registry α) : r.InOrder where
  made _ _ := createAll_of_makes
  fails _ _ _ rest fails := createAll_of_fails fails rest
  either nodes := by
    have either := Builders.makes_or_fails Builders.traceless r () nodes
    simpa [traceless_makes_iff, traceless_failsBehind_iff] using either
  skipped _ := create_eq_none_iff
  neutral _ _ same := createAll_sameWork same r
  builders b := b.inOrder r
  traceless node nodes :=
    ⟨Builders.traceless_create r node (), traceless_createAll r nodes ()⟩

end Registry

/-! ### Documents -/

/-- Everything of which a configuration is put together. -/
structure Makings (α β : Type) where
  sources : List α
  transformers : List β
  refreshInterval : Option Nat
  getTimeout : Nat
  reverseUpdateOrder : Bool
  mapper : Mapper

namespace Bootstrap

/-- What a plan makes of its nodes, with sources and transformers of any kinds. -/
def makings (p : Bootstrap) (sources : Registry α) (transformers : Registry β) :
    Except ConfigError (Makings α β) := do
  let made ← sources.createAll p.sources
  let made' ← transformers.createAll p.transformers
  pure {
    sources := made
    transformers := made'
    refreshInterval := p.refreshInterval
    getTimeout := p.getTimeout
    reverseUpdateOrder := p.reverseUpdateOrder
    mapper := p.mapper }

/-- Two plans that are the same but for nodes that are skipped. -/
structure SameWork (p p' : Bootstrap) : Prop where
  sources : LayeredConfig.SameWork p.sources p'.sources
  transformers : LayeredConfig.SameWork p.transformers p'.transformers
  rest : { p with sources := [], transformers := [] } =
    { p' with sources := [], transformers := [] }

theorem SameWork.makings {p p' : Bootstrap} (same : SameWork p p') (sources : Registry α)
    (transformers : Registry β) :
    UpToIndex Eq (p.makings sources transformers) (p'.makings sources transformers) := by
  refine (Registry.createAll_sameWork same.sources sources).bind fun made _ made' => ?_
  subst made'
  refine (Registry.createAll_sameWork same.transformers transformers).bind fun made' _ made'' => ?_
  subst made''
  have rest := same.rest
  simp only [mk.injEq, true_and] at rest
  simp only [rest]
  exact .refl _

end Bootstrap

/-- What stands under the key of a list of nodes in two documents that are the same but for nodes
that are skipped. -/
inductive SameNodes : Option Value → Option Value → Prop
  | same (v : Option Value) : SameNodes v v
  | lists {nodes nodes' : List Value} (same : SameWork nodes nodes') :
      SameNodes (some (.arr nodes)) (some (.arr nodes'))

namespace Tree

variable {t t' : Tree} {key : String}

/-- Two documents that are the same but for nodes that are skipped. -/
structure SameWork (t t' : Tree) : Prop where
  sources : SameNodes (Fields.get? t.root "sources") (Fields.get? t'.root "sources")
  transformers : SameNodes (Fields.get? t.root "transformers") (Fields.get? t'.root "transformers")
  rest : ∀ key, key ≠ "sources" → key ≠ "transformers" →
    Fields.get? t.root key = Fields.get? t'.root key

theorem nodes_sameNodes (plain : PlainKey key)
    (same : SameNodes (Fields.get? t.root key) (Fields.get? t'.root key)) :
    UpToIndex LayeredConfig.SameWork (Bootstrap.nodes t key) (Bootstrap.nodes t' key) := by
  simp only [Bootstrap.nodes, get?_of_plainKey plain]
  generalize Fields.get? t.root key = found at same
  generalize Fields.get? t'.root key = found' at same
  cases same with
  | lists same => exact .ok same
  | same =>
    split
    · exact .ok .nil
    · exact .ok .nil
    · exact .ok (.refl _)
    · exact .error _

theorem getAs_congr (same : t.get? key = t'.get? key) (shape : Shape) :
    t.getAs shape key = t'.getAs shape key := by
  simp only [getAs, same]

theorem millis?_congr (same : t.get? key = t'.get? key) :
    Bootstrap.millis? t key = Bootstrap.millis? t' key := by
  simp only [Bootstrap.millis?, getAs_congr same]

/-- The two lists of nodes, put into a plan. -/
theorem SameWork.lists (same : t.SameWork t') {plan : List Value → List Value → Bootstrap}
    (alike : ∀ {first second first' second'}, LayeredConfig.SameWork first first' →
      LayeredConfig.SameWork second second' →
      Bootstrap.SameWork (plan first second) (plan first' second')) :
    UpToIndex Bootstrap.SameWork
      (do pure (plan (← Bootstrap.nodes t "sources") (← Bootstrap.nodes t "transformers")))
      (do pure (plan (← Bootstrap.nodes t' "sources") (← Bootstrap.nodes t' "transformers"))) := by
  have sources := nodes_sameNodes (by decide +kernel) same.sources
  have transformers := nodes_sameNodes (by decide +kernel) same.transformers
  refine sources.bind fun _ _ same => ?_
  exact transformers.bind fun _ _ same' => .ok (alike same same')

theorem SameWork.ofTree (same : t.SameWork t') :
    UpToIndex Bootstrap.SameWork (Bootstrap.ofTree t) (Bootstrap.ofTree t') := by
  have other (key : String) (plain : PlainKey key) (differs : key ≠ "sources")
      (differs' : key ≠ "transformers") : t.get? key = t'.get? key := by
    simp only [get?_of_plainKey plain, same.rest key differs differs']
  have interval := other "refresh-interval-ms" (by decide +kernel) (by decide) (by decide)
  have timeout := other "get-timeout-ms" (by decide +kernel) (by decide) (by decide)
  have reverse := other "reverse-update-order" (by decide +kernel) (by decide) (by decide)
  have mapper := other "mapper" (by decide +kernel) (by decide) (by decide)
  simp only [Bootstrap.ofTree, millis?_congr interval, millis?_congr timeout, getAs_congr reverse,
    getAs_congr mapper]
  -- everything that is read before the lists of nodes is the same
  refine .bind_same _ fun interval => .bind_same _ fun timeout => ?_
  refine .bind_same _ fun reverse => .bind_same _ fun name => ?_
  split
  · exact .bind_same _ fun mapper => same.lists fun same same' => ⟨same, same', rfl⟩
  · exact same.lists fun same same' => ⟨same, same', rfl⟩

/-- What a document is made into, with sources and transformers of any kinds. -/
def makings (t : Tree) (sources : Registry α) (transformers : Registry β) :
    Except ConfigError (Makings α β) := do
  (← Bootstrap.ofTree t).makings sources transformers

theorem SameWork.makings (same : t.SameWork t') (sources : Registry α)
    (transformers : Registry β) :
    UpToIndex Eq (t.makings sources transformers) (t'.makings sources transformers) :=
  same.ofTree.bind fun _ _ same => same.makings sources transformers

end Tree

open Live in
/-- The configuration that is put together of what a plan is made into. -/
def Makings.assembly (m : Makings BuiltinSource BuiltinTransformer) (disk : Files.Disk)
    (q : Query) : Assembly :=
  let bare : Assembly := {
    plan := {
      query := q
      order := if m.reverseUpdateOrder then .reverse else .registration
      getTimeout := m.getTimeout
      refreshInterval := m.refreshInterval }
    stage := { disk } }
  m.transformers.foldl Assembly.addTransformer (m.sources.foldl Assembly.addSource bare)

theorem Live.Assembly.ofBootstrap_eq (p : Bootstrap) (r : Registries) (disk : Files.Disk)
    (q : Query) : Assembly.ofBootstrap p r disk q =
      (p.makings r.sources r.transformers).map fun m => m.assembly disk q := by
  simp only [Assembly.ofBootstrap, Bootstrap.parts, Bootstrap.makings]
  cases r.sources.createAll p.sources with
  | error e => rfl
  | ok sources =>
    cases r.transformers.createAll p.transformers with
    | error e => rfl
    | ok transformers => rfl

namespace Tree

variable {t t' : Tree}

/-- The configuration that a document describes, for a query. -/
def configuration (t : Tree) (r : Registries) (disk : Files.Disk) (q : Query) :
    Except ConfigError Live.Assembly := do
  Live.Assembly.ofBootstrap (← Bootstrap.ofTree t) r disk q

theorem configuration_eq (t : Tree) (r : Registries) (disk : Files.Disk) (q : Query) :
    t.configuration r disk q =
      (t.makings r.sources r.transformers).map fun m => m.assembly disk q := by
  simp only [configuration, makings]
  cases Bootstrap.ofTree t with
  | error e => rfl
  | ok p => exact Live.Assembly.ofBootstrap_eq p r disk q

/-- Two documents that describe the same configuration, from which the same comes when it is
refreshed. If they describe none, the errors are the same but for the position of a node. -/
structure DescribeSame (t t' : Tree) : Prop where
  makings : ∀ {α β : Type} (sources : Registry α) (transformers : Registry β),
    UpToIndex Eq (t.makings sources transformers) (t'.makings sources transformers)
  configuration : ∀ r disk q,
    UpToIndex Eq (t.configuration r disk q) (t'.configuration r disk q)
  refreshed : ∀ r disk q, UpToIndex Eq ((t.configuration r disk q).map Live.Assembly.fetchOnce)
    ((t'.configuration r disk q).map Live.Assembly.fetchOnce)

theorem SameWork.configuration (same : t.SameWork t') (r : Registries) (disk : Files.Disk)
    (q : Query) : UpToIndex Eq (t.configuration r disk q) (t'.configuration r disk q) := by
  rw [configuration_eq, configuration_eq]
  exact (same.makings r.sources r.transformers).map _

theorem SameWork.describeSame (same : t.SameWork t') : t.DescribeSame t' where
  makings := same.makings
  configuration := same.configuration
  refreshed r disk q := (same.configuration r disk q).map _

end Tree

namespace Registry

theorem batches_in_order : (∀ {α : Type} (r : Registry α), r.InOrder) ∧
    ∀ {t t' : Tree}, t.SameWork t' → t.DescribeSame t' :=
  ⟨inOrder, Tree.SameWork.describeSame⟩

/-- Two skipped nodes in front of one that fails move the position that is reported, and no more. -/
theorem batches_in_order_skippedInFront :
    let off : Value := .obj [("enabled", .bool false), ("impl", .str "plain")]
    let blank : Value := .obj [("impl", .str " ")]
    let plain : Value := .obj [("impl", .str "plain")]
    let bad : Value := .obj [("impl", .str "nope")]
    let r : Registry String :=
      ⟨"widget", [{ name := "plain", make := fun s => .ok s.implementation }]⟩
    let t : Tree := { root := [("mapper", .str "strict"),
      ("sources", .arr [off, plain, blank, bad, plain])] }
    let t' : Tree := { root := [("mapper", .str "strict"), ("sources", .arr [plain, bad, plain])] }
    ∃ e, r.create bad = .error e ∧
      r.createAll [off, plain, blank, bad, plain] = .error (.batchCreation "widget" 3 "nope" e) ∧
      r.createAll [plain, bad, plain] = .error (.batchCreation "widget" 1 "nope" e) ∧
      t.SameWork t' ∧ t.DescribeSame t' := by
  intro off blank plain bad r t t'
  have laws : r.InOrder := batches_in_order.1 r
  have one : r.create plain = .ok (some "plain") := by rfl
  obtain ⟨e, failed⟩ : ∃ e, r.create bad = .error e := ⟨_, by rfl⟩
  have skippedOff : Skipped off := .disabled (.off (by rfl))
  have skippedBlank : Skipped blank := by
    exact .unselective (.blank (by rfl) (isBlankText_iff.1 (by decide)))
  have long : r.FailsBehind [off, plain, blank] bad e := by
    refine ⟨⟨[none, some "plain", none], .cons ?_ (.cons one (.cons ?_ .nil))⟩, failed⟩
    · exact (laws.skipped off).2 skippedOff
    · exact (laws.skipped blank).2 skippedBlank
  have short : r.FailsBehind [plain] bad e := ⟨⟨[some "plain"], .cons one .nil⟩, failed⟩
  have nodes : SameWork [off, plain, blank, bad, plain] [plain, bad, plain] :=
    .left skippedOff (.keep plain (.left skippedBlank (.refl [bad, plain])))
  have same : t.SameWork t' := by
    refine ⟨.lists nodes, .same none, fun key source transformer => ?_⟩
    simp [t, t', Fields.get?_cons, source]
  refine ⟨e, failed, ?_, ?_, same, batches_in_order.2 same⟩
  · exact laws.fails [off, plain, blank] bad e [plain] long
  · exact laws.fails [plain] bad e [plain] short

end Registry
end LayeredConfig
