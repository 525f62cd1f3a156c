import LayeredConfig.Proofs.Paths
import LayeredConfig.Proofs.Strings
/-!
# What a visitor sees of a tree

A visitor with state that may fail is called for one string of a tree after the other, in document
order, with the path to the string and its text. The first failure is the last call. If there is
none, the tree that comes back differs from the one that was visited in its strings only, and each
string is what the visitor gave for it.

Main statements: `visits_mapM`, on calls one after the other, `texts_fill`, on where the replies are
written, and `strings_are_visited`, which puts them together.
-/
namespace LayeredConfig

/-- A visitor of strings that keeps state and may fail. -/
abbrev Visitor (σ : Type) := String → String → ExceptT ConfigError (StateM σ) (Option String)

/-! ### Running actions -/

section Running

variable {σ α β : Type}

/-- What comes of an action that is run in a state, and the state afterwards. -/
def runFrom (s : σ) (x : ExceptT ConfigError (StateM σ) α) : Except ConfigError α × σ := x.run.run s

variable {x : ExceptT ConfigError (StateM σ) α} {f : α → ExceptT ConfigError (StateM σ) β}
  {s s' : σ} {a : α} {e : ConfigError}

theorem runFrom_bind_of_ok (ran : runFrom s x = (.ok a, s')) :
    runFrom s (x >>= f) = runFrom s' (f a) := by
  have ran : x.run.run s = (Except.ok a, s') := ran
  simp only [runFrom, ExceptT.run_bind, StateT.run_bind, ran]
  rfl

theorem runFrom_bind_of_error (ran : runFrom s x = (.error e, s')) :
    runFrom s (x >>= f) = (.error e, s') := by
  have ran : x.run.run s = (Except.error e, s') := ran
  simp only [runFrom, ExceptT.run_bind, StateT.run_bind, ran]
  rfl

theorem runFrom_map (g : α → β) (s : σ) (x : ExceptT ConfigError (StateM σ) α) :
    runFrom s (g <$> x) = ((runFrom s x).1.map g, (runFrom s x).2) := by
  rw [map_eq_pure_bind]
  rcases ran : runFrom s x with ⟨e | a, s'⟩
  · rw [runFrom_bind_of_error ran]
    rfl
  · rw [runFrom_bind_of_ok ran]
    rfl

end Running

/-! ### Calls one after the other -/

/-- One call of a visitor: the string it is called for, and its reply. -/
structure Call where
  route : Route
  text : String
  reply : Except ConfigError (Option String)

namespace Call

/-- The string for which the visitor is called. -/
def part (call : Call) : Part := ⟨call.route, .str call.text⟩

/-- The visitor did not fail. -/
def Answered (call : Call) : Prop := ∃ answer, call.reply = .ok answer

/-- What comes in the place of the string: the replacement, if there is one. -/
def written (call : Call) : String :=
  match call.reply with
  | .ok (some replaced) => replaced
  | _ => call.text

end Call

variable {σ : Type} {visit : Visitor σ} {s s' : σ} {e : ConfigError} {call : Call}
  {calls : List Call}

/-- The visitor gives these replies, beginning in the first state, and ends in the second one. -/
inductive Calls (visit : Visitor σ) : σ → List Call → σ → Prop where
  | nil (s : σ) : Calls visit s [] s
  | cons {s s' s'' : σ} {call : Call} {calls : List Call}
      (here : runFrom s (visit call.route.path call.text) = (call.reply, s'))
      (later : Calls visit s' calls s'') : Calls visit s (call :: calls) s''

/-- The last call fails, and no other one. -/
def FailsAtLast (calls : List Call) (e : ConfigError) : Prop :=
  ∃ before last, calls = before ++ [last] ∧ (∀ call ∈ before, call.Answered) ∧ last.reply = .error e

theorem FailsAtLast.cons (fails : FailsAtLast calls e) (answered : call.Answered) :
    FailsAtLast (call :: calls) e := by
  obtain ⟨before, last, rfl, others, failed⟩ := fails
  exact ⟨call :: before, last, rfl, List.forall_mem_cons.2 ⟨answered, others⟩, failed⟩

/-- The visitor is called for the listed strings one after the other until it fails. -/
structure Visits (visit : Visitor σ) (s : σ) (listed : List Part)
    (outcome : Except ConfigError (List String) × σ) (calls : List Call) : Prop where
  called : Calls visit s calls outcome.2
  inOrder : calls.map Call.part <+: listed
  failed : ∀ e, outcome.1 = .error e → FailsAtLast calls e
  finished : ∀ texts, outcome.1 = .ok texts →
    calls.map Call.part = listed ∧ (∀ call ∈ calls, call.Answered) ∧ texts = calls.map Call.written

namespace Visits

variable {route : Route} {text : String} {listed : List Part}

theorem nil (visit : Visitor σ) (s : σ) : Visits visit s [] (.ok [], s) [] where
  called := .nil s
  inOrder := List.prefix_rfl
  failed := nofun
  finished := by
    rintro texts ⟨⟩
    exact ⟨rfl, List.forall_mem_nil _, rfl⟩

/-- After a failure there is no other call. -/
theorem failing (here : runFrom s (visit route.path text) = (.error e, s')) (listed : List Part) :
    Visits visit s (⟨route, .str text⟩ :: listed) (.error e, s') [⟨route, text, .error e⟩] where
  called := .cons here (.nil s')
  inOrder := ⟨listed, rfl⟩
  failed := by
    rintro e ⟨⟩
    exact ⟨[], _, rfl, List.forall_mem_nil _, rfl⟩
  finished := nofun

/-- After an answer the other strings have their turn. -/
theorem answering {answer : Option String} {outcome : Except ConfigError (List String) × σ}
    (here : runFrom s (visit route.path text) = (.ok answer, s'))
    (later : Visits visit s' listed outcome calls) :
    Visits visit s (⟨route, .str text⟩ :: listed)
      (outcome.1.map (answer.getD text :: ·), outcome.2) (⟨route, text, .ok answer⟩ :: calls) where
  called := .cons here later.called
  inOrder := by
    obtain ⟨rest, split⟩ := later.inOrder
    exact ⟨rest, congrArg (_ :: ·) split⟩
  failed := by
    intro e failed
    exact (later.failed e (map_eq_error_iff.1 failed)).cons ⟨answer, rfl⟩
  finished := by
    intro all finished
    obtain ⟨texts, done, rfl⟩ := map_eq_ok_iff.1 finished
    obtain ⟨shown, answered, rfl⟩ := later.finished texts done
    refine ⟨congrArg (_ :: ·) shown, List.forall_mem_cons.2 ⟨⟨answer, rfl⟩, answered⟩, ?_⟩
    cases answer <;> rfl

end Visits

/-! ### The strings of a value and their routes -/

/-- A string as a leaf, with the segments of its route. -/
def Part.leaf (part : Part) : Leaf := ⟨part.route.map Branch.segment, part.value.text?.getD ""⟩

/-- The part with a text in its place. -/
def Part.withText (part : Part) (text : String) : Part := ⟨part.route, .str text⟩

namespace Value

def isText (v : Value) : Bool := v.text?.isSome

/-- The strings in a value with their routes, in document order. -/
def texts (v : Value) : List Part := v.parts.filter fun part => part.value.isText

theorem enumerates_texts {v : Value} (ordered : v.Ordered) :
    v.Enumerates (fun w => w.isText = true) v.texts :=
  enumerates_filter ordered isText

/-- The strings in the items of an array from an index on. -/
def itemTexts (index : Nat) (items : List Value) : List Part :=
  (itemParts index items).filter fun part => part.value.isText

/-- The strings in the fields of an object. -/
def fieldTexts (fields : Fields) : List Part :=
  (fieldParts fields).filter fun part => part.value.isText

theorem itemTexts_cons (index : Nat) (v : Value) (rest : List Value) :
    itemTexts index (v :: rest) =
      v.texts.map (.under (.index index)) ++ itemTexts (index + 1) rest :=
  filter_itemParts isText index v rest

theorem fieldTexts_cons (name : String) (v : Value) (rest : Fields) :
    fieldTexts ((name, v) :: rest) = v.texts.map (.under (.key name)) ++ fieldTexts rest :=
  filter_fieldParts isText name v rest

mutual

theorem leaves_eq : ∀ v : Value, v.leaves = v.texts.map Part.leaf
  | .null | .bool _ | .int _ | .float _ | .str _ => rfl
  | .arr items => itemLeaves_eq 0 items
  | .obj fields => fieldLeaves_eq fields
termination_by structural v => v

theorem itemLeaves_eq : ∀ (index : Nat) (items : List Value),
    itemLeaves index items = (itemTexts index items).map Part.leaf
  | _, [] => rfl
  | index, v :: rest => by
    rw [itemLeaves, itemTexts_cons, leaves_eq v, itemLeaves_eq (index + 1) rest, List.map_append,
      List.map_map, List.map_map]
    rfl
termination_by structural _ items => items

theorem fieldLeaves_eq : ∀ fields : Fields,
    fieldLeaves fields = (fieldTexts fields).map Part.leaf
  | [] => rfl
  | (k, v) :: rest => by
    rw [fieldLeaves, fieldTexts_cons, leaves_eq v, fieldLeaves_eq rest, List.map_append,
      List.map_map, List.map_map]
    rfl
termination_by structural fields => fields

end

end Value

/-- Strings are visited one after the other. -/
theorem visits_mapM (visit : Visitor σ) {listed : List Part}
    (strings : ∀ part ∈ listed, part.value.isText = true) (s : σ) :
    ∃ calls, Visits visit s listed (runFrom s (listed.mapM fun part =>
      Value.reply visit part.leaf.path part.leaf.text)) calls := by
  induction listed generalizing s with
  | nil => exact ⟨[], .nil visit s⟩
  | cons part rest ih =>
    obtain ⟨here, later⟩ := List.forall_mem_cons.1 strings
    obtain ⟨route, v⟩ := part
    obtain ⟨text, rfl⟩ : ∃ text, v = .str text := by
      cases v with
      | str text => exact ⟨text, rfl⟩
      | _ => cases here
    have shown : Value.reply visit (Part.leaf ⟨route, .str text⟩).path
        (Part.leaf ⟨route, .str text⟩).text = Value.reply visit route.path text := rfl
    rw [List.mapM_cons, shown]
    rcases ran : runFrom s (visit route.path text) with ⟨e | answer, s'⟩
    -- after a failure nothing else is run
    · have replied : runFrom s (Value.reply visit route.path text) = (.error e, s') :=
        runFrom_bind_of_error ran
      rw [runFrom_bind_of_error replied]
      exact ⟨_, .failing ran rest⟩
    · have replied : runFrom s (Value.reply visit route.path text) =
          (.ok (answer.getD text), s') := runFrom_bind_of_ok ran
      -- the rest is run in the state that the call has left behind
      obtain ⟨calls, visits⟩ := ih later s'
      rw [runFrom_bind_of_ok replied, ← map_eq_pure_bind, runFrom_map]
      exact ⟨_, .answering ran visits⟩

/-! ### Texts in the places of strings -/

/-- The strings with other texts in their places, one by one. -/
def withTexts (listed : List Part) (texts : List String) : List Part :=
  List.zipWith Part.withText listed texts

theorem withTexts_append {first second : List Part} {here later : List String}
    (same : first.length = here.length) :
    withTexts (first ++ second) (here ++ later) = withTexts first here ++ withTexts second later :=
  List.zipWith_append same

theorem withTexts_under (b : Branch) (listed : List Part) (texts : List String) :
    withTexts (listed.map (.under b)) texts = (withTexts listed texts).map (.under b) := by
  rw [withTexts, withTexts, List.zipWith_map_left, List.map_zipWith]
  rfl

theorem exists_split {n m : Nat} {texts : List String} (size : texts.length = n + m) :
    ∃ here later, texts = here ++ later ∧ here.length = n ∧ later.length = m :=
  ⟨texts.take n, texts.drop n, (List.take_append_drop n texts).symm, by simp [size], by simp [size]⟩

namespace Value

theorem length_leaves (v : Value) : v.leaves.length = v.texts.length := by
  rw [leaves_eq, List.length_map]

mutual

/-- The strings of a value in which the places of strings have been filled. -/
theorem texts_fill : ∀ (v : Value) {texts : List String}, texts.length = v.texts.length →
    (v.fill texts).texts = withTexts v.texts texts
  | .null, _, _ | .bool _, _, _ | .int _, _, _ | .float _, _, _ => rfl
  | .str _, [_], _ => rfl
  | .arr items, _, size => texts_fillItems items 0 size
  | .obj fields, _, size => texts_fillFields fields size
termination_by structural v => v

theorem texts_fillItems : ∀ (items : List Value) (index : Nat) {texts : List String},
    texts.length = (itemTexts index items).length →
    itemTexts index (fillItems items texts) = withTexts (itemTexts index items) texts
  | [], _, _, _ => rfl
  | v :: rest, index, texts, size => by
    rw [itemTexts_cons, List.length_append, List.length_map] at size
    -- the first texts go into the first item, the others into the items behind it
    obtain ⟨here, later, rfl, inside, behind⟩ := exists_split size
    rw [fillItems_cons rest later (inside.trans (length_leaves v).symm), itemTexts_cons,
      itemTexts_cons, withTexts_append (by simp [inside]), withTexts_under, texts_fill v inside,
      texts_fillItems rest (index + 1) behind]
termination_by structural items => items

theorem texts_fillFields : ∀ (fields : Fields) {texts : List String},
    texts.length = (fieldTexts fields).length →
    fieldTexts (fillFields fields texts) = withTexts (fieldTexts fields) texts
  | [], _, _ => rfl
  | (k, v) :: rest, texts, size => by
    rw [fieldTexts_cons, List.length_append, List.length_map] at size
    obtain ⟨here, later, rfl, inside, behind⟩ := exists_split size
    rw [fillFields_cons k rest later (inside.trans (length_leaves v).symm), fieldTexts_cons,
      fieldTexts_cons, withTexts_append (by simp [inside]), withTexts_under, texts_fill v inside,
      texts_fillFields rest behind]
termination_by structural fields => fields

end

end Value

/-! ### Trees -/

namespace Tree

/-- What comes of showing the strings of a tree to a visitor, one after the other. -/
structure Visited (t : Tree) (visit : Visitor σ) (s : σ)
    (outcome : Except ConfigError Tree × σ) (calls : List Call) : Prop where
  called : Calls visit s calls outcome.2
  /-- The visitor is called for the first strings in document order. -/
  inOrder : calls.map Call.part <+: t.toValue.texts
  /-- The first failure is that of the visit, and there is no call after it. -/
  failed : ∀ e, outcome.1 = .error e → FailsAtLast calls e
  /-- Without a failure the visitor is called for all strings. -/
  complete : ∀ t', outcome.1 = .ok t' →
    calls.map Call.part = t.toValue.texts ∧ ∀ call ∈ calls, call.Answered
  /-- All but the strings is as before, and the strings are what the visitor gave for them. -/
  rewritten : ∀ t', outcome.1 = .ok t' → t.Rewritten (fun _ _ => True) t' ∧
    ∀ call ∈ calls, t'.toValue.reach? call.route = some (.str call.written)
  /-- The paths that are reported lead to the strings that are shown. -/
  found : t.toValue.PlainKeys → t.toValue.Indexable →
    ∀ call ∈ calls, t.get? call.route.path = some (.str call.text)
  distinct : t.toValue.PlainKeys → (calls.map fun call => call.route.path).Nodup

variable {t : Tree}

theorem mapStrings_eq_texts (visit : Visitor σ) (t : Tree) :
    t.mapStrings visit = t.fill <$> t.toValue.texts.mapM fun part =>
      Value.reply visit part.leaf.path part.leaf.text := by
  have leaves : t.leaves = t.toValue.texts.map Part.leaf := Value.fieldLeaves_eq t.root
  rw [mapStrings_eq, leaves, List.mapM_map]
  rfl

theorem rewritten_fill {texts : List String} (size : texts.length = t.toValue.texts.length) :
    t.Rewritten (fun _ _ => True) (t.fill texts) := by
  refine rewritten_iff.2 ⟨texts, List.forall₂_iff_zip.2 ⟨?_, fun _ => trivial⟩, rfl⟩
  rw [size]
  exact Value.length_leaves t.toValue

/-- A string for which the visitor is called makes place for what the visitor gives for it. -/
theorem reach?_fill (shown : calls.map Call.part = t.toValue.texts)
    (member : call ∈ calls) :
    (t.fill (calls.map Call.written)).toValue.reach? call.route = some (.str call.written) := by
  have size : (calls.map Call.written).length = t.toValue.texts.length := by
    rw [← shown, List.length_map, List.length_map]
  have filled : (t.toValue.fill (calls.map Call.written)).texts =
      calls.map fun call => call.part.withText call.written := by
    rw [Value.texts_fill t.toValue size, ← shown, withTexts, List.zipWith_map, List.zipWith_self]
  have listed : call.part.withText call.written ∈
      (t.toValue.fill (calls.map Call.written)).texts := by
    rw [filled]
    exact List.mem_map_of_mem member
  exact (Value.enumerates_texts (t.fill (calls.map Call.written)).ordered).reached listed

section Texts

variable {part : Part}

theorem get?_text (plain : t.toValue.PlainKeys)
    (indexable : t.toValue.Indexable) (member : part ∈ t.toValue.texts) :
    t.get? part.route.path = some part.value := by
  have reached := (Value.enumerates_texts t.ordered_toValue).reached member
  have text := (Value.enumerates_texts t.ordered_toValue).holds member
  -- the tree itself is no string
  have nonempty : part.route ≠ [] := by
    intro empty
    rw [empty, Value.reach?_nil, Option.some.injEq] at reached
    rw [← reached] at text
    cases text
  exact get?_path indexable (plain.plain_route reached) nonempty reached

theorem nodup_texts (plain : t.toValue.PlainKeys) :
    (t.toValue.texts.map fun part => part.route.path).Nodup := by
  have all := Value.enumerates_texts t.ordered_toValue
  have segments : ∀ part ∈ t.toValue.texts,
      pathSegments part.route.path = [] ++ part.route.map Branch.segment := by
    intro part member
    exact pathSegments_path (plain.plain_route (all.reached member))
  exact all.nodup_paths segments

end Texts

/-- The strings of a tree are shown to a visitor. That the visitor is not called in between is seen
by one that notes its calls in its state. -/
theorem strings_are_visited (t : Tree) :
    t.toValue.Enumerates (fun w => w.isText = true) t.toValue.texts ∧
    ∀ {σ : Type} (visit : Visitor σ) (s : σ),
      ∃ calls, t.Visited visit s (runFrom s (t.mapStrings visit)) calls := by
  have all := Value.enumerates_texts t.ordered_toValue
  refine ⟨all, fun {σ} visit s => ?_⟩
  obtain ⟨calls, visits⟩ := visits_mapM visit (fun _ member => all.holds member) s
  rw [mapStrings_eq_texts, runFrom_map]
  refine ⟨calls, visits.called, visits.inOrder, ?_, ?_, ?_, ?_, ?_⟩
  · intro e failed
    exact visits.failed e (map_eq_error_iff.1 failed)
  · intro t' finished
    obtain ⟨texts, done, rfl⟩ := map_eq_ok_iff.1 finished
    obtain ⟨shown, answered, -⟩ := visits.finished texts done
    exact ⟨shown, answered⟩
  · intro t' finished
    obtain ⟨texts, done, rfl⟩ := map_eq_ok_iff.1 finished
    obtain ⟨shown, -, rfl⟩ := visits.finished texts done
    refine ⟨rewritten_fill ?_, fun call member => reach?_fill shown member⟩
    rw [List.length_map, ← shown, List.length_map]
  · intro plain indexable call member
    have listed : call.part ∈ t.toValue.texts :=
      visits.inOrder.subset (List.mem_map_of_mem member)
    change t.get? call.part.route.path = some call.part.value
    exact get?_text plain indexable listed
  · intro plain
    have prefixes := visits.inOrder.map fun part => part.route.path
    rw [List.map_map] at prefixes
    exact (nodup_texts plain).sublist prefixes.sublist

/-- A visitor that notes its calls, replaces one string and fails at the third of four. -/
theorem strings_are_visited_untilFailure :
    let t : Tree := { root := [("a", .arr [.str "old", .null, .str "kept"]),
      ("b", .obj [("c", .str "bad")]), ("d", .str "late")] }
    let visit : Visitor (List String) := fun path text => do
      modify fun noted => noted ++ [path]
      if text = "bad" then throw (.invalidSettings path)
      return if text = "old" then some "new" else none
    (∃ calls, t.Visited visit [] (runFrom [] (t.mapStrings visit)) calls) ∧
    (runFrom [] (t.mapStrings visit)).2 = ["a.0", "a.2", "b.c"] ∧
    ∃ e, (runFrom [] (t.mapStrings visit)).1 = .error e := by
  intro t visit
  exact ⟨(strings_are_visited t).2 visit [], by decide, _, rfl⟩

end Tree

end LayeredConfig
