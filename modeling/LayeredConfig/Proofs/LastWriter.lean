import LayeredConfig.Tree.Merge
import LayeredConfig.Tree.Path
import Mathlib.Data.List.Induction
/-!
# The last layer wins

Layers are trees that are laid over each other from the first to the last. What stands at a path of
field names afterwards is decided by the last layer that says something about the path: one that
holds a value there, or that holds on the way there something that is no object. An object at the
end of the path lets the layers below show through; any other value is taken whole.

The argument is one induction over the path for two values and one over the layers. The fields of an
object count by their names, so the names in a layer have to be distinct; the order in which they
stand in a tree guarantees that.
-/
namespace LayeredConfig

namespace Value

/-- Objects are merged field by field. -/
def isObject : Value → Bool
  | .obj _ => true
  | _ => false

/-- The value at the end of a path of field names. Only objects have fields. -/
def at? (v : Value) : List String → Option Value
  | [] => some v
  | key :: rest => (Fields.get? v.fields key).bind fun next => next.at? rest

/-- On the way along the path, before its end, stands something that is no object. -/
def Cuts (v : Value) (path : List String) : Prop :=
  ∃ first rest u, path = first ++ rest ∧ rest ≠ [] ∧ v.at? first = some u ∧ u.isObject = false

/-- The value says something about the path. -/
def Writes (v : Value) (path : List String) : Prop :=
  (v.at? path).isSome ∨ v.Cuts path

variable {v next u : Value} {base : Option Value} {key : String} {rest path : List String}

@[simp] theorem at?_nil (v : Value) : v.at? [] = some v := rfl

theorem at?_cons_of_get? (field : Fields.get? v.fields key = some next) :
    v.at? (key :: rest) = next.at? rest := by
  simp [at?, field]

theorem at?_cons_of_missing (missing : Fields.get? v.fields key = none) :
    v.at? (key :: rest) = none := by
  simp [at?, missing]

theorem fields_of_not_object (leaf : v.isObject = false) : v.fields = [] := by
  cases v with
  | obj => cases leaf
  | _ => rfl

/-- Beyond something that is no object there is nothing. -/
theorem at?_of_leaf (leaf : v.isObject = false) (more : path ≠ []) : v.at? path = none := by
  obtain ⟨key, rest, rfl⟩ := List.exists_cons_of_ne_nil more
  exact at?_cons_of_missing (by simp [fields_of_not_object leaf])

theorem isObject_of_get? (field : Fields.get? v.fields key = some next) : v.isObject = true := by
  cases v with
  | obj => rfl
  | _ => cases field

theorem at?_append (v : Value) (first second : List String) :
    v.at? (first ++ second) = (v.at? first).bind fun next => next.at? second := by
  induction first generalizing v with
  | nil => rfl
  | cons key rest ih =>
    cases field : Fields.get? v.fields key with
    | none =>
      rw [List.cons_append, at?_cons_of_missing field, at?_cons_of_missing field, Option.bind_none]
    | some next =>
      rw [List.cons_append, at?_cons_of_get? field, at?_cons_of_get? field, ih]

/-- Arrays can be walked through as well, but along a path of field names both ways lead to the
same place. -/
theorem walk?_of_at? (found : v.at? path = some u) : v.walk? path = some u := by
  induction path generalizing v with
  | nil => exact found
  | cons key rest ih =>
    cases field : Fields.get? v.fields key with
    | none => rw [at?_cons_of_missing field] at found; cases found
    | some next =>
      rw [at?_cons_of_get? field] at found
      cases v with
      | obj fields =>
        have step : (Value.obj fields).step? key = some next := field
        simp [walk?, step, ih found]
      | _ => cases field

/-! ### What is in the way -/

@[simp] theorem not_cuts_nil (v : Value) : ¬ v.Cuts [] := by
  rintro ⟨first, rest, u, split, more, -⟩
  exact more (List.append_eq_nil_iff.1 split.symm).2

theorem cuts_of_leaf (leaf : v.isObject = false) : v.Cuts (key :: rest) :=
  ⟨[], key :: rest, v, rfl, by simp, rfl, leaf⟩

/-- What cuts a path is the value itself or something in the field with which the path begins. -/
theorem cuts_cons : v.Cuts (key :: rest) ↔
    v.isObject = false ∨ ∃ next, Fields.get? v.fields key = some next ∧ next.Cuts rest := by
  constructor
  · rintro ⟨first, second, u, split, more, found, leaf⟩
    cases first with
    | nil =>
      obtain rfl : v = u := by simpa using found
      exact .inl leaf
    | cons name first =>
      obtain ⟨rfl, rfl⟩ : key = name ∧ rest = first ++ second := by simpa using split
      cases field : Fields.get? v.fields key with
      | none => rw [at?_cons_of_missing field] at found; cases found
      | some next =>
        rw [at?_cons_of_get? field] at found
        exact .inr ⟨next, rfl, first, second, u, rfl, more, found, leaf⟩
  · rintro (leaf | ⟨next, field, first, second, u, rfl, more, found, leaf⟩)
    · exact cuts_of_leaf leaf
    · exact ⟨key :: first, second, u, rfl, more, (at?_cons_of_get? field).trans found, leaf⟩

/-! ### One value laid over another -/

/-- The base holds on to its fields; where the overlay has one too, that is laid over it. -/
theorem get?_mergeFields {fields : Fields} (sorted : Fields.Sorted fields) (base : Fields)
    (key : String) :
    Fields.get? (mergeFields base fields) key =
      ((Fields.get? fields key).map (laidOver (Fields.get? base key))).or
        (Fields.get? base key) := by
  induction fields generalizing base with
  | nil => rfl
  | cons field rest ih =>
    obtain ⟨name, value⟩ := field
    obtain ⟨later, restSorted⟩ := List.pairwise_cons.1 sorted
    rw [mergeFields, ih restSorted, Fields.get?_cons]
    by_cases here : key = name
    · -- names are distinct, so the rest does not come back to this one
      subst here
      have gone : Fields.get? rest key = none := Fields.get?_eq_none_of_lt later
      simp [gone]
    · rw [Fields.get?_insert_of_ne here, if_neg here]

theorem laidOver_of_leaf (leaf : v.isObject = false) : laidOver base v = v := by
  cases v with
  | obj => cases leaf
  | _ => rfl

theorem laidOver_none (v : Value) : laidOver none v = v := by
  cases v <;> rfl

theorem isObject_laidOver (base : Option Value) (v : Value) :
    (laidOver base v).isObject = v.isObject := by
  cases v with
  | obj fields =>
    rcases base with _ | under
    · rfl
    · cases under <;> rfl
  | _ => rfl

theorem get?_laidOver (ordered : v.Ordered) (object : v.isObject = true) (base : Option Value)
    (key : String) :
    Fields.get? (laidOver base v).fields key =
      ((Fields.get? v.fields key).map
        (laidOver (base.bind fun b => Fields.get? b.fields key))).or
          (base.bind fun b => Fields.get? b.fields key) := by
  cases v with
  | obj fields =>
    have alone : Fields.get? fields key =
        ((Fields.get? fields key).map (laidOver none)).or none := by
      cases Fields.get? fields key with
      | none => rfl
      | some next => simp [laidOver_none]
    cases base with
    | none => exact alone
    | some under =>
      cases under with
      | obj below => exact get?_mergeFields ordered.1 below key
      | _ => exact alone
  | _ => cases object

/-- Where the overlay holds a value, that is laid over what the base holds there. -/
theorem at?_laidOver (ordered : v.Ordered) (found : v.at? path = some u) (base : Option Value) :
    (laidOver base v).at? path = some (laidOver (base.bind fun b => b.at? path) u) := by
  -- by induction on the path, each field of which is one of the overlay
  induction path generalizing v base with
  | nil =>
    obtain rfl : v = u := by simpa using found
    cases base <;> rfl
  | cons key rest ih =>
    cases field : Fields.get? v.fields key with
    | none => rw [at?_cons_of_missing field] at found; cases found
    | some next =>
      rw [at?_cons_of_get? field] at found
      have below := get?_laidOver ordered (isObject_of_get? field) base key
      rw [field, Option.map_some, Option.some_or] at below
      rw [at?_cons_of_get? below, ih (ordered.of_get? field) found]
      simp only [at?, Option.bind_assoc]

/-- Where the overlay cuts a path, nothing is left beyond. -/
theorem at?_laidOver_of_cuts (ordered : v.Ordered) (cut : v.Cuts path) (base : Option Value) :
    (laidOver base v).at? path = none := by
  induction path generalizing v base with
  | nil => exact absurd cut (not_cuts_nil v)
  | cons key rest ih =>
    rcases cuts_cons.1 cut with leaf | ⟨next, field, cut⟩
    · rw [laidOver_of_leaf leaf]
      exact at?_cons_of_missing (by simp [fields_of_not_object leaf])
    · have below := get?_laidOver ordered (isObject_of_get? field) base key
      rw [field, Option.map_some, Option.some_or] at below
      rw [at?_cons_of_get? below]
      exact ih (ordered.of_get? field) cut _

/-- Where the overlay says nothing about a path, the base shows through. -/
theorem at?_laidOver_of_silent (ordered : v.Ordered) (silent : ¬ v.Writes path)
    (base : Option Value) : (laidOver base v).at? path = base.bind fun b => b.at? path := by
  induction path generalizing v base with
  | nil => exact absurd (.inl rfl) silent
  | cons key rest ih =>
    have object : v.isObject = true := by
      cases leaf : v.isObject with
      | true => rfl
      | false => exact absurd (.inr (cuts_of_leaf leaf)) silent
    have below := get?_laidOver ordered object base key
    cases field : Fields.get? v.fields key with
    | none =>
      rw [field, Option.map_none, Option.none_or] at below
      simp only [at?, below, Option.bind_assoc]
    | some next =>
      rw [field, Option.map_some, Option.some_or] at below
      have silentBelow : ¬ next.Writes rest := by
        rintro (found | cut)
        · exact silent (.inl ((at?_cons_of_get? field).symm ▸ found))
        · exact silent (.inr (cuts_cons.2 (.inr ⟨next, field, cut⟩)))
      rw [at?_cons_of_get? below, ih (ordered.of_get? field) silentBelow]
      simp only [at?, Option.bind_assoc]

/-! ### What stands at the paths determines a value -/

/-- The same stands at two places, or an object at both. -/
def Matches (a b : Option Value) : Prop :=
  a = b ∨ ∃ fields others, a = some (.obj fields) ∧ b = some (.obj others)

namespace Matches

variable {a b c : Option Value}

theorem symm (same : Matches a b) : Matches b a := by
  rcases same with rfl | ⟨fields, others, rfl, rfl⟩
  · exact .inl rfl
  · exact .inr ⟨others, fields, rfl, rfl⟩

theorem trans (first : Matches a b) (second : Matches b c) : Matches a c := by
  rcases first with rfl | ⟨fields, others, rfl, rfl⟩
  · exact second
  · rcases second with rfl | ⟨-, more, -, rfl⟩
    · exact .inr ⟨fields, others, rfl, rfl⟩
    · exact .inr ⟨fields, more, rfl, rfl⟩

/-- What is laid over something stays what it is, apart from the fields of an object. -/
theorem laidOver (base : Option Value) (v : Value) :
    Matches (some (Value.laidOver base v)) (some v) := by
  cases v with
  | obj fields =>
    have object := isObject_laidOver base (.obj fields)
    generalize Value.laidOver base (.obj fields) = w at object
    cases w with
    | obj others => exact .inr ⟨others, fields, rfl, rfl⟩
    | _ => cases object
  | _ => exact .inl rfl

end Matches

mutual

/-- A value in order is determined by what stands at every path, where of objects it only matters
that they are there. -/
theorem Ordered.ext : ∀ {v w : Value}, v.Ordered → w.Ordered →
    (∀ path, Matches (v.at? path) (w.at? path)) → v = w
  | .null, _, _, _, matching | .bool _, _, _, _, matching | .int _, _, _, _, matching
  | .float _, _, _, _, matching | .str _, _, _, _, matching | .arr _, _, _, _, matching => by
    rcases matching [] with same | ⟨fields, others, here, -⟩
    · exact Option.some.inj same
    · cases here
  | .obj fields, w, ordered, ordered', matching => by
    rcases matching [] with same | ⟨-, others, -, there⟩
    · exact Option.some.inj same
    · obtain rfl := Option.some.inj there
      have below (key : String) (path : List String) :
          Matches ((Fields.get? fields key).bind fun next => next.at? path)
            ((Fields.get? others key).bind fun next => next.at? path) := matching (key :: path)
      have same (key : String) : Fields.get? fields key = Fields.get? others key := by
        cases field : Fields.get? fields key with
        | none =>
          rcases below key [] with same | ⟨inner, -, here, -⟩
          · simpa [field] using same
          · simp [field] at here
        | some next =>
          cases other : Fields.get? others key with
          | none =>
            rcases below key [] with same | ⟨-, inner, -, there⟩
            · simp [field, other] at same
            · simp [other] at there
          | some next' =>
            have deeper (path : List String) : Matches (next.at? path) (next'.at? path) := by
              simpa [field, other] using below key path
            rw [ext_of_get? field (ordered.2.of_get? field) (ordered'.2.of_get? other) deeper]
      rw [Fields.Sorted.ext ordered.1 ordered'.1 same]
termination_by structural v => v

theorem ext_of_get? : ∀ {fields : Fields} {key : String} {v w : Value},
    Fields.get? fields key = some v → v.Ordered → w.Ordered →
    (∀ path, Matches (v.at? path) (w.at? path)) → v = w
  | [], _, _, _, field, _, _, _ => by cases field
  | (name, u) :: rest, key, v, w, field, ordered, ordered', matching => by
    rw [Fields.get?_cons] at field
    split at field
    · obtain rfl := Option.some.inj field
      exact Ordered.ext ordered ordered' matching
    · exact ext_of_get? field ordered ordered' matching
termination_by structural fields => fields

end

end Value

namespace Tree

/-- The value at a path of field names. A path without names leads nowhere, as do dotted paths
without segments. -/
def at? (t : Tree) : List String → Option Value
  | [] => none
  | key :: rest => t.toValue.at? (key :: rest)

def Cuts (t : Tree) (path : List String) : Prop := t.toValue.Cuts path

/-- The tree holds a value at the path, or something that is no object on the way there. -/
def Writes (t : Tree) (path : List String) : Prop :=
  (t.at? path).isSome ∨ t.Cuts path

variable {t : Tree} {key : String} {rest path : List String} {v : Value}

theorem at?_mergedWith_of_silent (base : Tree) (silent : ¬ t.Writes path) :
    (base.mergedWith t).at? path = base.at? path := by
  cases path with
  | nil => rfl
  | cons key rest => exact Value.at?_laidOver_of_silent t.ordered silent (some base.toValue)

/-- Layers that say nothing about a path change nothing there. -/
theorem at?_mergeAll_append (before : List Tree) {after : List Tree}
    (silent : ∀ t ∈ after, ¬ t.Writes path) :
    (mergeAll (before ++ after)).at? path = (mergeAll before).at? path := by
  -- from the last layer on, since that is the one laid over all the others
  induction after using List.reverseRecOn with
  | nil => rw [List.append_nil]
  | append_singleton after t ih =>
    rw [← List.append_assoc, mergeAll_append_singleton,
      at?_mergedWith_of_silent _ (silent t (by simp))]
    exact ih fun u here => silent u (by simp [here])

/-- The layer says something about the path, and none after it does. -/
def LastWriter (layers : List Tree) (path : List String) (t : Tree) : Prop :=
  ∃ before after, layers = before ++ t :: after ∧ t.Writes path ∧ ∀ u ∈ after, ¬ u.Writes path

/-- Some layer is the last to say something about a path, or else none says anything. -/
theorem exists_lastWriter (layers : List Tree) (path : List String) :
    (∀ t ∈ layers, ¬ t.Writes path) ∨ ∃ t, LastWriter layers path t := by
  induction layers with
  | nil => exact .inl (by simp)
  | cons t rest ih =>
    rcases ih with silent | ⟨u, before, after, rfl, writes, last⟩
    · by_cases writes : t.Writes path
      · exact .inr ⟨t, [], rest, rfl, writes, silent⟩
      · exact .inl (List.forall_mem_cons.2 ⟨writes, silent⟩)
    · exact .inr ⟨u, t :: before, after, rfl, writes, last⟩

/-- After the last layer that says something about a path, its merge with what is below stays. -/
theorem LastWriter.at?_mergeAll {layers : List Tree} (last : LastWriter layers path t) :
    ∃ below, (mergeAll layers).at? path = (mergedWith below t).at? path := by
  obtain ⟨before, after, rfl, -, silent⟩ := last
  have laid : mergeAll (before ++ [t]) = (mergeAll before).mergedWith t :=
    mergeAll_append_singleton before t
  refine ⟨mergeAll before, ?_⟩
  rw [← laid, List.append_cons]
  exact at?_mergeAll_append _ silent

theorem at?_mergedWith (base : Tree) (found : t.at? path = some v) :
    (base.mergedWith t).at? path = some (Value.laidOver (base.at? path) v) := by
  cases path with
  | nil => cases found
  | cons key rest => exact Value.at?_laidOver t.ordered found (some base.toValue)

theorem at?_mergedWith_of_cuts (base : Tree) (cut : t.Cuts path) :
    (base.mergedWith t).at? path = none := by
  cases path with
  | nil => rfl
  | cons key rest => exact Value.at?_laidOver_of_cuts t.ordered cut (some base.toValue)

/-- The last writer wins. Where no layer says anything about a path, the merged tree holds nothing.
Otherwise the last layer that does decides: a value there that is no object is what the merged tree
holds, an object there gives an object, and something on the way that is no object leaves nothing.
And whatever the merged tree holds at a path comes from the last writer in this way. -/
theorem last_writer_wins (layers : List Tree) (path : List String) :
    ((∀ t ∈ layers, ¬ t.Writes path) → (mergeAll layers).at? path = none) ∧
    (∀ t, LastWriter layers path t →
      (∀ v, t.at? path = some v → v.isObject = false → (mergeAll layers).at? path = some v) ∧
      (t.Cuts path → (mergeAll layers).at? path = none) ∧
      (∀ v, t.at? path = some v → v.isObject = true →
        ∃ w, (mergeAll layers).at? path = some w ∧ w.isObject = true)) ∧
    ∀ w, (mergeAll layers).at? path = some w →
      ∃ t, LastWriter layers path t ∧ ∃ v, t.at? path = some v ∧ v.isObject = w.isObject ∧
        (w.isObject = false → v = w) := by
  have unwritten : (∀ t ∈ layers, ¬ t.Writes path) → (mergeAll layers).at? path = none := by
    intro silent
    have shown := at?_mergeAll_append [] silent
    rw [List.nil_append] at shown
    rw [shown]
    cases path <;> rfl
  refine ⟨unwritten, ?_, ?_⟩
  · intro t last
    obtain ⟨below, decided⟩ := last.at?_mergeAll
    refine ⟨?_, ?_, ?_⟩
    · intro v found leaf
      rw [decided, at?_mergedWith below found, Value.laidOver_of_leaf leaf]
    · intro cut
      rw [decided, at?_mergedWith_of_cuts below cut]
    · intro v found object
      refine ⟨_, decided.trans (at?_mergedWith below found), ?_⟩
      rw [Value.isObject_laidOver, object]
  · -- what is held was written by somebody, and the last writer has not cut it off
    intro w held
    rcases exists_lastWriter layers path with silent | ⟨t, last⟩
    · rw [unwritten silent] at held
      cases held
    · obtain ⟨below, decided⟩ := last.at?_mergeAll
      have writes : t.Writes path := by
        obtain ⟨before, after, -, writes, -⟩ := last
        exact writes
      rcases writes with found | cut
      · obtain ⟨v, found⟩ := Option.isSome_iff_exists.1 found
        rw [decided, at?_mergedWith below found] at held
        cases held
        refine ⟨t, last, v, found, (Value.isObject_laidOver _ v).symm, ?_⟩
        intro leaf
        rw [Value.isObject_laidOver] at leaf
        rw [Value.laidOver_of_leaf leaf]
      · rw [decided, at?_mergedWith_of_cuts below cut] at held
        cases held

/-- A layer takes a whole object away, and the next one brings back only a part of it. -/
theorem taken_away_in_the_middle :
    let bottom : Tree := { root := [("server", .obj [("host", .str "a"), ("port", .int 80)])] }
    let middle : Tree := { root := [("server", .null)] }
    let top : Tree := { root := [("server", .obj [("port", .int 81)])] }
    let layers := [bottom, middle, top]
    LastWriter layers ["server", "host"] middle ∧ middle.Cuts ["server", "host"] ∧
    (mergeAll layers).at? ["server", "host"] = none ∧
    LastWriter layers ["server", "port"] top ∧
    (mergeAll layers).at? ["server", "port"] = some (.int 81) := by
  intro bottom middle top layers
  have cut : middle.Cuts ["server", "host"] := ⟨["server"], ["host"], .null, rfl, by simp, rfl, rfl⟩
  have silent : ¬ top.Writes ["server", "host"] := by
    rintro (found | cut)
    · cases found
    · simp [Cuts, Value.cuts_cons, top, toValue, Value.fields, Value.isObject, Fields.get?] at cut
  have host : LastWriter layers ["server", "host"] middle :=
    ⟨[bottom], [top], rfl, .inr cut, by simpa using silent⟩
  have port : LastWriter layers ["server", "port"] top :=
    ⟨[bottom, middle], [], rfl, .inl rfl, by simp⟩
  refine ⟨host, cut, ?_, port, ?_⟩
  · exact ((last_writer_wins layers ["server", "host"]).2.1 middle host).2.1 cut
  · exact ((last_writer_wins layers ["server", "port"]).2.1 top port).1 _ rfl rfl

end Tree

end LayeredConfig
