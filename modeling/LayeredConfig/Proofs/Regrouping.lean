import LayeredConfig.Proofs.LastWriter
/-!
# Laying trees over each other in groups

Laying trees over each other is idempotent, and the empty tree is neutral on both sides. It is not
associative: a tree in the middle may take an object away, and a later one bring an object back in
its place. Then it matters whether the later one meets what the first one held there. This is the
only way in which the grouping of trees can matter.

Trees are compared path by path. What stands at a path of a merged tree is known from what the
overlay says about the path, so the laws need no induction over trees.
-/
namespace LayeredConfig

namespace Tree

open Value (Matches)

/-- At the path stands an object. -/
def HoldsObject (t : Tree) (path : List String) : Prop :=
  ∃ v, t.at? path = some v ∧ v.isObject = true

/-- At the path stands something that is no object. -/
def HoldsLeaf (t : Tree) (path : List String) : Prop :=
  ∃ v, t.at? path = some v ∧ v.isObject = false

variable {a b c t base : Tree} {path place rest : List String} {v : Value}

/-! ### One tree laid over another -/

/-- A tree is determined by what stands at every path, where of objects it only matters that they
are there. -/
theorem eq_of_matches (matching : ∀ path, Matches (a.at? path) (b.at? path)) : a = b := by
  refine toValue_injective (Value.Ordered.ext a.ordered b.ordered fun path => ?_)
  cases path with
  | nil => exact .inr ⟨a.root, b.root, rfl, rfl⟩
  | cons key rest => exact matching (key :: rest)

theorem holdsObject_or_holdsLeaf (found : t.at? path = some v) :
    t.HoldsObject path ∨ t.HoldsLeaf path := by
  cases kind : v.isObject with
  | true => exact .inl ⟨v, found, kind⟩
  | false => exact .inr ⟨v, found, kind⟩

theorem not_holdsLeaf_of_holdsObject (object : t.HoldsObject path) : ¬ t.HoldsLeaf path := by
  rintro ⟨v, found, leaf⟩
  obtain ⟨w, found', object⟩ := object
  cases found.symm.trans found'
  cases leaf.symm.trans object

theorem HoldsObject.named (object : t.HoldsObject path) : path ≠ [] := by
  rintro rfl
  obtain ⟨v, found, -⟩ := object
  cases found

theorem HoldsLeaf.named (leaf : t.HoldsLeaf path) : path ≠ [] := by
  rintro rfl
  obtain ⟨v, found, -⟩ := leaf
  cases found

/-- On the way to something stand objects. -/
theorem holdsObject_of_below (found : t.at? (place ++ rest) = some v) (more : rest ≠ [])
    (named : place ≠ []) : t.HoldsObject place := by
  obtain ⟨key, place, rfl⟩ := List.exists_cons_of_ne_nil named
  have below := Value.at?_append t.toValue (key :: place) rest
  rw [show t.toValue.at? (key :: place ++ rest) = some v from found] at below
  obtain ⟨u, here, there⟩ := Option.bind_eq_some_iff.1 below.symm
  refine ⟨u, here, ?_⟩
  cases kind : u.isObject with
  | true => rfl
  | false => simp [Value.at?_of_leaf kind more] at there

theorem HoldsObject.above (object : t.HoldsObject (place ++ rest)) (named : place ≠ []) :
    t.HoldsObject place := by
  obtain ⟨v, found, kind⟩ := object
  cases rest with
  | nil => exact ⟨v, by simpa using found, kind⟩
  | cons key rest => exact holdsObject_of_below found (by simp) named

/-- The root is an object, so what is in the way of a path stands at some path itself. -/
theorem cuts_iff : t.Cuts path ↔
    ∃ place rest, path = place ++ rest ∧ rest ≠ [] ∧ t.HoldsLeaf place := by
  constructor
  · rintro ⟨place, rest, v, split, more, found, leaf⟩
    cases place with
    | nil =>
      cases found
      cases leaf
    | cons key place => exact ⟨key :: place, rest, split, more, v, found, leaf⟩
  · rintro ⟨place, rest, split, more, v, found, leaf⟩
    cases place with
    | nil => cases found
    | cons key place => exact ⟨key :: place, rest, v, split, more, found, leaf⟩

theorem Cuts.append (cut : t.Cuts path) (more : List String) : t.Cuts (path ++ more) := by
  obtain ⟨place, rest, rfl, nonempty, leaf⟩ := cuts_iff.1 cut
  refine cuts_iff.2 ⟨place, rest ++ more, List.append_assoc place rest more, ?_, leaf⟩
  exact List.append_ne_nil_of_left_ne_nil nonempty more

theorem at?_of_cuts (cut : t.Cuts path) : t.at? path = none := by
  obtain ⟨place, rest, v, rfl, more, found, leaf⟩ := cut
  have below := Value.at?_append t.toValue place rest
  rw [found, Option.bind_some, Value.at?_of_leaf leaf more] at below
  cases whole : place ++ rest with
  | nil => rfl
  | cons key others =>
    rw [whole] at below
    exact below

theorem not_writes_iff : ¬ t.Writes path ↔ t.at? path = none ∧ ¬ t.Cuts path := by
  rw [Writes, not_or, Option.not_isSome_iff_eq_none]

/-- What the overlay holds at a path, the merged tree holds. -/
theorem matches_mergedWith (base : Tree) (found : t.at? path = some v) :
    Matches ((base.mergedWith t).at? path) (t.at? path) := by
  rw [at?_mergedWith base found, found]
  exact .laidOver _ v

theorem holdsObject_mergedWith (base : Tree) (object : t.HoldsObject path) :
    (base.mergedWith t).HoldsObject path := by
  obtain ⟨v, found, object⟩ := object
  exact ⟨_, at?_mergedWith base found, (Value.isObject_laidOver _ v).trans object⟩

theorem holdsLeaf_mergedWith (base : Tree) (leaf : t.HoldsLeaf path) :
    (base.mergedWith t).HoldsLeaf path := by
  obtain ⟨v, found, leaf⟩ := leaf
  exact ⟨_, at?_mergedWith base found, (Value.isObject_laidOver _ v).trans leaf⟩

/-- What is in the way in the overlay stays there, and so does what is in the way in the base where
the overlay says nothing about it. -/
theorem cuts_mergedWith (base : Tree) : (base.mergedWith t).Cuts path ↔
    t.Cuts path ∨
      ∃ place rest, path = place ++ rest ∧ rest ≠ [] ∧ base.HoldsLeaf place ∧ ¬ t.Writes place := by
  constructor
  · intro cut
    obtain ⟨place, rest, rfl, more, leaf⟩ := cuts_iff.1 cut
    by_cases writes : t.Writes place
    · rcases writes with found | cut
      · obtain ⟨v, found⟩ := Option.isSome_iff_exists.1 found
        rcases holdsObject_or_holdsLeaf found with object | leaf'
        · have object' := holdsObject_mergedWith base object
          exact absurd leaf (not_holdsLeaf_of_holdsObject object')
        · exact .inl (cuts_iff.2 ⟨place, rest, rfl, more, leaf'⟩)
      · obtain ⟨v, found, -⟩ := leaf
        rw [at?_mergedWith_of_cuts base cut] at found
        cases found
    · obtain ⟨v, found, leaf⟩ := leaf
      rw [at?_mergedWith_of_silent base writes] at found
      exact .inr ⟨place, rest, rfl, more, ⟨v, found, leaf⟩, writes⟩
  · rintro (cut | ⟨place, rest, rfl, more, ⟨v, found, leaf⟩, silent⟩)
    · obtain ⟨place, rest, rfl, more, leaf⟩ := cuts_iff.1 cut
      exact cuts_iff.2 ⟨place, rest, rfl, more, holdsLeaf_mergedWith base leaf⟩
    · rw [← at?_mergedWith_of_silent base silent] at found
      exact cuts_iff.2 ⟨place, rest, rfl, more, v, found, leaf⟩

/-! ### Laws of two trees -/

/-- A base disappears behind an overlay that says something wherever the base holds anything. -/
theorem mergedWith_of_hidden (hidden : ∀ path, ¬ t.Writes path → base.at? path = none) :
    base.mergedWith t = t := by
  refine eq_of_matches fun path => ?_
  by_cases writes : t.Writes path
  · rcases writes with found | cut
    · obtain ⟨v, found⟩ := Option.isSome_iff_exists.1 found
      exact matches_mergedWith base found
    · rw [at?_mergedWith_of_cuts base cut, at?_of_cuts cut]
      exact .inl rfl
  · rw [at?_mergedWith_of_silent base writes, hidden path writes, (not_writes_iff.1 writes).1]
    exact .inl rfl

/-- An overlay changes nothing if the base has already what it says. -/
theorem mergedWith_of_said
    (holds : ∀ path v, t.at? path = some v → Matches (base.at? path) (some v))
    (cuts : ∀ path, t.Cuts path → base.at? path = none) : base.mergedWith t = base := by
  refine eq_of_matches fun path => ?_
  by_cases writes : t.Writes path
  · rcases writes with found | cut
    · obtain ⟨v, found⟩ := Option.isSome_iff_exists.1 found
      have laid := matches_mergedWith base found
      rw [found] at laid
      exact laid.trans (holds path v found).symm
    · rw [at?_mergedWith_of_cuts base cut, cuts path cut]
      exact .inl rfl
  · rw [at?_mergedWith_of_silent base writes]
    exact .inl rfl

@[simp] theorem at?_empty (path : List String) : empty.at? path = none := by
  cases path <;> rfl

theorem empty_mergedWith (t : Tree) : empty.mergedWith t = t :=
  mergedWith_of_hidden fun path _ => at?_empty path

theorem mergedWith_self (t : Tree) : t.mergedWith t = t :=
  mergedWith_of_hidden fun _ silent => (not_writes_iff.1 silent).1

theorem mergedWith_again (base t : Tree) :
    (base.mergedWith t).mergedWith t = base.mergedWith t := by
  refine mergedWith_of_said ?_ ?_
  · intro path v found
    have laid := matches_mergedWith base found
    rwa [found] at laid
  · exact fun path cut => at?_mergedWith_of_cuts base cut

theorem mergedWith_below (base t : Tree) :
    t.mergedWith (base.mergedWith t) = base.mergedWith t := by
  refine mergedWith_of_hidden fun path silent => ?_
  cases found : t.at? path with
  | none => rfl
  | some v =>
    have laid := at?_mergedWith base found
    exact absurd (.inl (by simp [laid])) silent

/-! ### Three trees -/

/-- At some path the first and the last tree hold objects, and the one in the middle something
else. -/
def TakesBack (first middle last : Tree) : Prop :=
  ∃ path, first.HoldsObject path ∧ middle.HoldsLeaf path ∧ last.HoldsObject path

/-- Three trees may be grouped either way, unless the last one brings an object back that the one in
the middle had taken away from the first. -/
theorem mergedWith_assoc (keeps : ¬ TakesBack a b c) :
    (a.mergedWith b).mergedWith c = a.mergedWith (b.mergedWith c) := by
  refine eq_of_matches fun path => ?_
  by_cases writes : c.Writes path
  · rcases writes with found | cut
    · -- both trees hold what the last one holds
      obtain ⟨v, found⟩ := Option.isSome_iff_exists.1 found
      have inner := at?_mergedWith b found
      have left := matches_mergedWith (a.mergedWith b) found
      have right := matches_mergedWith a inner
      exact left.trans (right.trans (matches_mergedWith b found)).symm
    · have inner := (cuts_mergedWith b).2 (.inl cut)
      rw [at?_mergedWith_of_cuts _ cut, at?_mergedWith_of_cuts a inner]
      exact .inl rfl
  · -- the last one says nothing here
    rw [at?_mergedWith_of_silent _ writes]
    have inner := at?_mergedWith_of_silent b writes
    by_cases writesB : b.Writes path
    · rcases writesB with found | cut
      · obtain ⟨v, found⟩ := Option.isSome_iff_exists.1 found
        rw [at?_mergedWith a found, at?_mergedWith a (inner.trans found)]
        exact .inl rfl
      · rw [at?_mergedWith_of_cuts a cut]
        refine .inl (Eq.symm ?_)
        by_cases cutBC : (b.mergedWith c).Cuts path
        · exact at?_mergedWith_of_cuts a cutBC
        · -- what was in the way has given way to an object, so the first tree held none there
          have silent : ¬ (b.mergedWith c).Writes path :=
            not_writes_iff.2 ⟨inner.trans (at?_of_cuts cut), cutBC⟩
          rw [at?_mergedWith_of_silent a silent]
          obtain ⟨place, rest, rfl, more, leaf⟩ := cuts_iff.1 cut
          have given : c.HoldsObject place := by
            by_contra lacking
            refine cutBC ((cuts_mergedWith b).2 (.inr ⟨place, rest, rfl, more, leaf, ?_⟩))
            rintro (found | cut)
            · obtain ⟨v, found⟩ := Option.isSome_iff_exists.1 found
              rcases holdsObject_or_holdsLeaf found with object | leaf
              · exact lacking object
              · exact writes (.inr (cuts_iff.2 ⟨place, rest, rfl, more, leaf⟩))
            · exact writes (.inr (cut.append rest))
          cases below : a.at? (place ++ rest) with
          | none => rfl
          | some v =>
            have object := holdsObject_of_below below more leaf.named
            exact absurd ⟨place, object, leaf, given⟩ keeps
    · have silent : ¬ (b.mergedWith c).Writes path := by
        rw [not_writes_iff, inner]
        refine ⟨(not_writes_iff.1 writesB).1, fun cutBC => ?_⟩
        rcases (cuts_mergedWith b).1 cutBC with cut | ⟨place, rest, split, more, leaf, -⟩
        · exact writes (.inr cut)
        · exact writesB (.inr (cuts_iff.2 ⟨place, rest, split, more, leaf⟩))
      rw [at?_mergedWith_of_silent a writesB, at?_mergedWith_of_silent a silent]
      exact .inl rfl

/-- Without the condition the grouping does matter: here the name of the host is lost or kept. -/
example :
    let first : Tree := { root := [("server", .obj [("host", .str "a")])] }
    let middle : Tree := { root := [("server", .null)] }
    let last : Tree := { root := [("server", .obj [("port", .int 80)])] }
    (first.mergedWith middle).mergedWith last = last ∧
      first.mergedWith (middle.mergedWith last) =
        { root := [("server", .obj [("host", .str "a"), ("port", .int 80)])] } :=
  ⟨rfl, rfl⟩

/-! ### Any number of trees -/

/-- Some tree in the middle puts something else in the place of an object that the trees before it
have given, and a later tree turns that back into an object. -/
def BringsBack (layers : List Tree) : Prop :=
  ∃ before middle between last after, layers = before ++ middle :: (between ++ last :: after) ∧
    TakesBack (mergeAll before) middle last

/-- Of something that holds of the first part of a list, but not of all of it, it can be said which
element has ended it. -/
theorem exists_turn {α : Type} {holds : List α → Prop} (start : holds []) {xs : List α}
    (ended : ¬ holds xs) :
    ∃ before x after, xs = before ++ x :: after ∧ holds before ∧ ¬ holds (before ++ [x]) := by
  induction xs using List.reverseRecOn with
  | nil => exact absurd start ended
  | append_singleton xs x ih =>
    by_cases still : holds xs
    · exact ⟨xs, x, [], rfl, still, ended⟩
    · obtain ⟨before, y, after, rfl, held, ended⟩ := ih still
      exact ⟨before, y, after ++ [x], by simp, held, ended⟩

/-- A layer under which an object is lost says that it is, or that one on the way to it is. -/
theorem exists_holdsLeaf (object : base.HoldsObject path)
    (lost : ¬ (base.mergedWith t).HoldsObject path) :
    ∃ place rest, path = place ++ rest ∧ t.HoldsLeaf place ∧ base.HoldsObject place := by
  by_cases writes : t.Writes path
  · rcases writes with found | cut
    · obtain ⟨v, found⟩ := Option.isSome_iff_exists.1 found
      rcases holdsObject_or_holdsLeaf found with object' | leaf
      · exact absurd (holdsObject_mergedWith base object') lost
      · exact ⟨path, [], by simp, leaf, object⟩
    · obtain ⟨place, rest, rfl, more, leaf⟩ := cuts_iff.1 cut
      obtain ⟨v, found, -⟩ := object
      exact ⟨place, rest, rfl, leaf, holdsObject_of_below found more leaf.named⟩
  · obtain ⟨v, found, object⟩ := object
    rw [← at?_mergedWith_of_silent base writes] at found
    exact absurd ⟨v, found, object⟩ lost

/-- A group of layers laid over what comes before it as a whole or one by one. -/
theorem mergedWith_mergeAll {before group : List Tree} (keeps : ¬ BringsBack (before ++ group)) :
    (mergeAll before).mergedWith (mergeAll group) = mergeAll (before ++ group) := by
  -- from the last layer of the group on, which is laid over all the others in both ways
  induction group using List.reverseRecOn with
  | nil => rw [mergeAll_nil, mergedWith_empty, List.append_nil]
  | append_singleton group t ih =>
    rw [← List.append_assoc] at keeps ⊢
    have merged := ih fun ⟨first, middle, between, last, after, split, taken⟩ =>
      keeps ⟨first, middle, between, last, after ++ [t], by simp [split], taken⟩
    rw [mergeAll_append_singleton, mergeAll_append_singleton, ← merged, mergedWith_assoc]
    rintro ⟨path, object, leaf, back⟩
    -- some layer of the group has taken the object away
    have lost : ¬ (mergeAll (before ++ group)).HoldsObject path := by
      rw [← merged]
      intro object
      exact not_holdsLeaf_of_holdsObject object (holdsLeaf_mergedWith _ leaf)
    have start : (mergeAll (before ++ [])).HoldsObject path := by rwa [List.append_nil]
    obtain ⟨first, middle, between, rfl, held, ended⟩ :=
      @exists_turn Tree (fun part => (mergeAll (before ++ part)).HoldsObject path) start _ lost
    rw [← List.append_assoc, mergeAll_append_singleton] at ended
    obtain ⟨place, rest, rfl, leaf, object⟩ := exists_holdsLeaf held ended
    exact keeps ⟨before ++ first, middle, between, t, [], by simp, place, object, leaf,
      back.above leaf.named⟩

/-- Layers may be grouped in any way. -/
theorem mergeAll_flatten {groups : List (List Tree)} (keeps : ¬ BringsBack groups.flatten) :
    mergeAll (groups.map mergeAll) = mergeAll groups.flatten := by
  induction groups using List.reverseRecOn with
  | nil => rfl
  | append_singleton groups group ih =>
    simp only [List.flatten_append, List.flatten_singleton] at keeps ⊢
    rw [List.map_append, List.map_singleton, mergeAll_append_singleton, ih,
      mergedWith_mergeAll keeps]
    rintro ⟨first, middle, between, last, after, split, taken⟩
    exact keeps ⟨first, middle, between, last, after ++ group, by simp [split], taken⟩

/-- The laws of merging: the empty tree is neutral, a tree laid over itself or over a tree that has
it already changes nothing, and neither do three or more trees that are grouped in another way,
unless an object that was taken away in the middle is brought back. -/
theorem merging_laws :
    (∀ t : Tree, empty.mergedWith t = t ∧ t.mergedWith empty = t ∧ t.mergedWith t = t) ∧
    (∀ base t : Tree, (base.mergedWith t).mergedWith t = base.mergedWith t ∧
      t.mergedWith (base.mergedWith t) = base.mergedWith t) ∧
    (∀ a b c : Tree,
      (¬ ∃ path, a.HoldsObject path ∧ b.HoldsLeaf path ∧ c.HoldsObject path) →
      (a.mergedWith b).mergedWith c = a.mergedWith (b.mergedWith c)) ∧
    ∀ groups : List (List Tree), ¬ BringsBack groups.flatten →
      mergeAll (groups.map mergeAll) = mergeAll groups.flatten := by
  refine ⟨fun t => ?_, fun base t => ?_, ?_, ?_⟩
  · exact ⟨empty_mergedWith t, mergedWith_empty t, mergedWith_self t⟩
  · exact ⟨mergedWith_again base t, mergedWith_below base t⟩
  · intro a b c keeps
    exact mergedWith_assoc keeps
  · intro groups keeps
    exact mergeAll_flatten keeps

/-- A source with two layers and one with a single layer, which takes an object away for good. -/
theorem merging_laws_taken_away :
    let base : Tree := { root := [("server", .obj [("host", .str "a"), ("port", .int 80)])] }
    let overlay : Tree := { root := [("server", .obj [("port", .int 81)])] }
    let top : Tree := { root := [("debug", .bool true), ("server", .null)] }
    let groups := [[base, overlay], [top]]
    ¬ BringsBack groups.flatten ∧
    mergeAll (groups.map mergeAll) = mergeAll [base, overlay, top] ∧
    (base.mergedWith overlay).mergedWith top = base.mergedWith (overlay.mergedWith top) := by
  intro base overlay top groups
  have nothing (path : List String) : ¬ top.HoldsObject path := by
    intro object
    obtain ⟨key, rest, rfl⟩ := List.exists_cons_of_ne_nil object.named
    have split : top.HoldsObject ([key] ++ rest) := object
    obtain ⟨v, found, kind⟩ := split.above (by simp)
    simp only [at?, top, toValue, Value.at?, Value.fields, Fields.get?_cons, Fields.get?_nil,
      Option.bind_fun_some] at found
    split_ifs at found
    all_goals
      cases found
      cases kind
  have keeps : ¬ BringsBack groups.flatten := by
    rintro ⟨before, middle, between, last, after, split, path, object, -, back⟩
    -- nothing is taken away before there is anything, and the last tree holds no object
    cases before with
    | nil =>
      obtain ⟨v, found, -⟩ := object
      rw [mergeAll_nil, at?_empty] at found
      cases found
    | cons first before =>
      have late : [top] = (before ++ middle :: (between ++ last :: after)).tail :=
        congrArg (List.tail ∘ List.tail) split
      have isTop : last = top := by
        refine List.mem_singleton.1 (late ▸ ?_)
        cases before <;> simp
      exact nothing path (isTop ▸ back)
  refine ⟨keeps, merging_laws.2.2.2 groups keeps, ?_⟩
  refine merging_laws.2.2.1 base overlay top ?_
  rintro ⟨path, -, -, back⟩
  exact nothing path back

end Tree
end LayeredConfig
