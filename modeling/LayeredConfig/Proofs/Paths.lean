import LayeredConfig.Proofs.Routes
import LayeredConfig.Tree.Path
/-!
# Looking values up by paths

A path counts by its segments alone: blanks around its pieces and blank pieces do not matter. Two
paths with a point between them are walked one after the other. A route whose keys a path can name
is found again at its path.

Main statements: `pathSegments_intercalate` and `pathSegments_pad`, which say what the segments of a
path are, `get?_path`, and `paths_compose`, which puts the laws together.
-/
namespace LayeredConfig

/-! ### Blanks -/

/-- There is nothing but blanks in the text. -/
def Blank (s : String) : Prop := ∀ c ∈ s.toList, Text.isBlank c = true

theorem Blank.empty : Blank "" := by
  simp [Blank]

theorem Blank.pointless {s : String} (blank : Blank s) : '.' ∉ s.toList := by
  intro point
  have isBlank := blank '.' point
  revert isBlank
  decide

theorem isBlankText_iff {s : String} : Text.isBlankText s = true ↔ Blank s := by
  simp [Text.isBlankText, Blank]

/-- Blanks at the ends are trimmed away. -/
theorem trim_pad {left right : String} (blank : Blank left) (blank' : Blank right) (s : String) :
    Text.trim (left ++ s ++ right) = Text.trim s := by
  have trims := Text.trims_trimChars s.toList
  rw [Text.trim, Text.trim]
  generalize Text.trimChars s.toList = trimmed at *
  obtain ⟨⟨before, after, split, blankBefore, blankAfter⟩, first, last⟩ := trims
  have padded : Text.Trims (left ++ s ++ right).toList trimmed := by
    refine ⟨⟨left.toList ++ before, after ++ right.toList, ?_, ?_, ?_⟩, first, last⟩
    · simp [split]
    · simpa [or_imp, forall_and] using ⟨blank, blankBefore⟩
    · simpa [or_imp, forall_and] using ⟨blankAfter, blank'⟩
  rw [Text.trims_iff.1 padded]

/-- A text is what is left when it is trimmed, with blanks around it. -/
theorem exists_pad (s : String) :
    ∃ left right, Blank left ∧ Blank right ∧ s = left ++ Text.trim s ++ right := by
  obtain ⟨⟨before, after, split, blank, blank'⟩, -, -⟩ := Text.trims_trimChars s.toList
  refine ⟨String.ofList before, String.ofList after, by simpa [Blank] using blank,
    by simpa [Blank] using blank', ?_⟩
  rw [← String.toList_inj]
  simpa [Text.trim] using split

/-! ### Segments -/

/-- A text without points is one piece. -/
theorem pathSegments_of_pointless {s : String} (pointless : '.' ∉ s.toList) :
    pathSegments s = (Text.trimToOption s).toList := by
  simp only [pathSegments, List.splitOn_eq_singleton pointless, List.map_cons, List.map_nil,
    Text.trimToOption, Text.trim]
  by_cases empty : (String.ofList (Text.trimChars s.toList)).isEmpty = true <;> simp [empty]

theorem trim_of_blank {s : String} (blank : Blank s) : Text.trim s = "" := by
  have trimmed : Text.trim (s ++ "" ++ "") = Text.trim "" := trim_pad blank .empty ""
  rw [String.append_empty, String.append_empty] at trimmed
  exact trimmed

theorem trim_isEmpty_iff {s : String} : (Text.trim s).isEmpty = true ↔ Blank s := by
  constructor
  · intro empty
    obtain ⟨left, right, blank, blank', split⟩ := exists_pad s
    have nothing : Text.trim s = "" := by simpa using empty
    rw [nothing, String.append_empty] at split
    rw [split]
    simpa [Blank, or_imp, forall_and] using ⟨blank, blank'⟩
  · intro blank
    simp [trim_of_blank blank]

theorem pathSegments_of_blank {s : String} (blank : Blank s) : pathSegments s = [] := by
  rw [pathSegments_of_pointless blank.pointless, Text.trimToOption, trim_of_blank blank]
  rfl

/-- A text has no point, or else it is what stands before its first point and what stands behind. -/
theorem pointless_or_split (s : String) :
    '.' ∉ s.toList ∨ ∃ before rest, s = before ++ "." ++ rest ∧ '.' ∉ before.toList := by
  by_cases point : '.' ∈ s.toList
  · obtain ⟨before, rest, split, absent⟩ := List.eq_append_cons_of_mem point
    refine .inr ⟨String.ofList before, String.ofList rest, ?_, by simpa using absent⟩
    rw [← String.toList_inj]
    simpa using split
  · exact .inl point

theorem pathSegments_pad_of_pointless {left right s : String} (blank : Blank left)
    (blank' : Blank right) (pointless : '.' ∉ s.toList) :
    pathSegments (left ++ s ++ right) = pathSegments s := by
  have padded : '.' ∉ (left ++ s ++ right).toList := by
    simpa using ⟨blank.pointless, pointless, blank'.pointless⟩
  rw [pathSegments_of_pointless pointless, pathSegments_of_pointless padded, Text.trimToOption,
    Text.trimToOption, trim_pad blank blank']

/-- Blanks around a path do not matter. -/
theorem pathSegments_pad {left right : String} (blank : Blank left) (blank' : Blank right)
    (s : String) : pathSegments (left ++ s ++ right) = pathSegments s := by
  -- by induction on the length: blanks on the right belong to what stands behind the first point
  induction size : s.length using Nat.strong_induction_on generalizing left s with
  | _ length ih =>
    rcases pointless_or_split s with pointless | ⟨before, rest, rfl, pointless⟩
    · exact pathSegments_pad_of_pointless blank blank' pointless
    · have shorter : rest.length < length := by
        simp only [String.length_append] at size
        have point : ".".length = 1 := rfl
        omega
      have regroup : left ++ (before ++ "." ++ rest) ++ right =
          (left ++ before ++ "") ++ "." ++ ("" ++ rest ++ right) := by
        simp [← String.toList_inj]
      rw [regroup, pathSegments_append, pathSegments_append,
        pathSegments_pad_of_pointless blank .empty pointless, ih _ shorter .empty rest rfl]

theorem pathSegments_trim (s : String) : pathSegments (Text.trim s) = pathSegments s := by
  obtain ⟨left, right, blank, blank', split⟩ := exists_pad s
  conv_rhs => rw [split]
  exact (pathSegments_pad blank blank' _).symm

/-- The segments of pieces with points between them are those of the pieces. -/
theorem pathSegments_intercalate (pieces : List String) :
    pathSegments (".".intercalate pieces) = pieces.flatMap pathSegments := by
  induction pieces with
  | nil => exact pathSegments_of_blank .empty
  | cons first rest ih =>
    cases rest with
    | nil => simp
    | cons second rest =>
      rw [String.intercalate_cons_cons, pathSegments_append, ih, ← List.flatMap_cons]

/-- The second list has the pieces of the first one with blanks around them, and blank pieces
between them. -/
inductive Padded : List String → List String → Prop where
  | nil : Padded [] []
  | around {left right piece : String} {pieces pieces' : List String} (blank : Blank left)
      (blank' : Blank right) (rest : Padded pieces pieces') :
      Padded (piece :: pieces) ((left ++ piece ++ right) :: pieces')
  | between {piece : String} {pieces pieces' : List String} (blank : Blank piece)
      (rest : Padded pieces pieces') : Padded pieces (piece :: pieces')

theorem Padded.flatMap {pieces pieces' : List String} (padded : Padded pieces pieces') :
    pieces'.flatMap pathSegments = pieces.flatMap pathSegments := by
  induction padded with
  | nil => rfl
  | around blank blank' _ ih => simp [pathSegments_pad blank blank', ih]
  | between blank _ ih => simp [pathSegments_of_blank blank, ih]

/-! ### Keys that a path can name -/

/-- A key that is not empty, has no point in it and no blanks around it. -/
structure PlainKey (key : String) : Prop where
  nonempty : key ≠ ""
  pointless : '.' ∉ key.toList
  trimmed : Text.trim key = key

instance (key : String) : Decidable (PlainKey key) :=
  decidable_of_iff (key ≠ "" ∧ '.' ∉ key.toList ∧ Text.trim key = key)
    ⟨fun ⟨nonempty, pointless, trimmed⟩ => ⟨nonempty, pointless, trimmed⟩,
      fun plain => ⟨plain.nonempty, plain.pointless, plain.trimmed⟩⟩

theorem PlainKey.pathSegments {key : String} (plain : PlainKey key) : pathSegments key = [key] := by
  have nonempty : key.isEmpty = false := by simpa using plain.nonempty
  rw [pathSegments_of_pointless plain.pointless, Text.trimToOption, plain.trimmed]
  simp [nonempty]

theorem not_isBlank_of_isDigit {c : Char} (digit : c.isDigit = true) : Text.isBlank c = false := by
  simp only [Char.isDigit, Bool.and_eq_true, decide_eq_true_eq, ge_iff_le,
    UInt32.le_iff_toNat_le] at digit
  change 48 ≤ c.toNat ∧ c.toNat ≤ 57 at digit
  simp only [Text.isBlank, Bool.or_eq_false_iff, Bool.and_eq_false_iff, decide_eq_false_iff_not,
    beq_eq_false_iff_ne]
  omega

theorem toList_toString (i : Nat) : (toString i).toList = Nat.toDigits 10 i := by
  simp [toString, Nat.repr]

/-- Different indices are written differently. -/
theorem toString_inj {i j : Nat} (same : toString i = toString j) : i = j := by
  have digits : Nat.toDigits 10 i = Nat.toDigits 10 j := by
    rw [← toList_toString, ← toList_toString, same]
  calc i = Nat.ofDigitChars 10 (Nat.toDigits 10 i) 0 := Nat.ofDigitChars_ten_toDigits.symm
    _ = Nat.ofDigitChars 10 (Nat.toDigits 10 j) 0 := by rw [digits]
    _ = j := Nat.ofDigitChars_ten_toDigits

theorem isDigit_of_mem_toString {i : Nat} {c : Char} (member : c ∈ (toString i).toList) :
    c.isDigit = true := by
  rw [toList_toString] at member
  exact Nat.isDigit_of_mem_toDigits (by decide) (by decide) member

/-- An index is written in digits, and so a path can name it. -/
theorem plainKey_toString (i : Nat) : PlainKey (toString i) where
  nonempty empty := by
    have digits : Nat.toDigits 10 i = [] := by simp [← toList_toString, empty]
    exact Nat.toDigits_ne_nil digits
  pointless point := by
    have digit := isDigit_of_mem_toString point
    revert digit
    decide
  trimmed := by
    have trims : Text.Trims (toString i).toList (toString i).toList := by
      refine ⟨⟨[], [], by simp, by simp, by simp⟩, fun c first => ?_, fun c last => ?_⟩
      · exact not_isBlank_of_isDigit (isDigit_of_mem_toString (List.mem_of_mem_head? first))
      · exact not_isBlank_of_isDigit (isDigit_of_mem_toString (List.mem_of_mem_getLast? last))
    rw [Text.trim, Text.trims_iff.1 trims, String.ofList_toList]

/-- An index that is not too large is read as what it was written for. -/
theorem arrayIndex?_toString {i : Nat} (bound : i ≤ indexMax) :
    arrayIndex? (toString i) = some i := by
  have digits : Decimal.digitsValue? (toString i).toList = some i := by
    have nonempty : (toString i).toList ≠ [] := by
      rw [toList_toString]
      exact Nat.toDigits_ne_nil
    have allDigits : (toString i).toList.all Char.isDigit = true :=
      List.all_eq_true.2 fun c member => isDigit_of_mem_toString member
    simp only [Decimal.digitsValue?, allDigits, List.isEmpty_eq_false_iff.2 nonempty]
    rw [toList_toString]
    exact congrArg some Nat.ofDigitChars_ten_toDigits
  -- there is no sign in front of the digits
  have unsigned : '+' ∉ (toString i).toList := by
    intro plus
    have digit := isDigit_of_mem_toString plus
    revert digit
    decide
  rw [arrayIndex?, Decimal.natural?]
  split
  · rename_i sign
    rw [sign] at unsigned
    exact absurd List.mem_cons_self unsigned
  · rw [digits]
    simp [bound]

/-! ### Routes -/

namespace Route

/-- The path of a route: its keys and indices with points between them. -/
def path (route : Route) : String := ".".intercalate (route.map Branch.segment)

/-- A path can name each of the keys. -/
def Plain (route : Route) : Prop := ∀ name, .key name ∈ route → PlainKey name

theorem plain_cons_iff {b : Branch} {route : Route} :
    Plain (b :: route) ↔ PlainKey b.segment ∧ route.Plain := by
  cases b with
  | key name => simp [Plain, Branch.segment]
  | index i => simpa [Plain, Branch.segment] using fun _ => plainKey_toString i

end Route

namespace Value

/-- Each item of each array has an index that can be read. No array in memory has more items. -/
def Indexable (v : Value) : Prop :=
  ∀ route w, v.reach? route = some w → w.items.length ≤ indexMax + 1

/-- A path can name the keys of all objects. -/
def PlainKeys (v : Value) : Prop :=
  ∀ route w, v.reach? route = some w → ∀ name ∈ Fields.names w.fields, PlainKey name

variable {v w : Value} {b : Branch} {route route' : Route}

theorem Indexable.below (indexable : v.Indexable) (reached : v.reach? route = some w) :
    w.Indexable := by
  intro further u found
  apply indexable (route ++ further)
  rw [reach?_append, reached]
  exact found

theorem PlainKeys.below (plain : v.PlainKeys) (reached : v.reach? route = some w) :
    w.PlainKeys := by
  intro further u found
  apply plain (route ++ further)
  rw [reach?_append, reached]
  exact found

theorem Indexable.child (indexable : v.Indexable) (found : v.child? b = some w) : w.Indexable :=
  indexable.below (reach?_cons_eq_some_iff.2 ⟨w, found, reach?_nil w⟩)

theorem PlainKeys.child (plain : v.PlainKeys) (found : v.child? b = some w) : w.PlainKeys :=
  plain.below (reach?_cons_eq_some_iff.2 ⟨w, found, reach?_nil w⟩)

/-- What stands at a branch is found under the segment that is written for it. -/
theorem step?_segment (indexable : v.Indexable) (found : v.child? b = some w) :
    v.step? b.segment = some w := by
  cases b with
  | key name =>
    cases v with
    | obj fields => exact found
    | _ => simp [child?, Value.fields, Fields.get?] at found
  | index i =>
    cases v with
    | arr items =>
      have found : items[i]? = some w := found
      have size : items.length ≤ indexMax + 1 := indexable [] _ rfl
      have inside : i < items.length := (List.getElem?_eq_some_iff.1 found).1
      have bound : i ≤ indexMax := by omega
      rw [Branch.segment, step?, arrayIndex?_toString bound]
      exact found
    | _ => simp [child?, Value.items] at found

/-- A route is walked along its segments. -/
theorem walk?_segments (indexable : v.Indexable) (reached : v.reach? route = some w) :
    v.walk? (route.map Branch.segment) = some w := by
  induction route generalizing v with
  | nil => exact reached
  | cons b route ih =>
    obtain ⟨next, found, reached⟩ := reach?_cons_eq_some_iff.1 reached
    rw [List.map_cons, walk?, step?_segment indexable found]
    exact ih (indexable.child found) reached

/-- What is found on a walk is at the end of some route. -/
theorem exists_reach?_of_walk? {segments : List String} (walked : v.walk? segments = some w) :
    ∃ route, v.reach? route = some w := by
  induction segments generalizing v with
  | nil => exact ⟨[], walked⟩
  | cons segment rest ih =>
    rw [walk?, Option.bind_eq_some_iff] at walked
    obtain ⟨next, found, walked⟩ := walked
    obtain ⟨b, child⟩ : ∃ b, v.child? b = some next := by
      cases v with
      | obj fields => exact ⟨.key segment, found⟩
      | arr items =>
        obtain ⟨i, -, item⟩ := Option.bind_eq_some_iff.1 found
        exact ⟨.index i, item⟩
      | _ => cases found
    obtain ⟨route, reached⟩ := ih walked
    exact ⟨b :: route, reach?_cons_eq_some_iff.2 ⟨next, child, reached⟩⟩

/-- A route through objects with plain keys is plain. -/
theorem PlainKeys.plain_route (plain : v.PlainKeys) (reached : v.reach? route = some w) :
    route.Plain := by
  induction route generalizing v with
  | nil => intro name member; cases member
  | cons b route ih =>
    obtain ⟨next, found, reached⟩ := reach?_cons_eq_some_iff.1 reached
    intro name member
    rcases List.mem_cons.1 member with rfl | member
    · exact plain [] v rfl name (Fields.mem_names_iff.2 ⟨_, found⟩)
    · exact ih (plain.child found) reached name member

/-- Whether a segment is a key or an index depends on the value alone. -/
theorem eq_of_segment {b' : Branch} {w' : Value} (found : v.child? b = some w)
    (found' : v.child? b' = some w') (same : b.segment = b'.segment) : b = b' := by
  cases b with
  | key name =>
    cases b' with
    | key name' => exact congrArg Branch.key same
    | index i =>
      -- an object has no items, and only an object has fields
      cases v with
      | obj fields => simp [child?, Value.items] at found'
      | _ => simp [child?, Value.fields, Fields.get?] at found
  | index i =>
    cases b' with
    | key name =>
      cases v with
      | obj fields => simp [child?, Value.items] at found
      | _ => simp [child?, Value.fields, Fields.get?] at found'
    | index i' => exact congrArg Branch.index (toString_inj same)

/-- Routes from one value with the same segments are the same. -/
theorem eq_of_segments (reached : v.reach? route = some w) {w' : Value}
    (reached' : v.reach? route' = some w')
    (same : route.map Branch.segment = route'.map Branch.segment) : route = route' := by
  -- by induction on the first route: the branches in front are the same, and so is what is there
  induction route generalizing v route' with
  | nil => simpa [eq_comm] using same
  | cons b route ih =>
    cases route' with
    | nil => simp at same
    | cons b' route' =>
      obtain ⟨next, found, reached⟩ := reach?_cons_eq_some_iff.1 reached
      obtain ⟨next', found', reached'⟩ := reach?_cons_eq_some_iff.1 reached'
      simp only [List.map_cons, List.cons.injEq] at same
      obtain rfl := eq_of_segment found found' same.1
      obtain rfl : next = next' := by simpa [found] using found'
      rw [ih reached reached' same.2]

end Value

theorem pathSegments_path {route : Route} (plain : route.Plain) :
    pathSegments route.path = route.map Branch.segment := by
  rw [Route.path, pathSegments_intercalate]
  induction route with
  | nil => rfl
  | cons b route ih =>
    obtain ⟨here, later⟩ := Route.plain_cons_iff.1 plain
    rw [List.map_cons, List.flatMap_cons, here.pathSegments, ih later, List.singleton_append,
      ← List.map_cons]

/-- Parts of a value whose paths begin alike and go on along their routes have different paths. -/
theorem Value.Enumerates.nodup_paths {v : Value} {P : Value → Prop} {listed : List Part}
    (all : v.Enumerates P listed) {path : Route → String} {given : List String}
    (segments : ∀ part ∈ listed,
      pathSegments (path part.route) = given ++ part.route.map Branch.segment) :
    (listed.map fun part => path part.route).Nodup := by
  apply List.pairwise_map.2
  apply all.inOrder.imp_of_mem
  intro first second here later before same
  -- with one path they would have one route, and a route does not stand before itself
  apply before.ne
  have alike : pathSegments (path first.route) = pathSegments (path second.route) :=
    congrArg pathSegments same
  rw [segments first here, segments second later] at alike
  exact eq_of_segments (all.reached here) (all.reached later) (List.append_cancel_left alike)

/-! ### Looking up -/

namespace Tree

variable {t : Tree} {p q : String}

theorem get?_of_segments (nonempty : pathSegments p ≠ []) :
    t.get? p = t.toValue.walk? (pathSegments p) := by
  unfold get?
  cases segments : pathSegments p with
  | nil => exact absurd segments nonempty
  | cons first rest => rfl

theorem get?_of_plainKey {key : String} (plain : PlainKey key) (t : Tree) :
    t.get? key = Fields.get? t.root key := by
  have segments := plain.pathSegments
  rw [get?_of_segments (by simp [segments]), segments]
  simp [Value.walk?, Value.step?, toValue]

theorem get?_of_no_segments (empty : pathSegments p = []) : t.get? p = none := by
  simp [get?, empty]

theorem segments_of_get? {v : Value} (found : t.get? p = some v) : pathSegments p ≠ [] := by
  intro none
  simp [get?_of_no_segments none] at found

theorem walk?_of_get? {v : Value} (found : t.get? p = some v) :
    t.toValue.walk? (pathSegments p) = some v := by
  rw [← get?_of_segments (segments_of_get? found)]
  exact found

theorem get?_congr (same : pathSegments p = pathSegments q) : t.get? p = t.get? q := by
  simp [get?, same]

/-- What stands at the end of a route that a path can name is found at the path of the route. -/
theorem get?_path {route : Route} {v : Value} (indexable : t.toValue.Indexable)
    (plain : route.Plain) (nonempty : route ≠ []) (reached : t.toValue.reach? route = some v) :
    t.get? route.path = some v := by
  have segments := pathSegments_path plain
  rw [get?_of_segments (by simpa [segments] using nonempty), segments]
  exact Value.walk?_segments indexable reached

/-- Two paths are walked one after the other. -/
theorem get?_append (nonempty : pathSegments p ≠ []) (q : String) :
    t.get? (p ++ "." ++ q) = (t.get? p).bind fun v => v.walk? (pathSegments q) := by
  have segments := pathSegments_append p q
  rw [get?_of_segments nonempty, get?_of_segments (by simp [segments, nonempty]), segments,
    Value.walk?_append]

/-- The tree at a path begins where the path ends. -/
theorem get?_below {s : Tree} (nonempty : pathSegments q ≠ []) (found : t.subtree? p = some s) :
    t.get? (p ++ "." ++ q) = s.get? q := by
  have segments := pathSegments_append p q
  have further : pathSegments (p ++ "." ++ q) ≠ [] := by simp [segments, nonempty]
  rw [get?_of_segments nonempty, get?_of_segments further, segments]
  unfold subtree? at found
  split at found
  next blank =>
    -- a blank path leads to the tree itself
    obtain rfl : t = s := by simpa using found
    rw [pathSegments_of_blank (isBlankText_iff.1 blank)]
    rfl
  · split at found
    next fields here =>
      obtain rfl : ⟨fields, ordered_of_get? here⟩ = s := by simpa using found
      rw [Value.walk?_append, walk?_of_get? here]
      rfl
    · cases found

/-- Looking values up by paths goes along the pieces of the paths. -/
structure Composes (t : Tree) : Prop where
  segments : ∀ p q, pathSegments (p ++ "." ++ q) = pathSegments p ++ pathSegments q
  /-- Below a tree is found what the tree has. -/
  below : ∀ p q s, pathSegments q ≠ [] → t.subtree? p = some s →
    t.get? (p ++ "." ++ q) = s.get? q
  /-- There is a value on the way to a value. -/
  above : ∀ p q, pathSegments p ≠ [] → (t.get? (p ++ "." ++ q)).isSome → (t.get? p).isSome
  /-- Blanks do not matter. -/
  padded : ∀ pieces pieces', Padded pieces pieces' →
    t.get? (".".intercalate pieces') = t.get? (".".intercalate pieces)
  /-- Each route with plain keys is found, be there null at its end. -/
  routed : t.toValue.Indexable → ∀ (route : Route) v, t.toValue.reach? route = some v →
    route.Plain → route ≠ [] → t.get? route.path = some v

theorem paths_compose (t : Tree) : t.Composes where
  segments := pathSegments_append
  below _ _ _ nonempty found := get?_below nonempty found
  above p q nonempty present := by
    rw [get?_append nonempty] at present
    exact Option.isSome_of_isSome_bind present
  padded pieces pieces' padded := by
    refine get?_congr ?_
    rw [pathSegments_intercalate, pathSegments_intercalate, padded.flatMap]
  routed indexable _ _ reached plain nonempty := get?_path indexable plain nonempty reached

/-- Through an array to null. -/
theorem paths_compose_toNull :
    let t : Tree := { root := [("a", .arr [.bool true, .obj [("b c", .null)]])] }
    t.get? "a.1.b c" = some .null := by
  intro t
  have indexable : t.toValue.Indexable := (Value.forall_reach?_iff t.ordered_toValue).2 (by decide)
  have plain : t.toValue.PlainKeys := (Value.forall_reach?_iff t.ordered_toValue).2 (by decide)
  have reached : t.toValue.reach? [.key "a", .index 1, .key "b c"] = some .null := rfl
  exact (paths_compose t).routed indexable _ _ reached (plain.plain_route reached) (by decide)

end Tree

end LayeredConfig
