import LayeredConfig.Proofs.Equality
import LayeredConfig.Substitution.Secret
/-!
# Visiting the strings of a tree

To visit the strings of a tree is to visit its leaves one after the other, in document order, and
then to write the replies in their places. This holds in every monad, so visitors may keep state and
may fail: `Tree.mapStrings_eq`. What visitors who may fail do follows: they succeed if they do at
every leaf, else they fail as they do at the first leaf where they fail.
-/
namespace LayeredConfig

/-- A string in a tree, with the keys and indices that lead to it. -/
structure Leaf where
  place : List String
  text : String

namespace Leaf

/-- The leaf as seen from one step further up. -/
def under (segment : String) (leaf : Leaf) : Leaf := ⟨segment :: leaf.place, leaf.text⟩

/-- The keys and indices with points between them. -/
def path (leaf : Leaf) : String := ".".intercalate leaf.place

end Leaf

/-! ### Attempts at each element of a list -/

section Attempts

variable {ε α β : Type}

theorem forall₂_append_left {S : α → β → Prop} {xs xs' : List α} {ys : List β} :
    List.Forall₂ S (xs ++ xs') ys ↔
      ∃ zs zs', ys = zs ++ zs' ∧ List.Forall₂ S xs zs ∧ List.Forall₂ S xs' zs' := by
  induction xs generalizing ys with
  | nil => simp
  | cons x xs ih =>
    simp only [List.cons_append, List.forall₂_cons_left_iff, ih]
    constructor
    · rintro ⟨y, _, here, ⟨zs, zs', rfl, first, rest⟩, rfl⟩
      exact ⟨y :: zs, zs', rfl, ⟨y, zs, here, first, rfl⟩, rest⟩
    · rintro ⟨_, zs', rfl, ⟨y, zs, here, first, rfl⟩, rest⟩
      exact ⟨y, zs ++ zs', here, ⟨zs, zs', rfl, first, rest⟩, rfl⟩

theorem exists_forall₂_iff {S : α → β → Prop} {xs : List α} :
    (∃ ys, List.Forall₂ S xs ys) ↔ ∀ x ∈ xs, ∃ y, S x y := by
  induction xs with
  | nil => simp
  | cons x xs ih =>
    simp only [List.forall₂_cons_left_iff, List.forall_mem_cons, ← ih]
    constructor
    · rintro ⟨_, y, ys, here, rest, rfl⟩
      exact ⟨⟨y, here⟩, ys, rest⟩
    · rintro ⟨⟨y, here⟩, ys, rest⟩
      exact ⟨y :: ys, y, ys, here, rest, rfl⟩

/-- Something holds of an element if something else holds of an element that is related to it. -/
theorem exists_mem_iff_of_forall₂ {S : α → β → Prop} {xs : List α} {ys : List β} {P : α → Prop}
    {Q : β → Prop} (related : List.Forall₂ S xs ys) (alike : ∀ x y, S x y → (P x ↔ Q y)) :
    (∃ x ∈ xs, P x) ↔ ∃ y ∈ ys, Q y := by
  induction related with
  | nil => simp
  | cons here _ ih =>
    rw [List.exists_mem_cons_iff, List.exists_mem_cons_iff, alike _ _ here, ih]

theorem map_eq_ok_iff {f : α → β} {x : Except ε α} {y : β} :
    f <$> x = .ok y ↔ ∃ a, x = .ok a ∧ f a = y := by
  cases x with
  | error e => exact ⟨nofun, nofun⟩
  | ok a =>
    constructor
    · rintro ⟨⟩
      exact ⟨a, rfl, rfl⟩
    · rintro ⟨_, ⟨⟩, rfl⟩
      rfl

theorem map_eq_error_iff {f : α → β} {x : Except ε α} {e : ε} :
    f <$> x = .error e ↔ x = .error e := by
  cases x with
  | error e' => constructor <;> rintro ⟨⟩ <;> rfl
  | ok a => exact ⟨nofun, nofun⟩

variable {f : α → Except ε β} {x : α} {xs : List α} {e : ε}

theorem mapM_cons_of_ok {y : β} (here : f x = .ok y) (xs : List α) :
    (x :: xs).mapM f = (y :: ·) <$> xs.mapM f := by
  rw [List.mapM_cons, here, map_eq_pure_bind]
  rfl

theorem mapM_cons_of_error (here : f x = .error e) (xs : List α) :
    (x :: xs).mapM f = .error e := by
  rw [List.mapM_cons, here]
  rfl

/-- All attempts succeed. -/
theorem mapM_eq_ok_iff {ys : List β} :
    xs.mapM f = .ok ys ↔ List.Forall₂ (fun x y => f x = .ok y) xs ys := by
  induction xs generalizing ys with
  | nil =>
    rw [List.mapM_nil, List.forall₂_nil_left_iff]
    exact ⟨fun same => (Except.ok.inj same).symm, fun same => congrArg Except.ok same.symm⟩
  | cons x rest ih =>
    rw [List.forall₂_cons_left_iff]
    cases here : f x with
    | error e =>
      rw [mapM_cons_of_error here]
      constructor
      · nofun
      · rintro ⟨y, ys, ⟨⟩, -⟩
    | ok y =>
      rw [mapM_cons_of_ok here, map_eq_ok_iff]
      constructor
      · rintro ⟨ys, others, rfl⟩
        exact ⟨y, ys, rfl, ih.1 others, rfl⟩
      · rintro ⟨_, ys, ⟨⟩, others, rfl⟩
        exact ⟨ys, ih.2 others, rfl⟩

/-- Some attempt fails, and none before it. -/
theorem mapM_eq_error_iff : xs.mapM f = .error e ↔
    ∃ before x after, xs = before ++ x :: after ∧ (∀ b ∈ before, ∃ y, f b = .ok y) ∧
      f x = .error e := by
  induction xs with
  | nil =>
    constructor
    · nofun
    · rintro ⟨before, x, after, split, -⟩
      simp at split
  | cons x rest ih =>
    cases here : f x with
    | error e' =>
      rw [mapM_cons_of_error here]
      constructor
      · rintro ⟨⟩
        exact ⟨[], x, rest, rfl, List.forall_mem_nil _, here⟩
      · rintro ⟨before, x', after, split, sound, failed⟩
        cases before with
        | nil =>
          obtain ⟨rfl, rfl⟩ := List.cons.inj split
          cases here.symm.trans failed
          rfl
        | cons b before =>
          obtain ⟨rfl, rfl⟩ := List.cons.inj split
          obtain ⟨y, gave⟩ := sound x List.mem_cons_self
          cases here.symm.trans gave
    | ok y =>
      rw [mapM_cons_of_ok here, map_eq_error_iff, ih]
      constructor
      · rintro ⟨before, x', after, rfl, sound, failed⟩
        exact ⟨x :: before, x', after, rfl, List.forall_mem_cons.2 ⟨⟨y, here⟩, sound⟩, failed⟩
      · rintro ⟨before, x', after, split, sound, failed⟩
        cases before with
        | nil =>
          obtain ⟨rfl, rfl⟩ := List.cons.inj split
          cases here.symm.trans failed
        | cons b before =>
          obtain ⟨rfl, rfl⟩ := List.cons.inj split
          exact ⟨before, x', after, rfl, (List.forall_mem_cons.1 sound).2, failed⟩

end Attempts

namespace Value

mutual

/-- The strings in a value, in document order. -/
def leaves : Value → List Leaf
  | .str s => [⟨[], s⟩]
  | .arr items => itemLeaves 0 items
  | .obj fields => fieldLeaves fields
  | _ => []
termination_by structural v => v

/-- The strings in the items of an array from an index on. -/
def itemLeaves (index : Nat) : List Value → List Leaf
  | [] => []
  | v :: rest => (leaves v).map (.under (toString index)) ++ itemLeaves (index + 1) rest
termination_by structural items => items

/-- The strings in the fields of an object. -/
def fieldLeaves : Fields → List Leaf
  | [] => []
  | (k, v) :: rest => (leaves v).map (.under k) ++ fieldLeaves rest
termination_by structural fields => fields

end

mutual

/-- The value with other texts in place of its strings, in document order. -/
def fill : Value → List String → Value
  | .str s, texts => .str (texts.headD s)
  | .arr items, texts => .arr (fillItems items texts)
  | .obj fields, texts => .obj (fillFields fields texts)
  | v, _ => v
termination_by structural v => v

def fillItems : List Value → List String → List Value
  | [], _ => []
  | v :: rest, texts => fill v texts :: fillItems rest (texts.drop v.leaves.length)
termination_by structural items => items

def fillFields : Fields → List String → Fields
  | [], _ => []
  | (k, v) :: rest, texts => (k, fill v texts) :: fillFields rest (texts.drop v.leaves.length)
termination_by structural fields => fields

end

/-- The same value but for its strings, each of which has made place for a related one. -/
inductive Rewritten (R : String → String → Prop) : Value → Value → Prop where
  | null : Rewritten R .null .null
  | bool (b : Bool) : Rewritten R (.bool b) (.bool b)
  | int (i : Int) : Rewritten R (.int i) (.int i)
  | float (x : Float) : Rewritten R (.float x) (.float x)
  | str {s t : String} (related : R s t) : Rewritten R (.str s) (.str t)
  | arr {as bs : List Value} (items : List.Forall₂ (Rewritten R) as bs) :
      Rewritten R (.arr as) (.arr bs)
  | obj {as bs : Fields} (fields : List.Forall₂ (Named (Rewritten R)) as bs) :
      Rewritten R (.obj as) (.obj bs)

/-! ### Strings in document order -/

mutual

theorem text_leaves : ∀ v : Value, v.leaves.map Leaf.text = v.strings
  | .null | .bool _ | .int _ | .float _ | .str _ => rfl
  | .arr items => text_itemLeaves 0 items
  | .obj fields => text_fieldLeaves fields
termination_by structural v => v

theorem text_itemLeaves : ∀ (index : Nat) (items : List Value),
    (itemLeaves index items).map Leaf.text = itemStrings items
  | _, [] => rfl
  | index, v :: rest => by
    rw [itemLeaves, itemStrings, List.map_append, List.map_map, text_itemLeaves (index + 1) rest,
      ← text_leaves v]
    rfl
termination_by structural _ items => items

theorem text_fieldLeaves : ∀ fields : Fields,
    (fieldLeaves fields).map Leaf.text = fieldStrings fields
  | [] => rfl
  | (k, v) :: rest => by
    rw [fieldLeaves, fieldStrings, List.map_append, List.map_map, text_fieldLeaves rest,
      ← text_leaves v]
    rfl
termination_by structural fields => fields

end

/-! ### Writing texts in the places of strings -/

mutual

/-- More texts than there are strings do no harm. -/
theorem fill_append : ∀ (v : Value) {texts : List String} (more : List String),
    v.leaves.length ≤ texts.length → v.fill (texts ++ more) = v.fill texts
  | .null, _, _, _ | .bool _, _, _, _ | .int _, _, _, _ | .float _, _, _, _ => rfl
  | .str _, _ :: _, _, _ => rfl
  | .arr items, _, more, enough => congrArg Value.arr (fillItems_append items 0 more enough)
  | .obj fields, _, more, enough => congrArg Value.obj (fillFields_append fields more enough)
termination_by structural v => v

theorem fillItems_append : ∀ (items : List Value) (index : Nat) {texts : List String}
    (more : List String), (itemLeaves index items).length ≤ texts.length →
    fillItems items (texts ++ more) = fillItems items texts
  | [], _, _, _, _ => rfl
  | v :: rest, index, texts, more, enough => by
    rw [itemLeaves, List.length_append, List.length_map] at enough
    have left : v.leaves.length ≤ texts.length := by omega
    have others : (itemLeaves (index + 1) rest).length ≤ (texts.drop v.leaves.length).length := by
      rw [List.length_drop]
      omega
    rw [fillItems, fillItems, fill_append v more left, List.drop_append_of_le_length left,
      fillItems_append rest (index + 1) more others]
termination_by structural items => items

theorem fillFields_append : ∀ (fields : Fields) {texts : List String} (more : List String),
    (fieldLeaves fields).length ≤ texts.length →
    fillFields fields (texts ++ more) = fillFields fields texts
  | [], _, _, _ => rfl
  | (k, v) :: rest, texts, more, enough => by
    rw [fieldLeaves, List.length_append, List.length_map] at enough
    have left : v.leaves.length ≤ texts.length := by omega
    have others : (fieldLeaves rest).length ≤ (texts.drop v.leaves.length).length := by
      rw [List.length_drop]
      omega
    rw [fillFields, fillFields, fill_append v more left, List.drop_append_of_le_length left,
      fillFields_append rest more others]
termination_by structural fields => fields

end

theorem fillItems_cons {v : Value} {texts : List String} (rest : List Value) (more : List String)
    (same : texts.length = v.leaves.length) :
    fillItems (v :: rest) (texts ++ more) = v.fill texts :: fillItems rest more := by
  rw [fillItems, fill_append v more (Nat.le_of_eq same.symm), ← same, List.drop_left]

theorem fillFields_cons {v : Value} {texts : List String} (key : String) (rest : Fields)
    (more : List String) (same : texts.length = v.leaves.length) :
    fillFields ((key, v) :: rest) (texts ++ more) =
      (key, v.fill texts) :: fillFields rest more := by
  rw [fillFields, fill_append v more (Nat.le_of_eq same.symm), ← same, List.drop_left]

/-! ### Visits in document order -/

section Visits

variable {m : Type → Type} [Monad m]

/-- What comes in the place of a text that is shown to the visitor. -/
def reply (visit : String → String → m (Option String)) (path text : String) : m String := do
  return (← visit path text).getD text

variable [LawfulMonad m] {visit : String → String → m (Option String)}

/-- What is done with the replies matters only for as many of them as there are visits. -/
theorem bind_mapM_congr {α β γ : Type} {f : α → m β} {xs : List α} {k k' : List β → m γ}
    (alike : ∀ ys, ys.length = xs.length → k ys = k' ys) : xs.mapM f >>= k = xs.mapM f >>= k' := by
  induction xs generalizing k k' with
  | nil => simp [alike]
  | cons x rest ih =>
    simp only [List.mapM_cons, bind_assoc, pure_bind]
    exact bind_congr fun y => ih fun ys same => alike (y :: ys) (by simp [same])

/-- One step further down the path grows by a segment. -/
theorem intercalate_step (path segment : String) (place : List String) :
    ".".intercalate ((path ++ "." ++ segment) :: place) =
      ".".intercalate (path :: segment :: place) := by
  rw [String.intercalate_cons_append, String.intercalate_cons_cons]

mutual

theorem mapStrings_eq : ∀ (v : Value) (path : String), v.mapStrings visit path = do
    let texts ← v.leaves.mapM fun leaf =>
      reply visit (".".intercalate (path :: leaf.place)) leaf.text
    pure (v.fill texts)
  | .null, _ | .bool _, _ | .int _, _ | .float _, _ => by
    simp [mapStrings, leaves, fill]
  | .str s, path => by
    simp only [mapStrings, leaves, fill, reply, List.mapM_cons, List.mapM_nil, bind_assoc,
      pure_bind, List.headD_cons, String.intercalate_singleton]
    refine bind_congr fun replaced => ?_
    cases replaced <;> rfl
  | .arr items, path => by
    rw [mapStrings, mapItemStrings_eq items path 0]
    simp only [leaves, fill, bind_assoc, pure_bind]
  | .obj fields, path => by
    rw [mapStrings, mapFieldStrings_eq fields (some path)]
    simp only [leaves, fill, bind_assoc, pure_bind, Option.toList_some, List.singleton_append]
termination_by structural v => v

theorem mapItemStrings_eq : ∀ (items : List Value) (path : String) (index : Nat),
    mapItemStrings visit path index items = do
      let texts ← (itemLeaves index items).mapM fun leaf =>
        reply visit (".".intercalate (path :: leaf.place)) leaf.text
      pure (fillItems items texts)
  | [], _, _ => by simp [mapItemStrings, itemLeaves, fillItems]
  | v :: rest, path, index => by
    simp only [mapItemStrings, itemLeaves, mapStrings_eq v, mapItemStrings_eq rest,
      List.mapM_append, List.mapM_map, intercalate_step, bind_assoc, pure_bind]
    refine bind_mapM_congr fun texts same => bind_congr fun more => ?_
    rw [fillItems_cons rest more same]
termination_by structural items => items

theorem mapFieldStrings_eq : ∀ (fields : Fields) (path : Option String),
    mapFieldStrings visit path fields = do
      let texts ← (fieldLeaves fields).mapM fun leaf =>
        reply visit (".".intercalate (path.toList ++ leaf.place)) leaf.text
      pure (fillFields fields texts)
  | [], _ => by simp [mapFieldStrings, fieldLeaves, fillFields]
  | (k, v) :: rest, path => by
    have here (place : List String) : ".".intercalate (path.toList ++ k :: place) =
        ".".intercalate ((match path with | some p => p ++ "." ++ k | none => k) :: place) := by
      cases path with
      | none => rfl
      | some path => exact (intercalate_step path k place).symm
    simp only [mapFieldStrings, fieldLeaves, mapStrings_eq v, mapFieldStrings_eq rest,
      List.mapM_append, List.mapM_map, Function.comp_def, here, Leaf.under, bind_assoc, pure_bind]
    refine bind_mapM_congr fun texts same => bind_congr fun more => ?_
    rw [fillFields_cons k rest more same]
termination_by structural fields => fields

end

end Visits

/-! ### Rewriting -/

section Rewriting

variable {R : String → String → Prop}

/-- Texts that are related to those of the strings, one by one. -/
def Related (R : String → String → Prop) : List Leaf → List String → Prop :=
  List.Forall₂ fun leaf text => R leaf.text text

theorem related_under {segment : String} {leaves : List Leaf} {texts : List String} :
    Related R (leaves.map (.under segment)) texts ↔ Related R leaves texts :=
  List.forall₂_map_left_iff

mutual

/-- A value is rewritten by writing related texts in the places of its strings. -/
theorem rewritten_iff : ∀ {v w : Value}, Rewritten R v w ↔
    ∃ texts, Related R v.leaves texts ∧ w = v.fill texts
  | .null, w | .bool _, w | .int _, w | .float _, w => by
    constructor
    · rintro ⟨⟩
      exact ⟨[], .nil, rfl⟩
    · rintro ⟨texts, -, rfl⟩
      constructor
  | .str s, w => by
    simp only [Related, leaves, List.forall₂_cons_left_iff, List.forall₂_nil_left_iff]
    constructor
    · rintro ⟨⟩
      next t related => exact ⟨[t], ⟨t, [], related, rfl, rfl⟩, rfl⟩
    · rintro ⟨_, ⟨t, _, related, rfl, rfl⟩, rfl⟩
      exact .str related
  | .arr items, w => by
    constructor
    · rintro ⟨⟩
      next items' rewritten =>
        obtain ⟨texts, related, rfl⟩ := (rewrittenItems_iff 0).1 rewritten
        exact ⟨texts, related, rfl⟩
    · rintro ⟨texts, related, rfl⟩
      exact .arr ((rewrittenItems_iff 0).2 ⟨texts, related, rfl⟩)
  | .obj fields, w => by
    constructor
    · rintro ⟨⟩
      next fields' rewritten =>
        obtain ⟨texts, related, rfl⟩ := rewrittenFields_iff.1 rewritten
        exact ⟨texts, related, rfl⟩
    · rintro ⟨texts, related, rfl⟩
      exact .obj (rewrittenFields_iff.2 ⟨texts, related, rfl⟩)
termination_by structural v => v

theorem rewrittenItems_iff : ∀ {items items' : List Value} (index : Nat),
    List.Forall₂ (Rewritten R) items items' ↔
      ∃ texts, Related R (itemLeaves index items) texts ∧ items' = fillItems items texts
  | [], items', _ => by simp [fillItems, itemLeaves, Related]
  | v :: rest, items', index => by
    constructor
    · intro rewritten
      obtain ⟨w, rest', first, others, rfl⟩ := List.forall₂_cons_left_iff.1 rewritten
      obtain ⟨texts, related, rfl⟩ := rewritten_iff.1 first
      obtain ⟨more, related', rfl⟩ := (rewrittenItems_iff (index + 1)).1 others
      refine ⟨texts ++ more, List.rel_append (related_under.2 related) related', ?_⟩
      rw [fillItems_cons rest more related.length_eq.symm]
    · rintro ⟨_, related, rfl⟩
      obtain ⟨texts, more, rfl, here, later⟩ := forall₂_append_left.1 related
      have here := related_under.1 here
      rw [fillItems_cons rest more here.length_eq.symm]
      exact .cons (rewritten_iff.2 ⟨texts, here, rfl⟩)
        ((rewrittenItems_iff (index + 1)).2 ⟨more, later, rfl⟩)
termination_by structural items => items

theorem rewrittenFields_iff : ∀ {fields fields' : Fields},
    List.Forall₂ (Named (Rewritten R)) fields fields' ↔
      ∃ texts, Related R (fieldLeaves fields) texts ∧ fields' = fillFields fields texts
  | [], fields' => by simp [fillFields, fieldLeaves, Related]
  | (k, v) :: rest, fields' => by
    constructor
    · intro rewritten
      obtain ⟨_, rest', ⟨_, first⟩, others, rfl⟩ := List.forall₂_cons_left_iff.1 rewritten
      obtain ⟨texts, related, rfl⟩ := rewritten_iff.1 first
      obtain ⟨more, related', rfl⟩ := rewrittenFields_iff.1 others
      refine ⟨texts ++ more, List.rel_append (related_under.2 related) related', ?_⟩
      rw [fillFields_cons k rest more related.length_eq.symm]
    · rintro ⟨_, related, rfl⟩
      obtain ⟨texts, more, rfl, here, later⟩ := forall₂_append_left.1 related
      have here := related_under.1 here
      rw [fillFields_cons k rest more here.length_eq.symm]
      exact .cons (.mk k (rewritten_iff.2 ⟨texts, here, rfl⟩))
        (rewrittenFields_iff.2 ⟨more, later, rfl⟩)
termination_by structural fields => fields

end

mutual

/-- The strings of a rewritten value are related to those of the value, one by one. -/
theorem Rewritten.strings : ∀ {v w : Value}, Rewritten R v w → List.Forall₂ R v.strings w.strings
  | _, _, .null | _, _, .bool _ | _, _, .int _ | _, _, .float _ => .nil
  | _, _, .str related => .cons related .nil
  | .arr _, _, .arr items => rewrittenItems_strings items
  | .obj _, _, .obj fields => rewrittenFields_strings fields
termination_by structural v => v

theorem rewrittenItems_strings : ∀ {as bs : List Value}, List.Forall₂ (Rewritten R) as bs →
    List.Forall₂ R (itemStrings as) (itemStrings bs)
  | [], _, .nil => .nil
  | _ :: _, _, .cons first rest => List.rel_append first.strings (rewrittenItems_strings rest)
termination_by structural items => items

theorem rewrittenFields_strings : ∀ {as bs : Fields},
    List.Forall₂ (Named (Rewritten R)) as bs → List.Forall₂ R (fieldStrings as) (fieldStrings bs)
  | [], _, .nil => .nil
  | (_, _) :: _, _, .cons (.mk _ first) rest =>
    List.rel_append first.strings (rewrittenFields_strings rest)
termination_by structural fields => fields

end

mutual

/-- A value each of whose strings has made place for itself is the same value. -/
theorem eq_of_rewritten : ∀ {v w : Value},
    Rewritten (fun text text' => text' = text) v w → w = v
  | _, _, .null | _, _, .bool _ | _, _, .int _ | _, _, .float _ => rfl
  | _, _, .str same => congrArg Value.str same
  | .arr _, _, .arr items => congrArg Value.arr (eq_of_rewrittenItems items)
  | .obj _, _, .obj fields => congrArg Value.obj (eq_of_rewrittenFields fields)
termination_by structural v => v

theorem eq_of_rewrittenItems : ∀ {as bs : List Value},
    List.Forall₂ (Rewritten fun text text' => text' = text) as bs → bs = as
  | [], _, .nil => rfl
  | _ :: _, _, .cons first rest => by rw [eq_of_rewritten first, eq_of_rewrittenItems rest]
termination_by structural items => items

theorem eq_of_rewrittenFields : ∀ {as bs : Fields},
    List.Forall₂ (Named (Rewritten fun text text' => text' = text)) as bs → bs = as
  | [], _, .nil => rfl
  | (_, _) :: _, _, .cons (.mk _ first) rest => by
    rw [eq_of_rewritten first, eq_of_rewrittenFields rest]
termination_by structural fields => fields

end

end Rewriting

/-! ### Order -/

theorem names_fillFields (fields : Fields) (texts : List String) :
    Fields.names (fillFields fields texts) = Fields.names fields := by
  induction fields generalizing texts with
  | nil => rfl
  | cons field rest ih => exact congrArg (field.1 :: ·) (ih _)

theorem sorted_fillFields {fields : Fields} (sorted : Fields.Sorted fields) (texts : List String) :
    Fields.Sorted (fillFields fields texts) := by
  have names : (Fields.names (fillFields fields texts)).Pairwise (· < ·) := by
    rw [names_fillFields]
    exact List.pairwise_map.2 sorted
  exact List.pairwise_map.1 names

mutual

/-- Fields stay in order when the places of strings are filled. -/
theorem Ordered.fill : ∀ {v : Value} (texts : List String), v.Ordered → (v.fill texts).Ordered
  | .null, _, _ | .bool _, _, _ | .int _, _, _ | .float _, _, _ | .str _, _, _ => trivial
  | .arr _, texts, ordered => OrderedItems.fill texts ordered
  | .obj _, texts, ordered =>
    ⟨sorted_fillFields ordered.1 texts, OrderedFields.fill texts ordered.2⟩
termination_by structural v => v

theorem OrderedItems.fill : ∀ {items : List Value} (texts : List String), OrderedItems items →
    OrderedItems (fillItems items texts)
  | [], _, _ => trivial
  | _ :: _, texts, ordered => ⟨ordered.1.fill texts, OrderedItems.fill _ ordered.2⟩
termination_by structural items => items

theorem OrderedFields.fill : ∀ {fields : Fields} (texts : List String), OrderedFields fields →
    OrderedFields (fillFields fields texts)
  | [], _, _ => trivial
  | (_, _) :: _, texts, ordered => ⟨ordered.1.fill texts, OrderedFields.fill _ ordered.2⟩
termination_by structural fields => fields

end

end Value

/-! ### Trees -/

namespace Tree

open Value (reply Related)

/-- The strings in a tree, in document order. -/
def leaves (t : Tree) : List Leaf := Value.fieldLeaves t.root

/-- The tree with other texts in place of its strings, in document order. -/
def fill (t : Tree) (texts : List String) : Tree :=
  ⟨Value.fillFields t.root texts, Value.Ordered.fill texts t.ordered⟩

/-- The second tree is the first one but for its strings, each of which has made place for a related
one. -/
def Rewritten (R : String → String → Prop) (t t' : Tree) : Prop :=
  Value.Rewritten R t.toValue t'.toValue

variable {R : String → String → Prop} {t t' : Tree}

theorem rewritten_iff :
    t.Rewritten R t' ↔ ∃ texts, Related R t.leaves texts ∧ t' = t.fill texts := by
  have same (texts : List String) : t'.toValue = t.toValue.fill texts ↔ t' = t.fill texts :=
    ⟨fun same => toValue_injective same, congrArg toValue⟩
  simp only [Rewritten, Value.rewritten_iff, same]
  rfl

theorem Rewritten.imp {S : String → String → Prop} (rewritten : t.Rewritten R t')
    (weaker : ∀ text text', R text text' → S text text') : t.Rewritten S t' := by
  obtain ⟨texts, related, filled⟩ := rewritten_iff.1 rewritten
  refine rewritten_iff.2 ⟨texts, ?_, filled⟩
  rw [Related] at related ⊢
  exact related.imp fun (leaf : Leaf) text => weaker leaf.text text

/-- A tree can be rewritten if each of its strings can be. -/
theorem exists_rewritten_iff :
    (∃ t', t.Rewritten R t') ↔ ∀ leaf ∈ t.leaves, ∃ text, R leaf.text text := by
  rw [← exists_forall₂_iff]
  constructor
  · rintro ⟨t', rewritten⟩
    obtain ⟨texts, related, -⟩ := rewritten_iff.1 rewritten
    exact ⟨texts, related⟩
  · rintro ⟨texts, related⟩
    exact ⟨t.fill texts, rewritten_iff.2 ⟨texts, related, rfl⟩⟩

section Visits

variable {m : Type → Type} [Monad m] [LawfulMonad m]

/-- Visiting the strings of a tree: the replies are written in their places. -/
theorem mapStrings_eq (visit : String → String → m (Option String)) (t : Tree) :
    t.mapStrings visit = t.fill <$> t.leaves.mapM fun leaf => reply visit leaf.path leaf.text := by
  have filled (texts : List String) : ofFields (Value.fillFields t.root texts) = t.fill texts :=
    ofFields_of_ordered (t.fill texts).ordered
  rw [mapStrings, Value.mapFieldStrings_eq t.root none, map_eq_pure_bind, bind_assoc]
  simp only [pure_bind, filled]
  rfl

theorem mapStrings_of_replies {visit : String → String → m (Option String)} (texts : List String)
    (replies : (t.leaves.mapM fun leaf => reply visit leaf.path leaf.text) = pure texts) :
    t.mapStrings visit = pure (t.fill texts) := by
  rw [mapStrings_eq, replies, map_pure]

/-- Visitors who treat the strings of a tree alike treat the tree alike. -/
theorem mapStrings_congr {visit visit' : String → String → m (Option String)} (t : Tree)
    (alike : ∀ text ∈ t.toValue.strings, ∀ path, visit path text = visit' path text) :
    t.mapStrings visit = t.mapStrings visit' := by
  have same : ∀ leaves : List Leaf, (∀ leaf ∈ leaves, leaf.text ∈ t.toValue.strings) →
      (leaves.mapM fun leaf => reply visit leaf.path leaf.text) =
        leaves.mapM fun leaf => reply visit' leaf.path leaf.text := by
    intro leaves among
    induction leaves with
    | nil => rfl
    | cons leaf rest ih =>
      obtain ⟨here, later⟩ := List.forall_mem_cons.1 among
      rw [List.mapM_cons, List.mapM_cons, ih later, reply, reply, alike leaf.text here]
  rw [mapStrings_eq, mapStrings_eq, same]
  intro leaf member
  rw [← Value.text_leaves]
  exact List.mem_map_of_mem member

end Visits

/-- A visitor who just answers rewrites the tree. -/
theorem rewritten_mapStrings (answer : String → Option String) (t : Tree) :
    t.Rewritten (fun text text' => text' = (answer text).getD text)
      (t.mapStrings fun _ text => (pure (answer text) : Id (Option String))) := by
  rw [mapStrings_eq, rewritten_iff]
  refine ⟨t.leaves.map fun leaf => (answer leaf.text).getD leaf.text, ?_, ?_⟩
  · rw [Related, List.forall₂_map_right_iff]
    exact List.forall₂_same.2 fun _ _ => rfl
  · simp only [reply, pure_bind, List.mapM_pure, map_pure]
    rfl

/-- A visitor who never answers leaves the tree as it is. -/
theorem mapStrings_none (t : Tree) :
    t.mapStrings (fun _ _ => (pure none : Id (Option String))) = t :=
  toValue_injective (Value.eq_of_rewritten (rewritten_mapStrings (fun _ => none) t))

variable {visit : String → String → Except ConfigError (Option String)} {e : ConfigError}

/-- A visitor who fails nowhere, and does not care for paths, rewrites the tree. -/
theorem mapStrings_eq_ok_iff (gives : ∀ path text text',
    reply visit path text = .ok text' ↔ R text text') :
    t.mapStrings visit = .ok t' ↔ t.Rewritten R t' := by
  have written (texts : List String) :
      (t.leaves.mapM fun leaf => reply visit leaf.path leaf.text) = .ok texts ↔
        Related R t.leaves texts := by
    simp only [mapM_eq_ok_iff, gives, Related]
  rw [rewritten_iff, mapStrings_eq, map_eq_ok_iff]
  simp only [written, eq_comm]

/-- The first failure of a visitor in document order is that of the whole visit. -/
theorem mapStrings_eq_error_iff : t.mapStrings visit = .error e ↔
    ∃ before leaf after, t.leaves = before ++ leaf :: after ∧
      (∀ b ∈ before, ∃ text, reply visit b.path b.text = .ok text) ∧
      reply visit leaf.path leaf.text = .error e := by
  rw [mapStrings_eq, map_eq_error_iff, mapM_eq_error_iff]

end Tree
end LayeredConfig
