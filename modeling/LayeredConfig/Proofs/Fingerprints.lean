import LayeredConfig.Files.Document
import LayeredConfig.Proofs.Equality
import LayeredConfig.Proofs.Live.Effects
import LayeredConfig.Proofs.Routes
import Mathlib
/-!
# Fingerprints of equal trees

A refresh compares trees as values, and what is shown of a tree is its text, from which the
fingerprint is taken. The two do not agree quite: the two zeros are equal as numbers, but one of
them is written with a sign. So a tree can take the place of an equal one in a document and have
another fingerprint, and the refresh does not take it for a change:
`opposite_zeros_pass_for_unchanged`.

Nothing else gets lost. Trees that are taken for equal have the same text exactly if they have the
same zeros at the same places, signs included: `equal_up_to_signs_of_zeros`. Both sides of that say
that the trees are one and the same. From the texts this is read off from left to right, with
whatever stands behind the value left open; from the zeros, part by part.
Of the laws of floating-point numbers the ones about `==` are those of Batteries, which come only
with the whole of Mathlib.
-/
namespace LayeredConfig

/-! ### Numbers -/

/-- Numbers that nothing tells apart are the same but for the sign of zero. -/
theorem Interchangeable.eq_or_zeros {x y : Float} (same : Interchangeable x y) :
    x = y ∨ x = 0 ∧ y = -0 ∨ x = -0 ∧ y = 0 := by
  by_cases number : x = .nan
  · -- what is not a number does not equal itself
    have other : (y == y) = false := by rw [← same y, number, Float.nan_beq_eq_false]
    exact .inl (number.trans (Float.beq_self_eq_false_iff.1 other).symm)
  · have itself : (x == x) = true := Float.beq_self_iff.2 number
    have equal : (y == x) = true := (same x).symm.trans itself
    obtain ⟨-, -, equal⟩ := Float.beq_iff_ne_nan_and_eq.1 equal
    rcases equal with equal | ⟨first, second⟩ | ⟨first, second⟩
    · exact .inl equal.symm
    · exact .inr (.inr ⟨second, first⟩)
    · exact .inr (.inl ⟨second, first⟩)

namespace Decimal

theorem text_zero : text 0 = "0.0" := by decide +kernel

theorem text_negative_zero : text (-0) = "-0.0" := by decide +kernel

/-- Texts that begin with those of two numbers tell the two zeros apart. -/
theorem eq_of_text_append {x y : Float} (same : Interchangeable x y) {more more' : List Char}
    (texts : (text x).toList ++ more = (text y).toList ++ more') : x = y ∧ more = more' := by
  rcases same.eq_or_zeros with rfl | ⟨rfl, rfl⟩ | ⟨rfl, rfl⟩
  · exact ⟨rfl, List.append_cancel_left texts⟩
  · rw [text_zero, text_negative_zero] at texts
    cases (List.cons.inj texts).1
  · rw [text_zero, text_negative_zero] at texts
    cases (List.cons.inj texts).1

end Decimal

/-! ### Texts -/

namespace Value

open Json (pieces itemPieces fieldPieces writeScalar)

mutual

/-- Values that are alike are the same if texts begin with theirs, and what follows is the same. -/
theorem Alike.eq_of_pieces : ∀ {v w : Value}, Alike v w → ∀ more more' : List Char,
    (pieces v).flatMap String.toList ++ more = (pieces w).flatMap String.toList ++ more' →
    v = w ∧ more = more'
  | .null, _, .null | .bool _, _, .bool _ | .int _, _, .int _ | .str _, _, .str _ =>
    fun _ _ texts => ⟨rfl, List.append_cancel_left texts⟩
  | .float _, _, .float same => by
    intro more more' texts
    simp only [pieces, writeScalar, List.flatMap_singleton] at texts
    obtain ⟨rfl, rfl⟩ := Decimal.eq_of_text_append same texts
    exact ⟨rfl, rfl⟩
  | .arr _, _, .arr items => by
    intro more more' texts
    simp only [pieces, List.cons_append, List.flatMap_cons, List.flatMap_append,
      List.append_assoc] at texts
    obtain ⟨rfl, behind⟩ := eq_of_itemPieces items _ _ (List.append_cancel_left texts)
    exact ⟨rfl, List.append_cancel_left behind⟩
  | .obj _, _, .obj fields => by
    intro more more' texts
    simp only [pieces, List.cons_append, List.flatMap_cons, List.flatMap_append,
      List.append_assoc] at texts
    obtain ⟨rfl, behind⟩ := eq_of_fieldPieces fields _ _ (List.append_cancel_left texts)
    exact ⟨rfl, List.append_cancel_left behind⟩
termination_by structural v => v

theorem eq_of_itemPieces : ∀ {as bs : List Value}, List.Forall₂ Alike as bs →
    ∀ more more' : List Char,
    (itemPieces as).flatMap String.toList ++ more = (itemPieces bs).flatMap String.toList ++ more' →
    as = bs ∧ more = more'
  | [], _, .nil => fun _ _ texts => ⟨rfl, texts⟩
  | _ :: as, _ :: bs, .cons first rest => by
    intro more more' texts
    -- a comma follows on both sides or on neither
    have last : as.isEmpty = bs.isEmpty := by
      cases rest <;> rfl
    simp only [itemPieces, List.flatMap_append, List.append_assoc, last] at texts
    obtain ⟨rfl, behind⟩ := first.eq_of_pieces _ _ texts
    obtain ⟨rfl, behind'⟩ := eq_of_itemPieces rest _ _ (List.append_cancel_left behind)
    exact ⟨rfl, behind'⟩
termination_by structural items => items

theorem eq_of_fieldPieces : ∀ {as bs : Fields}, List.Forall₂ (Named Alike) as bs →
    ∀ more more' : List Char,
    (fieldPieces as).flatMap String.toList ++ more =
      (fieldPieces bs).flatMap String.toList ++ more' →
    as = bs ∧ more = more'
  | [], _, .nil => fun _ _ texts => ⟨rfl, texts⟩
  | (_, _) :: as, _ :: bs, .cons (.mk _ first) rest => by
    intro more more' texts
    have last : as.isEmpty = bs.isEmpty := by
      cases rest <;> rfl
    simp only [fieldPieces, List.cons_append, List.flatMap_cons, List.flatMap_append,
      List.append_assoc, last] at texts
    -- the names are the same, and so are the colons
    obtain ⟨rfl, behind⟩ :=
      first.eq_of_pieces _ _ (List.append_cancel_left (List.append_cancel_left texts))
    obtain ⟨rfl, behind'⟩ := eq_of_fieldPieces rest _ _ (List.append_cancel_left behind)
    exact ⟨rfl, behind'⟩
termination_by structural fields => fields

end

theorem Alike.eq_of_write {v w : Value} (alike : Alike v w) (same : Json.write v = Json.write w) :
    v = w := by
  have texts := congrArg String.toList same
  rw [Json.write, Json.write, String.toList_join, String.toList_join] at texts
  exact (alike.eq_of_pieces [] [] (congrArg (· ++ []) texts)).1

end Value

/-! ### Zeros -/

/-- The parts stand at the same place and are alike. -/
structure Part.Alike (p q : Part) : Prop where
  route : p.route = q.route
  value : p.value.Alike q.value

theorem Part.Alike.under {p q : Part} (alike : p.Alike q) (b : Branch) :
    (p.under b).Alike (q.under b) :=
  ⟨congrArg (b :: ·) alike.route, alike.value⟩

theorem Part.under_injective (b : Branch) : Function.Injective (Part.under b) := by
  rintro ⟨route, value⟩ ⟨route', value'⟩ same
  obtain ⟨same, rfl⟩ := Part.mk.inj same
  obtain ⟨-, rfl⟩ := List.cons.inj same
  rfl

namespace Value

mutual

/-- Values that are alike have parts that are alike, at the same places. -/
theorem Alike.parts : ∀ {v w : Value}, Alike v w → List.Forall₂ Part.Alike v.parts w.parts
  | _, _, .null => .cons ⟨rfl, .null⟩ .nil
  | _, _, .bool b => .cons ⟨rfl, .bool b⟩ .nil
  | _, _, .int i => .cons ⟨rfl, .int i⟩ .nil
  | _, _, .float same => .cons ⟨rfl, .float same⟩ .nil
  | _, _, .str s => .cons ⟨rfl, .str s⟩ .nil
  | .arr _, _, .arr items => .cons ⟨rfl, .arr items⟩ (itemParts_alike items 0)
  | .obj _, _, .obj fields => .cons ⟨rfl, .obj fields⟩ (fieldParts_alike fields)
termination_by structural v => v

theorem itemParts_alike : ∀ {as bs : List Value}, List.Forall₂ Alike as bs → ∀ index : Nat,
    List.Forall₂ Part.Alike (itemParts index as) (itemParts index bs)
  | [], _, .nil, _ => .nil
  | _ :: _, _, .cons first rest, index =>
    List.rel_append (List.rel_map (fun _ _ alike => alike.under (.index index)) first.parts)
      (itemParts_alike rest (index + 1))
termination_by structural items => items

theorem fieldParts_alike : ∀ {as bs : Fields}, List.Forall₂ (Named Alike) as bs →
    List.Forall₂ Part.Alike (fieldParts as) (fieldParts bs)
  | [], _, .nil => .nil
  | (_, _) :: _, _, .cons (.mk k first) rest =>
    List.rel_append (List.rel_map (fun _ _ alike => alike.under (.key k)) first.parts)
      (fieldParts_alike rest)
termination_by structural fields => fields

end

/-- The value is one of the two zeros. -/
def isZero (v : Value) : Bool := v == .float 0

/-- The zeros in a value with the routes to them, in document order. They have signs. -/
def zeros (v : Value) : List Part := v.parts.filter fun part => part.value.isZero

/-- The zeros in the items of an array from an index on. -/
def itemZeros (index : Nat) (items : List Value) : List Part :=
  (itemParts index items).filter fun part => part.value.isZero

/-- The zeros in the fields of an object. -/
def fieldZeros (fields : Fields) : List Part :=
  (fieldParts fields).filter fun part => part.value.isZero

variable {v w : Value}

theorem itemZeros_cons (index : Nat) (v : Value) (rest : List Value) :
    itemZeros index (v :: rest) =
      v.zeros.map (.under (.index index)) ++ itemZeros (index + 1) rest :=
  filter_itemParts isZero index v rest

theorem fieldZeros_cons (name : String) (v : Value) (rest : Fields) :
    fieldZeros ((name, v) :: rest) = v.zeros.map (.under (.key name)) ++ fieldZeros rest :=
  filter_fieldParts isZero name v rest

theorem isZero_zero : (Value.float 0).isZero = true := by decide +kernel

theorem isZero_negative_zero : (Value.float (-0)).isZero = true := by decide +kernel

theorem eq_float_of_isZero (zero : v.isZero = true) : v = .float 0 ∨ v = .float (-0) := by
  cases v with
  | float x =>
    obtain ⟨-, -, equal⟩ := Float.beq_iff_ne_nan_and_eq.1 zero
    rcases equal with rfl | ⟨rfl, -⟩ | ⟨rfl, -⟩
    · exact .inl rfl
    · exact .inl rfl
    · exact .inr rfl
  | _ => cases zero

theorem zeros_float {x : Float} (zero : (Value.float x).isZero = true) :
    (Value.float x).zeros = [⟨[], .float x⟩] :=
  List.filter_cons_of_pos zero

theorem Alike.isZero_eq (alike : Alike v w) : v.isZero = w.isZero :=
  alike.interchangeable (.float 0)

/-- The zeros of values that are alike stand at the same places. -/
theorem Alike.zeros (alike : Alike v w) : List.Forall₂ Part.Alike v.zeros w.zeros :=
  List.rel_filter (fun _ _ alike => iff_of_eq (congrArg (· = true) alike.value.isZero_eq))
    alike.parts

/-- Where two lists begin with the zeros of values that are alike, these are the same if the lists
are. -/
theorem Alike.zeros_eq_of_append (alike : Alike v w) {b : Branch} {more more' : List Part}
    (agree : v.zeros.map (.under b) ++ more = w.zeros.map (.under b) ++ more') :
    v.zeros = w.zeros ∧ more = more' := by
  have count : (v.zeros.map (Part.under b)).length = (w.zeros.map (Part.under b)).length := by
    rw [List.length_map, List.length_map, alike.zeros.length_eq]
  obtain ⟨here, later⟩ := List.append_inj agree count
  exact ⟨List.map_injective_iff.2 (Part.under_injective b) here, later⟩

mutual

/-- Values that are alike and have the same zeros, signs included, are the same. -/
theorem Alike.eq_of_zeros : ∀ {v w : Value}, Alike v w → v.zeros = w.zeros → v = w
  | _, _, .null, _ | _, _, .bool _, _ | _, _, .int _, _ | _, _, .str _, _ => rfl
  | .float _, _, .float same, agree => by
    rcases same.eq_or_zeros with rfl | ⟨rfl, rfl⟩ | ⟨rfl, rfl⟩
    · rfl
    · rw [zeros_float isZero_zero, zeros_float isZero_negative_zero] at agree
      exact (Part.mk.inj (List.cons.inj agree).1).2
    · rw [zeros_float isZero_zero, zeros_float isZero_negative_zero] at agree
      exact (Part.mk.inj (List.cons.inj agree).1).2
  | .arr _, _, .arr items, agree => congrArg Value.arr (eq_of_itemZeros items 0 agree)
  | .obj _, _, .obj fields, agree => congrArg Value.obj (eq_of_fieldZeros fields agree)
termination_by structural v => v

theorem eq_of_itemZeros : ∀ {as bs : List Value}, List.Forall₂ Alike as bs → ∀ index : Nat,
    itemZeros index as = itemZeros index bs → as = bs
  | [], _, .nil, _, _ => rfl
  | _ :: _, _, .cons first rest, index, agree => by
    rw [itemZeros_cons, itemZeros_cons] at agree
    obtain ⟨here, later⟩ := first.zeros_eq_of_append agree
    rw [first.eq_of_zeros here, eq_of_itemZeros rest (index + 1) later]
termination_by structural items => items

theorem eq_of_fieldZeros : ∀ {as bs : Fields}, List.Forall₂ (Named Alike) as bs →
    fieldZeros as = fieldZeros bs → as = bs
  | [], _, .nil, _ => rfl
  | (_, _) :: _, _, .cons (.mk k first) rest, agree => by
    rw [fieldZeros_cons, fieldZeros_cons] at agree
    obtain ⟨here, later⟩ := first.zeros_eq_of_append agree
    rw [first.eq_of_zeros here, eq_of_fieldZeros rest later]
termination_by structural fields => fields

end

end Value

/-! ### Trees -/

namespace Tree

def zeros (t : Tree) : List Part := t.toValue.zeros

/-- At the end of the route one tree has the one zero and the other tree has the other one. -/
def OppositeZeros (t u : Tree) (route : Route) : Prop :=
  ⟨route, .float 0⟩ ∈ t.zeros ∧ ⟨route, .float (-0)⟩ ∈ u.zeros ∨
    ⟨route, .float (-0)⟩ ∈ t.zeros ∧ ⟨route, .float 0⟩ ∈ u.zeros

variable {t u : Tree}

theorem display_eq_iff (alike : t.toValue.Alike u.toValue) : t.display = u.display ↔ t = u :=
  ⟨fun same => toValue_injective (alike.eq_of_write same), congrArg display⟩

theorem zeros_eq_iff (alike : t.toValue.Alike u.toValue) : t.zeros = u.zeros ↔ t = u :=
  ⟨fun agree => toValue_injective (alike.eq_of_zeros agree), congrArg zeros⟩

theorem isZero_of_mem_zeros {part : Part} (member : part ∈ t.zeros) : part.value.isZero = true :=
  (List.mem_filter.1 member).2

/-- If the zeros differ, then at some place they do. -/
theorem exists_oppositeZeros (alike : t.toValue.Alike u.toValue) (differ : t.zeros ≠ u.zeros) :
    ∃ route, t.OppositeZeros u route := by
  by_contra nowhere
  obtain ⟨count, pairs⟩ := List.forall₂_iff_zip.1 alike.zeros
  have agree : List.Forall₂ (· = ·) t.zeros u.zeros := by
    refine List.forall₂_iff_zip.2 ⟨count, fun {p q} pair => ?_⟩
    obtain ⟨here, there⟩ := List.of_mem_zip pair
    obtain ⟨route, value⟩ := p
    obtain ⟨route', value'⟩ := q
    obtain rfl : route = route' := (pairs pair).route
    rcases Value.eq_float_of_isZero (isZero_of_mem_zeros here) with rfl | rfl <;>
      rcases Value.eq_float_of_isZero (isZero_of_mem_zeros there) with rfl | rfl
    · rfl
    · exact absurd ⟨route, .inl ⟨here, there⟩⟩ nowhere
    · exact absurd ⟨route, .inr ⟨here, there⟩⟩ nowhere
    · rfl
  rw [List.forall₂_eq_eq_eq] at agree
  exact differ agree

/-- Trees that are taken for equal have the same text exactly if they have the same zeros, signs
included, and then they have the same fingerprint. If the fingerprints differ, then at some place
the signs of two zeros do. -/
theorem equal_up_to_signs_of_zeros (same : (t == u) = true) :
    (t.display = u.display ↔ t.zeros = u.zeros) ∧
      (t.zeros = u.zeros → t.fingerprint = u.fingerprint) ∧
      (t.fingerprint ≠ u.fingerprint → ∃ route, t.OppositeZeros u route) := by
  have alike := alike_of_same same
  have identical : t.zeros = u.zeros → t.fingerprint = u.fingerprint := fun agree =>
    congrArg fingerprint ((zeros_eq_iff alike).1 agree)
  refine ⟨(display_eq_iff alike).trans (zeros_eq_iff alike).symm, identical, fun differ => ?_⟩
  exact exists_oppositeZeros alike fun agree => differ (identical agree)

/-- Two lists of numbers, each with a zero at its end. -/
theorem equal_up_to_signs_of_zeros_lists :
    let t : Tree := { root := [("limits", .arr [.float 0.5, .float 0])] }
    let u : Tree := { root := [("limits", .arr [.float 0.5, .float (-0)])] }
    (t == u) = true ∧ t.fingerprint ≠ u.fingerprint ∧ t.zeros ≠ u.zeros ∧
      ∃ route, t.OppositeZeros u route := by
  intro t u
  have same : (t == u) = true := by decide +kernel
  have differ : t.fingerprint ≠ u.fingerprint := by decide +kernel
  obtain ⟨-, identical, opposite⟩ := equal_up_to_signs_of_zeros same
  exact ⟨same, differ, fun agree => differ (identical agree), opposite differ⟩

/-- Two documents with opposite zeros: the trees are equal, and no refresh takes the one for a
change of the other, but their texts differ, and so do their fingerprints. -/
theorem opposite_zeros_pass_for_unchanged :
    ∃ t u : Tree,
      ofDocument "json" "\x7b\"scale\":0.0\x7d" "app.json" = .ok t ∧
      ofDocument "json" "\x7b\"scale\":-0.0\x7d" "app.json" = .ok u ∧
      (t == u) = true ∧ t.display ≠ u.display ∧ t.fingerprint ≠ u.fingerprint ∧
      ∀ (plan : Live.Plan Unit) (fuel : Nat) (w : Live.World Unit), w.config.closed = false →
        w.config.current = some t → (Live.publish plan fuel u).run.run w = (.ok (.ok u), w) := by
  have apart : ((ofDocument "json" "\x7b\"scale\":0.0\x7d" "app.json").bind fun t =>
      (ofDocument "json" "\x7b\"scale\":-0.0\x7d" "app.json").map fun u =>
        t == u && t.display != u.display && t.fingerprint != u.fingerprint).toOption =
      some true := by decide +kernel
  cases first : ofDocument "json" "\x7b\"scale\":0.0\x7d" "app.json" with
  | error e =>
    rw [first] at apart
    cases apart
  | ok t =>
    cases second : ofDocument "json" "\x7b\"scale\":-0.0\x7d" "app.json" with
    | error e =>
      rw [first, second] at apart
      cases apart
    | ok u =>
      rw [first, second] at apart
      have apart := Option.some.inj apart
      rw [Bool.and_eq_true, Bool.and_eq_true, bne_iff_ne, bne_iff_ne] at apart
      obtain ⟨⟨same, texts⟩, fingerprints⟩ := apart
      refine ⟨t, u, rfl, rfl, same, texts, fingerprints, fun plan fuel w opened current => ?_⟩
      exact Live.run_publish_of_same plan fuel opened (by rw [current]; exact same)

end Tree
end LayeredConfig
