import LayeredConfig.Proofs.LastWriter
import LayeredConfig.Proofs.Texts
import LayeredConfig.Tree.Path
/-!
# Routes through a value

A route leads from a value to one of its parts. It goes down one branch after the other: to a field
of an object by its name, or to an item of an array by its index. The parts of a value are listed in
document order, so that what stands in the text of a document first comes first: a value before its
parts, fields in the order of their names, items by index.

Main statements: `mem_parts_iff`, which says that the list has exactly the parts to which a route
leads, and `inDocumentOrder_parts`, which says that it is in document order.
-/
namespace LayeredConfig

/-- From a value to a field of it or to an item of it. -/
inductive Branch where
  | key (name : String)
  | index (i : Nat)
  deriving DecidableEq, Repr

abbrev Route := List Branch

namespace Branch

/-- How a branch is written in a path. -/
def segment : Branch → String
  | .key name => name
  | .index i => toString i

/-- Fields stand in the order of the bytes of their names, items in that of their indices. -/
inductive Before : Branch → Branch → Prop where
  | key {a b : String} (less : Text.bytes a < Text.bytes b) : Before (.key a) (.key b)
  | index {i j : Nat} (less : i < j) : Before (.index i) (.index j)

theorem Before.ne {b b' : Branch} (before : b.Before b') : b ≠ b' := by
  rintro rfl
  cases before with
  | key less => exact List.lt_irrefl _ less
  | index less => exact Nat.lt_irrefl _ less

end Branch

/-- Document order: a value comes before its parts, and what differs first decides. -/
def Route.Before : Route → Route → Prop := List.Lex Branch.Before

theorem Route.Before.ne {route route' : Route} (before : route.Before route') : route ≠ route' :=
  List.Lex.to_ne (List.Lex.imp (fun _ _ => Branch.Before.ne) _ _ before)

/-- A part of a value, with the route that leads to it. -/
structure Part where
  route : Route
  value : Value

/-- The part as seen from one step further up. -/
def Part.under (b : Branch) (part : Part) : Part := ⟨b :: part.route, part.value⟩

/-- The parts stand in document order, each of them once. -/
def InDocumentOrder (listed : List Part) : Prop :=
  listed.Pairwise fun a b => a.route.Before b.route

namespace Value

/-- The items of an array; other values have none. -/
def items : Value → List Value
  | .arr items => items
  | _ => []

def child? (v : Value) : Branch → Option Value
  | .key name => Fields.get? v.fields name
  | .index i => v.items[i]?

/-- The value at the end of a route. -/
def reach? (v : Value) : Route → Option Value
  | [] => some v
  | b :: rest => (v.child? b).bind fun next => next.reach? rest

mutual

/-- A value and all of its parts, in document order. -/
def parts : Value → List Part
  | .arr items => ⟨[], .arr items⟩ :: itemParts 0 items
  | .obj fields => ⟨[], .obj fields⟩ :: fieldParts fields
  | v => [⟨[], v⟩]
termination_by structural v => v

/-- The parts of the items of an array from an index on. -/
def itemParts (index : Nat) : List Value → List Part
  | [] => []
  | v :: rest => (parts v).map (.under (.index index)) ++ itemParts (index + 1) rest
termination_by structural items => items

/-- The parts of the fields of an object. -/
def fieldParts : Fields → List Part
  | [] => []
  | (k, v) :: rest => (parts v).map (.under (.key k)) ++ fieldParts rest
termination_by structural fields => fields

end

/-- The list has the parts of a value that have a property, each of them once and in document
order. -/
structure Enumerates (v : Value) (P : Value → Prop) (listed : List Part) : Prop where
  mem_iff : ∀ part, part ∈ listed ↔ v.reach? part.route = some part.value ∧ P part.value
  inOrder : InDocumentOrder listed

variable {v w : Value} {b : Branch} {route : Route} {part : Part} {items : List Value}
  {fields : Fields} {index : Nat}

/-! ### Going down -/

@[simp] theorem reach?_nil (v : Value) : v.reach? [] = some v := rfl

theorem reach?_cons_eq_some_iff : v.reach? (b :: route) = some w ↔
    ∃ next, v.child? b = some next ∧ next.reach? route = some w := by
  simp [reach?, Option.bind_eq_some_iff]

theorem reach?_append (v : Value) (first second : Route) :
    v.reach? (first ++ second) = (v.reach? first).bind fun next => next.reach? second := by
  induction first generalizing v with
  | nil => rfl
  | cons b first ih =>
    simp only [List.cons_append, reach?, Option.bind_assoc]
    exact Option.bind_congr fun next _ => ih next

theorem Ordered.child (ordered : v.Ordered) (found : v.child? b = some w) : w.Ordered := by
  cases b with
  | key name => exact ordered.of_get? found
  | index i =>
    cases v with
    | arr items => exact orderedItems_iff.1 ordered w (List.mem_of_getElem? found)
    | _ => simp [child?, Value.items] at found

theorem Ordered.below (ordered : v.Ordered) (reached : v.reach? route = some w) : w.Ordered := by
  induction route generalizing v with
  | nil =>
    obtain rfl : v = w := by simpa using reached
    exact ordered
  | cons b route ih =>
    obtain ⟨next, found, reached⟩ := reach?_cons_eq_some_iff.1 reached
    exact ih (ordered.child found) reached

/-! ### Parts are what routes lead to -/

theorem mem_itemParts_iff : part ∈ itemParts index items ↔
    ∃ i, ∃ next : Value, items[i]? = some next ∧
      ∃ p ∈ next.parts, p.under (.index (index + i)) = part := by
  induction items generalizing index with
  | nil => simp [itemParts]
  | cons first rest ih =>
    rw [itemParts, List.mem_append, List.mem_map, ih]
    constructor
    · rintro (here | ⟨i, next, found, later⟩)
      · exact ⟨0, first, rfl, here⟩
      · refine ⟨i + 1, next, found, ?_⟩
        rwa [← Nat.add_assoc, Nat.add_right_comm]
    · rintro ⟨i, next, found, member⟩
      cases i with
      | zero =>
        obtain rfl : first = next := by simpa using found
        exact .inl member
      | succ i =>
        refine .inr ⟨i, next, by simpa using found, ?_⟩
        rwa [← Nat.add_assoc, Nat.add_right_comm] at member

theorem mem_fieldParts_iff : part ∈ fieldParts fields ↔
    ∃ field ∈ fields, ∃ p ∈ field.2.parts, p.under (.key field.1) = part := by
  induction fields with
  | nil => simp [fieldParts]
  | cons first rest ih =>
    simp only [fieldParts, List.mem_append, List.mem_map, ih, List.exists_mem_cons_iff]

/-- In a list in order there is one field under a name. -/
theorem mem_fields_iff (sorted : Fields.Sorted fields) {name : String} :
    (name, w) ∈ fields ↔ Fields.get? fields name = some w := by
  induction fields with
  | nil => simp
  | cons first rest ih =>
    obtain ⟨later, sorted⟩ := List.pairwise_cons.1 sorted
    rw [Fields.get?_cons, List.mem_cons, ih sorted]
    by_cases same : name = first.1
    · subst same
      have absent : Fields.get? rest first.1 = none := Fields.get?_eq_none_of_lt later
      simp [absent, Prod.ext_iff, eq_comm]
    · have other : (name, w) ≠ first := fun whole => same (congrArg Prod.fst whole)
      simp [same, other]

theorem nil_mem_parts : ⟨[], w⟩ ∈ v.parts ↔ w = v := by
  cases v <;> simp [parts, mem_itemParts_iff, mem_fieldParts_iff, Part.under]

/-- The parts of a value further down are those of its fields or items. -/
theorem cons_mem_parts (ordered : v.Ordered) : ⟨b :: route, w⟩ ∈ v.parts ↔
    ∃ next, v.child? b = some next ∧ ⟨route, w⟩ ∈ next.parts := by
  cases v with
  | arr items =>
    simp only [parts, List.mem_cons, mem_itemParts_iff, Part.under, Part.mk.injEq, List.cons.injEq]
    constructor
    · -- the array itself is at the end of the route without branches
      rintro (⟨⟨⟩, -⟩ | ⟨i, next, found, p, member, ⟨rfl, rfl⟩, rfl⟩)
      rw [Nat.zero_add]
      exact ⟨next, found, member⟩
    · rintro ⟨next, found, member⟩
      cases b with
      | key name => simp [child?, Value.fields] at found
      | index i => exact .inr ⟨i, next, found, _, member, ⟨by rw [Nat.zero_add], rfl⟩, rfl⟩
  | obj fields =>
    simp only [parts, List.mem_cons, mem_fieldParts_iff, Part.under, Part.mk.injEq, List.cons.injEq]
    constructor
    · rintro (⟨⟨⟩, -⟩ | ⟨field, found, p, member, ⟨rfl, rfl⟩, rfl⟩)
      exact ⟨field.2, (mem_fields_iff ordered.1).1 found, member⟩
    · rintro ⟨next, found, member⟩
      cases b with
      | key name =>
        have field : (name, next) ∈ fields := (mem_fields_iff ordered.1).2 found
        exact .inr ⟨_, field, _, member, ⟨rfl, rfl⟩, rfl⟩
      | index i => simp [child?, Value.items] at found
  | _ => cases b <;> simp [parts, child?, Value.fields, Value.items]

/-- The list of parts has what routes lead to and nothing else. -/
theorem mem_parts_iff (ordered : v.Ordered) : ⟨route, w⟩ ∈ v.parts ↔ v.reach? route = some w := by
  induction route generalizing v with
  | nil => simp [nil_mem_parts, eq_comm]
  | cons b route ih =>
    rw [cons_mem_parts ordered, reach?_cons_eq_some_iff]
    refine exists_congr fun next => and_congr_right fun found => ?_
    exact ih (ordered.child found)

/-- What is to be seen wherever a route leads can be looked up in the list. -/
theorem forall_reach?_iff (ordered : v.Ordered) {P : Value → Prop} :
    (∀ route w, v.reach? route = some w → P w) ↔ ∀ part ∈ v.parts, P part.value := by
  constructor
  · exact fun all part member => all part.route _ ((mem_parts_iff ordered).1 member)
  · exact fun all route w reached => all ⟨route, w⟩ ((mem_parts_iff ordered).2 reached)

/-! ### Parts are in document order -/

theorem inDocumentOrder_under {listed : List Part} (inOrder : InDocumentOrder listed)
    (b : Branch) : InDocumentOrder (listed.map (Part.under b)) :=
  List.pairwise_map.2 (inOrder.imp fun before => List.Lex.cons before)

mutual

theorem inDocumentOrder_parts : ∀ {v : Value}, v.Ordered → InDocumentOrder v.parts
  | .arr items, ordered => by
    refine List.pairwise_cons.2 ⟨fun part member => ?_, inDocumentOrder_itemParts 0 ordered⟩
    obtain ⟨i, next, -, p, -, rfl⟩ := mem_itemParts_iff.1 member
    exact List.Lex.nil
  | .obj fields, ordered => by
    refine List.pairwise_cons.2
      ⟨fun part member => ?_, inDocumentOrder_fieldParts ordered.1 ordered.2⟩
    obtain ⟨field, -, p, -, rfl⟩ := mem_fieldParts_iff.1 member
    exact List.Lex.nil
  | .null, _ | .bool _, _ | .int _, _ | .float _, _ | .str _, _ => List.pairwise_singleton _ _
termination_by structural v => v

theorem inDocumentOrder_itemParts : ∀ {items : List Value} (index : Nat), OrderedItems items →
    InDocumentOrder (itemParts index items)
  | [], _, _ => .nil
  | first :: rest, index, ordered => by
    refine List.pairwise_append.2 ⟨inDocumentOrder_under (inDocumentOrder_parts ordered.1) _,
      inDocumentOrder_itemParts (index + 1) ordered.2, fun a here b later => ?_⟩
    -- what is found in the first item stands before what is found in the later ones
    obtain ⟨p, -, rfl⟩ := List.mem_map.1 here
    obtain ⟨i, next, -, q, -, rfl⟩ := mem_itemParts_iff.1 later
    exact .rel (.index (by omega))
termination_by structural items => items

theorem inDocumentOrder_fieldParts : ∀ {fields : Fields}, Fields.Sorted fields →
    OrderedFields fields → InDocumentOrder (fieldParts fields)
  | [], _, _ => .nil
  | (name, value) :: rest, sorted, ordered => by
    obtain ⟨greater, sorted⟩ := List.pairwise_cons.1 sorted
    refine List.pairwise_append.2 ⟨inDocumentOrder_under (inDocumentOrder_parts ordered.1) _,
      inDocumentOrder_fieldParts sorted ordered.2, fun a here b later => ?_⟩
    -- the name of the first field is the least
    obtain ⟨p, -, rfl⟩ := List.mem_map.1 here
    obtain ⟨field, member, q, -, rfl⟩ := mem_fieldParts_iff.1 later
    exact .rel (.key (Text.bytes_lt_bytes_iff.2 (greater field member)))
termination_by structural fields => fields

end

/-! ### Parts with a property -/

theorem filter_itemParts (P : Value → Bool) (index : Nat) (v : Value) (rest : List Value) :
    (itemParts index (v :: rest)).filter (fun part => P part.value) =
      (v.parts.filter fun part => P part.value).map (.under (.index index)) ++
        (itemParts (index + 1) rest).filter fun part => P part.value := by
  rw [itemParts, List.filter_append, List.filter_map]
  rfl

theorem filter_fieldParts (P : Value → Bool) (name : String) (v : Value) (rest : Fields) :
    (fieldParts ((name, v) :: rest)).filter (fun part => P part.value) =
      (v.parts.filter fun part => P part.value).map (.under (.key name)) ++
        (fieldParts rest).filter fun part => P part.value := by
  rw [fieldParts, List.filter_append, List.filter_map]
  rfl

theorem Enumerates.reached {P : Value → Prop} {listed : List Part} (all : v.Enumerates P listed)
    (member : part ∈ listed) : v.reach? part.route = some part.value :=
  ((all.mem_iff part).1 member).1

theorem Enumerates.holds {P : Value → Prop} {listed : List Part} (all : v.Enumerates P listed)
    (member : part ∈ listed) : P part.value :=
  ((all.mem_iff part).1 member).2

theorem enumerates_filter (ordered : v.Ordered) (P : Value → Bool) :
    v.Enumerates (fun w => P w = true) (v.parts.filter fun part => P part.value) where
  mem_iff part := by rw [List.mem_filter, mem_parts_iff ordered]
  inOrder := (inDocumentOrder_parts ordered).filter _

end Value
end LayeredConfig
