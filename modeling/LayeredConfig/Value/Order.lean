import LayeredConfig.Value.Fields
/-!
# Values in order

The fields of all objects in a value stand in the order of their names. Whether they do can be
decided, values that are made of parts in order are in order, and whatever keys a value is given, it
is brought in order: `ordered_mapKeys`. A value in order stays as it is if its keys do:
`KeepsKeys.mapKeys_eq`.
-/
namespace LayeredConfig.Value

mutual

/-- The fields of all objects in a value stand in the order of their names. -/
def Ordered : Value → Prop
  | .arr items => OrderedItems items
  | .obj fields => Fields.Sorted fields ∧ OrderedFields fields
  | _ => True
termination_by structural v => v

/-- All items of an array are in order. -/
def OrderedItems : List Value → Prop
  | [] => True
  | v :: rest => Ordered v ∧ OrderedItems rest
termination_by structural items => items

/-- The values of all fields are in order. -/
def OrderedFields : Fields → Prop
  | [] => True
  | (_, v) :: rest => Ordered v ∧ OrderedFields rest
termination_by structural fields => fields

end

mutual

instance decidableOrdered : ∀ v : Value, Decidable v.Ordered
  | .null | .bool _ | .int _ | .float _ | .str _ => .isTrue trivial
  | .arr items => decidableOrderedItems items
  | .obj fields =>
    have := decidableOrderedFields fields
    inferInstanceAs (Decidable (Fields.Sorted fields ∧ OrderedFields fields))
termination_by structural v => v

instance decidableOrderedItems : ∀ items : List Value, Decidable (OrderedItems items)
  | [] => .isTrue trivial
  | v :: rest =>
    have := decidableOrdered v
    have := decidableOrderedItems rest
    inferInstanceAs (Decidable (Ordered v ∧ OrderedItems rest))
termination_by structural items => items

instance decidableOrderedFields : ∀ fields : Fields, Decidable (OrderedFields fields)
  | [] => .isTrue trivial
  | (_, v) :: rest =>
    have := decidableOrdered v
    have := decidableOrderedFields rest
    inferInstanceAs (Decidable (Ordered v ∧ OrderedFields rest))
termination_by structural fields => fields

end

/-! ### Parts in order -/

section Parts

variable {v next : Value} {items : List Value} {fields pairs : Fields} {key : String}

theorem orderedItems_iff : OrderedItems items ↔ ∀ v ∈ items, v.Ordered := by
  induction items with
  | nil => exact iff_of_true trivial (List.forall_mem_nil _)
  | cons first rest ih =>
    rw [List.forall_mem_cons, ← ih]
    rfl

theorem OrderedFields.of_get? (ordered : OrderedFields fields)
    (field : Fields.get? fields key = some v) : v.Ordered := by
  induction fields with
  | nil => cases field
  | cons first rest ih =>
    obtain ⟨name, value⟩ := first
    rw [Fields.get?_cons] at field
    split at field
    · cases field
      exact ordered.1
    · exact ih ordered.2 field

theorem Ordered.of_get? (ordered : v.Ordered) (field : Fields.get? v.fields key = some next) :
    next.Ordered := by
  cases v with
  | obj => exact ordered.2.of_get? field
  | _ => cases field

theorem ordered_nil : (obj []).Ordered := ⟨Fields.sorted_nil, trivial⟩

theorem OrderedFields.insert (ordered : OrderedFields fields) (valueOrdered : v.Ordered) :
    OrderedFields (Fields.insert key v fields) := by
  induction fields with
  | nil => exact ⟨valueOrdered, trivial⟩
  | cons first rest ih =>
    simp only [Fields.insert]
    split
    · exact ⟨valueOrdered, ordered.2⟩
    · split
      · exact ⟨valueOrdered, ordered⟩
      · exact ⟨ordered.1, ih ordered.2⟩

theorem Ordered.insert (ordered : (obj fields).Ordered) (valueOrdered : v.Ordered) (key : String) :
    (obj (Fields.insert key v fields)).Ordered :=
  ⟨ordered.1.insert key v, ordered.2.insert valueOrdered⟩

theorem ordered_ofPairs (each : ∀ p ∈ pairs, p.2.Ordered) : (ofPairs pairs).Ordered := by
  have kept (fields : Fields) (ordered : (obj fields).Ordered) (p : String × Value)
      (member : p ∈ pairs) : (obj (Fields.insert p.1 p.2 fields)).Ordered :=
    ordered.insert (each p member) p.1
  exact List.foldlRecOn (motive := fun fields => (obj fields).Ordered) pairs _ ordered_nil kept

end Parts

/-! ### Other keys -/

mutual

/-- The value with `f key` in the place of every key, and the fields in the order of these. Of two
keys that become one the later counts. -/
def mapKeys (f : String → String) : Value → Value
  | .arr items => .arr (mapItemKeys f items)
  | .obj fields => .ofPairs (mapFieldKeys f fields)
  | v => v
termination_by structural v => v

def mapItemKeys (f : String → String) : List Value → List Value
  | [] => []
  | v :: rest => mapKeys f v :: mapItemKeys f rest
termination_by structural items => items

/-- The fields of an object with other keys, still in their old order. -/
def mapFieldKeys (f : String → String) : Fields → List (String × Value)
  | [] => []
  | (k, v) :: rest => (f k, mapKeys f v) :: mapFieldKeys f rest
termination_by structural fields => fields

end

section MapKeys

variable (f : String → String)

theorem mapItemKeys_eq (items : List Value) : mapItemKeys f items = items.map (mapKeys f) := by
  induction items with
  | nil => rfl
  | cons v rest ih => rw [mapItemKeys, ih, List.map_cons]

theorem mapFieldKeys_eq (fields : Fields) :
    mapFieldKeys f fields = fields.map fun p => (f p.1, p.2.mapKeys f) := by
  induction fields with
  | nil => rfl
  | cons field rest ih => rw [mapFieldKeys, ih, List.map_cons]

mutual

/-- Whatever becomes of the keys, the result is in order. -/
theorem ordered_mapKeys : ∀ v : Value, (v.mapKeys f).Ordered
  | .arr items => ordered_mapItemKeys items
  | .obj fields => ordered_ofPairs (ordered_mapFieldKeys fields)
  | .null | .bool _ | .int _ | .float _ | .str _ => trivial
termination_by structural v => v

theorem ordered_mapItemKeys : ∀ items : List Value, OrderedItems (mapItemKeys f items)
  | [] => trivial
  | v :: rest => ⟨ordered_mapKeys v, ordered_mapItemKeys rest⟩
termination_by structural items => items

theorem ordered_mapFieldKeys : ∀ fields : Fields, ∀ p ∈ mapFieldKeys f fields, p.2.Ordered
  | [] => List.forall_mem_nil _
  | (_, v) :: rest => List.forall_mem_cons.2 ⟨ordered_mapKeys v, ordered_mapFieldKeys rest⟩
termination_by structural fields => fields

end

end MapKeys

/-- The keys of a value that is settled stay as they are under `f`, and its parts are settled with
it. -/
structure KeepsKeys (f : String → String) (Settled : Value → Prop) : Prop where
  items : ∀ items, Settled (arr items) → ∀ w ∈ items, Settled w
  fields : ∀ fields, Fields.Sorted fields → Settled (obj fields) →
    ∀ p ∈ fields, f p.1 = p.1 ∧ Settled p.2

namespace KeepsKeys

variable {f : String → String} {Settled : Value → Prop}

mutual

/-- A value in order stays as it is if its keys do. -/
theorem mapKeys_eq (keeps : KeepsKeys f Settled) : ∀ {v : Value}, v.Ordered → Settled v →
    v.mapKeys f = v
  | .arr items, ordered, settled =>
    congrArg arr (keeps.mapItemKeys_eq ordered (keeps.items items settled))
  | .obj fields, ordered, settled => by
    have same := keeps.mapFieldKeys_eq ordered.2 (keeps.fields fields ordered.1 settled)
    rw [mapKeys, same, ofPairs, Fields.ofList_of_sorted ordered.1]
  | .null, _, _ | .bool _, _, _ | .int _, _, _ | .float _, _, _ | .str _, _, _ => rfl
termination_by structural v => v

theorem mapItemKeys_eq (keeps : KeepsKeys f Settled) : ∀ {items : List Value},
    OrderedItems items → (∀ w ∈ items, Settled w) → mapItemKeys f items = items
  | [], _, _ => rfl
  | v :: rest, ordered, settled => by
    obtain ⟨here, others⟩ := List.forall_mem_cons.1 settled
    rw [mapItemKeys, keeps.mapKeys_eq ordered.1 here, keeps.mapItemKeys_eq ordered.2 others]
termination_by structural items => items

theorem mapFieldKeys_eq (keeps : KeepsKeys f Settled) : ∀ {fields : Fields},
    OrderedFields fields → (∀ p ∈ fields, f p.1 = p.1 ∧ Settled p.2) →
    mapFieldKeys f fields = fields
  | [], _, _ => rfl
  | (key, v) :: rest, ordered, settled => by
    obtain ⟨⟨same, here⟩, others⟩ := List.forall_mem_cons.1 settled
    rw [mapFieldKeys, same, keeps.mapKeys_eq ordered.1 here,
      keeps.mapFieldKeys_eq ordered.2 others]
termination_by structural fields => fields

end

end KeepsKeys

/-- Given its own keys, a value in order stays as it is. -/
theorem mapKeys_id {v : Value} (ordered : v.Ordered) : v.mapKeys id = v := by
  have keeps : KeepsKeys id fun _ => True :=
    ⟨fun _ _ _ _ => trivial, fun _ _ _ _ _ => ⟨rfl, trivial⟩⟩
  exact keeps.mapKeys_eq ordered trivial

end LayeredConfig.Value
