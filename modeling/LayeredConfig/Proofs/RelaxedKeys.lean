import LayeredConfig.Mapper
import LayeredConfig.Proofs.Equality
import LayeredConfig.Proofs.Paths
import Mathlib.Data.String.Basic
/-!
# Keys in snake case

The relaxed mapper turns keys to snake case. To do so twice is to do it once, and whatever it
rewrites in a key moves the key up in the order of bytes. So of several keys that become one the
greatest counts, since it is met last, and a key that is in snake case already is the greatest of
those that become it.

Main statements: `snakeCase_snakeCase` and `bytes_le_snakeCase` about one key,
`Fields.get?_mapFieldKeys` about one object, `Value.reach?_normalizeKeys`, which says for a whole
value what stands where in the result, and `Value.relaxed_keys_normalize`, which puts the laws
together.
-/
namespace LayeredConfig

/-! ### One key -/

section Scan

variable {c : Char} {cs : List Char} {afterSmall : Bool}

/-- The characters of which a key in snake case consists. -/
def IsSnake (c : Char) : Prop := c ≠ '-' ∧ c ≠ ' ' ∧ c.isUpper = false

theorem snakeChars_of_isSnake (plain : ∀ c ∈ cs, IsSnake c) (afterSmall : Bool) :
    snakeChars afterSmall cs = cs := by
  induction cs generalizing afterSmall with
  | nil => rfl
  | cons c cs ih =>
    obtain ⟨⟨hyphen, blank, small⟩, rest⟩ := List.forall_mem_cons.1 plain
    simp [snakeChars, hyphen, blank, small, ih rest]

theorem isUpper_iff : c.isUpper = true ↔ c.val ≥ 'A'.val ∧ c.val ≤ 'Z'.val := decide_eq_true_iff

theorem toNat_of_isUpper (upper : c.isUpper = true) : 65 ≤ c.toNat ∧ c.toNat ≤ 90 := by
  obtain ⟨first, last⟩ := isUpper_iff.1 upper
  exact ⟨UInt32.le_iff_toNat_le.1 first, UInt32.le_iff_toNat_le.1 last⟩

theorem toNat_toLower (upper : c.isUpper = true) : c.toLower.toNat = c.toNat + 32 := by
  have range := toNat_of_isUpper upper
  have small : c.toLower.val = c.val + 32 := congrArg Char.val (dif_pos (isUpper_iff.1 upper))
  change 65 ≤ c.val.toNat ∧ c.val.toNat ≤ 90 at range
  change c.toLower.val.toNat = c.val.toNat + 32
  rw [small, UInt32.toNat_add]
  change (c.val.toNat + 32) % 2 ^ 32 = c.val.toNat + 32
  omega

theorem isSnake_toLower (upper : c.isUpper = true) : IsSnake c.toLower := by
  have range := toNat_of_isUpper upper
  have code := toNat_toLower upper
  refine ⟨fun same => ?_, fun same => ?_, ?_⟩
  · rw [same] at code
    change 45 = c.toNat + 32 at code
    omega
  · rw [same] at code
    change 32 = c.toNat + 32 at code
    omega
  · refine Bool.eq_false_of_not_eq_true fun capital => ?_
    have range' := toNat_of_isUpper capital
    omega

theorem isSnake_of_mem_snakeChars (member : c ∈ snakeChars afterSmall cs) : IsSnake c := by
  have underscore : IsSnake '_' := ⟨by decide, by decide, by decide⟩
  -- one case for each thing that the scan does with a character
  induction cs generalizing afterSmall with
  | nil => cases member
  | cons d cs ih =>
    rw [snakeChars] at member
    split_ifs at member with separator upper after
    · rcases List.mem_cons.1 member with rfl | member
      · exact underscore
      · exact ih member
    · simp only [List.mem_cons] at member
      rcases member with rfl | rfl | member
      · exact underscore
      · exact isSnake_toLower upper
      · exact ih member
    · rcases List.mem_cons.1 member with rfl | member
      · exact isSnake_toLower upper
      · exact ih member
    · rcases List.mem_cons.1 member with rfl | member
      · have other : c ≠ '-' ∧ c ≠ ' ' := by simpa using separator
        exact ⟨other.1, other.2, by simpa using upper⟩
      · exact ih member

/-- What stands in the place of a character that is rewritten is greater. -/
theorem lt_of_isUpper (upper : c.isUpper = true) : c < '_' ∧ c < c.toLower := by
  have range := toNat_of_isUpper upper
  have code := toNat_toLower upper
  constructor
  · change c.toNat < '_'.toNat
    have underscore : '_'.toNat = 95 := rfl
    omega
  · change c.toNat < c.toLower.toNat
    omega

/-- The first character that is rewritten decides, and it becomes greater. -/
theorem not_snakeChars_lt (afterSmall : Bool) (cs : List Char) :
    ¬ snakeChars afterSmall cs < cs := by
  induction cs generalizing afterSmall with
  | nil => exact List.not_lt_nil _
  | cons c cs ih =>
    have not_lt_of_lt {d : Char} (greater : c < d) (ds : List Char) : ¬ d :: ds < c :: cs := by
      rw [List.cons_lt_cons_iff, not_or]
      exact ⟨Char.lt_asymm greater, fun same => Char.lt_irrefl c (same.1 ▸ greater)⟩
    rw [snakeChars]
    split_ifs with separator upper after
    · have either : c = '-' ∨ c = ' ' := by simpa using separator
      rcases either with rfl | rfl
      · exact not_lt_of_lt (by decide) _
      · exact not_lt_of_lt (by decide) _
    · exact not_lt_of_lt (lt_of_isUpper upper).1 _
    · exact not_lt_of_lt (lt_of_isUpper upper).2 _
    · rw [List.cons_lt_cons_iff]
      rintro (less | ⟨-, less⟩)
      · exact Char.lt_irrefl c less
      · exact ih _ less

end Scan

theorem snakeCase_snakeCase (key : String) : snakeCase (snakeCase key) = snakeCase key := by
  have plain : ∀ c ∈ snakeChars false key.toList, IsSnake c := fun _ =>
    isSnake_of_mem_snakeChars
  simp only [snakeCase, String.toList_ofList, snakeChars_of_isSnake plain]

theorem bytes_le_snakeCase (key : String) : Text.bytes key ≤ Text.bytes (snakeCase key) := by
  rw [Text.bytes_le_bytes_iff, ← String.not_lt, String.lt_iff_toList_lt, snakeCase,
    String.toList_ofList]
  exact not_snakeChars_lt false key.toList

/-! ### One object -/

namespace Fields

section OfList

variable {α : Type} {fields pairs : List (String × α)} {name : String} {value : α}

/-- What was put behind a list is the element at which it is split, or else stands at the end. -/
theorem concat_eq_split {β : Type} {xs before after : List β} {last x : β}
    (split : xs ++ [last] = before ++ x :: after) :
    (after = [] ∧ xs = before ∧ last = x) ∨
      ∃ front, after = front ++ [last] ∧ xs = before ++ x :: front := by
  rcases List.eq_nil_or_concat after with rfl | ⟨front, y, rfl⟩
  · obtain ⟨rfl, same⟩ := List.append_inj' split rfl
    exact .inl ⟨rfl, rfl, List.singleton_inj.1 same⟩
  · have whole : xs ++ [last] = (before ++ x :: front) ++ [y] := by simp [split]
    obtain ⟨rfl, same⟩ := List.append_inj' whole rfl
    obtain rfl := List.singleton_inj.1 same
    exact .inr ⟨front, List.concat_eq_append, rfl⟩

/-- Of several pairs with one name the last counts. -/
theorem get?_ofList_eq_some_iff : get? (ofList pairs) name = some value ↔
    ∃ before after, pairs = before ++ (name, value) :: after ∧ ∀ p ∈ after, p.1 ≠ name := by
  induction pairs using List.reverseRecOn with
  | nil => simp [ofList]
  | append_singleton pairs last ih =>
    rw [ofList_concat, get?_insert]
    by_cases same : name = last.1
    · rw [if_pos same]
      constructor
      · intro found
        obtain rfl : last.2 = value := by simpa using found
        exact ⟨pairs, [], by simp [same], List.forall_mem_nil _⟩
      · rintro ⟨before, after, split, others⟩
        -- nothing stands behind a pair with the name of the last one
        rcases concat_eq_split split with ⟨-, -, rfl⟩ | ⟨front, rfl, -⟩
        · rfl
        · exact absurd same.symm (others last (by simp))
    · rw [if_neg same, ih]
      constructor
      · rintro ⟨before, after, rfl, others⟩
        refine ⟨before, after ++ [last], by simp, ?_⟩
        exact List.forall_mem_append.2 ⟨others, by simpa using Ne.symm same⟩
      · rintro ⟨before, after, split, others⟩
        rcases concat_eq_split split with ⟨-, -, rfl⟩ | ⟨front, rfl, rfl⟩
        · exact absurd rfl same
        · exact ⟨before, front, rfl, fun p member => others p (List.mem_append_left _ member)⟩

theorem mem_names_ofList : name ∈ names (ofList pairs) ↔ name ∈ names pairs := by
  induction pairs using List.reverseRecOn with
  | nil => rfl
  | append_singleton pairs last ih =>
    have split : name ∈ names (pairs ++ [last]) ↔ name = last.1 ∨ name ∈ names pairs := by
      simp [names, or_comm]
    rw [ofList_concat, mem_names_iff, split, ← ih, mem_names_iff]
    by_cases same : name = last.1 <;> simp [get?_insert, same]

end OfList

variable {fields : Fields} {key form : String} {value w : Value}

/-- Of the keys that are one in snake case this one counts: none of them is greater. -/
structure Counts (fields : Fields) (key : String) : Prop where
  member : key ∈ names fields
  greatest : ∀ other ∈ names fields, snakeCase other = snakeCase key →
    Text.bytes other ≤ Text.bytes key

/-- A key in snake case is the greatest of those that become it. -/
theorem counts_of_settled (member : key ∈ names fields) (settled : snakeCase key = key) :
    Counts fields key := by
  refine ⟨member, fun other _ same => ?_⟩
  have up := bytes_le_snakeCase other
  rwa [same, settled] at up

/-- In the order of names the key that counts is the last of those that become one. -/
theorem counts_iff_of_split {before after : Fields} (sorted : Sorted fields)
    (split : fields = before ++ (key, value) :: after) :
    Counts fields key ↔ ∀ p ∈ after, snakeCase p.1 ≠ snakeCase key := by
  subst split
  obtain ⟨-, behind, ahead⟩ := List.pairwise_append.1 sorted
  have later := (List.pairwise_cons.1 behind).1
  constructor
  · intro counts p member same
    have among : p.1 ∈ names (before ++ (key, value) :: after) :=
      List.mem_map_of_mem (by simp [member])
    have order := Text.bytes_le_bytes_iff.1 (counts.greatest p.1 among same)
    exact String.not_lt.2 order (later p member)
  · intro others
    refine ⟨List.mem_map_of_mem (f := Prod.fst) (List.mem_append_right _ List.mem_cons_self), ?_⟩
    intro other member same
    rw [Text.bytes_le_bytes_iff]
    obtain ⟨p, among, rfl⟩ := List.mem_map.1 member
    rcases List.mem_append.1 among with front | back
    · exact Std.le_of_lt (ahead p front (key, value) List.mem_cons_self)
    · rcases List.mem_cons.1 back with rfl | back
      · exact String.le_refl _
      · exact absurd same (others p back)

/-- Under a key in snake case stands what stood under the key that counts. -/
theorem get?_mapFieldKeys (sorted : Sorted fields) :
    get? (ofList (Value.mapFieldKeys snakeCase fields)) form = some w ↔
      ∃ key value, Counts fields key ∧ snakeCase key = form ∧ get? fields key = some value ∧
        value.normalizeKeys = w := by
  rw [get?_ofList_eq_some_iff, Value.mapFieldKeys_eq]
  constructor
  · rintro ⟨before, after, split, others⟩
    obtain ⟨front, back, rfl, rfl, rest⟩ := List.map_eq_append_iff.1 split
    obtain ⟨⟨key, value⟩, later, rfl, pair, rfl⟩ := List.map_eq_cons_iff.1 rest
    obtain ⟨rfl, rfl⟩ := Prod.mk.inj pair
    refine ⟨key, value, (counts_iff_of_split sorted rfl).2 fun p member => ?_, rfl, ?_, rfl⟩
    · exact others _ (List.mem_map_of_mem member)
    · exact (Value.mem_fields_iff sorted).1 (by simp)
  · rintro ⟨key, value, counts, rfl, found, rfl⟩
    obtain ⟨before, after, split⟩ :=
      List.append_of_mem ((Value.mem_fields_iff sorted).2 found)
    refine ⟨before.map fun p => (snakeCase p.1, p.2.normalizeKeys),
      after.map fun p => (snakeCase p.1, p.2.normalizeKeys), ?_, ?_⟩
    · rw [split, List.map_append, List.map_cons]
      rfl
    · intro p member
      obtain ⟨q, among, rfl⟩ := List.mem_map.1 member
      exact (counts_iff_of_split sorted split).1 counts q among

/-- What becomes of the fields of an object: their names are the snake case of the keys, and under
each of them stands what the key that counts held. -/
structure Relaxed (fields out : Fields) : Prop where
  sorted : Sorted out
  forms : ∀ form, form ∈ names out ↔ ∃ key ∈ names fields, snakeCase key = form
  values : ∀ form ∈ names out, ∃ key value, Counts fields key ∧ snakeCase key = form ∧
    get? fields key = some value ∧ get? out form = some value.normalizeKeys
  -- If one of the keys is spelled like this already, that one counts.
  exact : ∀ form ∈ names out, ∀ value, get? fields form = some value →
    Counts fields form ∧ get? out form = some value.normalizeKeys

theorem relaxed_mapFieldKeys (sorted : Sorted fields) :
    Relaxed fields (ofList (Value.mapFieldKeys snakeCase fields)) := by
  have forms (form : String) : form ∈ names (ofList (Value.mapFieldKeys snakeCase fields)) ↔
      ∃ key ∈ names fields, snakeCase key = form := by
    rw [mem_names_ofList, Value.mapFieldKeys_eq]
    simp [names]
  refine ⟨sorted_ofList _, forms, fun form member => ?_, fun form member value found => ?_⟩
  · obtain ⟨w, found⟩ := mem_names_iff.1 member
    obtain ⟨key, value, counts, same, here, rfl⟩ := (get?_mapFieldKeys sorted).1 found
    exact ⟨key, value, counts, same, here, found⟩
  · obtain ⟨key, -, rfl⟩ := (forms form).1 member
    have settled := snakeCase_snakeCase key
    have counts := counts_of_settled (mem_names_iff.2 ⟨value, found⟩) settled
    exact ⟨counts, (get?_mapFieldKeys sorted).2 ⟨_, value, counts, settled, found, rfl⟩⟩

end Fields

/-! ### Whole values -/

/-- The branch to what a branch leads to, once keys are in snake case. -/
def Branch.snake : Branch → Branch
  | .key name => .key (snakeCase name)
  | .index i => .index i

namespace Value

/-- What stands at the branch is kept: no greater key becomes the same in snake case. -/
def Keeps (v : Value) : Branch → Prop
  | .key name => Fields.Counts v.fields name
  | .index _ => True

/-- What stands at the end of the route is kept. -/
def KeepsAlong (v : Value) : Route → Prop
  | [] => True
  | b :: rest => v.Keeps b ∧ ∀ next ∈ v.child? b, next.KeepsAlong rest

/-- The keys of all objects in a value are in snake case. -/
def SnakeKeys (v : Value) : Prop :=
  ∀ route w, v.reach? route = some w → ∀ name ∈ Fields.names w.fields, snakeCase name = name

variable {v w w' : Value} {b b' : Branch} {route route' : Route} {items : List Value}
  {fields : Fields}

theorem items_normalizeKeys (v : Value) : v.normalizeKeys.items = v.items.map normalizeKeys := by
  cases v with
  | arr items => exact mapItemKeys_eq snakeCase items
  | _ => rfl

theorem fields_normalizeKeys (v : Value) :
    v.normalizeKeys.fields = Fields.ofList (mapFieldKeys snakeCase v.fields) := by
  cases v <;> rfl

theorem Ordered.sorted_fields (ordered : v.Ordered) : Fields.Sorted v.fields := by
  cases v with
  | obj fields => exact ordered.1
  | _ => simp [Value.fields]

/-- What is found one step down comes from what was found one step down. -/
theorem child?_normalizeKeys (ordered : v.Ordered) : v.normalizeKeys.child? b' = some w' ↔
    ∃ b w, v.Keeps b ∧ v.child? b = some w ∧ b.snake = b' ∧ w.normalizeKeys = w' := by
  cases b' with
  | key form =>
    rw [child?, fields_normalizeKeys, Fields.get?_mapFieldKeys ordered.sorted_fields]
    constructor
    · rintro ⟨key, w, counts, rfl, found, rfl⟩
      exact ⟨.key key, w, counts, found, rfl, rfl⟩
    · rintro ⟨b, w, counts, found, same, rfl⟩
      cases b with
      | key name => exact ⟨name, w, counts, Branch.key.inj same, found, rfl⟩
      | index i => cases same
  | index i =>
    rw [child?, items_normalizeKeys, List.getElem?_map, Option.map_eq_some_iff]
    constructor
    · rintro ⟨w, here, rfl⟩
      exact ⟨.index i, w, trivial, here, rfl, rfl⟩
    · rintro ⟨b, w, -, here, same, rfl⟩
      cases b with
      | key name => cases same
      | index j =>
        obtain rfl : j = i := Branch.index.inj same
        exact ⟨w, here, rfl⟩

/-- In the result stand the parts that were kept, with their own keys in snake case, and nothing
else. -/
theorem reach?_normalizeKeys (ordered : v.Ordered) : v.normalizeKeys.reach? route' = some w' ↔
    ∃ route w, v.KeepsAlong route ∧ v.reach? route = some w ∧ route.map Branch.snake = route' ∧
      w.normalizeKeys = w' := by
  induction route' generalizing v with
  | nil =>
    constructor
    · intro found
      exact ⟨[], v, trivial, rfl, rfl, Option.some.inj found⟩
    · rintro ⟨route, w, -, found, same, rfl⟩
      obtain rfl := List.map_eq_nil_iff.1 same
      obtain rfl : v = w := Option.some.inj found
      rfl
  | cons b' route' ih =>
    rw [reach?_cons_eq_some_iff]
    constructor
    · rintro ⟨next, here, later⟩
      obtain ⟨b, w, keeps, found, rfl, rfl⟩ := (child?_normalizeKeys ordered).1 here
      obtain ⟨route, u, along, reached, rfl, rfl⟩ := (ih (ordered.child found)).1 later
      refine ⟨b :: route, u, ⟨keeps, ?_⟩, ?_, rfl, rfl⟩
      · intro next here
        obtain rfl : w = next := Option.some.inj (found.symm.trans here)
        exact along
      · exact reach?_cons_eq_some_iff.2 ⟨w, found, reached⟩
    · rintro ⟨route, u, along, reached, same, rfl⟩
      obtain ⟨b, route, rfl, rfl, rfl⟩ := List.map_eq_cons_iff.1 same
      obtain ⟨w, found, reached⟩ := reach?_cons_eq_some_iff.1 reached
      have here := (child?_normalizeKeys ordered).2 ⟨b, w, along.1, found, rfl, rfl⟩
      refine ⟨w.normalizeKeys, here, ?_⟩
      exact (ih (ordered.child found)).2 ⟨route, u, along.2 w found, reached, rfl, rfl⟩

/-! ### Values in snake case -/

theorem SnakeKeys.child (snake : v.SnakeKeys) (found : v.child? b = some w) : w.SnakeKeys := by
  intro route u reached
  exact snake (b :: route) u (reach?_cons_eq_some_iff.2 ⟨w, found, reached⟩)

theorem keepsKeys_snakeKeys : KeepsKeys snakeCase SnakeKeys where
  items _ snake w member := by
    obtain ⟨i, found⟩ := List.mem_iff_getElem?.1 member
    exact snake.child (b := .index i) found
  fields _ sorted snake p member := by
    refine ⟨snake [] _ rfl p.1 (List.mem_map_of_mem member), ?_⟩
    exact snake.child (b := .key p.1) ((mem_fields_iff sorted).1 member)

/-- A value whose keys are in snake case stays as it is. -/
theorem normalizeKeys_of_snakeKeys (ordered : v.Ordered) (snake : v.SnakeKeys) :
    v.normalizeKeys = v :=
  keepsKeys_snakeKeys.mapKeys_eq ordered snake

/-- The keys of the result are in snake case. -/
theorem snakeKeys_normalizeKeys (ordered : v.Ordered) : v.normalizeKeys.SnakeKeys := by
  intro route' w' reached form member
  obtain ⟨route, w, -, found, -, rfl⟩ := (reach?_normalizeKeys ordered).1 reached
  rw [fields_normalizeKeys] at member
  have relaxed := Fields.relaxed_mapFieldKeys (ordered.below found).sorted_fields
  obtain ⟨key, -, rfl⟩ := (relaxed.forms form).1 member
  exact snakeCase_snakeCase key

theorem normalizeKeys_normalizeKeys (ordered : v.Ordered) :
    v.normalizeKeys.normalizeKeys = v.normalizeKeys :=
  normalizeKeys_of_snakeKeys (ordered_mapKeys snakeCase v) (snakeKeys_normalizeKeys ordered)

/-- Mappers that prepare a value alike read it alike; they only word errors differently. -/
theorem mapBean_agree {mapper mapper' : Mapper} (same : mapper.prepare v = mapper'.prepare v)
    (shape : Shape) (path : String) :
    Agree (· = ·) (mapper.mapBean shape v path) (mapper'.mapBean shape v path) := by
  rw [Mapper.mapBean, Mapper.mapBean, same]
  cases shape.read (mapper'.prepare v) with
  | ok read => exact .ok rfl
  | error mismatch => exact .error _ _

/-- What the relaxed mapper makes of a value. -/
structure KeysNormalize (v : Value) : Prop where
  again : v.normalizeKeys.normalizeKeys = v.normalizeKeys
  -- Nothing is done to keys in snake case, so both mappers do the same.
  settled : v.SnakeKeys → v.normalizeKeys = v ∧
    Mapper.relaxed.prepare v = Mapper.strict.prepare v ∧ ∀ shape path,
      Agree (· = ·) (Mapper.relaxed.mapBean shape v path) (Mapper.strict.mapBean shape v path)
  objects : ∀ route fields, v.reach? route = some (.obj fields) →
    ∃ out, (Value.obj fields).normalizeKeys = .obj out ∧ Fields.Relaxed fields out
  places : ∀ route' w', v.normalizeKeys.reach? route' = some w' ↔
    ∃ route w, v.KeepsAlong route ∧ v.reach? route = some w ∧ route.map Branch.snake = route' ∧
      w.normalizeKeys = w'

theorem relaxed_keys_normalize (v : Value) (ordered : v.Ordered) : v.KeysNormalize where
  again := normalizeKeys_normalizeKeys ordered
  settled snake := by
    have same := normalizeKeys_of_snakeKeys ordered snake
    exact ⟨same, same, mapBean_agree same⟩
  objects route fields reached := by
    exact ⟨_, rfl, Fields.relaxed_mapFieldKeys (ordered.below reached).1⟩
  places _ _ := reach?_normalizeKeys ordered

/-- The exact key wins over two other spellings of it. -/
theorem relaxed_keys_normalize_maxSize :
    let fields : Fields := [("max-size", .int 1), ("maxSize", .int 2), ("max_size", .int 3)]
    (Value.obj fields).Ordered ∧ ∃ out, (Value.obj fields).normalizeKeys = .obj out ∧
      Fields.names out = ["max_size"] ∧ Fields.get? out "max_size" = some (.int 3) := by
  intro fields
  have sorted : Fields.Sorted fields := by
    rw [Fields.Sorted]
    decide +kernel
  have ordered : (Value.obj fields).Ordered := ⟨sorted, trivial, trivial, trivial, trivial⟩
  obtain ⟨out, same, relaxed⟩ := (relaxed_keys_normalize _ ordered).objects [] fields rfl
  have names : Fields.names out = ["max_size"] := by
    obtain rfl : Fields.ofList (mapFieldKeys snakeCase fields) = out := Value.obj.inj same
    decide
  have member : "max_size" ∈ Fields.names out := by simp [names]
  exact ⟨ordered, out, same, names, (relaxed.exact _ member (.int 3) rfl).2⟩

end Value

end LayeredConfig
