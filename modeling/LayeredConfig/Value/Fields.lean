import LayeredConfig.Value.Basic
/-!
# Fields

Lists of named things, in the order of their names. The fields of an object are such a list, and so
are the variables of an environment. Main statements: inserting keeps the order, what stands under a
name afterwards is what was inserted last, and a list in order is determined by what stands under
each name.
-/
namespace LayeredConfig

namespace Fields

variable {α : Type}

def get? (fields : List (String × α)) (key : String) : Option α :=
  fields.lookup key

/-- The list with `value` under `key`, in place of what was there. -/
def insert (key : String) (value : α) : List (String × α) → List (String × α)
  | [] => [(key, value)]
  | (k, v) :: rest =>
    if key = k then (key, value) :: rest
    else if key < k then (key, value) :: (k, v) :: rest
    else (k, v) :: insert key value rest

def names (fields : List (String × α)) : List String :=
  fields.map Prod.fst

/-- The list of pairs given in any order; of two with one name the later counts. -/
def ofList (pairs : List (String × α)) : List (String × α) :=
  pairs.foldl (fun fields (k, v) => insert k v fields) []

/-- The names stand in strictly increasing order. -/
def Sorted (fields : List (String × α)) : Prop :=
  fields.Pairwise fun a b => a.1 < b.1

instance (fields : List (String × α)) : Decidable (Sorted fields) :=
  inferInstanceAs (Decidable (fields.Pairwise fun a b => a.1 < b.1))

/-! ### What stands under a name -/

@[simp] theorem get?_nil (key : String) : get? ([] : List (String × α)) key = none := rfl

theorem get?_cons (field : String × α) (rest : List (String × α)) (key : String) :
    get? (field :: rest) key = if key = field.1 then some field.2 else get? rest key := by
  obtain ⟨k, v⟩ := field
  by_cases h : key = k
  · simp [get?, h]
  · have differs : (key == k) = false := by simp [h]
    simp [get?, List.lookup_cons, h, differs]

theorem mem_names_iff {fields : List (String × α)} {name : String} :
    name ∈ names fields ↔ ∃ value, get? fields name = some value := by
  induction fields with
  | nil => simp [names]
  | cons first rest ih =>
    have split : name ∈ names (first :: rest) ↔ name = first.1 ∨ name ∈ names rest := by
      simp [names]
    rw [split, ih, get?_cons]
    by_cases same : name = first.1 <;> simp [same]

theorem get?_insert (fields : List (String × α)) (key name : String) (value : α) :
    get? (insert key value fields) name = if name = key then some value else get? fields name := by
  induction fields with
  | nil => simp [insert, get?_cons]
  | cons field rest ih =>
    obtain ⟨k, v⟩ := field
    by_cases same : key = k
    · subst same
      by_cases h : name = key <;> simp [insert, get?_cons, h]
    · by_cases less : key < k
      · simp [insert, same, less, get?_cons]
      · simp only [insert, same, less, if_false, get?_cons, ih]
        by_cases h : name = k
        · subst h
          simp [Ne.symm same]
        · simp [h]

@[simp] theorem get?_insert_self (fields : List (String × α)) (key : String) (value : α) :
    get? (insert key value fields) key = some value := by
  simp [get?_insert]

theorem get?_insert_of_ne {key name : String} (h : name ≠ key) (fields : List (String × α))
    (value : α) : get? (insert key value fields) name = get? fields name := by
  simp [get?_insert, h]

/-! ### Order -/

@[simp] theorem sorted_nil : Sorted ([] : List (String × α)) := List.Pairwise.nil

theorem mem_insert {key : String} {value : α} {fields : List (String × α)} {field : String × α}
    (h : field ∈ insert key value fields) : field = (key, value) ∨ field ∈ fields := by
  induction fields with
  | nil => simpa [insert] using h
  | cons first rest ih =>
    simp only [insert] at h
    split at h
    · rcases List.mem_cons.1 h with h | h
      · exact .inl h
      · exact .inr (List.mem_cons_of_mem _ h)
    · split at h
      · exact List.mem_cons.1 h
      · rcases List.mem_cons.1 h with h | h
        · exact .inr (h ▸ List.mem_cons_self)
        · exact (ih h).imp_right (List.mem_cons_of_mem _)

theorem Sorted.insert {fields : List (String × α)} (sorted : Sorted fields) (key : String)
    (value : α) : Sorted (insert key value fields) := by
  induction fields with
  | nil => simp [Fields.insert, Sorted]
  | cons first rest ih =>
    obtain ⟨later, restSorted⟩ := List.pairwise_cons.1 sorted
    simp only [Fields.insert]
    split
    · rename_i same
      exact List.pairwise_cons.2 ⟨fun field h => same ▸ later field h, restSorted⟩
    · split
      · rename_i less
        refine List.pairwise_cons.2 ⟨fun field h => ?_, sorted⟩
        rcases List.mem_cons.1 h with rfl | h
        · exact less
        · exact String.lt_trans less (later field h)
      · rename_i differs notLess
        have greater : first.1 < key :=
          Std.lt_of_le_of_ne (String.not_lt.1 notLess) (Ne.symm differs)
        refine List.pairwise_cons.2 ⟨fun field h => ?_, ih restSorted⟩
        rcases mem_insert h with rfl | h
        · exact greater
        · exact later field h

theorem sorted_ofList (pairs : List (String × α)) : Sorted (ofList pairs) :=
  List.foldlRecOn (motive := Sorted) pairs _ sorted_nil fun _ sorted pair _ =>
    sorted.insert pair.1 pair.2

theorem ofList_concat (pairs : List (String × α)) (last : String × α) :
    ofList (pairs ++ [last]) = insert last.1 last.2 (ofList pairs) := by
  simp [ofList]

/-- A name that is greater than all names comes behind them. -/
theorem insert_of_greater {key : String} {fields : List (String × α)}
    (greater : ∀ field ∈ fields, field.1 < key) (value : α) :
    insert key value fields = fields ++ [(key, value)] := by
  induction fields with
  | nil => rfl
  | cons first rest ih =>
    obtain ⟨less, others⟩ := List.forall_mem_cons.1 greater
    have differs : key ≠ first.1 := fun same => String.lt_irrefl key (same ▸ less)
    have notLess : ¬ key < first.1 := fun above => String.lt_irrefl key (String.lt_trans above less)
    rw [Fields.insert, if_neg differs, if_neg notLess, ih others, List.cons_append]

theorem ofList_of_sorted {fields : List (String × α)} (sorted : Sorted fields) :
    ofList fields = fields := by
  have onward : ∀ later before : List (String × α), Sorted (before ++ later) →
      later.foldl (fun fields (k, v) => Fields.insert k v fields) before = before ++ later := by
    intro later
    induction later with
    | nil => exact fun before _ => (List.append_nil before).symm
    | cons field later ih =>
      intro before sorted
      have greater : ∀ other ∈ before, other.1 < field.1 := fun other member =>
        (List.pairwise_append.1 sorted).2.2 other member field List.mem_cons_self
      have behind : Fields.insert field.1 field.2 before = before ++ [field] :=
        insert_of_greater greater field.2
      rw [List.append_cons] at sorted ⊢
      exact (congrArg (List.foldl _ · later) behind).trans (ih _ sorted)
  exact onward fields [] sorted

/-- Nothing stands under a name that is less than all names. -/
theorem get?_eq_none_of_lt {fields : List (String × α)} {key : String}
    (less : ∀ field ∈ fields, key < field.1) : get? fields key = none := by
  induction fields with
  | nil => rfl
  | cons field rest ih =>
    obtain ⟨k, v⟩ := field
    have differs : key ≠ k := fun h => String.lt_irrefl k (h ▸ less (k, v) (by simp))
    rw [get?_cons, if_neg differs]
    exact ih fun field h => less field (List.mem_cons_of_mem _ h)

/-- Two lists in order are equal if the same stands in them under every name. -/
theorem Sorted.ext {xs ys : List (String × α)} (sortedXs : Sorted xs) (sortedYs : Sorted ys)
    (same : ∀ key, get? xs key = get? ys key) : xs = ys := by
  induction xs generalizing ys with
  | nil =>
    cases ys with
    | nil => rfl
    | cons y ys => exact absurd (same y.1) (by simp [get?_cons])
  | cons x xs ih =>
    cases ys with
    | nil => exact absurd (same x.1) (by simp [get?_cons])
    | cons y ys =>
      obtain ⟨laterXs, restXs⟩ := List.pairwise_cons.1 sortedXs
      obtain ⟨laterYs, restYs⟩ := List.pairwise_cons.1 sortedYs
      have name : x.1 = y.1 := by
        rcases Decidable.em (x.1 = y.1) with h | differs
        · exact h
        · rcases Decidable.em (x.1 < y.1) with less | notLess
          · have absent : get? (y :: ys) x.1 = none := get?_eq_none_of_lt fun field h => by
              rcases List.mem_cons.1 h with rfl | h
              · exact less
              · exact String.lt_trans less (laterYs field h)
            exact absurd (same x.1) (by simp [absent, get?_cons])
          · have less : y.1 < x.1 := Std.lt_of_le_of_ne (String.not_lt.1 notLess) (Ne.symm differs)
            have absent : get? (x :: xs) y.1 = none := get?_eq_none_of_lt fun field h => by
              rcases List.mem_cons.1 h with rfl | h
              · exact less
              · exact String.lt_trans less (laterXs field h)
            exact absurd (same y.1) (by simp [absent, get?_cons])
      have value : x.2 = y.2 := by simpa [get?_cons, name] using same x.1
      have rest : xs = ys := ih restXs restYs fun key => by
        rcases Decidable.em (key = x.1) with rfl | differs
        · rw [get?_eq_none_of_lt laterXs, get?_eq_none_of_lt fun field h => name ▸ laterYs field h]
        · have here := same key
          rwa [get?_cons, get?_cons, if_neg differs, if_neg (name ▸ differs)] at here
      rw [show x = y from Prod.ext name value, rest]

end Fields

namespace Value

/-- An object from pairs in any order; of two with one name the later counts. -/
def ofPairs (pairs : List (String × Value)) : Value :=
  .obj (Fields.ofList pairs)

end Value

end LayeredConfig
