import LayeredConfig.Files.Document
/-!
# Documents are read in order

Readers put the fields of an object in the order of their names, whatever their order in the text.
So the tree of a document holds the very object that was read, and bringing that in order changes
nothing: `Tree.ofDocument_eq_ok_iff`.

For JSON the induction is on the depth to which values may nest: the items of an array and the
fields of an object are read by the reader for values that nest less deep. For YAML it is on the
node.
-/
namespace LayeredConfig

open Value (OrderedItems orderedItems_iff)

theorem bind_eq_ok_iff {ε α β : Type} {x : Except ε α} {f : α → Except ε β} {b : β} :
    x >>= f = .ok b ↔ ∃ a, x = .ok a ∧ f a = .ok b := by
  cases x <;> simp [bind, Except.bind]

/-! ### JSON -/

namespace Json

variable {item : List Char → Option (Value × List Char)} {v : Value} {text : String}

theorem ordered_numeral {n : Numeral} (reads : n.value = some v) : v.Ordered := by
  have scaled {o : Option Float} {f : Float → Float}
      (gives : o.map (fun x => .float (f x)) = some v) : v.Ordered := by
    obtain ⟨x, -, rfl⟩ := Option.map_eq_some_iff.1 gives
    trivial
  simp only [Numeral.value] at reads
  split at reads
  · by_cases short : (appendWhole 0 n.whole).2 = 0
    · rw [if_pos short] at reads
      split at reads
      · cases reads
        trivial
      · split at reads <;> cases reads <;> trivial
    · rw [if_neg short] at reads
      exact scaled reads
  · exact scaled reads

/-- Whatever the reader reads is in order. -/
def ReadsInOrder (item : List Char → Option (Value × List Char)) : Prop :=
  ∀ cs v rest, item cs = some (v, rest) → v.Ordered

theorem eq_of_literal {value : Value} {cs rest : List Char}
    (reads : literal text value cs = some (v, rest)) : v = value := by
  unfold literal at reads
  split at reads
  · cases reads
    rfl
  · cases reads

theorem ordered_itemsRest (inOrder : ReadsInOrder item) {fuel : Nat} {done items : List Value}
    {cs rest : List Char} (ordered : OrderedItems done)
    (reads : itemsRest item fuel done cs = some (items, rest)) : OrderedItems items := by
  fun_induction itemsRest item fuel done cs with
  | case3 fuel done _ v _ found _ _ ih => exact ih ⟨inOrder _ _ _ found, ordered⟩ reads
  | case4 fuel done _ v _ found =>
    -- the items were put in front of each other
    cases reads
    have all : OrderedItems (v :: done) := ⟨inOrder _ _ _ found, ordered⟩
    rw [orderedItems_iff] at all ⊢
    exact fun w member => all w (List.mem_reverse.1 member)
  | case1 | case2 | case5 => cases reads

theorem ordered_fieldsRest (inOrder : ReadsInOrder item) {fuel : Nat} {done fields : Fields}
    {cs rest : List Char} (ordered : (Value.obj done).Ordered)
    (reads : fieldsRest item fuel done cs = some (fields, rest)) : (Value.obj fields).Ordered := by
  fun_induction fieldsRest item fuel done cs with
  | case4 fuel done _ _ _ key _ _ _ _ v _ found _ _ ih =>
    exact ih (ordered.insert (inOrder _ _ _ found) key) reads
  | case5 fuel done _ _ _ key _ _ _ _ v _ found =>
    cases reads
    exact ordered.insert (inOrder _ _ _ found) key
  | case1 | case2 | case3 | case6 | case7 | case8 => cases reads

theorem value_readsInOrder (depth : Nat) : ReadsInOrder (value depth) := by
  induction depth using Nat.strongRecOn with
  | ind depth ih =>
    intro cs v rest reads
    fun_induction value depth cs with
    | case2 | case3 | case4 =>
      rw [eq_of_literal reads]
      trivial
    | case5 =>
      obtain ⟨found, -, same⟩ := Option.map_eq_some_iff.1 reads
      cases same
      trivial
    | case8 =>
      cases reads
      trivial
    | case12 =>
      cases reads
      exact Value.ordered_nil
    | case9 =>
      obtain ⟨⟨items, behind⟩, found, same⟩ := Option.map_eq_some_iff.1 reads
      cases same
      have nothing : OrderedItems [] := trivial
      exact ordered_itemsRest (ih _ (Nat.lt_succ_self _)) nothing found
    | case13 =>
      obtain ⟨⟨fields, behind⟩, found, same⟩ := Option.map_eq_some_iff.1 reads
      cases same
      exact ordered_fieldsRest (ih _ (Nat.lt_succ_self _)) Value.ordered_nil found
    | case14 =>
      obtain ⟨⟨n, behind⟩, -, reads⟩ := Option.bind_eq_some_iff.1 reads
      obtain ⟨w, value, same⟩ := Option.bind_eq_some_iff.1 reads
      cases same
      exact ordered_numeral value
    | case1 | case6 | case7 | case10 | case11 => cases reads

theorem ordered_read (reads : read text = some v) : v.Ordered := by
  unfold read readNested at reads
  split at reads
  next w rest found =>
    split at reads
    · cases reads
      exact value_readsInOrder depthLimit _ _ _ found
    · cases reads
  next => cases reads

end Json

/-! ### YAML -/

namespace Yaml

namespace Plain

theorem ordered_value? {text : String} {v : Value} (reads : value? text = some v) : v.Ordered := by
  simp only [value?] at reads
  split at reads
  · cases reads
    trivial
  · split at reads
    · cases reads
      trivial
    · split at reads
      · cases reads
        trivial
      · split at reads
        · split at reads <;> cases reads
          trivial
        · split at reads
          · cases reads
            trivial
          · cases reads
            cases float? text.toList <;> trivial

end Plain

mutual

/-- Maps become objects in order. -/
theorem Node.ordered_value? : ∀ {node : Node} {depth : Nat} {v : Value},
    node.value? depth = some v → v.Ordered
  | .scalar text plain, _, v, reads => by
    cases plain with
    | true => exact Plain.ordered_value? reads
    | false =>
      cases reads
      trivial
  | .list items, depth, v, reads => by
    rw [Node.value?] at reads
    split at reads
    · cases reads
    · obtain ⟨vs, found, rfl⟩ := Option.map_eq_some_iff.1 reads
      exact ordered_itemValues? found
  | .map pairs, depth, v, reads => by
    rw [Node.value?] at reads
    split at reads
    · cases reads
    · obtain ⟨found, given, rfl⟩ := Option.map_eq_some_iff.1 reads
      exact Value.ordered_ofPairs (ordered_pairValues? given)
termination_by structural node => node

theorem ordered_itemValues? : ∀ {items : List Node} {depth : Nat} {vs : List Value},
    itemValues? depth items = some vs → OrderedItems vs
  | [], _, _, reads => by
    cases reads
    trivial
  | item :: rest, depth, vs, reads => by
    obtain ⟨v, here, reads⟩ := Option.bind_eq_some_iff.1 reads
    obtain ⟨later, there, same⟩ := Option.bind_eq_some_iff.1 reads
    cases same
    exact ⟨Node.ordered_value? here, ordered_itemValues? there⟩
termination_by structural items => items

theorem ordered_pairValues? : ∀ {pairs : List (Node × Node)} {depth : Nat} {found : Fields},
    pairValues? depth pairs = some found → ∀ p ∈ found, p.2.Ordered
  | [], _, _, reads => by
    cases reads
    exact List.forall_mem_nil _
  | pair :: rest, depth, found, reads => by
    obtain ⟨p, here, reads⟩ := Option.bind_eq_some_iff.1 reads
    obtain ⟨later, there, same⟩ := Option.bind_eq_some_iff.1 reads
    cases same
    exact List.forall_mem_cons.2 ⟨ordered_pairValue? here, ordered_pairValues? there⟩
termination_by structural pairs => pairs

theorem ordered_pairValue? : ∀ {pair : Node × Node} {depth : Nat} {p : String × Value},
    pairValue? depth pair = some p → p.2.Ordered
  | (key, value), depth, p, reads => by
    obtain ⟨name, -, reads⟩ := Option.bind_eq_some_iff.1 reads
    obtain ⟨v, there, same⟩ := Option.bind_eq_some_iff.1 reads
    cases same
    exact Node.ordered_value? there
termination_by structural pair => pair

end

theorem ordered_read {text : String} {v : Value} (reads : read text = .ok v) : v.Ordered := by
  obtain ⟨tokens, -, reads⟩ := bind_eq_ok_iff.1 reads
  obtain ⟨⟨node, rest⟩, -, reads⟩ := bind_eq_ok_iff.1 reads
  dsimp only at reads
  split at reads
  · cases reads
  · next w value =>
    obtain ⟨_, -, same⟩ := bind_eq_ok_iff.1 reads
    cases same
    exact Node.ordered_value? value

end Yaml

/-! ### Trees -/

variable {extension content name : String} {v : Value} {t : Tree}

theorem Value.ordered_ofDocument (reads : Value.ofDocument extension content name = .ok v) :
    v.Ordered := by
  have fromYaml {f : Yaml.Failure → ConfigError}
      (reads : (Yaml.read content).mapError f = .ok v) : v.Ordered := by
    cases read : Yaml.read content with
    | error e =>
      rw [read] at reads
      cases reads
    | ok w =>
      rw [read] at reads
      cases reads
      exact Yaml.ordered_read read
  unfold Value.ofDocument at reads
  split at reads
  · exact fromYaml reads
  · exact fromYaml reads
  · split at reads
    · next w read =>
      cases reads
      exact Json.ordered_read read
    · cases reads
  · cases reads

namespace Tree

theorem ofValueAt_eq_ok_iff (ordered : v.Ordered) :
    ofValueAt name v = .ok t ↔ v = t.toValue ∨ v = .null ∧ t = empty := by
  cases v with
  | obj fields =>
    rw [ofValueAt, ofFields_of_ordered ordered, Except.ok.injEq]
    constructor
    · rintro rfl
      exact .inl rfl
    · rintro (same | ⟨null, -⟩)
      · exact toValue_injective same
      · cases null
  | null =>
    constructor
    · intro same
      exact .inr ⟨rfl, (Except.ok.inj same).symm⟩
    · rintro (same | ⟨-, rfl⟩)
      · cases same
      · rfl
  | _ =>
    constructor
    · intro same
      cases same
    · rintro (same | ⟨null, -⟩)
      · cases same
      · cases null

/-- The tree of a document is the object that was read, or the tree without fields if null was. -/
theorem ofDocument_eq_ok_iff : ofDocument extension content name = .ok t ↔
    ∃ v, Value.ofDocument extension content name = .ok v ∧
      (v = t.toValue ∨ v = .null ∧ t = empty) := by
  rw [ofDocument, bind_eq_ok_iff]
  refine exists_congr fun v => and_congr_right fun reads => ?_
  exact ofValueAt_eq_ok_iff (Value.ordered_ofDocument reads)

end Tree

end LayeredConfig
