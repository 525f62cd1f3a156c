import LayeredConfig.Environment.Nesting
import LayeredConfig.Proofs.LastWriter
import LayeredConfig.Proofs.Texts
/-!
# The tree that variables describe

Every variable whose name begins with the prefix leads to a place in a tree. At a place beyond which
some variable leads stands an object, however the variables came; at any other stands the value of
the last variable that leads right there, or nothing. So as long as no two variables lead to the
same place, the order in which they come does not matter.

One insertion is understood by induction over its path: it makes objects of what is on its way,
leaves an object at its end alone, and touches nothing else. The rest is an induction over the
variables.
-/
namespace LayeredConfig

namespace Value

/-- What a text stands for is no object. -/
theorem isObject_ofText (text : String) : (ofText text).isObject = false := by
  unfold ofText
  split <;> rfl

end Value

/-- A path leads on beyond the end of another. -/
def Beyond (path longer : List String) : Prop := path <+: longer ∧ path ≠ longer

namespace Fields

/-! ### One insertion -/

variable {fields : Fields} {key other : String} {path rest : List String} {value : Value}

theorem at?_of_get? (field : get? fields key = some value) (rest : List String) :
    (Value.obj fields).at? (key :: rest) = value.at? rest :=
  Value.at?_cons_of_get? (v := .obj fields) field

theorem at?_of_missing (missing : get? fields key = none) (rest : List String) :
    (Value.obj fields).at? (key :: rest) = none :=
  Value.at?_cons_of_missing (v := .obj fields) missing

theorem at?_below (fields : Fields) (key : String) (nonempty : path ≠ []) :
    (Value.obj (below fields key)).at? path = (Value.obj fields).at? (key :: path) := by
  have nothing : (Value.obj []).at? path = none := by
    obtain ⟨first, rest, rfl⟩ := List.exists_cons_of_ne_nil nonempty
    exact at?_of_missing rfl rest
  unfold below
  cases field : get? fields key with
  | none => rw [at?_of_missing field, nothing]
  | some v =>
    rw [at?_of_get? field]
    cases v with
    | obj inner => rfl
    | _ => rw [nothing, Value.at?_of_leaf rfl nonempty]

theorem get?_insertAt_of_ne (differs : other ≠ key) :
    get? (insertAt (key :: rest) value fields) other = get? fields other := by
  cases rest with
  | nil =>
    simp only [insertAt]
    split
    · rfl
    · exact get?_insert_of_ne differs fields value
  | cons next rest => exact get?_insert_of_ne differs fields _

theorem get?_insertAt_end (fields : Fields) (key : String) (value : Value) :
    get? (insertAt [key] value fields) key =
    match get? fields key with
    | some (.obj inner) => some (.obj inner)
    | _ => some value := by
  cases field : get? fields key with
  | none => simp [insertAt, field]
  | some v => cases v <;> simp [insertAt, field]

theorem get?_insertAt_cons (fields : Fields) (key next : String) (rest : List String)
    (value : Value) : get? (insertAt (key :: next :: rest) value fields) key =
      some (.obj (insertAt (next :: rest) value (below fields key))) :=
  get?_insert_self fields key _

/-- What inserting a value at the end of `path` makes of what stood at another path. -/
structure Inserted (path : List String) (value : Value) (fields : Fields) (place : List String) :
    Prop where
  -- On the way an object is made if there is none.
  above : Beyond place path →
    ∃ inner, (Value.obj (insertAt path value fields)).at? place = some (.obj inner)
  -- At the end the value gives way to an object.
  kept : place = path → ∀ inner, (Value.obj fields).at? place = some (.obj inner) →
    (Value.obj (insertAt path value fields)).at? place = some (.obj inner)
  placed : place = path → (∀ inner, (Value.obj fields).at? place ≠ some (.obj inner)) →
    (Value.obj (insertAt path value fields)).at? place = some value
  -- Everything else stays.
  aside : ¬ place <+: path →
    (Value.obj (insertAt path value fields)).at? place = (Value.obj fields).at? place

/-- At the end of its path a value is inserted into the fields at hand. -/
theorem inserted_end (leaf : value.isObject = false) (fields : Fields) (key : String)
    (place : List String) : Inserted [key] value fields (key :: place) := by
  have found := get?_insertAt_end fields key value
  constructor
  · rintro ⟨leads, unequal⟩
    obtain rfl := List.prefix_nil.1 (List.cons_prefix_cons.1 leads).2
    exact absurd rfl unequal
  · intro same inner here
    obtain rfl : place = [] := (List.cons.inj same).2
    cases field : get? fields key with
    | none => rw [at?_of_missing field] at here; cases here
    | some v =>
      rw [at?_of_get? field] at here
      obtain rfl := Option.some.inj here
      rw [field] at found
      exact at?_of_get? found []
  · intro same noObject
    obtain rfl : place = [] := (List.cons.inj same).2
    refine at?_of_get? (found.trans ?_) []
    cases field : get? fields key with
    | none => rfl
    | some v =>
      cases v with
      | obj inner => exact absurd (at?_of_get? field []) (noObject inner)
      | _ => rfl
  · intro beside
    have nonempty : place ≠ [] := by
      rintro rfl
      exact beside (List.prefix_refl [key])
    have nothing := Value.at?_of_leaf leaf nonempty
    cases field : get? fields key with
    | none =>
      rw [field] at found
      rw [at?_of_get? found, at?_of_missing field, nothing]
    | some v =>
      rw [field] at found
      cases v with
      | obj inner => rw [at?_of_get? found, at?_of_get? field]
      | _ => rw [at?_of_get? found, at?_of_get? field, nothing, Value.at?_of_leaf rfl nonempty]

/-- Objects on the way are entered one after the other, so this is an induction on the path. -/
theorem inserted (leaf : value.isObject = false) (path : List String) (fields : Fields)
    {place : List String} (nonempty : place ≠ []) : Inserted path value fields place := by
  induction path generalizing fields place with
  | nil =>
    have nowhere : ¬ place <+: [] := fun leads => nonempty (List.prefix_nil.1 leads)
    exact ⟨fun leads => absurd leads.1 nowhere, fun same => absurd same nonempty,
      fun same => absurd same nonempty, fun _ => rfl⟩
  | cons key rest ih =>
    obtain ⟨first, place, rfl⟩ := List.exists_cons_of_ne_nil nonempty
    rcases Decidable.em (first = key) with rfl | differs
    · cases rest with
      | nil => exact inserted_end leaf fields first place
      | cons next rest =>
        have found := get?_insertAt_cons fields first next rest value
        rcases Decidable.em (place = []) with rfl | nonempty
        · -- here an object is made
          refine ⟨fun _ => ⟨_, at?_of_get? found []⟩, nofun, nofun, fun beyond => ?_⟩
          exact absurd (List.prefix_append [first] (next :: rest)) beyond
        · have deeper := ih (below fields first) nonempty
          have new := at?_of_get? found place
          have old := at?_below fields first nonempty
          constructor
          · rintro ⟨leads, unequal⟩
            rw [new]
            refine deeper.above ⟨(List.cons_prefix_cons.1 leads).2, ?_⟩
            rintro rfl
            exact unequal rfl
          · intro same inner
            rw [new, ← old]
            exact deeper.kept (List.cons.inj same).2 inner
          · intro same
            rw [new, ← old]
            exact deeper.placed (List.cons.inj same).2
          · intro beside
            rw [new, ← old]
            refine deeper.aside fun leads => beside ?_
            exact List.cons_prefix_cons.2 ⟨rfl, leads⟩
    · have nowhere : ¬ first :: place <+: key :: rest := fun leads =>
        differs (List.cons_prefix_cons.1 leads).1
      have unequal : first :: place ≠ key :: rest := fun same => differs (List.cons.inj same).1
      refine ⟨fun leads => absurd leads.1 nowhere, fun same => absurd same unequal,
        fun same => absurd same unequal, fun _ => ?_⟩
      simp only [Value.at?, Value.fields, get?_insertAt_of_ne differs]

end Fields

namespace EnvSource

/-! ### All variables -/

/-- Where a variable leads: behind the prefix its name is cut at the separator, and the pieces that
are not empty are taken in small letters. -/
def Leads (s : EnvSource) (name : String) (path : List String) : Prop :=
  ∃ rest pieces, name.toList = s.leader.toList ++ rest ∧
    Text.Cut s.separator.toList rest pieces ∧
    path = (pieces.map fun piece => Text.lowerAscii (String.ofList piece)).filter (!·.isEmpty)

variable {s : EnvSource} {vars vars' : List (String × String)} {v : String × String}
  {fields : Fields} {name : String} {path : List String}

theorem leads_iff (cuts : s.separator ≠ "") : s.Leads name path ↔ s.keyPath? name = some path := by
  have nonempty : s.separator.toList ≠ [] := by simpa using cuts
  simp only [Leads, keyPath?, Option.map_eq_some_iff, Text.stripLead_eq_some_iff,
    ← Text.splitSeq_eq_iff nonempty]
  constructor
  · rintro ⟨rest, pieces, split, rfl, rfl⟩
    exact ⟨rest, split, rfl⟩
  · rintro ⟨rest, split, rfl⟩
    exact ⟨rest, _, split, rfl, rfl⟩

theorem addVariable_eq (s : EnvSource) (fields : Fields) (v : String × String) :
    s.addVariable fields v =
      Fields.insertAt ((s.keyPath? v.1).getD []) (Value.ofText v.2) fields := by
  unfold addVariable
  cases s.keyPath? v.1 with
  | none => rfl
  | some path => rfl

/-- Some of the variables leads on beyond a path. -/
def Extended (s : EnvSource) (vars : List (String × String)) (path : List String) : Prop :=
  ∃ v ∈ vars, ∃ longer, s.keyPath? v.1 = some longer ∧ Beyond path longer

/-- What stands at a path once variables were added, the last one last. -/
structure Built (s : EnvSource) (vars : List (String × String)) (fields : Fields)
    (path : List String) : Prop where
  nested : s.Extended vars path → ∃ inner, (Value.obj fields).at? path = some (.obj inner)
  flat : ¬ s.Extended vars path → ∀ inner, (Value.obj fields).at? path ≠ some (.obj inner)
  last : ¬ s.Extended vars path → (∃ v ∈ vars, s.keyPath? v.1 = some path) →
    ∃ before v after, vars = before ++ v :: after ∧ s.keyPath? v.1 = some path ∧
      (∀ w ∈ after, s.keyPath? w.1 ≠ some path) ∧
      (Value.obj fields).at? path = some (Value.ofText v.2)
  nothing : ¬ s.Extended vars path → (∀ v ∈ vars, s.keyPath? v.1 ≠ some path) →
    (Value.obj fields).at? path = none

theorem extended_concat : s.Extended (vars ++ [v]) path ↔
    s.Extended vars path ∨ ∃ longer, s.keyPath? v.1 = some longer ∧ Beyond path longer := by
  simp [Extended, or_and_right, exists_or]

/-- One more variable. It leads beyond the path, or right there, or elsewhere. -/
theorem Built.add (built : s.Built vars fields path) (nonempty : path ≠ [])
    (v : String × String) : s.Built (vars ++ [v]) (s.addVariable fields v) path := by
  rw [addVariable_eq]
  have inserted := Fields.inserted (Value.isObject_ofText v.2) ((s.keyPath? v.1).getD []) fields
    nonempty
  by_cases beyond : ∃ longer, s.keyPath? v.1 = some longer ∧ Beyond path longer
  · have extended : s.Extended (vars ++ [v]) path := extended_concat.2 (.inr beyond)
    obtain ⟨longer, leads, beyond⟩ := beyond
    rw [leads] at inserted ⊢
    exact ⟨fun _ => inserted.above beyond, absurd extended, absurd extended, absurd extended⟩
  · have before (extended : s.Extended (vars ++ [v]) path) : s.Extended vars path :=
      (extended_concat.1 extended).resolve_right beyond
    have after (extended : s.Extended vars path) : s.Extended (vars ++ [v]) path :=
      extended_concat.2 (.inl extended)
    by_cases here : s.keyPath? v.1 = some path
    · rw [here] at inserted ⊢
      have placed (free : ¬ s.Extended (vars ++ [v]) path) :=
        inserted.placed rfl (built.flat fun extended => free (after extended))
      constructor
      · intro extended
        obtain ⟨inner, there⟩ := built.nested (before extended)
        exact ⟨inner, inserted.kept rfl inner there⟩
      · intro free inner there
        have leaf := Value.isObject_ofText v.2
        rw [Option.some.inj ((placed free).symm.trans there)] at leaf
        cases leaf
      · exact fun free _ => ⟨vars, v, [], rfl, here, List.forall_mem_nil _, placed free⟩
      · exact fun _ elsewhere => absurd here (elsewhere v (by simp))
    · have same := inserted.aside fun leads => by
        cases leadsTo : s.keyPath? v.1 with
        | none =>
          rw [leadsTo] at leads
          exact nonempty (List.prefix_nil.1 leads)
        | some longer =>
          rw [leadsTo] at leads
          refine beyond ⟨longer, leadsTo, leads, ?_⟩
          rintro rfl
          exact here leadsTo
      constructor
      · intro extended
        rw [same]
        exact built.nested (before extended)
      · intro free
        rw [same]
        exact built.flat fun extended => free (after extended)
      · rintro free ⟨w, member, leads⟩
        have among : w ∈ vars := by
          rcases List.mem_append.1 member with among | among
          · exact among
          · obtain rfl := List.mem_singleton.1 among
            exact absurd leads here
        obtain ⟨front, u, back, rfl, leads, others, there⟩ :=
          built.last (fun extended => free (after extended)) ⟨w, among, leads⟩
        refine ⟨front, u, back ++ [v], by simp, leads, ?_, same.trans there⟩
        exact List.forall_mem_append.2 ⟨others, by simpa using here⟩
      · intro free elsewhere
        rw [same]
        exact built.nothing (fun extended => free (after extended)) fun w among =>
          elsewhere w (List.mem_append_left _ among)

theorem root_treeFrom_concat (s : EnvSource) (vars : List (String × String))
    (v : String × String) :
    (s.treeFrom (vars ++ [v])).root = s.addVariable (s.treeFrom vars).root v := by
  simp [treeFrom]

theorem built (s : EnvSource) (vars : List (String × String)) (nonempty : path ≠ []) :
    s.Built vars (s.treeFrom vars).root path := by
  induction vars using List.reverseRecOn with
  | nil =>
    have free : ¬ s.Extended [] path := by
      rintro ⟨v, member, -⟩
      cases member
    have nothing : (Value.obj (s.treeFrom []).root).at? path = none := by
      obtain ⟨first, rest, rfl⟩ := List.exists_cons_of_ne_nil nonempty
      exact Fields.at?_of_missing rfl rest
    refine ⟨fun extended => absurd extended free, fun _ inner there => ?_, ?_, fun _ _ => nothing⟩
    · cases nothing.symm.trans there
    · rintro - ⟨v, member, -⟩
      cases member
  | append_singleton vars v ih =>
    rw [root_treeFrom_concat]
    exact ih.add nonempty v

/-- If no two variables lead to the same place, any order gives the same tree. -/
theorem treeFrom_perm (perm : vars'.Perm vars) (apart : ∀ v ∈ vars, ∀ w ∈ vars, ∀ path ≠ [],
    s.keyPath? v.1 = some path → s.keyPath? w.1 = some path → v = w) :
    s.treeFrom vars' = s.treeFrom vars := by
  have extended (path : List String) : s.Extended vars' path ↔ s.Extended vars path := by
    simp only [Extended, perm.mem_iff]
  have same : Value.obj (s.treeFrom vars').root = .obj (s.treeFrom vars).root := by
    refine Value.Ordered.ext (s.treeFrom vars').ordered (s.treeFrom vars).ordered fun path => ?_
    rcases Decidable.em (path = []) with rfl | nonempty
    · exact .inr ⟨_, _, rfl, rfl⟩
    · have left := s.built vars' nonempty
      have right := s.built vars nonempty
      by_cases beyond : s.Extended vars path
      · obtain ⟨inner, here⟩ := left.nested ((extended path).2 beyond)
        obtain ⟨inner', there⟩ := right.nested beyond
        exact .inr ⟨inner, inner', here, there⟩
      · have beyond' : ¬ s.Extended vars' path := fun more => beyond ((extended path).1 more)
        left
        by_cases led : ∃ v ∈ vars, s.keyPath? v.1 = some path
        · have led' : ∃ v ∈ vars', s.keyPath? v.1 = some path := by
            simpa only [perm.mem_iff] using led
          obtain ⟨front, v, back, rfl, leads, -, here⟩ := right.last beyond led
          obtain ⟨front', v', back', rfl, leads', -, there⟩ := left.last beyond' led'
          have alone : v' = v :=
            apart v' (perm.mem_iff.1 (by simp)) v (by simp) path nonempty leads' leads
          rw [there, here, alone]
        · have elsewhere : ∀ v ∈ vars, s.keyPath? v.1 ≠ some path := fun v member leads =>
            led ⟨v, member, leads⟩
          have elsewhere' : ∀ v ∈ vars', s.keyPath? v.1 ≠ some path := fun v member =>
            elsewhere v (perm.mem_iff.1 member)
          exact (left.nothing beyond' elsewhere').trans (right.nothing beyond elsewhere).symm
  exact Tree.toValue_injective same

/-- What the variables of an environment say about a path is what stands there. -/
structure Describes (s : EnvSource) (path : List String) : Prop where
  -- If some variable leads on beyond the path, it is the path of an object.
  nested : (∃ v ∈ s.env.vars, ∃ longer, s.Leads v.1 longer ∧ Beyond path longer) →
    ∃ fields, s.tree.at? path = some (.obj fields)
  -- Otherwise the last of the variables that lead to it says what stands there.
  last : (¬ ∃ v ∈ s.env.vars, ∃ longer, s.Leads v.1 longer ∧ Beyond path longer) →
    (∃ v ∈ s.env.vars, s.Leads v.1 path) → ∃ v ∈ s.env.vars, s.Leads v.1 path ∧
      (∀ w ∈ s.env.vars, s.Leads w.1 path → Text.bytes w.1 ≤ Text.bytes v.1) ∧
      s.tree.at? path = some (Value.ofText v.2)
  nothing : (¬ ∃ v ∈ s.env.vars, ∃ longer, s.Leads v.1 longer ∧ Beyond path longer) →
    (∀ v ∈ s.env.vars, ¬ s.Leads v.1 path) → s.tree.at? path = none

/-- Of the variables of an environment the one behind all others has the greatest name. -/
theorem bytes_le_of_behind {env : Environment} {front back : List (String × String)}
    (split : env.vars = front ++ v :: back) {w : String × String} (member : w ∈ env.vars)
    (notBehind : w ∉ back) : Text.bytes w.1 ≤ Text.bytes v.1 := by
  have sorted := env.sorted
  rw [split] at sorted member
  rw [Text.bytes_le_bytes_iff]
  rcases List.mem_append.1 member with before | among
  · have less : w.1 < v.1 := (List.pairwise_append.1 sorted).2.2 w before v List.mem_cons_self
    exact Std.le_of_lt less
  · rcases List.mem_cons.1 among with rfl | behind
    · exact String.le_refl _
    · exact absurd behind notBehind

theorem describes (cuts : s.separator ≠ "") (nonempty : path ≠ []) : s.Describes path := by
  have built := s.built s.env.vars nonempty
  have place : s.tree.at? path = (Value.obj (s.treeFrom s.env.vars).root).at? path := by
    obtain ⟨first, rest, rfl⟩ := List.exists_cons_of_ne_nil nonempty
    rfl
  constructor <;> simp only [leads_iff cuts, place]
  · exact built.nested
  · intro free led
    obtain ⟨front, v, back, split, leads, others, here⟩ := built.last free led
    refine ⟨v, by simp [split], leads, fun w member leads' => ?_, here⟩
    exact bytes_le_of_behind split member fun behind => others w behind leads'
  · exact built.nothing

/-- Variables describe the tree, and the order in which they are taken matters only for those that
lead to the same place. -/
theorem variables_describe_tree (s : EnvSource) (cuts : s.separator ≠ "") :
    (∀ path ≠ [], s.Describes path) ∧
      ((∀ v ∈ s.env.vars, ∀ w ∈ s.env.vars, ∀ path ≠ [],
          s.Leads v.1 path → s.Leads w.1 path → v = w) →
        ∀ vars, vars.Perm s.env.vars → s.treeFrom vars = s.tree) := by
  refine ⟨fun path nonempty => describes cuts nonempty, fun apart vars perm => ?_⟩
  simp only [leads_iff cuts] at apart
  exact treeFrom_perm perm apart

/-- A variable gives way to one that leads on beyond it, in whichever order they are taken. -/
theorem nested_variable_wins :
    let s : EnvSource := { env := .ofList [("APP_DB", "local"), ("APP_DB__HOST", "far")] }
    s.separator ≠ "" ∧ (∃ fields, s.tree.at? ["db"] = some (.obj fields)) ∧
      ∀ vars, vars.Perm s.env.vars → s.treeFrom vars = s.tree := by
  intro s
  have cuts : s.separator ≠ "" := by decide
  have ofShort : s.keyPath? "APP_DB" = some ["db"] := by decide
  have ofLong : s.keyPath? "APP_DB__HOST" = some ["db", "host"] := by decide
  have vars : s.env.vars = [("APP_DB", "local"), ("APP_DB__HOST", "far")] := by decide
  obtain ⟨describes, orderless⟩ := variables_describe_tree s cuts
  refine ⟨cuts, ?_, orderless ?_⟩
  · refine (describes ["db"] (by simp)).nested ⟨("APP_DB__HOST", "far"), by simp [vars], ?_⟩
    exact ⟨_, (leads_iff cuts).2 ofLong, by decide, by simp⟩
  · rintro v among w among' path - leads leads'
    rw [leads_iff cuts] at leads leads'
    simp only [vars, List.mem_cons, List.not_mem_nil, or_false] at among among'
    rcases among with rfl | rfl <;> rcases among' with rfl | rfl
    · rfl
    · cases ofShort.symm.trans (leads.trans (leads'.symm.trans ofLong))
    · cases ofShort.symm.trans (leads'.trans (leads.symm.trans ofLong))
    · rfl

end EnvSource

end LayeredConfig
