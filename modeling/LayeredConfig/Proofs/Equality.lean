import LayeredConfig.Live.Extractor
import Mathlib.Data.List.Forall2
/-!
# Values that are taken for equal

Trees and values are compared structurally, and floating-point numbers as numbers: the two zeros are
equal, and what is not a number equals nothing, not even itself. Values that are taken for equal
need not be the same, then. But nothing that is compared with them can tell them apart, and neither
can the rules by which derived cells usually follow a tree: `Extractor.Usual.respects`.
-/
namespace LayeredConfig

/-- Whatever is compared with the two, they answer alike. -/
def Interchangeable {α : Type} [BEq α] (a b : α) : Prop := ∀ c, (a == c) = (b == c)

namespace Interchangeable

variable {α : Type} [BEq α] {a b c : α}

theorem refl (a : α) : Interchangeable a a := fun _ => rfl

theorem symm (same : Interchangeable a b) : Interchangeable b a := fun c => (same c).symm

theorem trans (first : Interchangeable a b) (second : Interchangeable b c) : Interchangeable a c :=
  fun d => (first d).trans (second d)

theorem lift (same : Interchangeable a b) : Interchangeable (some a) (some b)
  | .none => rfl
  | .some c => same c

end Interchangeable

/-! ### Numbers -/

section Numbers

open Float.Model (UnpackedFloat)

/-- Numbers that compare as equal are the same but for the sign of zero. -/
theorem compare_of_eq {x y : UnpackedFloat} (same : x.compare y = some .eq) :
    x = y ∨ (∃ s, x = .zero s) ∧ ∃ s, y = .zero s := by
  cases x with
  | notANumber => cases same
  | infinity s =>
    cases y with
    | notANumber => cases same
    | infinity t => cases s <;> cases t <;> first | exact .inl rfl | cases same
    | zero | finite => cases s <;> cases same
  | zero s =>
    cases y with
    | notANumber => cases same
    | infinity t | finite t => cases t <;> cases same
    | zero t => exact .inr ⟨⟨s, rfl⟩, t, rfl⟩
  | finite s m e =>
    have parts {m' : Nat} {e' : Int} (h : (compare e e').then (compare m m') = .eq) :
        m = m' ∧ e = e' := by
      rw [Ordering.then_eq_eq] at h
      exact ⟨Std.LawfulEqCmp.eq_of_compare h.2, Std.LawfulEqCmp.eq_of_compare h.1⟩
    cases y with
    | notANumber => cases same
    | infinity t => cases t <;> cases same
    | zero => cases s <;> cases same
    | finite t m' e' =>
      refine .inl ?_
      cases s <;> cases t
      · obtain ⟨rfl, rfl⟩ := parts (Ordering.swap_eq_eq.mp (Option.some_inj.mp same))
        rfl
      · cases same
      · cases same
      · obtain ⟨rfl, rfl⟩ := parts (Option.some_inj.mp same)
        rfl

theorem compare_zero (s t : UnpackedFloat.Sign) (z : UnpackedFloat) :
    (UnpackedFloat.zero s).compare z = (UnpackedFloat.zero t).compare z := by
  cases z with
  | notANumber | zero => rfl
  | infinity sign | finite sign => cases sign <;> rfl

theorem Interchangeable.float {x y : Float} (same : (x == y) = true) : Interchangeable x y := by
  intro z
  have equal : x.toModel.unpack.compare y.toModel.unpack = some .eq := eq_of_beq same
  change (x.toModel.unpack.compare z.toModel.unpack == some .eq) =
    (y.toModel.unpack.compare z.toModel.unpack == some .eq)
  rcases compare_of_eq equal with equal | ⟨⟨s, zero⟩, t, zero'⟩
  · rw [equal]
  · rw [zero, zero', compare_zero s t]

end Numbers

/-! ### Values -/

/-- Things that are related and have the same name. -/
inductive Named {α : Type} (R : α → α → Prop) : String × α → String × α → Prop where
  | mk (name : String) {a b : α} (related : R a b) : Named R (name, a) (name, b)

namespace Value

/-- The two values differ at most in floating-point numbers that are interchangeable. -/
inductive Alike : Value → Value → Prop where
  | null : Alike .null .null
  | bool (b : Bool) : Alike (.bool b) (.bool b)
  | int (i : Int) : Alike (.int i) (.int i)
  | float {x y : Float} (same : Interchangeable x y) : Alike (.float x) (.float y)
  | str (s : String) : Alike (.str s) (.str s)
  | arr {as bs : List Value} (items : List.Forall₂ Alike as bs) : Alike (.arr as) (.arr bs)
  | obj {as bs : Fields} (fields : List.Forall₂ (Named Alike) as bs) : Alike (.obj as) (.obj bs)

mutual

theorem Alike.refl : ∀ v : Value, Alike v v
  | .null => .null
  | .bool b => .bool b
  | .int i => .int i
  | .float x => .float (.refl x)
  | .str s => .str s
  | .arr items => .arr (alikeItems_refl items)
  | .obj fields => .obj (alikeFields_refl fields)
termination_by structural v => v

theorem alikeItems_refl : ∀ items : List Value, List.Forall₂ Alike items items
  | [] => .nil
  | v :: rest => .cons (Alike.refl v) (alikeItems_refl rest)
termination_by structural items => items

theorem alikeFields_refl : ∀ fields : Fields, List.Forall₂ (Named Alike) fields fields
  | [] => .nil
  | (k, v) :: rest => .cons (.mk k (Alike.refl v)) (alikeFields_refl rest)
termination_by structural fields => fields

end

mutual

/-- Values that are taken for equal are alike. -/
theorem Alike.of_same : ∀ {v w : Value}, same v w = true → Alike v w
  | .null, .null, _ => .null
  | .bool a, .bool b, h => by
    obtain rfl : a = b := eq_of_beq h
    exact .bool a
  | .int i, .int j, h => by
    obtain rfl : i = j := eq_of_beq h
    exact .int i
  | .float x, .float y, h => .float (.float h)
  | .str s, .str t, h => by
    obtain rfl : s = t := eq_of_beq h
    exact .str s
  | .arr as, .arr bs, h => .arr (alikeItems_of_same h)
  | .obj as, .obj bs, h => .obj (alikeFields_of_same h)
termination_by structural v => v

theorem alikeItems_of_same : ∀ {as bs : List Value}, sameItems as bs = true →
    List.Forall₂ Alike as bs
  | [], [], _ => .nil
  | a :: as, b :: bs, h => by
    rw [sameItems, Bool.and_eq_true] at h
    exact .cons (Alike.of_same h.1) (alikeItems_of_same h.2)
termination_by structural items => items

theorem alikeFields_of_same : ∀ {as bs : Fields}, sameFields as bs = true →
    List.Forall₂ (Named Alike) as bs
  | [], [], _ => .nil
  | (k, a) :: as, (l, b) :: bs, h => by
    rw [sameFields, Bool.and_eq_true, Bool.and_eq_true] at h
    obtain rfl : k = l := eq_of_beq h.1.1
    exact .cons (.mk k (Alike.of_same h.1.2)) (alikeFields_of_same h.2)
termination_by structural fields => fields

end

mutual

/-- Nothing tells alike values apart. -/
theorem Alike.interchangeable : ∀ {v w : Value}, Alike v w → ∀ u, same v u = same w u
  | _, _, .null, _ | _, _, .bool _, _ | _, _, .int _, _ | _, _, .str _, _ => rfl
  | .float _, _, .float equal, u => by
    cases u with
    | float z => exact equal z
    | _ => rfl
  | .arr _, _, .arr items, u => by
    cases u with
    | arr cs => exact sameItems_of_alike items cs
    | _ => rfl
  | .obj _, _, .obj fields, u => by
    cases u with
    | obj cs => exact sameFields_of_alike fields cs
    | _ => rfl
termination_by structural v => v

theorem sameItems_of_alike : ∀ {as bs : List Value}, List.Forall₂ Alike as bs →
    ∀ cs, sameItems as cs = sameItems bs cs
  | [], _, .nil, _ => rfl
  | _ :: _, _, .cons _ _, [] => rfl
  | a :: as, _, .cons first rest, c :: cs => by
    rw [sameItems, sameItems, Alike.interchangeable first c, sameItems_of_alike rest cs]
termination_by structural items => items

theorem sameFields_of_alike : ∀ {as bs : Fields}, List.Forall₂ (Named Alike) as bs →
    ∀ cs, sameFields as cs = sameFields bs cs
  | [], _, .nil, _ => rfl
  | _ :: _, _, .cons (.mk _ _) _, [] => rfl
  | (k, a) :: as, _, .cons (.mk _ first) rest, (l, c) :: cs => by
    rw [sameFields, sameFields, Alike.interchangeable first c, sameFields_of_alike rest cs]
termination_by structural fields => fields

end

end Value

/-- What is taken for equal is interchangeable. -/
theorem Interchangeable.of_beq {a b : Option Value} (same : (a == b) = true) :
    Interchangeable a b := by
  cases a with
  | none =>
    cases b with
    | none => exact .refl _
    | some => cases same
  | some v =>
    cases b with
    | none => cases same
    | some w =>
      have alike : v.Alike w := .of_same same
      exact lift alike.interchangeable

/-! ### What stands in values -/

section Lists

variable {α : Type} {R : α → α → Prop}

theorem getElem?_related {as bs : List α} (items : List.Forall₂ R as bs) (i : Nat) :
    Option.Rel R as[i]? bs[i]? := by
  induction items generalizing i with
  | nil => exact .none
  | cons first _ ih =>
    cases i with
    | zero => exact .some first
    | succ i => exact ih i

theorem Fields.get?_related {as bs : List (String × α)} (fields : List.Forall₂ (Named R) as bs)
    (key : String) : Option.Rel R (Fields.get? as key) (Fields.get? bs key) := by
  induction fields with
  | nil => exact .none
  | cons first _ ih =>
    obtain ⟨name, related⟩ := first
    rw [Fields.get?_cons, Fields.get?_cons]
    split
    · exact .some related
    · exact ih

theorem Fields.insert_related {as bs : List (String × α)} (fields : List.Forall₂ (Named R) as bs)
    (key : String) {a b : α} (related : R a b) :
    List.Forall₂ (Named R) (Fields.insert key a as) (Fields.insert key b bs) := by
  induction fields with
  | nil => exact .cons (.mk key related) .nil
  | cons first rest ih =>
    obtain ⟨name, first⟩ := first
    rw [Fields.insert, Fields.insert]
    split
    · exact .cons (.mk key related) rest
    · split
      · exact .cons (.mk key related) (.cons (.mk name first) rest)
      · exact .cons (.mk name first) ih

theorem Fields.ofList_related {as bs : List (String × α)} (pairs : List.Forall₂ (Named R) as bs) :
    List.Forall₂ (Named R) (Fields.ofList as) (Fields.ofList bs) := by
  refine List.rel_foldl (P := List.Forall₂ (Named R)) (fun xs ys fields a b field => ?_) .nil pairs
  obtain ⟨name, related⟩ := field
  exact Fields.insert_related fields name related

end Lists

namespace Value

theorem Alike.step? {v w : Value} (alike : Alike v w) (segment : String) :
    Option.Rel Alike (v.step? segment) (w.step? segment) := by
  cases alike with
  | obj fields => exact Fields.get?_related fields segment
  | arr items =>
    rw [Value.step?, Value.step?]
    cases arrayIndex? segment with
    | none => exact .none
    | some i => exact getElem?_related items i
  | _ => exact .none

theorem Alike.walk? {v w : Value} (alike : Alike v w) (segments : List String) :
    Option.Rel Alike (v.walk? segments) (w.walk? segments) := by
  induction segments generalizing v w with
  | nil => exact .some alike
  | cons segment rest ih =>
    rw [Value.walk?, Value.walk?]
    have next := alike.step? segment
    generalize v.step? segment = found, w.step? segment = found' at next
    cases next with
    | none => exact .none
    | some next => exact ih next

mutual

theorem Alike.mapKeys (f : String → String) : ∀ {v w : Value}, Alike v w →
    Alike (v.mapKeys f) (w.mapKeys f)
  | _, _, .null => .null
  | _, _, .bool b => .bool b
  | _, _, .int i => .int i
  | _, _, .float equal => .float equal
  | _, _, .str s => .str s
  | .arr _, _, .arr items => .arr (mapItemKeys_alike f items)
  | .obj _, _, .obj fields => .obj (Fields.ofList_related (mapFieldKeys_alike f fields))
termination_by structural v => v

theorem mapItemKeys_alike (f : String → String) : ∀ {as bs : List Value},
    List.Forall₂ Alike as bs → List.Forall₂ Alike (mapItemKeys f as) (mapItemKeys f bs)
  | [], _, .nil => .nil
  | _ :: _, _, .cons first rest => .cons (first.mapKeys f) (mapItemKeys_alike f rest)
termination_by structural items => items

theorem mapFieldKeys_alike (f : String → String) : ∀ {as bs : Fields},
    List.Forall₂ (Named Alike) as bs →
    List.Forall₂ (Named Alike) (mapFieldKeys f as) (mapFieldKeys f bs)
  | [], _, .nil => .nil
  | (_, _) :: _, _, .cons (.mk k first) rest =>
    .cons (.mk (f k) (first.mapKeys f)) (mapFieldKeys_alike f rest)
termination_by structural fields => fields

end

end Value

theorem Value.Alike.prepare {v w : Value} (alike : v.Alike w) (mapper : Mapper) :
    (mapper.prepare v).Alike (mapper.prepare w) := by
  cases mapper with
  | relaxed => exact alike.mapKeys snakeCase
  | strict => exact alike

/-! ### Reading values as shapes -/

/-- Both attempts failed, or both gave something and that is related. -/
inductive Agree {ε α : Type} (R : α → α → Prop) : Except ε α → Except ε α → Prop where
  | ok {a b : α} (related : R a b) : Agree R (.ok a) (.ok b)
  | error (e e' : ε) : Agree R (.error e) (.error e')

namespace Agree

variable {ε α β : Type} {R : α → α → Prop} {S : β → β → Prop} {x y : Except ε α}

theorem bind (agree : Agree R x y) {f g : α → Except ε β}
    (next : ∀ a b, R a b → Agree S (f a) (g b)) :
    Agree S (x >>= f) (y >>= g) := by
  cases agree with
  | ok related => exact next _ _ related
  | error e e' => exact .error e e'

theorem map (agree : Agree R x y) {f g : α → β} (keeps : ∀ a b, R a b → S (f a) (g b)) :
    Agree S (x.map f) (y.map g) := by
  cases agree with
  | ok related => exact .ok (keeps _ _ related)
  | error e e' => exact .error e e'

/-- One after the other, until an attempt fails. -/
theorem mapM {f : α → Except ε β} (each : ∀ a b, R a b → Agree S (f a) (f b)) {as bs : List α}
    (items : List.Forall₂ R as bs) : Agree (List.Forall₂ S) (as.mapM f) (bs.mapM f) := by
  induction items with
  | nil => exact .ok .nil
  | cons first _ ih =>
    rw [List.mapM_cons, List.mapM_cons]
    exact (each _ _ first).bind fun _ _ first => ih.bind fun _ _ rest => .ok (.cons first rest)

end Agree

namespace Shape

open Value (Alike)

theorem readString_alike {v w : Value} (alike : v.Alike w) :
    Agree Alike (readString v) (readString w) := by
  cases alike with
  | str s => exact .ok (.str s)
  | _ => exact .error _ _

theorem readFields_alike (reader : String → Option (Value → Except Mismatch Value))
    (reads : ∀ key read, reader key = some read → ∀ v w, Alike v w → Agree Alike (read v) (read w))
    {as bs : Fields} (fields : List.Forall₂ (Named Alike) as bs) :
    Agree (List.Forall₂ (Named Alike)) (readFields reader as) (readFields reader bs) := by
  induction fields with
  | nil => exact .ok .nil
  | cons first _ ih =>
    obtain ⟨name, first⟩ := first
    rw [readFields, readFields]
    cases known : reader name with
    | none => exact ih
    | some read =>
      exact (reads name read known _ _ first).bind fun _ _ first => ih.bind fun _ _ rest =>
        .ok (.cons (.mk name first) rest)

theorem complete_alike (shapes : List (Field Shape)) {as bs : Fields}
    (found : List.Forall₂ (Named Alike) as bs) :
    Agree (List.Forall₂ (Named Alike)) (complete as shapes) (complete bs shapes) := by
  induction shapes generalizing as bs with
  | nil => exact .ok found
  | cons field rest ih =>
    obtain ⟨name, shape, absence⟩ := field
    rw [complete, complete]
    have there := Fields.get?_related found name
    generalize Fields.get? as name = here, Fields.get? bs name = here' at there
    cases there with
    | some => exact ih found
    | none =>
      cases absence.value? with
      | some value => exact ih (Fields.insert_related found name (.refl value))
      | none => exact .error _ _

mutual

/-- Reading does not tell alike values apart. -/
theorem read_alike : ∀ (shape : Shape) {v w : Value}, Alike v w →
    Agree Alike (read shape v) (read shape w)
  | .bool, _, _, alike => by
    cases alike with
    | bool b => exact .ok (.bool b)
    | _ => exact .error _ _
  | .integer name low high, _, _, alike => by
    cases alike with
    | int i =>
      rw [read]
      split
      · exact .ok (.int i)
      · exact .error _ _
    | _ => exact .error _ _
  | .number, _, _, alike => by
    cases alike with
    | int i => exact .ok (.float (.refl _))
    | float equal => exact .ok (.float equal)
    | _ => exact .error _ _
  | .string, _, _, alike => readString_alike alike
  | .any, _, _, alike => .ok alike
  | .optional shape, _, _, alike => by
    have inner := read_alike shape alike
    cases alike with
    | null => exact .ok .null
    | _ => exact inner
  | .list shape, _, _, alike => by
    cases alike with
    | arr items =>
      have each := Agree.mapM (fun _ _ alike => read_alike shape alike) items
      rw [read, read]
      exact each.map fun _ _ items => Alike.arr items
    | _ => exact .error _ _
  | .stringMap, _, _, alike => by
    cases alike with
    | obj fields =>
      have each := readFields_alike (fun _ => some readString) (fun _ _ known _ _ alike => by
        cases known
        exact readString_alike alike) fields
      rw [read, read]
      exact each.map fun _ _ fields => Alike.obj fields
    | _ => exact .error _ _
  | .record name shapes, _, _, alike => by
    cases alike with
    | obj fields =>
      rw [read, read]
      exact (readFields_alike _ (readerOf_alike shapes) fields).bind fun _ _ found =>
        (complete_alike shapes found).bind fun _ _ fields => .ok (.obj fields)
    | @arr as bs items =>
      have count : as.length = bs.length := items.length_eq
      rw [read, read, count]
      refine (readInOrder_alike shapes _ _ _ items).bind
        fun ⟨fields, rest⟩ ⟨fields', rest'⟩ both => ?_
      dsimp only at both ⊢
      cases both.2 with
      | nil => exact .ok (.obj (Fields.ofList_related both.1))
      | cons => exact .error _ _
    | _ => exact .error _ _
termination_by structural shape => shape

theorem readerOf_alike : ∀ (shapes : List (Field Shape)) (key : String)
    (reader : Value → Except Mismatch Value), readerOf shapes key = some reader →
    ∀ v w, Alike v w → Agree Alike (reader v) (reader w)
  | [], _, _, known => nomatch known
  | ⟨name, shape, absence⟩ :: rest, key, reader, known => by
    rw [readerOf] at known
    split at known
    · cases known
      exact fun _ _ => read_alike shape
    · exact readerOf_alike rest key reader known
termination_by structural shapes => shapes

theorem readInOrder_alike : ∀ (shapes : List (Field Shape)) (wanted : String)
    (count position : Nat) {as bs : List Value}, List.Forall₂ Alike as bs →
    Agree (fun r s => List.Forall₂ (Named Alike) r.1 s.1 ∧ List.Forall₂ Alike r.2 s.2)
      (readInOrder wanted count position shapes as) (readInOrder wanted count position shapes bs)
  | [], _, _, _, _, _, items => .ok ⟨.nil, items⟩
  | ⟨name, shape, absence⟩ :: rest, wanted, count, position, _, _, items => by
    cases items with
    | cons first items =>
      rw [readInOrder, readInOrder]
      refine (read_alike shape first).bind fun _ _ value => ?_
      refine (readInOrder_alike rest wanted count (position + 1) items).bind fun _ _ both => ?_
      exact .ok ⟨.cons (.mk name value) both.1, both.2⟩
    | nil =>
      cases absence with
      | anywhere value =>
        rw [readInOrder]
        refine (readInOrder_alike rest wanted count (position + 1) .nil).bind fun _ _ both => ?_
        exact .ok ⟨.cons (.mk name (.refl value)) both.1, both.2⟩
      | _ => exact .error _ _
termination_by structural shapes => shapes

end

end Shape

open Value (Alike)

theorem Mapper.mapBean_alike (mapper : Mapper) (shape : Shape) (path : String) {v w : Value}
    (alike : v.Alike w) :
    Agree Alike (mapper.mapBean shape v path) (mapper.mapBean shape w path) := by
  have reads := shape.read_alike (alike.prepare mapper)
  rw [mapBean, mapBean]
  generalize shape.read (mapper.prepare v) = r, shape.read (mapper.prepare w) = r' at reads
  cases reads with
  | ok related => exact .ok related
  | error => exact .error _ _

/-- A text is read as the scalar that it spells, and alike texts are the same. -/
theorem Value.Alike.coerce {v w : Value} (alike : v.Alike w) (shape : Shape) (path : String) :
    Agree Alike (v.coerce shape path) (w.coerce shape path) := by
  have text : v.text? = w.text? := by
    cases alike <;> rfl
  have reads := shape.read_alike alike
  rw [Value.coerce, Value.coerce, text]
  generalize shape.read v = r, shape.read w = r' at reads
  cases reads with
  | ok related => exact .ok related
  | error e e' =>
    dsimp only
    cases w.text?.bind spelledScalar? with
    | none => exact .error _ _
    | some scalar =>
      dsimp only
      cases shape.read scalar with
      | ok read => exact .ok (.refl read)
      | error => exact .error _ _

/-! ### Rules that follow a tree -/

namespace Tree

variable {t u : Tree}

theorem alike_of_same (same : (t == u) = true) : t.toValue.Alike u.toValue := .of_same same

theorem interchangeable (same : (t == u) = true) : Interchangeable t u :=
  fun v => (alike_of_same same).interchangeable v.toValue

theorem get?_alike (alike : t.toValue.Alike u.toValue) (path : String) :
    Option.Rel Alike (t.get? path) (u.get? path) := by
  rw [get?, get?]
  split
  · exact .none
  · exact alike.walk? _

end Tree

namespace Live

/-- The rules that are on offer: the value at a path read as a shape, the same by way of a mapper,
and the whole tree. -/
inductive Extractor.Usual : Extractor → Prop where
  | atPath (shape : Shape) (path : String) : Usual (.atPath shape path)
  | bean (mapper : Mapper) (shape : Shape) (path : String) : Usual (.bean mapper shape path)
  | whole : Usual .whole

theorem Extractor.Usual.alike {f : Extractor} (usual : f.Usual) {t u : Tree}
    (alike : t.toValue.Alike u.toValue) : Agree (Option.Rel Alike) (f t) (f u) := by
  cases usual with
  | atPath shape path =>
    simp only [Extractor.atPath, Tree.getAs]
    have found := Tree.get?_alike alike path
    generalize t.get? path = here, u.get? path = there at found
    cases found with
    | none => exact .ok .none
    | some found => exact (found.coerce shape path).map fun _ _ read => .some read
  | bean mapper shape path =>
    rw [Extractor.bean]
    have found : Option.Rel Alike
        (if (Text.trim path).isEmpty then some t.toValue else t.get? (Text.trim path))
        (if (Text.trim path).isEmpty then some u.toValue else u.get? (Text.trim path)) := by
      split
      · exact .some alike
      · exact Tree.get?_alike alike _
    dsimp only
    generalize (if (Text.trim path).isEmpty then some t.toValue else _) = here at found ⊢
    generalize (if (Text.trim path).isEmpty then some u.toValue else _) = there at found ⊢
    cases found with
    | none => exact .ok .none
    | some found => exact (mapper.mapBean_alike shape _ found).map fun _ _ read => .some read
  | whole => exact .ok (.some alike)

/-- Trees that are taken for equal are followed alike: what succeeds for one of them succeeds for
the other, and nothing tells the values apart. -/
theorem Extractor.Usual.respects {f : Extractor} (usual : f.Usual) {t u : Tree}
    (same : (t == u) = true) {value : Option Value} (gives : f t = .ok value) :
    ∃ value', f u = .ok value' ∧ Interchangeable value value' := by
  have agree := usual.alike (Tree.alike_of_same same)
  rw [gives] at agree
  generalize f u = other at agree
  cases agree with
  | ok related =>
    refine ⟨_, rfl, ?_⟩
    cases related with
    | none => exact .refl _
    | some alike => exact Interchangeable.lift alike.interchangeable

end Live
end LayeredConfig
