import LayeredConfig.Proofs.EnvironmentTree
import LayeredConfig.Proofs.Equality
import LayeredConfig.Proofs.Paths
import Mathlib.Data.List.Nodup
/-!
# Reading scalars early or late

A text in a document stays a text until it is read as a shape; if it does not have the shape, it is
read again as the scalar that it spells. A text in an environment is taken for a boolean or a number
at once, if it spells one. For the shapes that a text never has, both come to the same: whatever the
environment takes a text for is the scalar that the text spells, and anything else is left a text.

Main statements: `Value.coerce_eq_ok_iff` and `Value.coerce_eq_error_iff`, which say what reading a
value comes to, `Value.agree_coerce_ofText`, and `Tree.scalars_read_early_or_late`, which puts the
laws together.
-/
namespace LayeredConfig

/-- Two attempts agree if they give the same or both fail. -/
theorem agree_iff {ε α : Type} {x y : Except ε α} :
    Agree (· = ·) x y ↔ ∀ a, x = .ok a ↔ y = .ok a := by
  constructor
  · intro agree a
    cases agree with
    | ok same => rw [same]
    | error e e' => simp
  · intro same
    cases x with
    | ok a =>
      rw [(same a).1 rfl]
      exact .ok rfl
    | error e =>
      cases y with
      | ok a => cases (same a).2 rfl
      | error e' => exact .error e e'

namespace Shape

variable {shape : Shape}

/-- The shapes of scalars: truth values, whole numbers of any width, numbers, and whole numbers that
may be missing. -/
inductive OfScalars : Shape → Prop
  | bool : OfScalars .bool
  | integer (name : String) (low high : Int) : OfScalars (.integer name low high)
  | number : OfScalars .number
  | optional (name : String) (low high : Int) : OfScalars (.optional (.integer name low high))

/-- No text has the shape of a scalar. -/
theorem OfScalars.read_text (scalar : shape.OfScalars) (text : String) :
    ∃ mismatch, shape.read (.str text) = .error mismatch := by
  cases scalar with
  | bool => exact ⟨_, rfl⟩
  | integer name low high => exact ⟨_, rfl⟩
  | number => exact ⟨_, rfl⟩
  | optional name low high => exact ⟨_, rfl⟩

end Shape

namespace Value

variable {shape : Shape} {v w : Value} {raw path path' : String} {e : ConfigError}

/-- The scalar that a text spells, if the value is a text and spells one. -/
def spelled? (v : Value) : Option Value := v.text?.bind spelledScalar?

theorem spelled?_of_no_text (noText : v.text? = none) : v.spelled? = none := by
  simp [spelled?, noText]

/-- Reading a value succeeds if it has the shape, or if it does not but spells a scalar that has. -/
theorem coerce_eq_ok_iff : v.coerce shape path = .ok w ↔
    shape.read v = .ok w ∨ (∃ mismatch, shape.read v = .error mismatch) ∧
      ∃ scalar, v.spelled? = some scalar ∧ shape.read scalar = .ok w := by
  rw [coerce, ← spelled?]
  cases shape.read v with
  | ok u => simp
  | error first =>
    cases v.spelled? with
    | none => simp
    | some scalar => cases reread : shape.read scalar <;> simp [reread]

/-- The error says why the value itself does not have the shape. -/
theorem coerce_eq_error_iff : v.coerce shape path = .error e ↔
    ∃ first, shape.read v = .error first ∧ e = .extract path first.message ∧
      ∀ scalar, v.spelled? = some scalar → ∀ w, shape.read scalar ≠ .ok w := by
  rw [coerce, ← spelled?]
  cases shape.read v with
  | ok u => simp
  | error first =>
    cases v.spelled? with
    | none => simp [eq_comm]
    | some scalar => cases reread : shape.read scalar <;> simp [reread, eq_comm]

/-- A text is taken for the scalar that it spells, or it is left as it is. -/
theorem ofText_cases (raw : String) : ofText raw = .str raw ∨
    (ofText raw).text? = none ∧ (Value.str raw).spelled? = some (ofText raw) := by
  simp only [ofText, spelled?, text?, Option.bind_some, spelledScalar?]
  cases Json.read (Text.trim raw) with
  | none => exact .inl rfl
  | some v => cases v <;> simp

/-- It makes no difference whether a text was taken for a scalar before. -/
theorem agree_coerce_ofText (scalar : shape.OfScalars) (raw path path' : String) :
    Agree (· = ·) ((Value.str raw).coerce shape path) ((ofText raw).coerce shape path') := by
  refine agree_iff.2 fun w => ?_
  rw [coerce_eq_ok_iff, coerce_eq_ok_iff]
  rcases ofText_cases raw with same | ⟨noText, spells⟩
  · rw [same]
  · obtain ⟨mismatch, refused⟩ := scalar.read_text raw
    simp [refused, spells, spelled?_of_no_text noText]

end Value

namespace EnvSource

variable {s : EnvSource} {v : String × String} {place : List String}

/-- The variable says what stands at a place: it leads there, and so does none with a greater name;
no variable leads on beyond. -/
structure Decides (s : EnvSource) (v : String × String) (place : List String) : Prop where
  member : v ∈ s.env.vars
  leads : s.Leads v.1 place
  last : ∀ w ∈ s.env.vars, s.Leads w.1 place → Text.bytes w.1 ≤ Text.bytes v.1
  free : ¬ ∃ w ∈ s.env.vars, ∃ longer, s.Leads w.1 longer ∧ Beyond place longer

/-- No two variables of an environment have the same name. -/
theorem eq_of_same_name {env : Environment} {w : String × String} (member : v ∈ env.vars)
    (member' : w ∈ env.vars) (same : v.1 = w.1) : v = w := by
  have distinct : (env.vars.map Prod.fst).Nodup := by
    refine List.pairwise_map.2 (env.sorted.imp fun {a b} less same => ?_)
    exact String.lt_irrefl b.1 (same ▸ less)
  exact List.inj_on_of_nodup_map distinct member member' same

theorem Decides.at?_tree (decides : s.Decides v place) (cuts : s.separator ≠ "")
    (nonempty : place ≠ []) : s.tree.at? place = some (.ofText v.2) := by
  obtain ⟨w, member, leads, last, here⟩ :=
    (describes cuts nonempty).last decides.free ⟨v, decides.member, decides.leads⟩
  have order := Text.bytes_le_bytes_iff.1 (decides.last w member leads)
  have order' := Text.bytes_le_bytes_iff.1 (last v decides.member decides.leads)
  have same := String.le_antisymm order' order
  rw [here, eq_of_same_name decides.member member same]

/-- What a variable stands for is found at the path of its place. -/
theorem Decides.get?_tree (decides : s.Decides v place) (cuts : s.separator ≠ "")
    (nonempty : place ≠ []) (plain : ∀ key ∈ place, PlainKey key) :
    s.tree.get? (".".intercalate place) = some (.ofText v.2) := by
  have segments : pathSegments (".".intercalate place) = place := by
    rw [pathSegments_intercalate]
    calc place.flatMap pathSegments
      _ = place.flatMap fun key => [key] := List.flatMap_congr fun key member =>
          (plain key member).pathSegments
      _ = place := List.flatMap_singleton' place
  have found := decides.at?_tree cuts nonempty
  rw [Tree.get?_of_segments (by simpa [segments] using nonempty), segments]
  obtain ⟨first, rest, rfl⟩ := List.exists_cons_of_ne_nil nonempty
  exact Value.walk?_of_at? found

end EnvSource

namespace Tree

variable {t : Tree} {shape : Shape} {path : String} {v : Value} {e : ConfigError}

/-- The value at a path read as a shape just as it stands. -/
def readAs (t : Tree) (shape : Shape) (path : String) : Except ConfigError (Option Value) :=
  match t.get? path with
  | none => .ok none
  | some v =>
    match shape.read v with
    | .ok read => .ok (some read)
    | .error mismatch => .error (.extract path mismatch.message)

theorem getAs_of_get? (found : t.get? path = some v) (shape : Shape) :
    t.getAs shape path = (v.coerce shape path).map some := by
  simp [getAs, found]

/-- A failure is always that of the first attempt. -/
theorem readAs_of_getAs (failed : t.getAs shape path = .error e) :
    t.readAs shape path = .error e := by
  cases found : t.get? path with
  | none => simp [getAs, found] at failed
  | some v =>
    rw [getAs_of_get? found] at failed
    cases read : v.coerce shape path with
    | ok w => simp [read, Except.map] at failed
    | error e' =>
      obtain rfl : e' = e := by simpa [read, Except.map] using failed
      obtain ⟨first, mismatch, rfl, -⟩ := Value.coerce_eq_error_iff.1 read
      simp [readAs, found, mismatch]

/-- Nothing is read again if there is no text, or if what is there has the shape. -/
theorem getAs_eq_readAs (once : ∀ v ∈ t.get? path, v.text? = none ∨ ∃ w, shape.read v = .ok w) :
    t.getAs shape path = t.readAs shape path := by
  rw [getAs, readAs]
  cases found : t.get? path with
  | none => rfl
  | some v =>
    simp only [Value.coerce]
    cases first : shape.read v with
    | ok w => rfl
    | error mismatch =>
      rcases once v found with noText | ⟨w, fits⟩
      · simp [noText, Except.map]
      · cases first.symm.trans fits

/-- What a path leads to is read alike whether or not a text was taken for a scalar before. -/
theorem agree_getAs {late early : Tree} {raw path' : String} (scalar : shape.OfScalars)
    (text : late.get? path = some (.str raw)) (taken : early.get? path' = some (.ofText raw)) :
    Agree (· = ·) (late.getAs shape path) (early.getAs shape path') := by
  rw [getAs_of_get? text, getAs_of_get? taken]
  refine (Value.agree_coerce_ofText scalar raw path path').map fun _ _ same => ?_
  rw [same]

/-- How typed values are read from trees. -/
structure ReadsScalars : Prop where
  alike : ∀ shape : Shape, shape.OfScalars → ∀ (raw : String) (late early : Tree)
    (path path' : String), late.get? path = some (.str raw) →
    early.get? path' = some (.ofText raw) →
    Agree (· = ·) (late.getAs shape path) (early.getAs shape path')
  -- In particular the text of a variable may as well come from a document.
  environment : ∀ shape : Shape, shape.OfScalars → ∀ (s : EnvSource) (v : String × String)
    (place : List String), s.separator ≠ "" → place ≠ [] → (∀ key ∈ place, PlainKey key) →
    s.Decides v place → ∀ (late : Tree) (path : String), late.get? path = some (.str v.2) →
    Agree (· = ·) (late.getAs shape path) (s.tree.getAs shape (".".intercalate place))
  strings : ∀ (t : Tree) (path : String), t.getAs .string path = t.readAs .string path
  others : ∀ (t : Tree) (shape : Shape) (path : String),
    (∀ text, t.get? path ≠ some (.str text)) → t.getAs shape path = t.readAs shape path
  failures : ∀ (t : Tree) (shape : Shape) (path : String) (e : ConfigError),
    t.getAs shape path = .error e → t.readAs shape path = .error e

theorem scalars_read_early_or_late : ReadsScalars where
  alike _ scalar _ _ _ _ _ text taken := agree_getAs scalar text taken
  environment _ scalar _ _ _ cuts nonempty plain decides _ _ text :=
    agree_getAs scalar text (decides.get?_tree cuts nonempty plain)
  strings t path := by
    refine getAs_eq_readAs fun v _ => ?_
    cases v with
    | str text => exact .inr ⟨_, rfl⟩
    | _ => exact .inl rfl
  others t shape path noText := by
    refine getAs_eq_readAs fun v found => .inl ?_
    cases v with
    | str text => exact absurd found (noText text)
    | _ => rfl
  failures _ _ _ _ := readAs_of_getAs

/-- A port with blanks around it, in a document and in a variable. -/
theorem scalars_read_early_or_late_port :
    let late : Tree := { root := [("port", .str " 8080 ")] }
    let s : EnvSource := { env := .ofList [("APP_SERVER__PORT", " 8080 ")] }
    Shape.u16.OfScalars ∧ s.separator ≠ "" ∧
      s.Decides ("APP_SERVER__PORT", " 8080 ") ["server", "port"] ∧
      late.get? "port" = some (.str " 8080 ") ∧
      late.getAs .u16 "port" = .ok (some (.int 8080)) ∧
      s.tree.getAs .u16 "server.port" = .ok (some (.int 8080)) := by
  intro late s
  have cuts : s.separator ≠ "" := by decide
  have leads : s.keyPath? "APP_SERVER__PORT" = some ["server", "port"] := by decide
  have vars : s.env.vars = [("APP_SERVER__PORT", " 8080 ")] := by decide
  have decides : s.Decides ("APP_SERVER__PORT", " 8080 ") ["server", "port"] := by
    refine ⟨by simp [vars], (EnvSource.leads_iff cuts).2 leads, ?_, ?_⟩
    · intro w member _
      obtain rfl : w = ("APP_SERVER__PORT", " 8080 ") := by simpa [vars] using member
      exact List.le_refl _
    · rintro ⟨w, member, longer, leads', beyond⟩
      obtain rfl : w = ("APP_SERVER__PORT", " 8080 ") := by simpa [vars] using member
      rw [EnvSource.leads_iff cuts, leads] at leads'
      exact beyond.2 (Option.some.inj leads')
  have scalar : Shape.u16.OfScalars := .integer "u16" 0 _
  have plain : ∀ key ∈ ["server", "port"], PlainKey key := by decide
  have text : late.get? "port" = some (.str " 8080 ") := rfl
  have read : late.getAs .u16 "port" = .ok (some (.int 8080)) := rfl
  have agree := scalars_read_early_or_late.environment .u16 scalar s _ _ cuts (by simp) plain
    decides late "port" text
  exact ⟨scalar, cuts, decides, text, read, (agree_iff.1 agree _).1 read⟩

end Tree

end LayeredConfig
