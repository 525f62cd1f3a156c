import LayeredConfig.Proofs.Strings
import LayeredConfig.Proofs.Texts
import LayeredConfig.Substitution.Placeholder
/-!
# The grammar of placeholders

A text is read from the left: a literal up to the first opener, an expression up to the first closer
behind that, and so on. What a text becomes, and which error it gives, is said here for its reading,
without a word on how the text is searched. Main statement: a substitution does what is said, text
by text and, leaf by leaf, for a whole tree.
-/
namespace LayeredConfig.Placeholder

open Text (CutsFirst Trims cutAtFirst cutAtFirst_eq_some_iff cutAtFirst_eq_none_iff)

/-! ### Reading a text -/

/-- What a placeholder begins with. -/
def opener : List Char := ['$', '\x7b']

/-- What a placeholder ends with. -/
def closer : List Char := ['\x7d']

/-- What stands between a name and its default. -/
def divider : List Char := [':', '-']

/-- A text consists of these pieces. -/
inductive Reads : List Char → List Piece → Prop where
  | plain {cs : List Char} (absent : ¬ opener <:+: cs) : Reads cs [.literal cs]
  | broken {cs text after : List Char} (opened : CutsFirst opener cs text after)
      (absent : ¬ closer <:+: after) : Reads cs [.literal text, .unterminated]
  | reference {cs text after expression rest : List Char} {pieces : List Piece}
      (opened : CutsFirst opener cs text after) (closed : CutsFirst closer after expression rest)
      (further : Reads rest pieces) : Reads cs (.literal text :: .reference expression :: pieces)

variable {cs done : List Char} {pieces : List Piece}

theorem piecesOfLiteral_eq (done cs : List Char) : piecesOfLiteral done cs =
    match cutAtFirst opener cs with
    | none => [.literal (done.reverse ++ cs)]
    | some (text, after) => .literal (done.reverse ++ text) :: piecesOfReference [] after := by
  induction cs generalizing done with
  | nil => simp [piecesOfLiteral, cutAtFirst, opener]
  | cons c cs ih =>
    unfold piecesOfLiteral
    split
    · next after same => simp_all
    · next after same =>
      cases same
      simp [cutAtFirst, Text.stripLead, opener]
    · next c' cs' other same =>
      cases same
      have absent : Text.stripLead opener (c :: cs) = none := by
        refine Option.eq_none_iff_forall_ne_some.2 fun after found => ?_
        obtain ⟨rfl, rfl⟩ := List.cons.inj (Text.stripLead_eq_some_iff.1 found)
        exact other after rfl rfl
      rw [ih, cutAtFirst, absent]
      cases cutAtFirst opener cs with
      | none => simp
      | some parts => simp

theorem piecesOfReference_eq (done cs : List Char) : piecesOfReference done cs =
    match cutAtFirst closer cs with
    | none => [.unterminated]
    | some (expression, rest) =>
      .reference (done.reverse ++ expression) :: piecesOfLiteral [] rest := by
  induction cs generalizing done with
  | nil => simp [piecesOfReference, cutAtFirst, closer]
  | cons c cs ih =>
    rw [piecesOfReference, cutAtFirst]
    by_cases closes : c = '\x7d'
    · simp [closer, Text.stripLead, closes]
    · have absent : Text.stripLead closer (c :: cs) = none := by
        simp [closer, Text.stripLead, Ne.symm closes]
      rw [if_neg (by simpa using closes), ih, absent]
      cases cutAtFirst closer cs with
      | none => simp
      | some parts => simp

theorem reads_piecesOfLiteral (cs : List Char) : Reads cs (piecesOfLiteral [] cs) := by
  -- by induction on the length, which every placeholder shortens
  induction size : cs.length using Nat.strong_induction_on generalizing cs with
  | _ length ih =>
    rw [piecesOfLiteral_eq]
    cases opens : cutAtFirst opener cs with
    | none => exact .plain (cutAtFirst_eq_none_iff.1 opens)
    | some parts =>
      obtain ⟨text, after⟩ := parts
      have opened := cutAtFirst_eq_some_iff.1 opens
      dsimp only
      rw [piecesOfReference_eq]
      cases closes : cutAtFirst closer after with
      | none => exact .broken opened (cutAtFirst_eq_none_iff.1 closes)
      | some parts =>
        obtain ⟨expression, rest⟩ := parts
        have closed := cutAtFirst_eq_some_iff.1 closes
        have shorter : rest.length < length := by
          have first := opened.length_lt (by simp [opener])
          have second := closed.length_lt (by simp [closer])
          omega
        exact .reference opened closed (ih _ shorter rest rfl)

/-- Every text has one reading, which the search for placeholders gives. -/
theorem reads_iff : Reads cs pieces ↔ piecesOfLiteral [] cs = pieces := by
  constructor
  · intro reads
    induction reads with
    | plain absent =>
      rw [piecesOfLiteral_eq, cutAtFirst_eq_none_iff.2 absent]
      rfl
    | broken opened absent =>
      rw [piecesOfLiteral_eq, cutAtFirst_eq_some_iff.2 opened]
      dsimp only
      rw [piecesOfReference_eq, cutAtFirst_eq_none_iff.2 absent]
      rfl
    | reference opened closed _ ih =>
      rw [piecesOfLiteral_eq, cutAtFirst_eq_some_iff.2 opened]
      dsimp only
      rw [piecesOfReference_eq, cutAtFirst_eq_some_iff.2 closed]
      dsimp only
      rw [ih]
      rfl
  · rintro rfl
    exact reads_piecesOfLiteral cs

theorem Reads.unique {pieces' : List Piece} (reads : Reads cs pieces) (reads' : Reads cs pieces') :
    pieces = pieces' :=
  (reads_iff.1 reads).symm.trans (reads_iff.1 reads')

/-! ### What an expression stands for -/

/-- The trimmed name in an expression and, behind the first divider, the default. -/
inductive Names (expression : List Char) : String → Option String → Prop where
  | bare {name : List Char} (absent : ¬ divider <:+: expression) (trimmed : Trims expression name) :
      Names expression (String.ofList name) none
  | withDefault {before fallback name : List Char}
      (divided : CutsFirst divider expression before fallback) (trimmed : Trims before name) :
      Names expression (String.ofList name) (some (String.ofList fallback))

/-- What is put in the place of an expression: the variable if there is no default, the variable
rather than the default if it is not empty, and else the default. -/
inductive Resolves (env : Environment) (expression : List Char) : String → Prop where
  | bare {name value : String} (names : Names expression name none)
      (set : env.var? name = some value) : Resolves env expression value
  | preferred {name fallback value : String} (names : Names expression name (some fallback))
      (set : env.var? name = some value) (nonempty : value ≠ "") : Resolves env expression value
  | fallback {name fallback : String} (names : Names expression name (some fallback))
      (unset : ∀ value, env.var? name = some value → value = "") : Resolves env expression fallback

variable {env : Environment} {expression : List Char} {name value : String}
  {fallback : Option String}

theorem names_iff : Names expression name fallback ↔
    nameAndDefault expression = (name, fallback) := by
  constructor
  · intro names
    cases names with
    | bare absent trimmed =>
      rw [nameAndDefault, ← divider, cutAtFirst_eq_none_iff.2 absent, Text.trims_iff.1 trimmed]
    | withDefault divided trimmed =>
      rw [nameAndDefault, ← divider, cutAtFirst_eq_some_iff.2 divided]
      dsimp only
      rw [Text.trims_iff.1 trimmed]
  · intro same
    rw [nameAndDefault, ← divider] at same
    split at same
    · next before after found =>
      cases same
      exact .withDefault (cutAtFirst_eq_some_iff.1 found) (Text.trims_trimChars before)
    · next missing =>
      cases same
      exact .bare (cutAtFirst_eq_none_iff.1 missing) (Text.trims_trimChars expression)

/-- Every expression has a name. -/
theorem exists_names (expression : List Char) : ∃ name fallback, Names expression name fallback :=
  ⟨_, _, names_iff.2 rfl⟩

theorem Names.unique {name' : String} {fallback' : Option String}
    (names : Names expression name fallback) (names' : Names expression name' fallback') :
    name = name' ∧ fallback = fallback' :=
  Prod.mk.inj ((names_iff.1 names).symm.trans (names_iff.1 names'))

theorem resolve?_eq : Names expression name fallback → resolve? env expression =
    match env.var? name, fallback with
    | some value, none => some value
    | some value, some text => some (if value.isEmpty then text else value)
    | none, fallback => fallback := by
  intro names
  have parts := names_iff.1 names
  cases set : env.var? name <;> cases fallback <;> simp [resolve?, parts, set]

theorem resolves_iff : Resolves env expression value ↔ resolve? env expression = some value := by
  constructor
  · intro resolves
    cases resolves with
    | bare names set => simp [resolve?_eq names, set]
    | preferred names set nonempty => simp [resolve?_eq names, set, nonempty]
    | @fallback name _ names unset =>
      rw [resolve?_eq names]
      cases known : env.var? name with
      | none => rfl
      | some text =>
        obtain rfl := unset text known
        rfl
  · intro resolved
    -- which of the rules applies is decided by the default and the variable together
    obtain ⟨name, fallback, names⟩ := exists_names expression
    rw [resolve?_eq names] at resolved
    split at resolved
    · next text known =>
      cases resolved
      exact .bare names known
    · next text fallback known =>
      cases resolved
      by_cases empty : text = ""
      · subst empty
        refine .fallback names fun value set => ?_
        exact Option.some.inj (set.symm.trans known)
      · have preferred : (if text.isEmpty then fallback else text) = text :=
          if_neg (by simpa using empty)
        rw [preferred]
        exact .preferred names known empty
    · next unknown =>
      subst resolved
      refine .fallback names fun value set => ?_
      cases unknown.symm.trans set

/-- An expression that stands for nothing is the bare name of a variable that is not set. -/
theorem resolve?_eq_none_iff : resolve? env expression = none ↔
    ∃ name, Names expression name none ∧ env.var? name = none := by
  constructor
  · intro nothing
    obtain ⟨name, fallback, names⟩ := exists_names expression
    rw [resolve?_eq names] at nothing
    split at nothing
    · cases nothing
    · cases nothing
    · next unknown =>
      subst nothing
      exact ⟨name, names, unknown⟩
  · rintro ⟨name, names, unset⟩
    rw [resolve?_eq names, unset]

/-! ### What becomes of a text -/

namespace Substitution

/-- What is put in the place of a piece. -/
inductive Replaces (s : Substitution) : Piece → String → Prop where
  | literal (text : List Char) : Replaces s (.literal text) (String.ofList text)
  | resolved {expression : List Char} {value : String}
      (resolves : Resolves s.env expression value) : Replaces s (.reference expression) value
  | kept {expression : List Char} (allowed : s.allowMissing = true)
      (unresolved : ∀ value, ¬ Resolves s.env expression value) :
      Replaces s (.reference expression) (String.ofList (opener ++ expression ++ closer))

/-- The error of a piece for which nothing can be put. -/
inductive Offends (s : Substitution) (path input : String) : Piece → ConfigError → Prop where
  | unterminated : Offends s path input .unterminated
      (.placeholder path ("unterminated placeholder in '" ++ input ++ "'"))
  | unset {expression : List Char} {name : String} (strict : s.allowMissing = false)
      (names : Names expression name none) (unset : s.env.var? name = none) :
      Offends s path input (.reference expression)
        (.placeholder path ("placeholder '" ++ name ++ "' is not set"))

/-- The texts of the pieces stand one after the other. -/
def Yields (s : Substitution) (input output : String) : Prop :=
  ∃ pieces texts, Reads input.toList pieces ∧ List.Forall₂ s.Replaces pieces texts ∧
    output = String.join texts

/-- The error is that of the first piece for which nothing can be put. -/
def Refuses (s : Substitution) (path input : String) (e : ConfigError) : Prop :=
  ∃ before piece after, Reads input.toList (before ++ piece :: after) ∧
    (∀ b ∈ before, ∃ text, s.Replaces b text) ∧ s.Offends path input piece e

variable {s : Substitution} {path input output text : String} {piece : Piece} {e : ConfigError}

theorem replacePiece_eq_ok_iff : s.replacePiece path input piece = .ok text ↔
    s.Replaces piece text := by
  cases piece with
  | literal cs =>
    constructor
    · rintro ⟨⟩
      exact .literal cs
    · rintro ⟨⟩
      rfl
  | unterminated => exact ⟨nofun, nofun⟩
  | reference expression =>
    rw [replacePiece]
    cases resolved : resolve? s.env expression with
    | some value =>
      have resolves := resolves_iff.2 resolved
      constructor
      · rintro ⟨⟩
        exact .resolved resolves
      · intro replaces
        cases replaces with
        | resolved resolves' => exact congrArg Except.ok (Option.some.inj
            (resolved.symm.trans (resolves_iff.1 resolves')))
        | kept _ unresolved => exact absurd resolves (unresolved value)
    | none =>
      have unresolved (value : String) : ¬ Resolves s.env expression value := by
        intro resolves
        cases resolved.symm.trans (resolves_iff.1 resolves)
      -- what is kept is the placeholder as it stands in the input
      have written : "$\x7b" ++ String.ofList expression ++ "\x7d" =
          String.ofList (opener ++ expression ++ closer) := by
        rw [String.ofList_append, String.ofList_append]
        rfl
      dsimp only
      rw [written]
      constructor
      · intro done
        split at done
        · next allowed =>
          cases done
          exact .kept allowed unresolved
        · cases done
      · intro replaces
        cases replaces with
        | resolved resolves => exact absurd resolves (unresolved _)
        | kept allowed _ => rw [if_pos allowed]

theorem replacePiece_eq_error_iff : s.replacePiece path input piece = .error e ↔
    s.Offends path input piece e := by
  cases piece with
  | literal cs => exact ⟨nofun, nofun⟩
  | unterminated =>
    constructor
    · rintro ⟨⟩
      exact .unterminated
    · rintro ⟨⟩
      rfl
  | reference expression =>
    rw [replacePiece]
    cases resolved : resolve? s.env expression with
    | some value =>
      constructor
      · nofun
      · intro offends
        cases offends with
        | unset _ names unset =>
          cases resolved.symm.trans (resolve?_eq_none_iff.2 ⟨_, names, unset⟩)
    | none =>
      obtain ⟨name, names, unset⟩ := resolve?_eq_none_iff.1 resolved
      have same : nameAndDefault expression = (name, none) := names_iff.1 names
      dsimp only
      rw [same]
      constructor
      · intro failed
        split at failed
        · cases failed
        · next strict =>
          cases failed
          exact .unset (by simpa using strict) names unset
      · intro offends
        cases offends with
        | unset strict names' _ =>
          obtain ⟨rfl, -⟩ := names.unique names'
          rw [if_neg (by simp [strict])]

theorem replacePieces_eq (s : Substitution) (path input : String) (pieces : List Piece) :
    s.replacePieces path input pieces =
      String.join <$> pieces.mapM (s.replacePiece path input) := by
  induction pieces with
  | nil => rfl
  | cons piece rest ih =>
    rw [replacePieces, ih, List.mapM_cons]
    simp only [map_eq_pure_bind, bind_assoc, pure_bind, String.join_cons]

theorem replace_eq_ok_iff : s.replace path input = .ok output ↔ s.Yields input output := by
  rw [replace, replacePieces_eq, map_eq_ok_iff]
  simp only [mapM_eq_ok_iff, replacePiece_eq_ok_iff]
  constructor
  · rintro ⟨texts, replaced, rfl⟩
    exact ⟨_, texts, reads_iff.2 rfl, replaced, rfl⟩
  · rintro ⟨parts, texts, reads, replaced, rfl⟩
    obtain rfl := reads_iff.1 reads
    exact ⟨texts, replaced, rfl⟩

theorem replace_eq_error_iff : s.replace path input = .error e ↔ s.Refuses path input e := by
  rw [replace, replacePieces_eq, map_eq_error_iff, mapM_eq_error_iff]
  simp only [replacePiece_eq_ok_iff, replacePiece_eq_error_iff]
  constructor
  · rintro ⟨before, piece, after, split, sound, offends⟩
    exact ⟨before, piece, after, reads_iff.2 split, sound, offends⟩
  · rintro ⟨before, piece, after, reads, sound, offends⟩
    exact ⟨before, piece, after, reads_iff.1 reads, sound, offends⟩

theorem exists_replaces_iff : (∃ text, s.Replaces piece text) ↔ piece ≠ .unterminated ∧
    (s.allowMissing = false → ∀ expression, piece = .reference expression →
      ∃ value, Resolves s.env expression value) := by
  cases piece with
  | literal cs => exact ⟨fun _ => ⟨nofun, nofun⟩, fun _ => ⟨_, .literal cs⟩⟩
  | unterminated => exact ⟨nofun, fun sound => absurd rfl sound.1⟩
  | reference expression =>
    constructor
    · rintro ⟨text, replaces⟩
      refine ⟨nofun, ?_⟩
      rintro strict _ ⟨⟩
      cases replaces with
      | resolved resolves => exact ⟨text, resolves⟩
      | kept allowed _ => cases strict.symm.trans allowed
    · rintro ⟨-, sound⟩
      by_cases resolves : ∃ value, Resolves s.env expression value
      · obtain ⟨value, resolves⟩ := resolves
        exact ⟨value, .resolved resolves⟩
      · cases allowed : s.allowMissing with
        | true => exact ⟨_, .kept allowed (not_exists.1 resolves)⟩
        | false => exact absurd (sound allowed expression rfl) resolves

/-- Whether a text yields anything can be told from its pieces one by one. -/
theorem exists_yields_iff (reads : Reads input.toList pieces) :
    (∃ output, s.Yields input output) ↔ ∀ piece ∈ pieces, ∃ text, s.Replaces piece text := by
  rw [← exists_forall₂_iff]
  constructor
  · rintro ⟨output, pieces', texts, reads', replaced, rfl⟩
    obtain rfl := reads.unique reads'
    exact ⟨texts, replaced⟩
  · rintro ⟨texts, replaced⟩
    exact ⟨String.join texts, pieces, texts, reads, replaced, rfl⟩

/-- A substitution does what the grammar says. -/
structure FollowsGrammar (s : Substitution) : Prop where
  /-- A text has one reading, and an expression one name with one default or none. -/
  reads : ∀ cs, ∃! pieces, Reads cs pieces
  names : ∀ expression, ∃! parts : String × Option String, Names expression parts.1 parts.2
  /-- A text can be replaced if all placeholders end and, unless they may miss, resolve. -/
  succeeds : ∀ path input pieces, Reads input.toList pieces →
    ((∃ output, s.replace path input = .ok output) ↔ .unterminated ∉ pieces ∧
      (s.allowMissing = false → ∀ expression, .reference expression ∈ pieces →
        ∃ value, Resolves s.env expression value))
  yields : ∀ path input output, s.replace path input = .ok output ↔ s.Yields input output
  refuses : ∀ path input e, s.replace path input = .error e ↔ s.Refuses path input e
  /-- A tree is rewritten string by string, or has the error of its first string with one. -/
  transforms : ∀ t t', s.transform t = .ok t' ↔ t.Rewritten s.Yields t'
  complete : ∀ t, (∃ t', s.transform t = .ok t') ↔
    ∀ leaf ∈ t.leaves, ∃ output, s.Yields leaf.text output
  fails : ∀ t e, s.transform t = .error e ↔ ∃ before leaf after,
    t.leaves = before ++ leaf :: after ∧ (∀ b ∈ before, ∃ output, s.Yields b.text output) ∧
      s.Refuses leaf.path leaf.text e

theorem reply_replace (s : Substitution) (path input : String) :
    Value.reply (fun path input => (s.replace path input).map some) path input =
      s.replace path input := by
  rw [Value.reply]
  cases s.replace path input <;> rfl

theorem transform_eq_ok_iff {t t' : Tree} : s.transform t = .ok t' ↔ t.Rewritten s.Yields t' := by
  refine Tree.mapStrings_eq_ok_iff fun path input output => ?_
  rw [reply_replace, replace_eq_ok_iff]

theorem transform_eq_error_iff {t : Tree} : s.transform t = .error e ↔ ∃ before leaf after,
    t.leaves = before ++ leaf :: after ∧ (∀ b ∈ before, ∃ output, s.Yields b.text output) ∧
      s.Refuses leaf.path leaf.text e := by
  rw [transform, Tree.mapStrings_eq_error_iff]
  simp only [reply_replace, replace_eq_ok_iff, replace_eq_error_iff]

/-- Substitution is what the grammar of placeholders says, for every text and every tree. -/
theorem substitution_follows_grammar (s : Substitution) : s.FollowsGrammar where
  reads cs := ⟨_, reads_piecesOfLiteral cs, fun _ reads => (reads_iff.1 reads).symm⟩
  names expression := by
    obtain ⟨name, fallback, names⟩ := exists_names expression
    refine ⟨(name, fallback), names, fun parts names' => ?_⟩
    obtain ⟨rfl, rfl⟩ := names.unique names'
    rfl
  succeeds path input pieces reads := by
    simp only [replace_eq_ok_iff, exists_yields_iff reads, exists_replaces_iff]
    constructor
    · intro sound
      refine ⟨fun member => (sound _ member).1 rfl, fun strict expression member => ?_⟩
      exact (sound _ member).2 strict expression rfl
    · rintro ⟨terminated, resolved⟩ piece member
      constructor
      · rintro rfl
        exact terminated member
      · rintro strict expression rfl
        exact resolved strict expression member
  yields _ _ _ := replace_eq_ok_iff
  refuses _ _ _ := replace_eq_error_iff
  transforms _ _ := transform_eq_ok_iff
  complete t := by
    simp only [transform_eq_ok_iff, Tree.exists_rewritten_iff]
  fails _ _ := transform_eq_error_iff

end Substitution
end LayeredConfig.Placeholder
