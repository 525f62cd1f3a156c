import LayeredConfig.Proofs.Placeholders
/-!
# What substitution leaves behind

If placeholders must not miss, one that cannot be resolved is an error of the whole tree. Even so an
opener can stand in what comes out, although no variable brings one in: defaults are taken as they
are, and what stood apart can be brought together where nothing is put between. Main statements: a
tree with both kinds of leftovers, and exactly which texts have some.
-/
namespace LayeredConfig.Placeholder

/-! ### Two characters in a row -/

section Pairs

variable {α : Type} {f : α → List Char} {xs : List α} {x : α} {a b : Char}

/-- A text that ends in one character and a text that begins with another come together, since what
stands between them is empty. -/
def Meet (f : α → List Char) (a b : Char) (xs : List α) : Prop :=
  ∃ before left between right after, xs = before ++ left :: (between ++ right :: after) ∧
    (f left).getLast? = some a ∧ (∀ x ∈ between, f x = []) ∧ (f right).head? = some b

theorem head?_flatMap_eq_some_iff : (xs.flatMap f).head? = some b ↔
    ∃ between right after, xs = between ++ right :: after ∧ (∀ x ∈ between, f x = []) ∧
      (f right).head? = some b := by
  simp only [List.head?_flatMap, List.findSome?_eq_some_iff, List.head?_eq_none_iff, and_comm]

theorem meet_cons : Meet f a b (x :: xs) ↔
    (f x).getLast? = some a ∧ (xs.flatMap f).head? = some b ∨ Meet f a b xs := by
  rw [head?_flatMap_eq_some_iff]
  constructor
  · rintro ⟨before, left, between, right, after, split, ends, empty, begins⟩
    cases before with
    | nil =>
      obtain ⟨rfl, rfl⟩ := List.cons.inj split
      exact .inl ⟨ends, between, right, after, rfl, empty, begins⟩
    | cons first before =>
      obtain ⟨rfl, rfl⟩ := List.cons.inj split
      exact .inr ⟨before, left, between, right, after, rfl, ends, empty, begins⟩
  · rintro (⟨ends, between, right, after, rfl, empty, begins⟩ |
      ⟨before, left, between, right, after, rfl, ends, empty, begins⟩)
    · exact ⟨[], x, between, right, after, rfl, ends, empty, begins⟩
    · exact ⟨x :: before, left, between, right, after, rfl, ends, empty, begins⟩

theorem pair_infix_append {cs ds : List Char} : [a, b] <:+: cs ++ ds ↔
    [a, b] <:+: cs ∨ [a, b] <:+: ds ∨ cs.getLast? = some a ∧ ds.head? = some b := by
  rw [List.infix_append_iff_ne_nil, ← List.singleton_suffix_iff_getLast?_eq_some,
    ← List.singleton_prefix_iff_head?_eq_some]
  refine or_congr_right (or_congr_right ⟨?_, ?_⟩)
  · rintro ⟨ending, beginning, some, some', split, ends, begins⟩
    obtain ⟨c, ending, rfl⟩ := List.exists_cons_of_ne_nil some
    obtain ⟨d, beginning, rfl⟩ := List.exists_cons_of_ne_nil some'
    cases ending with
    | nil =>
      cases split
      exact ⟨ends, begins⟩
    | cons _ _ => simp at split
  · rintro ⟨ends, begins⟩
    exact ⟨[a], [b], by simp, by simp, rfl, ends, begins⟩

/-- Two characters follow each other within a text or where two texts meet. -/
theorem pair_infix_flatMap : [a, b] <:+: xs.flatMap f ↔
    (∃ x ∈ xs, [a, b] <:+: f x) ∨ Meet f a b xs := by
  induction xs with
  | nil => simp [Meet]
  | cons x xs ih =>
    rw [List.flatMap_cons, pair_infix_append, ih, meet_cons, List.exists_mem_cons_iff]
    constructor
    · rintro (here | (later | meet) | meet)
      · exact .inl (.inl here)
      · exact .inl (.inr later)
      · exact .inr (.inr meet)
      · exact .inr (.inl meet)
    · rintro ((here | later) | meet | meet)
      · exact .inl here
      · exact .inr (.inl (.inl later))
      · exact .inr (.inr meet)
      · exact .inr (.inl (.inr meet))

end Pairs

/-! ### Where an opener comes from -/

/-- No variable has one of the two characters of an opener in it. -/
def Clean (env : Environment) : Prop :=
  ∀ name value, env.var? name = some value → '$' ∉ value.toList ∧ '\x7b' ∉ value.toList

/-- The default in an expression is put in its place. -/
def FallsBack (env : Environment) (expression : List Char) (fallback : String) : Prop :=
  ∃ name, Names expression name (some fallback) ∧ ∀ value, env.var? name = some value → value = ""

/-- What is put in the place of a piece stands in the input: a literal, or a default. -/
inductive Copies (env : Environment) : Piece → String → Prop where
  | literal (text : List Char) : Copies env (.literal text) (String.ofList text)
  | fallback {expression : List Char} {fallback : String}
      (fallsBack : FallsBack env expression fallback) : Copies env (.reference expression) fallback

theorem Copies.replaces {s : Substitution} {piece : Piece} {text : String}
    (copies : Copies s.env piece text) : s.Replaces piece text := by
  cases copies with
  | literal text => exact .literal text
  | fallback fallsBack =>
    obtain ⟨name, names, unset⟩ := fallsBack
    exact .resolved (.fallback names unset)

/-- A literal stands before the first opener that is left. -/
theorem Reads.not_infix_literal {cs text : List Char} {pieces : List Piece}
    (reads : Reads cs pieces) (member : .literal text ∈ pieces) : ¬ opener <:+: text := by
  induction reads with
  | plain absent =>
    simp only [List.mem_singleton, Piece.literal.injEq] at member
    exact member ▸ absent
  | broken opened _ =>
    simp only [List.mem_cons, Piece.literal.injEq, reduceCtorEq, List.not_mem_nil, or_false]
      at member
    exact member ▸ opened.not_infix (by simp [opener])
  | reference opened _ _ ih =>
    simp only [List.mem_cons, Piece.literal.injEq, reduceCtorEq, false_or] at member
    rcases member with rfl | member
    · exact opened.not_infix (by simp [opener])
    · exact ih member

namespace Substitution

/-- What comes of the pieces has an opener in it: a default brings one, or its two characters, both
copied from the input, come together. -/
inductive Leftover (s : Substitution) (pieces : List Piece) : Prop where
  | within {expression : List Char} {fallback : String} (member : .reference expression ∈ pieces)
      (fallsBack : FallsBack s.env expression fallback) (opens : opener <:+: fallback.toList)
  | across {before between after : List Piece} {left right : Piece} {text text' : String}
      (split : pieces = before ++ left :: (between ++ right :: after))
      (copies : Copies s.env left text) (ends : text.toList.getLast? = some '$')
      (empty : ∀ piece ∈ between, s.Replaces piece "")
      (copies' : Copies s.env right text') (begins : text'.toList.head? = some '\x7b')

variable {s : Substitution} {input output text : String} {piece : Piece} {pieces : List Piece}

/-- The text in the place of a piece, if there is one. -/
def put (s : Substitution) (piece : Piece) : List Char :=
  match s.replacePiece "" "" piece with
  | .ok text => text.toList
  | .error _ => []

theorem put_eq (replaces : s.Replaces piece text) : s.put piece = text.toList := by
  rw [put, replacePiece_eq_ok_iff.2 replaces]

theorem toList_join_eq {texts : List String} (replaced : List.Forall₂ s.Replaces pieces texts) :
    (String.join texts).toList = pieces.flatMap s.put := by
  induction replaced with
  | nil => simp
  | cons replaces _ ih =>
    rw [String.join_cons, String.toList_append, ih, List.flatMap_cons, put_eq replaces]

/-- With clean variables a character of an opener is copied. -/
theorem copies_of_mem (strict : s.allowMissing = false) (clean : Clean s.env)
    (replaces : s.Replaces piece text) (member : '$' ∈ text.toList ∨ '\x7b' ∈ text.toList) :
    Copies s.env piece text := by
  have fromVariable {name : String} (set : s.env.var? name = some text) :
      Copies s.env piece text := by
    obtain ⟨noDollar, noBrace⟩ := clean name text set
    rcases member with dollar | brace
    · exact absurd dollar noDollar
    · exact absurd brace noBrace
  cases replaces with
  | literal text => exact .literal text
  | resolved resolves =>
    cases resolves with
    | bare _ set => exact fromVariable set
    | preferred _ set _ => exact fromVariable set
    | fallback names unset => exact .fallback ⟨_, names, unset⟩
  | kept allowed _ => cases strict.symm.trans allowed

/-- There are leftovers in what comes of a text exactly as its pieces tell. -/
theorem opener_infix_iff (strict : s.allowMissing = false) (clean : Clean s.env)
    (reads : Reads input.toList pieces) (yields : s.Yields input output) :
    opener <:+: output.toList ↔ s.Leftover pieces := by
  obtain ⟨pieces', texts, reads', replaced, rfl⟩ := yields
  obtain rfl := reads.unique reads'
  have replaces : ∀ piece ∈ pieces, ∃ text, s.Replaces piece text :=
    exists_forall₂_iff.1 ⟨texts, replaced⟩
  rw [toList_join_eq replaced, opener, pair_infix_flatMap]
  constructor
  · rintro (⟨piece, member, opens⟩ |
      ⟨before, left, between, right, after, rfl, ends, empty, begins⟩)
    · -- a literal has no opener within it, so this is a default
      obtain ⟨text, here⟩ := replaces piece member
      rw [put_eq here] at opens
      have dollar : '$' ∈ text.toList := opens.subset (by simp)
      cases copies_of_mem strict clean here (.inl dollar) with
      | literal text =>
        rw [String.toList_ofList] at opens
        exact absurd opens (reads.not_infix_literal member)
      | fallback fallsBack => exact .within member fallsBack opens
    · -- no variable has one of the two characters, so both texts were copied
      simp only [List.forall_mem_append, List.forall_mem_cons] at replaces
      obtain ⟨-, ⟨text, here⟩, betweens, ⟨text', there⟩, -⟩ := replaces
      rw [put_eq here] at ends
      rw [put_eq there] at begins
      have copies := copies_of_mem strict clean here (.inl (List.mem_of_getLast? ends))
      have copies' := copies_of_mem strict clean there (.inr (List.mem_of_head? begins))
      refine .across rfl copies ends (fun piece member => ?_) copies' begins
      obtain ⟨text, nothing⟩ := betweens piece member
      have none := empty piece member
      rw [put_eq nothing, String.toList_eq_nil_iff] at none
      exact none ▸ nothing
  · rintro (⟨member, fallsBack, opens⟩ | ⟨split, copies, ends, empty, copies', begins⟩)
    · refine .inl ⟨_, member, ?_⟩
      rwa [put_eq (Copies.fallback fallsBack).replaces]
    · refine .inr ⟨_, _, _, _, _, split, ?_, fun piece member => ?_, ?_⟩
      · rwa [put_eq copies.replaces]
      · rw [put_eq (empty piece member)]
        rfl
      · rwa [put_eq copies'.replaces]

/-! ### Leftovers in a tree -/

/-- Every placeholder in the input ends and resolves, and there is an opener in the output exactly
if there are leftovers. -/
def Settles (s : Substitution) (input output : String) : Prop :=
  ∃ pieces, Reads input.toList pieces ∧ .unterminated ∉ pieces ∧
    (∀ expression, .reference expression ∈ pieces → ∃ value, Resolves s.env expression value) ∧
    (opener <:+: output.toList ↔ s.Leftover pieces)

theorem settles_of_yields (strict : s.allowMissing = false) (clean : Clean s.env)
    (yields : s.Yields input output) : s.Settles input output := by
  have reads := reads_piecesOfLiteral input.toList
  have sound := (exists_yields_iff reads).1 ⟨output, yields⟩
  simp only [exists_replaces_iff] at sound
  refine ⟨_, reads, fun member => (sound _ member).1 rfl, fun expression member => ?_, ?_⟩
  · exact (sound _ member).2 strict expression rfl
  · exact opener_infix_iff strict clean reads yields

/-- There is an opener in the output exactly if the pieces of the input have leftovers. -/
theorem Settles.opener_infix_iff (settles : s.Settles input output) :
    opener <:+: output.toList ↔ ∃ pieces, Reads input.toList pieces ∧ s.Leftover pieces := by
  obtain ⟨pieces, reads, -, -, left⟩ := settles
  rw [left]
  constructor
  · intro leftover
    exact ⟨pieces, reads, leftover⟩
  · rintro ⟨pieces', reads', leftover⟩
    exact reads'.unique reads ▸ leftover

theorem Refuses.placeholder {path : String} {e : ConfigError} (refuses : s.Refuses path input e) :
    ∃ message, e = .placeholder path message := by
  obtain ⟨before, piece, after, -, -, offends⟩ := refuses
  cases offends with
  | unterminated => exact ⟨_, rfl⟩
  | unset _ _ _ => exact ⟨_, rfl⟩

/-- With no placeholder allowed to miss and clean variables, one that cannot be resolved is an error
wherever it stands; and if a tree can be transformed, then all of its placeholders resolve, and an
opener that is left in a string was copied from the input, in a default or in two parts. -/
theorem unresolved_reported_leftovers_copied (strict : s.allowMissing = false)
    (clean : Clean s.env) (t : Tree) :
    (∀ leaf ∈ t.leaves, ∀ pieces expression, Reads leaf.text.toList pieces →
      .reference expression ∈ pieces → (∀ value, ¬ Resolves s.env expression value) →
      ∃ path message, s.transform t = .error (.placeholder path message)) ∧
    ∀ t', s.transform t = .ok t' → t.Rewritten s.Settles t' ∧
      ((∃ text ∈ t'.toValue.strings, opener <:+: text.toList) ↔
        ∃ text ∈ t.toValue.strings, ∃ pieces, Reads text.toList pieces ∧ s.Leftover pieces) := by
  constructor
  · intro leaf among pieces expression reads member unresolved
    cases outcome : s.transform t with
    | ok t' =>
      have rewritten := transform_eq_ok_iff.1 outcome
      have yields := Tree.exists_rewritten_iff.1 ⟨t', rewritten⟩ leaf among
      have replaces := (exists_yields_iff reads).1 yields _ member
      obtain ⟨value, resolves⟩ := (exists_replaces_iff.1 replaces).2 strict expression rfl
      exact absurd resolves (unresolved value)
    | error e =>
      obtain ⟨_, leaf, _, -, -, refuses⟩ := transform_eq_error_iff.1 outcome
      obtain ⟨message, rfl⟩ := refuses.placeholder
      exact ⟨leaf.path, message, rfl⟩
  · intro t' done
    have settled : t.Rewritten s.Settles t' :=
      Tree.Rewritten.imp (transform_eq_ok_iff.1 done) fun _ _ => settles_of_yields strict clean
    refine ⟨settled, (exists_mem_iff_of_forall₂ settled.strings fun _ _ settles => ?_).symm⟩
    exact settles.opener_infix_iff.symm

/-- A name that is not set, and one that is, but empty, between a dollar sign and a brace. -/
theorem unresolved_reported_leftovers_copied_empty :
    let s : Substitution := ⟨.ofList [("EMPTY", "")], false⟩
    let unset : Tree := { root := [("url", .str "$\x7bEMPTY\x7d:$\x7bPORT\x7d")] }
    let t : Tree := { root := [("url", .str "$$\x7bEMPTY\x7d\x7bx\x7d")] }
    let t' : Tree := { root := [("url", .str "$\x7bx\x7d")] }
    s.allowMissing = false ∧ Clean s.env ∧
    (∃ path message, s.transform unset = .error (.placeholder path message)) ∧
    s.transform t = .ok t' ∧ t.Rewritten s.Settles t' ∧
    ∃ text ∈ t.toValue.strings, ∃ pieces, Reads text.toList pieces ∧ s.Leftover pieces := by
  intro s unset t t'
  have clean : Clean s.env := by
    intro name value set
    have known : Fields.get? [("EMPTY", "")] name = some value := set
    rw [Fields.get?_cons] at known
    split at known
    · cases known
      decide
    · cases known
  have copied : s.transform t = .ok t' := Tree.mapStrings_of_replies ["$\x7bx\x7d"] rfl
  refine ⟨rfl, clean, ?_, copied, ?_⟩
  · refine (unresolved_reported_leftovers_copied rfl clean unset).1
      ⟨["url"], "$\x7bEMPTY\x7d:$\x7bPORT\x7d"⟩ ?_ _ ['P', 'O', 'R', 'T']
      (reads_piecesOfLiteral _) ?_ ?_
    · exact List.mem_singleton_self _
    · decide
    · intro value resolves
      have unset : resolve? s.env ['P', 'O', 'R', 'T'] = none := rfl
      cases unset.symm.trans (resolves_iff.1 resolves)
  · have settled := (unresolved_reported_leftovers_copied rfl clean t).2 t' copied
    exact ⟨settled.1, settled.2.1 ⟨"$\x7bx\x7d", by decide, by decide⟩⟩

/-- Two texts with an opener left in what comes of them: one was a default, the other one is brought
together by a default that is empty. The variable that they ask for is not set. -/
theorem openers_left_behind :
    let s : Substitution := ⟨.empty, false⟩
    let t : Tree := { root := [("glued", .str "$$\x7bA:-\x7d\x7bB\x7d"),
      ("nested", .str "$\x7bA:-$\x7bB\x7d\x7d")] }
    let t' : Tree := { root := [("glued", .str "$\x7bB\x7d"), ("nested", .str "$\x7bB\x7d")] }
    s.allowMissing = false ∧ Clean s.env ∧ s.transform t = .ok t' ∧
    (∀ text ∈ t'.toValue.strings, opener <:+: text.toList) ∧ s.env.var? "B" = none := by
  refine ⟨rfl, nofun, Tree.mapStrings_of_replies ["$\x7bB\x7d", "$\x7bB\x7d"] rfl, ?_, rfl⟩
  decide

end Substitution
end LayeredConfig.Placeholder
