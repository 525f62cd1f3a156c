import LayeredConfig.Text.Blank
import LayeredConfig.Text.Pieces
import Mathlib.Data.List.Lex
import Mathlib.Data.List.TakeWhile
/-!
# Cutting and comparing texts

The pieces of a text are what stands between the occurrences of a separator, each of them sought
behind the one before. A text is trimmed once no blanks are left at its ends. Texts are compared
character by character, which is the order of their bytes.
-/
namespace LayeredConfig.Text

/-! ### Pieces -/

/-- `pieces` is what is left of a text if it is cut at each occurrence of the separator, from the
left. -/
inductive Cut (sep : List Char) : List Char → List (List Char) → Prop
  | whole {cs} : ¬ sep <:+: cs → Cut sep cs [cs]
  | next {piece rest pieces} :
      (∀ before after, piece ++ (sep ++ rest) = before ++ (sep ++ after) →
        piece.length ≤ before.length) →
      Cut sep rest pieces → Cut sep (piece ++ (sep ++ rest)) (piece :: pieces)

variable {sep cs before rest : List Char} {pieces pieces' : List (List Char)}

theorem infix_of_split {piece : List Char} : sep <:+: piece ++ (sep ++ rest) :=
  ⟨piece, rest, List.append_assoc piece sep rest⟩

/-- The first occurrence of the separator stands between `before` and `rest`. -/
structure CutsFirst (sep cs before rest : List Char) : Prop where
  split : cs = before ++ (sep ++ rest)
  first : ∀ other after, cs = other ++ (sep ++ after) → before.length ≤ other.length

theorem CutsFirst.unique {before' rest' : List Char} (cut : CutsFirst sep cs before rest)
    (cut' : CutsFirst sep cs before' rest') : before = before' ∧ rest = rest' := by
  have same : before.length = before'.length :=
    Nat.le_antisymm (cut.first before' rest' cut'.split) (cut'.first before rest cut.split)
  obtain ⟨rfl, others⟩ := List.append_inj (cut.split.symm.trans cut'.split) same
  exact ⟨rfl, List.append_cancel_left others⟩

theorem CutsFirst.length_lt (cut : CutsFirst sep cs before rest) (nonempty : sep ≠ []) :
    rest.length < cs.length := by
  have positive : 0 < sep.length := List.length_pos_of_ne_nil nonempty
  rw [cut.split, List.length_append, List.length_append]
  omega

/-- No separator stands before the first one. -/
theorem CutsFirst.not_infix (cut : CutsFirst sep cs before rest) (nonempty : sep ≠ []) :
    ¬ sep <:+: before := by
  rintro ⟨other, after, rfl⟩
  have earlier := cut.first other (after ++ (sep ++ rest)) (by simp [cut.split])
  have positive : 0 < sep.length := List.length_pos_of_ne_nil nonempty
  simp only [List.length_append] at earlier
  omega

/-- There is only one way to cut a text. -/
theorem Cut.unique (cut : Cut sep cs pieces) (cut' : Cut sep cs pieces') : pieces = pieces' := by
  induction cut generalizing pieces' with
  | whole absent =>
    cases cut' with
    | whole _ => rfl
    | next _ _ => exact absurd infix_of_split absent
  | @next piece rest pieces first _ ih =>
    generalize split : piece ++ (sep ++ rest) = cs at cut'
    cases cut' with
    | whole absent =>
      subst split
      exact absurd infix_of_split absent
    | @next piece' rest' pieces' first' cut' =>
      -- the first occurrence stands at one place only
      have here : CutsFirst sep (piece' ++ (sep ++ rest')) piece rest :=
        ⟨split.symm, fun before after same => first before after (split.trans same)⟩
      obtain ⟨rfl, rfl⟩ := here.unique ⟨rfl, first'⟩
      rw [ih cut']

theorem not_infix_of_cutAtFirst (missing : cutAtFirst sep cs = none) : ¬ sep <:+: cs := by
  induction cs with
  | nil =>
    rintro ⟨before, after, split⟩
    have empty : sep = [] := by simp_all
    simp [cutAtFirst, empty] at missing
  | cons c cs ih =>
    simp only [cutAtFirst] at missing
    split at missing
    · cases missing
    · rename_i absent
      rintro ⟨before, after, split⟩
      cases before with
      | nil => exact absurd (stripLead_eq_some_iff.2 split.symm) (by simp [absent])
      | cons first before =>
        have later : before ++ sep ++ after = cs := (List.cons.inj split).2
        exact ih (Option.map_eq_none_iff.1 missing) ⟨before, after, later⟩

/-- What is cut off at the first occurrence is as short as can be. -/
theorem length_le_of_cutAtFirst {before' after : List Char}
    (found : cutAtFirst sep cs = some (before, rest)) (split : cs = before' ++ (sep ++ after)) :
    before.length ≤ before'.length := by
  induction cs generalizing before before' with
  | nil =>
    simp only [cutAtFirst] at found
    split at found
    · cases found
      exact Nat.zero_le _
    · cases found
  | cons c cs ih =>
    simp only [cutAtFirst] at found
    split at found
    · cases found
      exact Nat.zero_le _
    · rename_i absent
      obtain ⟨⟨piece, others⟩, further, same⟩ := Option.map_eq_some_iff.1 found
      cases same
      cases before' with
      | nil =>
        have here : stripLead sep (c :: cs) = some after := stripLead_eq_some_iff.2 split
        cases here.symm.trans absent
      | cons first before' =>
        have later : cs = before' ++ (sep ++ after) := (List.cons.inj split).2
        exact Nat.succ_le_succ (ih further later)

theorem cutAtFirst_eq_some_iff : cutAtFirst sep cs = some (before, rest) ↔
    CutsFirst sep cs before rest := by
  have found {before rest : List Char} (found : cutAtFirst sep cs = some (before, rest)) :
      CutsFirst sep cs before rest :=
    ⟨eq_of_cutAtFirst found, fun _ _ => length_le_of_cutAtFirst found⟩
  constructor
  · exact found
  · intro cut
    cases result : cutAtFirst sep cs with
    | none =>
      have occurs : sep <:+: cs := cut.split ▸ infix_of_split
      exact absurd occurs (not_infix_of_cutAtFirst result)
    | some parts =>
      obtain ⟨rfl, rfl⟩ := (found result).unique cut
      rfl

theorem cutAtFirst_eq_none_iff : cutAtFirst sep cs = none ↔ ¬ sep <:+: cs := by
  constructor
  · exact not_infix_of_cutAtFirst
  · intro absent
    refine Option.eq_none_iff_forall_ne_some.2 fun ⟨before, rest⟩ found => absent ?_
    exact eq_of_cutAtFirst found ▸ infix_of_split

theorem splitSeqAux_skip (skipped rest piece : List Char) :
    splitSeqAux sep skipped.length (skipped ++ rest) piece = splitSeqAux sep 0 rest piece := by
  induction skipped with
  | nil => rfl
  | cons c skipped ih => exact ih

/-- Up to the first occurrence of the separator everything belongs to the first piece. -/
theorem splitSeqAux_eq (nonempty : sep ≠ []) (cs piece : List Char) :
    splitSeqAux sep 0 cs piece = match cutAtFirst sep cs with
      | none => [piece.reverse ++ cs]
      | some (before, rest) => (piece.reverse ++ before) :: splitSeqAux sep 0 rest [] := by
  induction cs generalizing piece with
  | nil => simp [splitSeqAux, cutAtFirst, nonempty]
  | cons c cs ih =>
    simp only [splitSeqAux, cutAtFirst]
    cases here : stripLead sep (c :: cs) with
    | some rest =>
      obtain ⟨first, sep, rfl⟩ := List.exists_cons_of_ne_nil nonempty
      obtain ⟨rfl, rfl⟩ := List.cons.inj (stripLead_eq_some_iff.1 here)
      simp only [Option.isSome_some, if_true, List.append_nil, List.length_cons,
        Nat.add_sub_cancel]
      exact congrArg (piece.reverse :: ·) (splitSeqAux_skip sep rest [])
    | none =>
      simp only [Option.isSome_none, Bool.false_eq_true, if_false]
      rw [ih]
      cases cutAtFirst sep cs with
      | none => simp
      | some found => simp

theorem cut_splitSeqAux (nonempty : sep ≠ []) (cs : List Char) :
    Cut sep cs (splitSeqAux sep 0 cs []) := by
  -- by induction on the length, which every occurrence of the separator shortens
  induction size : cs.length using Nat.strong_induction_on generalizing cs with
  | _ length ih =>
    rw [splitSeqAux_eq nonempty]
    cases found : cutAtFirst sep cs with
    | none => exact .whole (not_infix_of_cutAtFirst found)
    | some parts =>
      obtain ⟨piece, rest⟩ := parts
      have cut := cutAtFirst_eq_some_iff.1 found
      have shorter : rest.length < length := size ▸ cut.length_lt nonempty
      obtain rfl := cut.split
      exact .next cut.first (ih _ shorter rest rfl)

/-- Cutting at a separator gives the pieces between its occurrences. -/
theorem splitSeq_eq_iff (nonempty : sep ≠ []) : splitSeq sep cs = pieces ↔ Cut sep cs pieces := by
  have cut : Cut sep cs (splitSeq sep cs) := by
    rw [splitSeq, if_neg (by simpa using nonempty)]
    exact cut_splitSeqAux nonempty cs
  constructor
  · rintro rfl
    exact cut
  · exact cut.unique

/-! ### Trimmed texts -/

/-- `trimmed` is what is left of a text if blanks are taken away at its ends as far as there are
any. -/
structure Trims (cs trimmed : List Char) : Prop where
  between : ∃ left right, cs = left ++ (trimmed ++ right) ∧ (∀ c ∈ left, isBlank c = true) ∧
    ∀ c ∈ right, isBlank c = true
  first : ∀ c ∈ trimmed.head?, isBlank c = false
  last : ∀ c ∈ trimmed.getLast?, isBlank c = false

theorem trimLeft_append {left : List Char} (blank : ∀ c ∈ left, isBlank c = true)
    (cs : List Char) : trimLeft (left ++ cs) = trimLeft cs :=
  List.dropWhile_append_of_pos blank

theorem trimLeft_of_first (first : ∀ c ∈ cs.head?, isBlank c = false) : trimLeft cs = cs := by
  cases cs with
  | nil => rfl
  | cons c cs => exact List.dropWhile_cons_of_neg (by simpa using first)

theorem first_trimLeft (cs : List Char) : ∀ c ∈ (trimLeft cs).head?, isBlank c = false := by
  intro c first
  have here := List.head?_dropWhile_not isBlank cs
  rw [trimLeft] at first
  rwa [Option.mem_def.1 first] at here

theorem blank_append_trimLeft (cs : List Char) :
    ∃ left, cs = left ++ trimLeft cs ∧ ∀ c ∈ left, isBlank c = true :=
  ⟨cs.takeWhile isBlank, List.takeWhile_append_dropWhile.symm, fun _ => List.mem_takeWhile_imp⟩

theorem trims_trimChars (cs : List Char) : Trims cs (trimChars cs) := by
  obtain ⟨left, split, blank⟩ := blank_append_trimLeft cs
  obtain ⟨right, split', blank'⟩ := blank_append_trimLeft (trimLeft cs).reverse
  have rest : trimLeft cs = trimChars cs ++ right.reverse := by
    rw [trimChars, ← List.reverse_append, ← split', List.reverse_reverse]
  refine ⟨⟨left, right.reverse, ?_, blank, ?_⟩, fun c first => ?_, fun c last => ?_⟩
  · rw [← rest]
    exact split
  · exact fun c member => blank' c (List.mem_reverse.1 member)
  · refine first_trimLeft cs c ?_
    rw [rest, List.head?_append, Option.mem_def.1 first]
    rfl
  · refine first_trimLeft (trimLeft cs).reverse c ?_
    rwa [trimChars, List.getLast?_reverse] at last

/-- Trimming takes away the blanks at the ends and nothing else. -/
theorem trims_iff {trimmed : List Char} : Trims cs trimmed ↔ trimChars cs = trimmed := by
  constructor
  · rintro ⟨⟨left, right, rfl, blank, blank'⟩, first, last⟩
    have last' : ∀ c ∈ trimmed.reverse.head?, isBlank c = false := by rwa [List.head?_reverse]
    have blank'' : ∀ c ∈ right.reverse, isBlank c = true :=
      fun c member => blank' c (List.mem_reverse.1 member)
    rw [trimChars, trimLeft_append blank]
    cases trimmed with
    | nil =>
      have nothing : trimLeft right = [] := List.dropWhile_eq_nil_iff.2 blank'
      rw [List.nil_append, nothing]
      rfl
    | cons c trimmed =>
      have front : trimLeft (c :: trimmed ++ right) = c :: trimmed ++ right :=
        trimLeft_of_first first
      rw [front, List.reverse_append, trimLeft_append blank'', trimLeft_of_first last',
        List.reverse_reverse]
  · rintro rfl
    exact trims_trimChars cs

/-! ### Bytes -/

/-- The bytes of a text. -/
def bytes (s : String) : List UInt8 := s.toUTF8.data.toList

theorem bytes_eq (s : String) : bytes s = s.toList.flatMap String.utf8EncodeChar := by
  have encoded : s.toByteArray = s.toList.utf8Encode := by simp
  rw [bytes, String.toUTF8, encoded, List.utf8Encode]
  simp

theorem cons_byte_lt_cons {m n : Nat} (small : m < 256) (small' : n < 256) (xs ys : List UInt8) :
    UInt8.ofNat m :: xs < UInt8.ofNat n :: ys ↔ m < n ∨ m = n ∧ xs < ys := by
  rw [List.cons_lt_cons_iff, UInt8.lt_iff_toNat_lt, ← UInt8.toNat_inj,
    UInt8.toNat_ofNat_of_lt' small, UInt8.toNat_ofNat_of_lt' small']

/-- The bytes of a smaller character come before those of a greater one, whatever follows. -/
theorem encode_lt {c d : Char} (less : c < d) (xs ys : List UInt8) :
    String.utf8EncodeChar c ++ xs < String.utf8EncodeChar d ++ ys := by
  have order : c.val.toNat < d.val.toNat := less
  have bound : d.val.toNat < 0x110000 := by
    rcases d.valid with low | ⟨-, high⟩
    · exact Nat.lt_trans low (by decide)
    · exact high
  have digits {v : Nat} (small : v < 0x110000) : v / 64 / 64 = v / 4096 ∧
      v / 4096 / 64 = v / 262144 ∧ v / 262144 % 8 = v / 262144 := by
    refine ⟨Nat.div_div_eq_div_mul v 64 64, Nat.div_div_eq_div_mul v 4096 64, ?_⟩
    exact Nat.mod_eq_of_lt (by omega)
  have ofSmaller := digits (Nat.lt_trans order bound)
  have ofGreater := digits bound
  unfold String.utf8EncodeChar
  generalize c.val.toNat = m at *
  generalize d.val.toNat = n at *
  -- a case for each number of bytes that the two characters may have
  dsimp only
  split_ifs <;> simp only [List.cons_append, List.nil_append] <;>
    simp (disch := omega) only [cons_byte_lt_cons] <;> omega

theorem append_lt_append_left {xs ys : List UInt8} (less : xs < ys) (zs : List UInt8) :
    zs ++ xs < zs ++ ys := by
  induction zs with
  | nil => exact less
  | cons z zs ih => exact List.cons_lt_cons_iff.2 (.inr ⟨rfl, ih⟩)

theorem flatMap_encode_lt {cs ds : List Char} (less : cs < ds) :
    cs.flatMap String.utf8EncodeChar < ds.flatMap String.utf8EncodeChar := by
  induction cs generalizing ds with
  | nil =>
    cases ds with
    | nil => exact absurd less (List.lt_irrefl _)
    | cons d ds =>
      have some : String.utf8EncodeChar d ≠ [] := by
        rw [← List.length_pos_iff, String.length_utf8EncodeChar]
        exact d.utf8Size_pos
      obtain ⟨byte, others, encoded⟩ := List.exists_cons_of_ne_nil some
      rw [List.flatMap_cons, encoded]
      exact List.nil_lt_cons _ _
  | cons c cs ih =>
    cases ds with
    | nil => exact absurd less (List.not_lt_nil _)
    | cons d ds =>
      rw [List.flatMap_cons, List.flatMap_cons]
      rcases List.cons_lt_cons_iff.1 less with here | ⟨rfl, later⟩
      · exact encode_lt here _ _
      · exact append_lt_append_left (ih later) _

/-- The order of texts is that of their bytes. -/
theorem bytes_le_bytes_iff {a b : String} : bytes a ≤ bytes b ↔ a ≤ b := by
  have mono {a b : String} (less : a < b) : bytes a < bytes b := by
    rw [bytes_eq, bytes_eq]
    exact flatMap_encode_lt less
  constructor
  · intro order
    refine String.not_lt.1 fun less => ?_
    exact List.not_lt.2 order (mono less)
  · intro order
    rcases Decidable.em (a = b) with rfl | differs
    · exact List.le_refl _
    · exact List.le_of_lt (mono (Std.lt_of_le_of_ne order differs))

theorem bytes_lt_bytes_iff {a b : String} : bytes a < bytes b ↔ a < b := by
  rw [← List.not_le, ← String.not_le, bytes_le_bytes_iff]

end LayeredConfig.Text
