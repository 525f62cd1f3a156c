/-!
# Cutting texts

Cutting a text at every occurrence of a separator of several characters, cutting it at the first or
the last one, and comparing texts without regard to the case of ASCII letters.
-/
namespace LayeredConfig.Text

/-- What is left of `cs` behind `lead`, if `cs` begins with it. -/
def stripLead : List Char → List Char → Option (List Char)
  | [], cs => some cs
  | _ :: _, [] => none
  | l :: lead, c :: cs => if l == c then stripLead lead cs else none

theorem stripLead_eq_some_iff {lead cs rest : List Char} :
    stripLead lead cs = some rest ↔ cs = lead ++ rest := by
  induction lead generalizing cs with
  | nil => simp [stripLead]
  | cons l lead ih =>
    cases cs with
    | nil => simp [stripLead]
    | cons c cs =>
      by_cases h : l = c
      · simp [stripLead, h, ih]
      · simp [stripLead, h, Ne.symm h]

/-- The pieces between occurrences of the separator, taken from the left without overlap. The count
`skip` says how many characters of the occurrence just met are still to be passed over. -/
def splitSeqAux (sep : List Char) : Nat → List Char → List Char → List (List Char)
  | _, [], piece => [piece.reverse]
  | skip + 1, _ :: cs, piece => splitSeqAux sep skip cs piece
  | 0, c :: cs, piece =>
    if (stripLead sep (c :: cs)).isSome then
      piece.reverse :: splitSeqAux sep (sep.length - 1) cs []
    else splitSeqAux sep 0 cs (c :: piece)

/-- The pieces between occurrences of a separator. An empty separator stands between any two
characters and at both ends. -/
def splitSeq (sep cs : List Char) : List (List Char) :=
  if sep.isEmpty then [] :: cs.map (fun c => [c]) ++ [[]] else splitSeqAux sep 0 cs []

/-- What stands before and behind the first occurrence of `sep`, if there is one. -/
def cutAtFirst (sep : List Char) : List Char → Option (List Char × List Char)
  | [] => if sep.isEmpty then some ([], []) else none
  | c :: cs =>
    match stripLead sep (c :: cs) with
    | some rest => some ([], rest)
    | none => (cutAtFirst sep cs).map fun (before, rest) => (c :: before, rest)

theorem eq_of_cutAtFirst {sep cs before rest : List Char}
    (h : cutAtFirst sep cs = some (before, rest)) : cs = before ++ (sep ++ rest) := by
  induction cs generalizing before with
  | nil =>
    by_cases empty : sep = []
    · simp_all [cutAtFirst]
    · simp [cutAtFirst, empty] at h
  | cons c cs ih =>
    simp only [cutAtFirst] at h
    split at h
    · rename_i found
      obtain ⟨rfl, rfl⟩ := Prod.mk.inj (Option.some.inj h)
      rw [List.nil_append]
      exact stripLead_eq_some_iff.1 found
    · obtain ⟨⟨piece, after⟩, found, same⟩ := Option.map_eq_some_iff.1 h
      obtain ⟨rfl, rfl⟩ := Prod.mk.inj same
      rw [ih found, List.cons_append]

/-- What stands before and behind the last occurrence of the character, if there is one. -/
def cutAtLast (sep : Char) : List Char → Option (List Char × List Char)
  | [] => none
  | c :: cs =>
    match cutAtLast sep cs with
    | some (before, rest) => some (c :: before, rest)
    | none => if c == sep then some ([], cs) else none

/-- The text with its ASCII capitals made small; other letters stay. -/
def lowerAscii (s : String) : String :=
  String.ofList (s.toList.map Char.toLower)

/-- Two texts are the same up to the case of ASCII letters. -/
def sameIgnoringCase (a b : String) : Bool :=
  lowerAscii a == lowerAscii b

end LayeredConfig.Text
