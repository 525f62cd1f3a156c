import LayeredConfig.Proofs.Paths
import LayeredConfig.Registry
import Mathlib.Data.List.Nodup
import Mathlib.Data.Prod.Lex
/-!
# Resolving names

A name stands for one of the entries that it may call: the one of the lowest order, and of several
such the one that was registered first. It stands for nothing if it is blank or calls no entry.

Main statements: `Registry.lowest_filter_eq_some_iff`, which says which entry a search finds and
where, `Registry.lowest_concat` and `Registry.lowest_perm`, which say what one more entry and
another arrangement of the entries change, and `Registry.names_resolve`, which puts them together.
-/
namespace LayeredConfig

/-- What stands behind the last double colon of a name, or the whole name if there is none. -/
inductive LastPart (qualified : String) : String → Prop
  | whole (single : ∀ front part, qualified ≠ front ++ "::" ++ part) : LastPart qualified qualified
  | behind {front part : String} (split : qualified = front ++ "::" ++ part)
      (last : ∀ front' part', qualified = front' ++ "::" ++ part' →
        part.length ≤ part'.length) : LastPart qualified part

section LastPart

variable {qualified front part part' : String}

/-- Read backwards, what stands behind a separator stands before it. -/
theorem eq_split_iff : qualified = front ++ "::" ++ part ↔
    qualified.toList.reverse = part.toList.reverse ++ ([':', ':'] ++ front.toList.reverse) := by
  have backwards : part.toList.reverse ++ ([':', ':'] ++ front.toList.reverse) =
      (front ++ "::" ++ part).toList.reverse := by simp
  rw [backwards, List.reverse_inj, String.toList_inj]

theorem LastPart.unique (one : LastPart qualified part) (other : LastPart qualified part') :
    part = part' := by
  cases one with
  | whole single =>
    cases other with
    | whole _ => rfl
    | behind split _ => exact absurd split (single _ _)
  | behind split last =>
    cases other with
    | whole single => exact absurd split (single _ _)
    | behind split' last' =>
      -- each of the two parts is the shorter one, so both are equally long
      have length : part.toList.length = part'.toList.length := by
        rw [String.length_toList, String.length_toList]
        exact Nat.le_antisymm (last _ _ split') (last' _ _ split)
      have same := split.symm.trans split'
      simp only [← String.toList_inj, String.toList_append] at same
      exact String.toList_inj.1 (List.append_inj_right' same length)

theorem lastPart_lastPart (qualified : String) : LastPart qualified (lastPart qualified) := by
  simp only [lastPart]
  cases cut : Text.cutAtFirst [':', ':'] qualified.toList.reverse with
  | none =>
    refine .whole fun front part split => Text.cutAtFirst_eq_none_iff.1 cut ?_
    rw [eq_split_iff.1 split]
    exact Text.infix_of_split
  | some parts =>
    obtain ⟨last, rest⟩ := parts
    obtain ⟨split, first⟩ := Text.cutAtFirst_eq_some_iff.1 cut
    have behind : qualified = String.ofList rest.reverse ++ "::" ++ String.ofList last.reverse :=
      eq_split_iff.2 (by simpa using split)
    refine .behind behind fun front' part' split' => ?_
    have shorter := first _ _ (eq_split_iff.1 split')
    simpa only [String.length_ofList, List.length_reverse, String.length_toList] using shorter

theorem lastPart_eq_iff : lastPart qualified = part ↔ LastPart qualified part := by
  constructor
  · rintro rfl
    exact lastPart_lastPart qualified
  · exact (lastPart_lastPart qualified).unique

end LastPart

namespace Entry

variable {α : Type} {e : Entry α} {called request : String}

/-- What an entry may be called. -/
inductive Called (e : Entry α) : String → Prop
  | name : Called e e.name
  | byAlias {other : String} (member : other ∈ e.aliases) : Called e other
  | qualified {long : String} (named : e.qualifiedName = some long) : Called e long
  | lastPart {long short : String} (named : e.qualifiedName = some long)
      (part : LastPart long short) : Called e short

/-- A request calls an entry if it is what the entry may be called, apart from blanks at the ends
and from the case of ASCII letters. -/
def Answers (e : Entry α) (request : String) : Prop :=
  ∃ called, e.Called called ∧
    Text.lowerAscii (Text.trim called) = Text.lowerAscii (Text.trim request)

theorem mem_candidates_iff : called ∈ e.candidates ↔ e.Called called := by
  simp only [candidates, simpleName?, List.cons_append, List.mem_cons, List.mem_append,
    Option.mem_toList, Option.map_eq_some_iff, lastPart_eq_iff]
  constructor
  · rintro (rfl | (member | named) | ⟨long, named, short⟩)
    · exact .name
    · exact .byAlias member
    · exact .qualified named
    · exact .lastPart named short
  · intro call
    cases call with
    | name => exact .inl rfl
    | byAlias member => exact .inr (.inl (.inl member))
    | qualified named => exact .inr (.inl (.inr named))
    | lastPart named short => exact .inr (.inr ⟨_, named, short⟩)

theorem answersTo_iff : e.answersTo (Text.trim request) = true ↔ e.Answers request := by
  simp [answersTo, Answers, Text.sameIgnoringCase, mem_candidates_iff]

end Entry

namespace Registry

variable {α : Type} {r : Registry α} {entries : List (Entry α)} {e e' : Entry α} {i j : Nat}
  {P : Entry α → Prop} {request : String}

/-! ### The lowest entry -/

/-- Of all entries with a property this one, at position `i`, has the lowest order; those of the
same order were registered later. -/
structure IsLowest (P : Entry α → Prop) (entries : List (Entry α)) (i : Nat) (e : Entry α) :
    Prop where
  registered : entries[i]? = some e
  holds : P e
  least : ∀ j other, entries[j]? = some other → P other →
    toLex (e.order, i) ≤ toLex (other.order, j)

theorem IsLowest.unique (one : IsLowest P entries i e) (other : IsLowest P entries j e') :
    i = j ∧ e = e' := by
  have same := le_antisymm (one.least j e' other.registered other.holds)
    (other.least i e one.registered one.holds)
  obtain rfl : i = j := (Prod.mk.inj (toLex.injective same)).2
  exact ⟨rfl, Option.some.inj (one.registered.symm.trans other.registered)⟩

/-- An entry in front is the lowest if none behind it is lower. -/
theorem isLowest_cons_self (holds : P e)
    (others : ∀ other ∈ entries, P other → e.order ≤ other.order) :
    IsLowest P (e :: entries) 0 e where
  registered := rfl
  holds := holds
  least j other found fits := by
    rw [Prod.Lex.toLex_le_toLex]
    cases j with
    | zero =>
      obtain rfl : e = other := by simpa using found
      exact .inr ⟨rfl, Nat.le_refl 0⟩
    | succ j =>
      have member : other ∈ entries := List.mem_of_getElem? (by simpa using found)
      have order := others other member fits
      exact (lt_or_eq_of_le order).imp_right fun same => ⟨same, Nat.zero_le _⟩

/-- What is lowest stays lowest behind an entry that is not in question or is not as low. -/
theorem IsLowest.cons {first : Entry α} (lowest : IsLowest P entries i e)
    (higher : P first → e.order < first.order) : IsLowest P (first :: entries) (i + 1) e where
  registered := lowest.registered
  holds := lowest.holds
  least j other found fits := by
    rw [Prod.Lex.toLex_le_toLex]
    cases j with
    | zero =>
      obtain rfl : first = other := by simpa using found
      exact .inl (higher fits)
    | succ j =>
      have least := Prod.Lex.toLex_le_toLex.1 (lowest.least j other (by simpa using found) fits)
      exact least.imp_right fun same => ⟨same.1, Nat.succ_le_succ same.2⟩

theorem isLowest_of_lowest {p : Entry α → Bool} (found : lowest (entries.filter p) = some e) :
    ∃ i, IsLowest (fun e => p e = true) entries i e := by
  induction entries generalizing e with
  | nil => simp [lowest] at found
  | cons first rest ih =>
    by_cases fits : p first = true
    · rw [List.filter_cons_of_pos fits] at found
      simp only [lowest] at found
      split at found
      next nothing =>
        -- the first entry is the only one
        obtain rfl : first = e := by simpa using found
        refine ⟨0, isLowest_cons_self fits fun other member fits' => ?_⟩
        have among : other ∈ rest.filter p := List.mem_filter.2 ⟨member, fits'⟩
        rw [lowest_eq_none_iff.1 nothing] at among
        cases among
      next best further =>
        split at found
        next less =>
          obtain rfl : best = e := by simpa using found
          obtain ⟨i, lowest⟩ := ih further
          exact ⟨i + 1, lowest.cons fun _ => less⟩
        next notLess =>
          obtain rfl : first = e := by simpa using found
          refine ⟨0, isLowest_cons_self fits fun other member fits' => ?_⟩
          have among : other ∈ rest.filter p := List.mem_filter.2 ⟨member, fits'⟩
          exact Int.le_trans (Int.not_lt.1 notLess) (lowest_le further among)
    · rw [List.filter_cons_of_neg fits] at found
      obtain ⟨i, lowest⟩ := ih found
      exact ⟨i + 1, lowest.cons fun fits' => absurd fits' fits⟩

/-- The search finds the lowest of the entries with a property. -/
theorem lowest_filter_eq_some_iff {p : Entry α → Bool} : lowest (entries.filter p) = some e ↔
    ∃ i, IsLowest (fun e => p e = true) entries i e := by
  constructor
  · exact isLowest_of_lowest
  · rintro ⟨i, isLowest⟩
    cases found : lowest (entries.filter p) with
    | none =>
      have member : e ∈ entries.filter p :=
        List.mem_filter.2 ⟨List.mem_of_getElem? isLowest.registered, isLowest.holds⟩
      rw [lowest_eq_none_iff.1 found] at member
      cases member
    | some best =>
      obtain ⟨j, isLowest'⟩ := isLowest_of_lowest found
      rw [(isLowest'.unique isLowest).2]

/-- One more entry at the end is the lowest only if it is lower than all others. -/
theorem lowest_concat (entries : List (Entry α)) (e : Entry α) :
    lowest (entries ++ [e]) = match lowest entries with
      | none => some e
      | some best => if e.order < best.order then some e else some best := by
  induction entries with
  | nil => rfl
  | cons first rest ih =>
    rw [List.cons_append, lowest, lowest, ih]
    cases lowest rest with
    | none => rfl
    | some best => grind

/-- If no two entries have the same order, it does not matter how they are arranged. -/
theorem lowest_perm {entries' : List (Entry α)} (perm : entries.Perm entries')
    (distinct : (entries.map Entry.order).Nodup) : lowest entries = lowest entries' := by
  cases found : lowest entries with
  | none =>
    rw [lowest_eq_none_iff.1 found] at perm
    exact (lowest_eq_none_iff.2 perm.nil_eq.symm).symm
  | some best =>
    cases found' : lowest entries' with
    | none =>
      have member := lowest_mem found
      rw [lowest_eq_none_iff.1 found', List.perm_nil] at perm
      rw [perm] at member
      cases member
    | some best' =>
      have member : best' ∈ entries := perm.mem_iff.2 (lowest_mem found')
      have member' : best ∈ entries' := perm.mem_iff.1 (lowest_mem found)
      have order : best.order = best'.order :=
        Int.le_antisymm (lowest_le found member) (lowest_le found' member')
      rw [List.inj_on_of_nodup_map distinct (lowest_mem found) member order]

/-! ### Names -/

/-- The registry with one more entry. -/
def register (r : Registry α) (e : Entry α) : Registry α :=
  { r with entries := r.entries ++ [e] }

theorem resolve_of_blank (blank : Blank request) (r : Registry α) : r.resolve request = none := by
  simp [resolve, trim_isEmpty_iff.2 blank]

theorem resolve_of_not_blank (visible : ¬ Blank request) (r : Registry α) :
    r.resolve request = lowest (r.entries.filter (·.answersTo (Text.trim request))) := by
  have nonempty : ¬ (Text.trim request).isEmpty = true := fun empty =>
    visible (trim_isEmpty_iff.1 empty)
  rw [resolve, if_neg nonempty]

theorem resolve_eq_some_iff : r.resolve request = some e ↔
    ¬ Blank request ∧ ∃ i, IsLowest (·.Answers request) r.entries i e := by
  by_cases blank : Blank request
  · simp [resolve_of_blank blank, blank]
  · simp [resolve_of_not_blank blank, lowest_filter_eq_some_iff, Entry.answersTo_iff, blank]

theorem resolve_eq_none_iff : r.resolve request = none ↔
    Blank request ∨ ∀ e ∈ r.entries, ¬ e.Answers request := by
  by_cases blank : Blank request
  · simp [resolve_of_blank blank, blank]
  · simp [resolve_of_not_blank blank, lowest_eq_none_iff, Entry.answersTo_iff, blank]

/-- One more entry is what a request stands for if it answers to it and is lower than what the
request stood for before. -/
theorem resolve_register (visible : ¬ Blank request) (r : Registry α) (e : Entry α) :
    (r.register e).resolve request =
      if e.answersTo (Text.trim request) then
        match r.resolve request with
        | none => some e
        | some best => if e.order < best.order then some e else some best
      else r.resolve request := by
  rw [resolve_of_not_blank visible, resolve_of_not_blank visible, register, List.filter_append,
    List.filter_singleton]
  by_cases answers : e.answersTo (Text.trim request) = true
  · rw [answers, cond_true, if_pos rfl, lowest_concat]
  · rw [if_neg answers, Bool.eq_false_of_not_eq_true answers, cond_false, List.append_nil]

/-- The new entry takes the request over: it answers to it, and nothing did before or the new entry
is lower. -/
structure TakesOver (r : Registry α) (e : Entry α) (request : String) : Prop where
  answers : e.Answers request
  lower : r.resolve request = none ∨
    ∃ winner, r.resolve request = some winner ∧ e.order < winner.order
  taken : (r.register e).resolve request = some e

theorem takesOver_or_unchanged (r : Registry α) (e : Entry α) (request : String) :
    r.TakesOver e request ∨ (r.register e).resolve request = r.resolve request := by
  by_cases blank : Blank request
  · exact .inr (by rw [resolve_of_blank blank, resolve_of_blank blank])
  · have registered := resolve_register blank r e
    by_cases answers : e.answersTo (Text.trim request) = true
    · rw [if_pos answers] at registered
      cases before : r.resolve request with
      | none =>
        rw [before] at registered
        exact .inl ⟨Entry.answersTo_iff.1 answers, .inl before, registered⟩
      | some winner =>
        rw [before] at registered
        by_cases lower : e.order < winner.order
        · have taken := registered.trans (if_pos lower)
          exact .inl ⟨Entry.answersTo_iff.1 answers, .inr ⟨winner, before, lower⟩, taken⟩
        · exact .inr (registered.trans (if_neg lower))
    · exact .inr (registered.trans (if_neg answers))

/-- If no two entries have the same order, a request stands for the same entry in whichever order
they were registered. -/
theorem resolve_perm {r r' : Registry α} (perm : r.entries.Perm r'.entries)
    (distinct : (r.entries.map Entry.order).Nodup) (request : String) :
    r.resolve request = r'.resolve request := by
  by_cases blank : Blank request
  · rw [resolve_of_blank blank, resolve_of_blank blank]
  · rw [resolve_of_not_blank blank, resolve_of_not_blank blank]
    refine lowest_perm (perm.filter _) (distinct.sublist ?_)
    exact List.filter_sublist.map Entry.order

/-- What a request stands for. -/
structure Resolves (r : Registry α) (request : String) : Prop where
  nothing : r.resolve request = none ↔ Blank request ∨ ∀ e ∈ r.entries, ¬ e.Answers request
  lowest : ∀ e, r.resolve request = some e ↔
    ¬ Blank request ∧ ∃ i, IsLowest (·.Answers request) r.entries i e
  only : ∀ i j e e', IsLowest (·.Answers request) r.entries i e →
    IsLowest (·.Answers request) r.entries j e' → i = j ∧ e = e'
  -- One more entry changes nothing unless it takes the request over.
  further : ∀ e, r.TakesOver e request ∨ (r.register e).resolve request = r.resolve request
  arranged : ∀ r' : Registry α, r.entries.Perm r'.entries → (r.entries.map Entry.order).Nodup →
    r.resolve request = r'.resolve request

theorem names_resolve (r : Registry α) (request : String) : r.Resolves request where
  nothing := resolve_eq_none_iff
  lowest _ := resolve_eq_some_iff
  only _ _ _ _ := IsLowest.unique
  further e := takesOver_or_unchanged r e request
  arranged _ perm distinct := resolve_perm perm distinct request

/-- The last part of a qualified name calls an entry that is lower than one with that alias. -/
theorem names_resolve_lastPart :
    let plain : Entry Unit := { name := "plain", aliases := ["shared"], make := fun _ => .ok () }
    let preferred : Entry Unit := {
      name := "preferred", qualifiedName := some "widgets::Shared", order := -1000,
      make := fun _ => .ok () }
    let r : Registry Unit := ⟨"widget", [plain, preferred]⟩
    let r' : Registry Unit := ⟨"widget", [preferred, plain]⟩
    r.entries.Perm r'.entries ∧ (r.entries.map Entry.order).Nodup ∧
      (r'.resolve " SHARED ").map Entry.name = some "preferred" := by
  intro plain preferred r r'
  have perm : r.entries.Perm r'.entries := .swap preferred plain []
  have distinct : (r.entries.map Entry.order).Nodup := by decide
  have lower : (r.resolve " SHARED ").map Entry.name = some "preferred" := by decide +kernel
  have same := (names_resolve r " SHARED ").arranged r' perm distinct
  exact ⟨perm, distinct, same ▸ lower⟩

end Registry

end LayeredConfig
