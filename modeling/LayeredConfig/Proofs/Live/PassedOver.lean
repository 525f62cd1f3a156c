import LayeredConfig.Proofs.Live.Fetching
/-!
# Failures that are passed over

A source whose failure is passed over contributes nothing: if it had not been there, and everybody
else had answered as they did, the fetch would have come to the same result. With how a fetch ends
this says everything about its result, whatever the sources and transformers do and however long
they let it wait.

Both fetches stop asking sources at the first failure that is fatal, so their answers are determined
as soon as they are alike where both have one. The transformers then begin with the same tree, and
as long as those before put out the same, the next one is given the same.
-/
namespace LayeredConfig.Live

variable {σ : Type}

/-- The plan without one of its sources. -/
def Plan.without (plan : Plan σ) (i : Nat) : Plan σ :=
  { plan with sources := plan.sources.eraseIdx i }

/-- Where both lists have an entry, it is the same. -/
def InAccord {α : Type} (xs ys : List α) : Prop :=
  ∀ (k : Nat) (a b : α), xs[k]? = some a → ys[k]? = some b → a = b

theorem InAccord.tail {α : Type} {a b : α} {xs ys : List α}
    (accord : InAccord (a :: xs) (b :: ys)) : a = b ∧ InAccord xs ys :=
  ⟨accord 0 a b rfl rfl, fun k => accord (k + 1)⟩

/-- What each transformer was given, beginning with a tree, and what it answered. -/
def handled (tree : Tree) :
    List (Except ConfigError Tree) → List (Tree × Except ConfigError Tree)
  | [] => []
  | outcome :: rest => (tree, outcome) :: handled (outcome.toOption.getD tree) rest

/-- Transformers that are given the same answer the same. -/
def TransformersAgree (xs ys : List (Tree × Except ConfigError Tree)) : Prop :=
  ∀ (k : Nat) (tree : Tree) (a b : Except ConfigError Tree),
    xs[k]? = some (tree, a) → ys[k]? = some (tree, b) → a = b

/-! ### Answers that stop at the first fatal failure -/

/-- The answers of some sources, up to the first that is fatal. -/
inductive Stops : Nat → List Answer → Prop where
  | all : Stops 0 []
  | here (n : Nat) (e : ConfigError) : Stops (n + 1) [.fatal e]
  | onward {n : Nat} {a : Answer} {answers : List Answer} (goesOn : a.GoesOn)
      (rest : Stops n answers) : Stops (n + 1) (a :: answers)

namespace Stops

variable {n i : Nat} {answers answers' : List Answer} {e : ConfigError}

theorem of_goesOn (all : ∀ a ∈ answers, a.GoesOn) : Stops answers.length answers := by
  induction answers with
  | nil => exact .all
  | cons a rest ih =>
    rw [List.forall_mem_cons] at all
    exact .onward all.1 (ih all.2)

theorem of_fatal (all : ∀ a ∈ answers, a.GoesOn) (e : ConfigError) (left : Nat) :
    Stops (answers.length + (left + 1)) (answers ++ [.fatal e]) := by
  induction answers with
  | nil => rw [List.length_nil, Nat.zero_add]; exact .here left e
  | cons a rest ih =>
    rw [List.forall_mem_cons] at all
    rw [List.length_cons, Nat.add_right_comm]
    exact .onward all.1 (ih all.2)

/-- Answers that are the same where both have one are the same. -/
theorem unique (stops : Stops n answers) (stops' : Stops n answers')
    (accord : InAccord answers answers') : answers = answers' := by
  induction stops generalizing answers' with
  | all => cases stops'; rfl
  | here n e =>
    cases stops' with
    | here => rw [accord.tail.1]
    | onward goesOn rest' =>
      obtain ⟨rfl, -⟩ := accord.tail
      exact goesOn.elim
  | onward goesOn rest ih =>
    cases stops' with
    | here =>
      obtain ⟨rfl, -⟩ := accord.tail
      exact goesOn.elim
    | onward _ rest' =>
      obtain ⟨rfl, others⟩ := accord.tail
      rw [ih rest' others]

theorem length_le (stops : Stops n answers) : answers.length ≤ n := by
  induction stops with
  | all => exact Nat.le_refl 0
  | here n e => exact Nat.succ_le_succ (Nat.zero_le n)
  | onward _ _ ih => exact Nat.succ_le_succ ih

theorem eraseIdx (stops : Stops n answers) (passed : answers[i]? = some (.passedOver e)) :
    Stops (n - 1) (answers.eraseIdx i) := by
  induction stops generalizing i with
  | all => cases passed
  | here n e => cases i <;> cases passed
  | onward goesOn rest ih =>
    rename_i n a answers
    cases i with
    | zero => exact rest
    | succ i =>
      have more : n = n - 1 + 1 := by
        cases rest with
        | all => cases passed
        | here | onward => rfl
      have erased := Stops.onward goesOn (ih passed)
      rw [Nat.add_sub_cancel, List.eraseIdx_cons_succ, more]
      exact erased

end Stops

theorem merged_eraseIdx {answers : List Answer} {i : Nat} {e : ConfigError}
    (passed : answers[i]? = some (.passedOver e)) :
    Answer.merged (answers.eraseIdx i) = Answer.merged answers := by
  have trees : (answers.eraseIdx i).filterMap Answer.tree? = answers.filterMap Answer.tree? := by
    induction answers generalizing i with
    | nil => rfl
    | cons a rest ih =>
      cases i with
      | zero => cases passed; rfl
      | succ i => simp only [List.eraseIdx_cons_succ, List.filterMap_cons, ih passed]
  rw [Answer.merged, trees, ← Answer.merged]

/-! ### The transformers after the sources -/

/-- What comes of a tree that goes through transformers, by what they answer. -/
inductive Comes : Tree → List (Transformer σ) → List (Except ConfigError Tree) →
    Except ConfigError Tree → Prop where
  | out (tree : Tree) : Comes tree [] [] (.ok tree)
  | failed (tree : Tree) (t : Transformer σ) (rest : List (Transformer σ)) (e : ConfigError) :
      Comes tree (t :: rest) [.error e] (.error (.transform t.name (.error e)))
  | onward {tree output : Tree} {t : Transformer σ} {rest : List (Transformer σ)}
      {outcomes : List (Except ConfigError Tree)} {r : Except ConfigError Tree}
      (others : Comes output rest outcomes r) : Comes tree (t :: rest) (.ok output :: outcomes) r

theorem Comes.unique {tree : Tree} {ts : List (Transformer σ)}
    {outcomes outcomes' : List (Except ConfigError Tree)} {r r' : Except ConfigError Tree}
    (comes : Comes tree ts outcomes r) (comes' : Comes tree ts outcomes' r')
    (agree : TransformersAgree (handled tree outcomes) (handled tree outcomes')) : r = r' := by
  induction comes generalizing outcomes' with
  | out tree => cases comes'; rfl
  | failed tree t rest e =>
    cases comes' with
    | failed _ _ _ e' => cases agree 0 tree (.error e) (.error e') rfl rfl; rfl
    | onward => cases agree 0 tree _ _ rfl rfl
  | onward _ ih =>
    cases comes' with
    | failed => cases agree 0 _ _ _ rfl rfl
    | onward others' =>
      cases agree 0 _ _ _ rfl rfl
      exact ih others' fun k => agree (k + 1)

theorem Transforming.comes {x y : σ} {tree : Tree} {before after : List (Transformer σ)}
    {later : List σ} {outputs : List Tree} {outcomes : List (Except ConfigError Tree)}
    {r : Except ConfigError Tree} (transforming : Transforming x tree before later outputs y)
    (others : Comes (handedOn tree outputs) after outcomes r) :
    Comes tree (before ++ after) (outputs.map .ok ++ outcomes) r := by
  -- the one has its last step at the end, the other its first one at the front
  induction transforming generalizing after outcomes with
  | none => exact others
  | @next before _ _ outputs _ _ t output _ _ ih =>
    rw [handedOn_concat] at others
    have longer := ih (.onward (t := t) others)
    simpa using longer

/-! ### One source fewer -/

namespace Ends

variable {plan : Plan σ} {x : σ} {later : List σ} {answers : List Answer}
  {outcomes : List (Except ConfigError Tree)} {events : List Event} {r : Except ConfigError Tree}

theorem stops (ends : Ends plan x later answers outcomes events r) :
    Stops plan.sources.length answers := by
  cases ends with
  | delivered answering _ => exact answering.goesOn.1 ▸ .of_goesOn answering.goesOn.2
  | transformerFailed answering _ _ _ => exact answering.goesOn.1 ▸ .of_goesOn answering.goesOn.2
  | @sourceFailed _ after _ _ answers _ e _ _ split answering _ =>
    have length : plan.sources.length = answers.length + (after.length + 1) := by
      rw [split, List.length_append, List.length_cons, answering.goesOn.1]
    exact length ▸ .of_fatal answering.goesOn.2 e after.length

/-- If no failure was fatal, the transformers decide. -/
theorem comes (ends : Ends plan x later answers outcomes events r)
    (all : ∀ a ∈ answers, a.GoesOn) :
    Comes (Answer.merged answers) plan.transformers outcomes r := by
  cases ends with
  | delivered _ transforming =>
    have comes := transforming.comes (.out _)
    rwa [List.append_nil, List.append_nil] at comes
  | transformerFailed _ split transforming _ =>
    exact split ▸ transforming.comes (.failed _ _ _ _)
  | sourceFailed => exact absurd (all _ (List.mem_append_right _ (List.mem_singleton_self _))) id

/-- If a failure was fatal, it was the last answer and decides. -/
theorem decided {e : ConfigError} (ends : Ends plan x later answers outcomes events r)
    (fatal : .fatal e ∈ answers) :
    ∃ before s, answers = before ++ [.fatal e] ∧ plan.sources[before.length]? = some s ∧
      r = .error (.sourceFetch s.name plan.query.describe (.error e)) := by
  cases ends with
  | delivered answering _ => exact (answering.goesOn.2 _ fatal).elim
  | transformerFailed answering _ _ _ => exact (answering.goesOn.2 _ fatal).elim
  | @sourceFailed _ _ _ _ answers s _ _ _ split answering _ =>
    rcases List.mem_append.1 fatal with fatal | fatal
    · exact (answering.goesOn.2 _ fatal).elim
    · cases List.mem_singleton.1 fatal
      refine ⟨answers, s, rfl, ?_, rfl⟩
      rw [split, answering.goesOn.1, List.getElem?_append_right (Nat.le_refl _), Nat.sub_self,
        List.getElem?_cons_zero]

/-- A source whose failure was passed over could as well not have been there. -/
theorem without {i : Nat} {e : ConfigError} {x' : σ} {later' : List σ} {answers' : List Answer}
    {outcomes' : List (Except ConfigError Tree)} {events' : List Event}
    {r' : Except ConfigError Tree} (ends : Ends plan x later answers outcomes events r)
    (passed : answers[i]? = some (.passedOver e))
    (others : Ends (plan.without i) x' later' answers' outcomes' events' r')
    (sources : InAccord (answers.eraseIdx i) answers')
    (transformers : TransformersAgree (handled (Answer.merged answers) outcomes)
      (handled (Answer.merged answers') outcomes')) : r = r' := by
  have present : i < answers.length := (List.getElem?_eq_some_iff.1 passed).1
  have stops : Stops (plan.without i).sources.length (answers.eraseIdx i) := by
    have fewer := ends.stops.eraseIdx passed
    rwa [← List.length_eraseIdx_of_lt (Nat.lt_of_lt_of_le present ends.stops.length_le)] at fewer
  obtain rfl : answers.eraseIdx i = answers' := stops.unique others.stops sources
  -- now the answers are the same, and what decides is either the transformers or a fatal failure
  by_cases goesOn : ∀ a ∈ answers, a.GoesOn
  · have goesOn' : ∀ a ∈ answers.eraseIdx i, a.GoesOn := fun a member =>
      goesOn a (List.mem_of_mem_eraseIdx member)
    have comes' := others.comes goesOn'
    rw [merged_eraseIdx passed] at transformers comes'
    exact (ends.comes goesOn).unique comes' transformers
  · obtain ⟨fatal, member, stopped⟩ : ∃ a ∈ answers, ¬ a.GoesOn := by simpa using goesOn
    cases fatal with
    | tree | passedOver => exact absurd trivial stopped
    | fatal e' =>
      obtain ⟨before, s, rfl, source, rfl⟩ := ends.decided member
      have earlier : i < before.length := by
        rw [List.length_append, List.length_singleton] at present
        refine Nat.lt_of_le_of_ne (Nat.le_of_lt_succ present) ?_
        rintro rfl
        simp at passed
      have split : (before ++ [Answer.fatal e']).eraseIdx i = before.eraseIdx i ++ [.fatal e'] :=
        List.eraseIdx_append_of_lt_length earlier _
      obtain ⟨before', s', same, source', rfl⟩ := others.decided (e := e') (by simp [split])
      -- the source whose failure was fatal has moved up by one
      obtain rfl : before.eraseIdx i = before' := List.append_cancel_right (split ▸ same)
      have moved : (plan.without i).sources[(before.eraseIdx i).length]? =
          plan.sources[before.length]? := by
        rw [List.length_eraseIdx_of_lt earlier, Plan.without, List.getElem?_eraseIdx,
          if_neg (by omega), Nat.sub_add_cancel (by omega)]
      rw [moved, source] at source'
      cases source'
      rfl

end Ends

/-- A fetch is the merge of the trees of the sources and then the way through the transformers. It
ends in one of three ways, by what the sources and transformers answer; if it goes on after every
wait it does end, having waited at most once for each of them; and if a source whose failure was
passed over had not been there, and the others had answered as they did, the result would have been
the same. -/
theorem fetch_merges_then_transforms (plan : Plan σ) (x : σ) :
    (∀ later events r, Fetches plan x later events (.over r) →
      ∃ answers outcomes, Ends plan x later answers outcomes events r) ∧
    (∀ supply : Nat → σ, ∃ n ≤ plan.sources.length + plan.transformers.length, ∃ events r,
      Fetches plan x ((List.range n).map supply) events (.over r)) ∧
    ∀ later answers outcomes events r, Ends plan x later answers outcomes events r →
      ∀ (i : Nat) e, answers[i]? = some (.passedOver e) →
        ∀ x' later' answers' outcomes' events' r',
          Ends (plan.without i) x' later' answers' outcomes' events' r' →
          InAccord (answers.eraseIdx i) answers' →
          TransformersAgree (handled (Answer.merged answers) outcomes)
            (handled (Answer.merged answers') outcomes') →
          r' = r := by
  refine ⟨?_, ?_, ?_⟩
  · intro later events r fetches
    cases fetches.stands with
    | ended ends => exact ⟨_, _, ends⟩
  · intro supply
    obtain ⟨events, logged, -⟩ := fetch_reaches plan { surroundings := x }
    exact (Fetches.begun _ rfl logged).ends supply (n := 0) (Nat.zero_le _)
  · intro later answers outcomes events r ends i e passed x' later' answers' outcomes' events' r'
      others sources transformers
    exact (ends.without passed others sources transformers).symm

/-- A fetch from a source that fails and may fail, and from another one. -/
theorem fetch_past_a_failure :
    let ports : Tree := { root := [("port", .int 80)] }
    let failing : Source Unit := {
      name := "failing"
      allowErrors := fun _ => true
      ask := fun _ x => (.atOnce, x)
      answer := fun _ x => (.error .noValue, x)
      close := fun x => (.ok (), x) }
    let steady : Source Unit := {
      name := "steady"
      allowErrors := fun _ => false
      ask := fun _ x => (.atOnce, x)
      answer := fun _ x => (.ok ports, x)
      close := fun x => (.ok (), x) }
    let plan : Plan Unit := { query := ⟨"app", [], none, none⟩, sources := [failing, steady] }
    Fetches plan () [] [.asked 0, .asked 1] (.over (.ok ports)) ∧
    (∃ answers outcomes, Ends plan () [] answers outcomes [.asked 0, .asked 1] (.ok ports)) ∧
    ∀ r, Ends (plan.without 0) () [] [.tree ports] [] [.asked 0] r → r = .ok ports := by
  intro ports failing steady plan
  have claims := fetch_merges_then_transforms plan ()
  have fetches : Fetches plan () [] [.asked 0, .asked 1] (.over (.ok ports)) :=
    .begun { surroundings := () } rfl rfl
  refine ⟨fetches, claims.1 _ _ _ fetches, ?_⟩
  have first : Answering plan.query () [failing] [] [.passedOver .noValue] () :=
    Answering.none.next (.atOnce rfl) trivial
  have both : Answering plan.query () plan.sources []
      [.passedOver .noValue, .tree ports] () :=
    first.next (.atOnce rfl) trivial
  have ends := Ends.delivered both (Transforming.none (x := ()))
  intro r others
  exact claims.2.2 _ _ _ _ _ ends 0 .noValue rfl _ _ _ _ _ r others
    (fun k a b here there => Option.some_inj.1 (here.symm.trans there)) nofun

end LayeredConfig.Live
