import LayeredConfig.Proofs.Live.Effects
/-!
# What a fetch comes to

A fetch is begun in some surroundings and, after each wait, gone on with in whatever surroundings
there are then; between its parts anything may happen. Whatever the sources and transformers answer
meanwhile, the end is one of three: the transformers were asked in order, beginning with the trees
of the sources laid over each other, and each went on from the output of the one before; or a source
failed in a way that is not passed over, and nobody was asked after it; or a transformer failed, and
no other was asked after it. A fetch waits at most once for each source and each transformer, so it
does end.

The invariant says how the parts so far have used up the surroundings after the waits. One lemma for
the sources and one for the transformers follow the recursion of a part, and an induction over the
parts puts them together.
-/
namespace LayeredConfig.Live

variable {σ : Type}

/-- The answer of a source to a fetch: a tree, or a failure that is passed over or that ends it. -/
inductive Answer where
  | tree (t : Tree)
  | passedOver (e : ConfigError)
  | fatal (e : ConfigError)

namespace Answer

/-- A failure is passed over if that is allowed, but a reader that breaks down ends the fetch. -/
def of (allowed : Bool) : Except ConfigError Tree → Answer
  | .ok t => .tree t
  | .error e => if allowed && !e.isBreakdown then .passedOver e else .fatal e

def tree? : Answer → Option Tree
  | .tree t => some t
  | _ => none

/-- The fetch goes on after the answer. -/
def GoesOn : Answer → Prop
  | .fatal _ => False
  | _ => True

/-- The trees among answers laid over each other, from the first to the last. -/
def merged (answers : List Answer) : Tree := Tree.mergeAll (answers.filterMap tree?)

end Answer

/-- What a source answers, with the surroundings afterwards. -/
def Source.answered (s : Source σ) (q : Query) (x : σ) : Answer × σ :=
  (Answer.of (s.allowErrors (s.answer q x).2) (s.answer q x).1, (s.answer q x).2)

/-- Somebody is asked in surroundings and answers there at once, or after a wait in surroundings of
which nothing is known. -/
inductive Call {α : Type} (ask : σ → Pace × σ) (answer : σ → α × σ) (x : σ) :
    List σ → α → σ → Prop where
  | atOnce (quick : (ask x).1.waits = false) :
      Call ask answer x [] (answer (ask x).2).1 (answer (ask x).2).2
  | waited (y : σ) (slow : (ask x).1.waits = true) :
      Call ask answer x [y] (answer y).1 (answer y).2

/-- The sources were asked one after another and none of them ended the fetch. -/
inductive Answering (q : Query) (x : σ) :
    List (Source σ) → List σ → List Answer → σ → Prop where
  | none : Answering q x [] [] [] x
  | next {before : List (Source σ)} {later more : List σ} {answers : List Answer} {y z : σ}
      {s : Source σ} {a : Answer} (sofar : Answering q x before later answers y)
      (call : Call (s.ask q) (s.answered q) y more a z) (goesOn : a.GoesOn) :
      Answering q x (before ++ [s]) (later ++ more) (answers ++ [a]) z

/-- What a transformer is given: what the one before it has put out, or else the first tree. -/
def handedOn (tree : Tree) (outputs : List Tree) : Tree := outputs.getLastD tree

@[simp] theorem handedOn_concat (tree : Tree) (outputs : List Tree) (output : Tree) :
    handedOn tree (outputs ++ [output]) = output := by
  simp [handedOn]

/-- The transformers were asked one after another, each with the output of the one before it, and
none of them failed. -/
inductive Transforming (x : σ) (tree : Tree) :
    List (Transformer σ) → List σ → List Tree → σ → Prop where
  | none : Transforming x tree [] [] [] x
  | next {before : List (Transformer σ)} {later more : List σ} {outputs : List Tree} {y z : σ}
      {t : Transformer σ} {output : Tree} (sofar : Transforming x tree before later outputs y)
      (call : Call (t.ask (handedOn tree outputs)) (t.answer (handedOn tree outputs)) y more
        (.ok output) z) :
      Transforming x tree (before ++ [t]) (later ++ more) (outputs ++ [output]) z

/-- The first `n` sources are asked. -/
def askedFirst (n : Nat) : List Event := (List.range n).map .asked

/-- The first `n` transformers are asked. -/
def transformedFirst (n : Nat) : List Event := (List.range n).map .transformed

/-- How a fetch ends that was begun in surroundings `x` and for which there were others after the
waits, with what the sources answered, what the transformers did, and whom it asked. -/
inductive Ends (plan : Plan σ) (x : σ) : List σ → List Answer → List (Except ConfigError Tree) →
    List Event → Except ConfigError Tree → Prop where
  -- The result is the last output.
  | delivered {later more : List σ} {answers : List Answer} {outputs : List Tree} {y z : σ}
      (answering : Answering plan.query x plan.sources later answers y)
      (transforming : Transforming y (Answer.merged answers) plan.transformers more
        outputs z) :
      Ends plan x (later ++ more) answers (outputs.map .ok)
        (askedFirst plan.sources.length ++ transformedFirst plan.transformers.length)
        (.ok (handedOn (Answer.merged answers) outputs))
  -- A failure of a source is not passed over.
  | sourceFailed {before after : List (Source σ)} {later more : List σ} {answers : List Answer}
      {s : Source σ} {e : ConfigError} {y z : σ} (split : plan.sources = before ++ s :: after)
      (answering : Answering plan.query x before later answers y)
      (call : Call (s.ask plan.query) (s.answered plan.query) y more (.fatal e) z) :
      Ends plan x (later ++ more) (answers ++ [.fatal e]) [] (askedFirst (before.length + 1))
        (.error (.sourceFetch s.name plan.query.describe (.error e)))
  -- A transformer fails.
  | transformerFailed {before after : List (Transformer σ)} {later more last : List σ}
      {answers : List Answer} {outputs : List Tree} {t : Transformer σ} {e : ConfigError}
      {y z u : σ} (answering : Answering plan.query x plan.sources later answers y)
      (split : plan.transformers = before ++ t :: after)
      (transforming : Transforming y (Answer.merged answers) before more outputs z)
      (call : Call (t.ask (handedOn (Answer.merged answers) outputs))
        (t.answer (handedOn (Answer.merged answers) outputs)) z last (.error e) u) :
      Ends plan x (later ++ more ++ last) answers (outputs.map .ok ++ [.error e])
        (askedFirst plan.sources.length ++ transformedFirst (before.length + 1))
        (.error (.transform t.name (.error e)))

/-- A fetch has come so far: it was begun in surroundings `x` and gone on with after each wait, in a
world with the next of `later`. The events are what happened in it, the first one first. -/
inductive Fetches (plan : Plan σ) (x : σ) : List σ → List Event → Fetched → Prop where
  | begun (w : World σ) {events : List Event} (here : w.surroundings = x)
      (logged : ((fetch plan).run w).2.history = events.reverse ++ w.history) :
      Fetches plan x [] events ((fetch plan).run w).1
  | resumed {later : List σ} {sofar events : List Event} {pace : Pace} {progress : Progress}
      (before : Fetches plan x later sofar (.waiting pace progress)) (w : World σ)
      (logged : ((progress.resume plan).run w).2.history = events.reverse ++ w.history) :
      Fetches plan x (later ++ [w.surroundings]) (sofar ++ events) ((progress.resume plan).run w).1

/-! ### Calls -/

theorem askedFirst_succ (n : Nat) : askedFirst (n + 1) = askedFirst n ++ [.asked n] := by
  simp [askedFirst, List.range_succ]

theorem transformedFirst_succ (n : Nat) :
    transformedFirst (n + 1) = transformedFirst n ++ [.transformed n] := by
  simp [transformedFirst, List.range_succ]

theorem Call.length_le {α : Type} {ask : σ → Pace × σ} {answer : σ → α × σ} {x z : σ}
    {later : List σ} {a : α} (call : Call ask answer x later a z) : later.length ≤ 1 := by
  cases call <;> simp

theorem Answering.length_le {q : Query} {x y : σ} {sources : List (Source σ)} {later : List σ}
    {answers : List Answer} (answering : Answering q x sources later answers y) :
    later.length ≤ sources.length := by
  induction answering with
  | none => exact Nat.le_refl 0
  | next _ call _ ih =>
    have one := call.length_le
    simp only [List.length_append, List.length_singleton]
    omega

theorem Transforming.length_le {x y : σ} {tree : Tree} {ts : List (Transformer σ)} {later : List σ}
    {outputs : List Tree} (transforming : Transforming x tree ts later outputs y) :
    later.length ≤ ts.length := by
  induction transforming with
  | none => exact Nat.le_refl 0
  | next _ call ih =>
    have one := call.length_le
    simp only [List.length_append, List.length_singleton]
    omega

/-- Every source that was asked has answered in a way after which the fetch goes on. -/
theorem Answering.goesOn {q : Query} {x y : σ} {sources : List (Source σ)} {later : List σ}
    {answers : List Answer} (answering : Answering q x sources later answers y) :
    answers.length = sources.length ∧ ∀ a ∈ answers, a.GoesOn := by
  induction answering with
  | none => exact ⟨rfl, by simp⟩
  | next _ _ goesOn ih =>
    refine ⟨by simp [ih.1], ?_⟩
    intro a member
    rcases List.mem_append.1 member with member | member
    · exact ih.2 a member
    · rw [List.mem_singleton.1 member]
      exact goesOn

/-! ### How far a fetch has got -/

/-- A fetch that has got so far has asked whom it had to, and if it is over it has ended as it
should. -/
inductive Stands (plan : Plan σ) (x : σ) : List σ → List Event → Fetched → Prop where
  | atSource {before after : List (Source σ)} {s : Source σ} {later : List σ}
      {answers : List Answer} {y : σ} (pace : Pace) (split : plan.sources = before ++ s :: after)
      (answering : Answering plan.query x before later answers y)
      (slow : (s.ask plan.query y).1.waits = true) :
      Stands plan x later (askedFirst (before.length + 1))
        (.waiting pace (.source before.length (Answer.merged answers)))
  | atTransformer {before after : List (Transformer σ)} {t : Transformer σ} {later more : List σ}
      {answers : List Answer} {outputs : List Tree} {y z : σ} (pace : Pace)
      (answering : Answering plan.query x plan.sources later answers y)
      (split : plan.transformers = before ++ t :: after)
      (transforming : Transforming y (Answer.merged answers) before more outputs z)
      (slow : (t.ask (handedOn (Answer.merged answers) outputs) z).1.waits = true) :
      Stands plan x (later ++ more)
        (askedFirst plan.sources.length ++ transformedFirst (before.length + 1))
        (.waiting pace (.transformer before.length
          (handedOn (Answer.merged answers) outputs)))
  | ended {later : List σ} {answers : List Answer} {outcomes : List (Except ConfigError Tree)}
      {events : List Event} {r : Except ConfigError Tree}
      (ends : Ends plan x later answers outcomes events r) : Stands plan x later events (.over r)

/-- Each wait was for another source or transformer. -/
theorem Stands.length_lt {plan : Plan σ} {x : σ} {later : List σ} {events : List Event}
    {pace : Pace} {progress : Progress}
    (stands : Stands plan x later events (.waiting pace progress)) :
    later.length < plan.sources.length + plan.transformers.length := by
  cases stands with
  | atSource _ split answering _ =>
    have waits := answering.length_le
    simp only [split, List.length_append, List.length_cons]
    omega
  | atTransformer _ answering split transforming _ =>
    have waits := answering.length_le
    have more := transforming.length_le
    simp only [split, List.length_append, List.length_cons]
    omega

/-- The merged tree with an answer laid over it, or the error with which the answer ends the
fetch. -/
def Answer.laidOver (q : Query) (s : Source σ) (merged : Tree) : Answer → Except ConfigError Tree
  | .tree t => .ok (merged.mergedWith t)
  | .passedOver _ => .ok merged
  | .fatal e => .error (.sourceFetch s.name q.describe (.error e))

theorem Answer.laidOver_of_goesOn {a : Answer} (goesOn : a.GoesOn) (q : Query) (s : Source σ)
    (answers : List Answer) :
    a.laidOver q s (merged answers) = .ok (merged (answers ++ [a])) := by
  rw [merged, merged, List.filterMap_append]
  cases a with
  | tree t => simp [laidOver, tree?, Tree.mergeAll_append_singleton]
  | passedOver e => simp [laidOver, tree?, List.filterMap_cons]
  | fatal e => exact goesOn.elim

section Parts

variable {plan : Plan σ} {x y z : σ} {later more : List σ} {answers : List Answer} {w : World σ}

theorem run_takeSource (plan : Plan σ) (s : Source σ) (merged : Tree) (w : World σ) :
    (takeSource plan s merged).run w =
      ((s.answered plan.query w.surroundings).1.laidOver plan.query s merged,
        { w with surroundings := (s.answered plan.query w.surroundings).2 }) := by
  have taken : (takeSource plan s merged).run w =
      (match (s.answer plan.query w.surroundings).1 with
        | .ok tree => .ok (merged.mergedWith tree)
        | .error e =>
          if s.allowErrors (s.answer plan.query w.surroundings).2 && !e.isBreakdown then .ok merged
          else .error (.sourceFetch s.name plan.query.describe (.error e)),
        { w with surroundings := (s.answer plan.query w.surroundings).2 }) := rfl
  rw [taken, Source.answered]
  cases (s.answer plan.query w.surroundings).1 with
  | ok tree => rfl
  | error e =>
    simp only [Answer.of]
    split <;> rfl

/-- A part of a fetch, run in a world, gets the fetch to where it should stand. -/
def Reaches (plan : Plan σ) (x : σ) (later : List σ) (sofar : List Event)
    (part : StateM (World σ) Fetched) (w : World σ) : Prop :=
  ∃ events, (part.run w).2.history = events.reverse ++ w.history ∧
    Stands plan x later (sofar ++ events) (part.run w).1

theorem Reaches.here {sofar : List Event} {fetched : Fetched}
    (stands : Stands plan x later sofar fetched) (w : World σ) :
    Reaches plan x later sofar (pure fetched) w :=
  ⟨[], rfl, by rwa [List.append_nil]⟩

theorem Reaches.after {α : Type} {sofar : List Event} {m : StateM (World σ) α}
    {f : α → StateM (World σ) Fetched} (events : List Event)
    (logged : (m.run w).2.history = events.reverse ++ w.history)
    (onward : Reaches plan x later (sofar ++ events) (f (m.run w).1) (m.run w).2) :
    Reaches plan x later sofar (m >>= f) w := by
  obtain ⟨rest, history, stands⟩ := onward
  refine ⟨events ++ rest, ?_, ?_⟩
  · rw [run_bind, history, logged, List.reverse_append, List.append_assoc]
  · rw [run_bind, ← List.append_assoc]
    exact stands

/-- A transformer answers, at once or after a wait, and those after it are asked if it does not
fail. -/
theorem takeTransformer_reaches
    (answering : Answering plan.query x plan.sources later answers y)
    {before rest : List (Transformer σ)} {t : Transformer σ} {outputs : List Tree} {last : List σ}
    {tree : Tree} (split : plan.transformers = before ++ t :: rest)
    (transforming : Transforming y (Answer.merged answers) before more outputs z)
    (input : handedOn (Answer.merged answers) outputs = tree)
    (call : Call (t.ask tree) (t.answer tree) z last (t.answer tree w.surroundings).1
      (t.answer tree w.surroundings).2)
    (onward : ∀ {output : Tree} {v : World σ},
      Transforming y (Answer.merged answers) (before ++ [t]) (more ++ last) (outputs ++ [output])
        v.surroundings →
      Reaches plan x (later ++ (more ++ last))
        (askedFirst plan.sources.length ++ transformedFirst (before.length + 1))
        (throughTransformers (before.length + 1) output rest) v) :
    Reaches plan x (later ++ (more ++ last))
      (askedFirst plan.sources.length ++ transformedFirst (before.length + 1))
      (do match ← takeTransformer t tree with
          | .ok tree => throughTransformers (before.length + 1) tree rest
          | .error e => return .over (.error e)) w := by
  subst input
  refine .after [] rfl ?_
  rw [List.append_nil]
  generalize input : handedOn (Answer.merged answers) outputs = tree at call
  have taken : ((takeTransformer t tree).run w).1 =
    (t.answer tree w.surroundings).1.mapError fun e => .transform t.name (.error e) := rfl
  rw [taken]
  cases answer : (t.answer tree w.surroundings).1 with
  | error e =>
    rw [answer, ← input] at call
    have ends := Ends.transformerFailed answering split transforming call
    rw [List.append_assoc] at ends
    exact .here (.ended ends) _
  | ok output =>
    rw [answer, ← input] at call
    exact onward (v := ((takeTransformer t tree).run w).2) (input ▸ transforming.next call)

/-- The transformers from one on, when those before it have put out what they had to. -/
theorem throughTransformers_reaches
    (answering : Answering plan.query x plan.sources later answers y)
    {rest : List (Transformer σ)} :
    ∀ {before : List (Transformer σ)} {more : List σ} {outputs : List Tree} {tree : Tree}
      {w : World σ}, plan.transformers = before ++ rest →
      Transforming y (Answer.merged answers) before more outputs w.surroundings →
      handedOn (Answer.merged answers) outputs = tree →
      Reaches plan x (later ++ more)
        (askedFirst plan.sources.length ++ transformedFirst before.length)
        (throughTransformers before.length tree rest) w := by
  -- by induction on the transformers that are left, whatever those before them have put out
  induction rest with
  | nil =>
    intro before more outputs tree w split transforming input
    rw [List.append_nil] at split
    rw [← split] at transforming ⊢
    exact input ▸ .here (.ended (.delivered answering transforming)) w
  | cons t rest ih =>
    intro before more outputs tree w split transforming input
    rw [throughTransformers]
    refine .after [.transformed before.length] rfl ?_
    rw [List.append_assoc, ← transformedFirst_succ]
    cases pace : (t.ask tree w.surroundings).1.waits with
    | true =>
      have waits : ((askTransformer before.length t tree).run w).1.waits = true := pace
      simp only [waits, if_true]
      subst input
      exact .here (.atTransformer _ answering split transforming pace) _
    | false =>
      have quick : ((askTransformer before.length t tree).run w).1.waits = false := pace
      simp only [quick, Bool.false_eq_true, if_false]
      have call : Call _ (t.answer tree) _ _ _ _ := .atOnce pace
      have reaches := takeTransformer_reaches
        (w := ((askTransformer before.length t tree).run w).2) answering split transforming input
        call fun transformed => by
          have rest' := ih (by simpa using split) transformed (handedOn_concat _ _ _)
          simpa using rest'
      rw [List.append_nil] at reaches
      exact reaches

/-- A source answers, at once or after a wait, and those after it are asked if that does not end the
fetch. -/
theorem takeSource_reaches {before rest : List (Source σ)} {s : Source σ}
    (split : plan.sources = before ++ s :: rest)
    (answering : Answering plan.query x before later answers y)
    (call : Call (s.ask plan.query) (s.answered plan.query) y more
      (s.answered plan.query w.surroundings).1 (s.answered plan.query w.surroundings).2)
    (onward : ∀ {a : Answer} {v : World σ},
      Answering plan.query x (before ++ [s]) (later ++ more) (answers ++ [a]) v.surroundings →
      Reaches plan x (later ++ more) (askedFirst (before.length + 1))
        (throughSources plan (before.length + 1) (Answer.merged (answers ++ [a])) rest) v) :
    Reaches plan x (later ++ more) (askedFirst (before.length + 1))
      (do match ← takeSource plan s (Answer.merged answers) with
          | .ok merged => throughSources plan (before.length + 1) merged rest
          | .error e => return .over (.error e)) w := by
  refine .after [] rfl ?_
  rw [List.append_nil, run_takeSource]
  generalize s.answered plan.query w.surroundings = answered at call
  obtain ⟨a, z⟩ := answered
  cases a with
  | fatal e => exact .here (.ended (.sourceFailed split answering call)) _
  | tree t =>
    simp only [Answer.laidOver_of_goesOn (a := .tree t) trivial]
    exact onward (answering.next call trivial)
  | passedOver e =>
    simp only [Answer.laidOver_of_goesOn (a := .passedOver e) trivial]
    exact onward (answering.next call trivial)

/-- The sources from one on, when those before it have answered, and then the transformers. -/
theorem throughSources_reaches {rest : List (Source σ)} :
    ∀ {before : List (Source σ)} {later : List σ} {answers : List Answer} {w : World σ},
      plan.sources = before ++ rest →
      Answering plan.query x before later answers w.surroundings →
      Reaches plan x later (askedFirst before.length)
        (throughSources plan before.length (Answer.merged answers) rest) w := by
  -- by induction on the sources that are left, whatever those before them have answered
  induction rest with
  | nil =>
    intro before later answers w split answering
    rw [List.append_nil] at split
    rw [← split] at answering ⊢
    rw [throughSources]
    have all : plan.transformers = [] ++ plan.transformers := rfl
    have reaches := throughTransformers_reaches answering all .none rfl (w := w)
    simpa [transformedFirst, handedOn] using reaches
  | cons s rest ih =>
    intro before later answers w split answering
    rw [throughSources]
    refine .after [.asked before.length] rfl ?_
    rw [← askedFirst_succ]
    cases pace : (s.ask plan.query w.surroundings).1.waits with
    | true =>
      have waits : ((askSource plan before.length s).run w).1.waits = true := pace
      simp only [waits, if_true]
      exact .here (.atSource _ split answering pace) _
    | false =>
      have quick : ((askSource plan before.length s).run w).1.waits = false := pace
      simp only [quick, Bool.false_eq_true, if_false]
      have call : Call _ (s.answered plan.query) _ _ _ _ := .atOnce pace
      have reaches := takeSource_reaches (w := ((askSource plan before.length s).run w).2) split
        answering call fun answered => by
          have rest' := ih (by simpa using split) answered
          simpa using rest'
      rw [List.append_nil] at reaches
      exact reaches

/-- A fetch that waits goes on in whatever world it is when its wait is over. -/
theorem Stands.resume {sofar : List Event} {pace : Pace} {progress : Progress}
    (stands : Stands plan x later sofar (.waiting pace progress)) (w : World σ) :
    Reaches plan x (later ++ [w.surroundings]) sofar (progress.resume plan) w := by
  cases stands with
  | @atSource before after s _ _ _ _ split answering slow =>
    have others : plan.sources.drop before.length = s :: after := by rw [split, List.drop_left]
    rw [Progress.resume, others]
    refine takeSource_reaches split answering (.waited w.surroundings slow) fun answered => ?_
    have reaches := throughSources_reaches (by simpa using split) answered
    simpa using reaches
  | @atTransformer before after t _ _ _ _ _ _ _ answering split transforming slow =>
    have others : plan.transformers.drop before.length = t :: after := by
      rw [split, List.drop_left]
    rw [Progress.resume, others, List.append_assoc]
    refine takeTransformer_reaches answering split transforming rfl (.waited w.surroundings slow)
      fun transformed => ?_
    have reaches := throughTransformers_reaches answering (by simpa using split) transformed
      (handedOn_concat _ _ _)
    simpa using reaches

theorem Reaches.stands {sofar events : List Event} {part : StateM (World σ) Fetched}
    (reaches : Reaches plan x later sofar part w)
    (logged : (part.run w).2.history = events.reverse ++ w.history) :
    Stands plan x later (sofar ++ events) (part.run w).1 := by
  obtain ⟨others, logged', stands⟩ := reaches
  have same : others = events := by
    rw [logged'] at logged
    exact List.reverse_inj.1 (List.append_cancel_right logged)
  exact same ▸ stands

theorem fetch_reaches (plan : Plan σ) (w : World σ) :
    Reaches plan w.surroundings [] [] (fetch plan) w := by
  have all : plan.sources = [] ++ plan.sources := rfl
  exact throughSources_reaches all .none

/-- Wherever a fetch has got, it has got there as it should. -/
theorem Fetches.stands {events : List Event} {fetched : Fetched}
    (fetches : Fetches plan x later events fetched) : Stands plan x later events fetched := by
  induction fetches with
  | begun w here logged => exact (here ▸ fetch_reaches plan w).stands logged
  | resumed before w logged ih => exact (ih.resume w).stands logged

/-- A fetch that goes on after every wait ends, and waits at most once for each whom it asks. -/
theorem Fetches.ends {events : List Event} {fetched : Fetched} (supply : Nat → σ) {n : Nat}
    (fetches : Fetches plan x ((List.range n).map supply) events fetched)
    (few : n ≤ plan.sources.length + plan.transformers.length) :
    ∃ m ≤ plan.sources.length + plan.transformers.length, ∃ events r,
      Fetches plan x ((List.range m).map supply) events (.over r) := by
  -- every wait uses up one of those who can make the fetch wait
  generalize room : plan.sources.length + plan.transformers.length - n = left
  induction left generalizing n events fetched with
  | zero =>
    rcases fetched with ⟨pace, progress⟩ | r
    · have waits := fetches.stands.length_lt
      rw [List.length_map, List.length_range] at waits
      omega
    · exact ⟨n, few, events, r, fetches⟩
  | succ left ih =>
    rcases fetched with ⟨pace, progress⟩ | r
    · let next : World σ := { surroundings := supply n }
      obtain ⟨events', logged, -⟩ := fetches.stands.resume next
      have resumed := fetches.resumed next logged
      have supplied : (List.range n).map supply ++ [next.surroundings] =
          (List.range (n + 1)).map supply := by
        rw [List.range_succ, List.map_append, List.map_singleton]
      rw [supplied] at resumed
      exact ih resumed (by omega) (by omega)
    · exact ⟨n, few, events, r, fetches⟩

end Parts

/-! ### The refreshes of a session -/

namespace Session

variable {s s' : Session σ}

/-- Whoever leads a refresh is in the middle of a fetch that has come so far. -/
def InFetches (s : Session σ) : Prop :=
  ∀ t purpose f deadline progress, s.task? t = some (.leading purpose f deadline progress) →
    ∃ x later events pace, Fetches s.plan x later events (.waiting pace progress)

theorem InFetches.of_set {new : List (Task σ)} {old task : Task σ} {t : Nat}
    (inFetches : InFetches s) (plan : s'.plan = s.plan) (found : s.task? t = some old)
    (tasks : s'.tasks = (s.tasks ++ new).set t task) (plain : ∀ task ∈ new, task.flight? = none)
    (fetches : ∀ purpose f deadline progress, task = .leading purpose f deadline progress →
      ∃ x later events pace, Fetches s.plan x later events (.waiting pace progress)) :
    InFetches s' := by
  intro u purpose f deadline progress leads
  rw [plan]
  rw [task?_of_set found tasks] at leads
  split at leads
  · exact fetches purpose f deadline progress (Option.some_inj.1 leads)
  · cases before : s.task? u with
    | some task' =>
      rw [before] at leads
      exact inFetches u purpose f deadline progress (before.trans leads)
    | none =>
      rw [before] at leads
      cases plain _ (List.mem_of_getElem? leads)

/-- A part of a fetch is done, and its leader waits again or is through with it. -/
theorem InFetches.led {base : Session σ} {old : Task σ} {t f : Nat} {purpose : Purpose}
    {fetched : Fetched} (inFetches : InFetches s) (plan : s'.plan = s.plan)
    (found : s.task? t = some old) (led : Led base t purpose f fetched s')
    (tasks : base.tasks = s.tasks)
    (fetches : ∃ x later events, Fetches s.plan x later events fetched) : InFetches s' := by
  cases led with
  | waits pace progress _ _ set =>
    rw [tasks, ← List.append_nil s.tasks] at set
    refine inFetches.of_set plan found set (List.forall_mem_nil _) ?_
    rintro _ _ _ _ ⟨⟩
    obtain ⟨x, later, events, fetches⟩ := fetches
    exact ⟨x, later, events, pace, fetches⟩
  | lands fetched flight _ _ _ set plain lands =>
    rw [tasks] at set
    refine inFetches.of_set plan found set plain ?_
    rintro _ _ _ _ rfl
    cases lands.flight?

theorem InFetches.moved (inFetches : InFetches s) (plan : s'.plan = s.plan) (moved : Moved s s') :
    InFetches s' := by
  cases moved with
  | aside aside =>
    intro t purpose f deadline progress leads
    have shift := aside.tasks t
    rw [leads] at shift
    rw [plan]
    generalize here : s.task? t = before at shift
    cases shift with
    | same => exact inFetches t purpose f deadline progress here
    | aside _ plain => cases plain _ rfl
    | told _ ended => cases ended.flight?
  | joined t purpose f found free opened flying =>
    refine inFetches.of_set plan found (by rw [List.append_nil]; rfl) (List.forall_mem_nil _) ?_
    rintro _ _ _ _ ⟨⟩
  | began t purpose found free opened idle =>
    obtain ⟨events, logged, -⟩ := fetch_reaches s.plan s.marked
    exact inFetches.led plan found (lead_led s.begun _ _ _ _) rfl
      ⟨_, _, _, .begun s.marked rfl logged⟩
  | wentOn t purpose f deadline progress found =>
    obtain ⟨x, later, sofar, pace, before⟩ := inFetches t purpose f deadline progress found
    obtain ⟨events, logged, -⟩ := before.stands.resume s.world
    exact inFetches.led plan found (lead_led (s.resumed progress) _ _ _ _) rfl
      ⟨_, _, _, before.resumed s.world logged⟩
  | dropped t purpose f deadline progress doomed found =>
    refine inFetches.of_set plan found (by rw [List.append_nil]; rfl) (List.forall_mem_nil _) ?_
    rintro _ _ _ _ ⟨⟩

/-- Every refresh that is under way in a session is a fetch that has come so far. -/
theorem InFetches.after (plan : Plan σ) (fuel : Nat) (surroundings : σ) (moves : List (Move σ)) :
    InFetches ((fresh plan fuel surroundings).after moves) :=
  kept_by_moves (fun s m _ inFetches onward => inFetches.moved onward.plan (Session.moved s m))
    (Orderly.fresh plan fuel surroundings) nofun (by intro t _ _ _ _ leads; cases leads) moves

end Session

end LayeredConfig.Live
