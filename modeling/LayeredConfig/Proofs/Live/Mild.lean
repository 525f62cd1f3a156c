import LayeredConfig.Proofs.Equality
import LayeredConfig.Proofs.Live.Fetching
import LayeredConfig.Proofs.Live.Laws
import LayeredConfig.Proofs.Live.Offered
/-!
# Refreshes that say the truth

A refresh that ends with the news that the configuration is closed says so because it is closed. No
fetch gives that error, since what a source or a transformer has to say is wrapped; nor does any
derived cell, as long as all of them follow the tree by the usual rules. And if no listener panics
then a refresh is broken off only if its fetch breaks down or if there is not enough fuel.
-/
namespace LayeredConfig.Live

variable {σ : Type} {plan : Plan σ} {w : World σ} {e : ConfigError}

/-! ### Fetches -/

/-- If the fetch has failed then not with the news that something is closed. -/
def Fetched.Honest : Fetched → Prop
  | .over (.error e) => e.isClosed = false
  | _ => True

theorem takeTransformer_honest {t : Transformer σ} {tree : Tree}
    (fails : ((takeTransformer t tree).run w).1 = .error e) : e.isClosed = false := by
  change Except.mapError _ _ = Except.error e at fails
  cases answers : (t.answer tree w.surroundings).1 with
  | ok tree' =>
    rw [answers] at fails
    cases fails
  | error e' =>
    rw [answers] at fails
    cases fails
    rfl

theorem takeSource_honest {s : Source σ} {merged : Tree}
    (fails : ((takeSource plan s merged).run w).1 = .error e) : e.isClosed = false := by
  rw [run_takeSource] at fails
  cases answers : (s.answered plan.query w.surroundings).1 with
  | tree t =>
    rw [answers] at fails
    cases fails
  | passedOver e' =>
    rw [answers] at fails
    cases fails
  | fatal e' =>
    rw [answers] at fails
    cases fails
    rfl

theorem throughTransformers_honest (index : Nat) (tree : Tree) (ts : List (Transformer σ))
    (w : World σ) : ((throughTransformers index tree ts).run w).1.Honest := by
  induction ts generalizing index tree w with
  | nil => trivial
  | cons t rest ih =>
    rw [throughTransformers, run_bind]
    split
    · trivial
    · rw [run_bind]
      split
      next tree' _ => exact ih (index + 1) tree' _
      next e fails => exact takeTransformer_honest fails

theorem throughSources_honest (plan : Plan σ) (index : Nat) (merged : Tree)
    (sources : List (Source σ)) (w : World σ) :
    ((throughSources plan index merged sources).run w).1.Honest := by
  induction sources generalizing index merged w with
  | nil => exact throughTransformers_honest 0 merged plan.transformers w
  | cons s rest ih =>
    rw [throughSources, run_bind]
    split
    · trivial
    · rw [run_bind]
      split
      next merged' _ => exact ih (index + 1) merged' _
      next e fails => exact takeSource_honest fails

theorem fetch_honest (plan : Plan σ) (w : World σ) : ((fetch plan).run w).1.Honest :=
  throughSources_honest plan 0 .empty plan.sources w

theorem resume_honest (plan : Plan σ) (progress : Progress) (w : World σ) :
    ((progress.resume plan).run w).1.Honest := by
  cases progress with
  | source index merged =>
    rw [Progress.resume]
    split
    · trivial
    next s rest _ =>
      rw [run_bind]
      split
      next merged' _ => exact throughSources_honest plan (index + 1) merged' rest _
      next e fails => exact takeSource_honest fails
  | transformer index tree =>
    rw [Progress.resume]
    split
    · trivial
    next t rest _ =>
      rw [run_bind]
      split
      next tree' _ => exact throughTransformers_honest (index + 1) tree' rest _
      next e fails => exact takeTransformer_honest fails

/-! ### Derived cells -/

theorem Value.coerce_honest {shape : Shape} {path : String} {v : Value}
    (fails : v.coerce shape path = .error e) : e.isClosed = false := by
  rw [Value.coerce] at fails
  split at fails
  · cases fails
  · split at fails
    · cases fails
      rfl
    · split at fails
      · cases fails
      · cases fails
        rfl

theorem Mapper.mapBean_honest {mapper : Mapper} {shape : Shape} {path : String} {v : Value}
    (fails : mapper.mapBean shape v path = .error e) : e.isClosed = false := by
  rw [Mapper.mapBean] at fails
  split at fails
  · cases fails
  · cases fails
    rfl

/-- The error of something of which a value is made. -/
theorem error_of_map {α β ε : Type} {f : α → β} {x : Except ε α} {e : ε}
    (fails : x.map f = .error e) : x = .error e := by
  cases x with
  | ok a => cases fails
  | error e' => cases fails; rfl

theorem Extractor.Usual.honest {f : Extractor} (usual : f.Usual) {tree : Tree}
    (fails : f tree = .error e) : e.isClosed = false := by
  cases usual with
  | atPath shape path =>
    rw [Extractor.atPath, Tree.getAs] at fails
    split at fails
    · cases fails
    · exact Value.coerce_honest (error_of_map fails)
  | bean mapper shape path =>
    rw [Extractor.bean] at fails
    dsimp only at fails
    split at fails
    · cases fails
    · exact Mapper.mapBean_honest (error_of_map fails)
  | whole => cases fails

theorem computeAll_honest {tree : Tree} {tracked : List Tracked}
    (usual : ∀ t ∈ tracked, t.extract.Usual) (fails : computeAll tree tracked = .error e) :
    e.isClosed = false := by
  induction tracked with
  | nil => cases fails
  | cons t rest ih =>
    obtain ⟨first, others⟩ := List.forall_mem_cons.mp usual
    rw [computeAll] at fails
    cases computes : t.extract tree with
    | error e' =>
      rw [computes] at fails
      cases fails
      exact first.honest computes
    | ok value =>
      cases later : computeAll tree rest with
      | error e' =>
        rw [computes, later] at fails
        cases fails
        exact ih others later
      | ok updates =>
        rw [computes, later] at fails
        cases fails

/-! ### Scripts -/

/-- A cell is derived by one of the usual rules. -/
def Script.DerivesUsually : Script σ → Prop
  | .derive extract _ => extract.Usual
  | _ => True

/-- The law that cells are derived by the usual rules and that neither listeners nor hooks panic. -/
def Law.mild : Law σ where
  own := Script.DerivesUsually
  inner script := script.DerivesUsually ∧ script ≠ .panic
  stricter _ := And.left
  ends _ := ⟨trivial, nofun⟩
  forgets _ := ⟨trivial, nofun⟩
  hooks _ _ := ⟨trivial, nofun⟩

/-- The script derives cells by the usual rules only, and its listeners and hooks, and theirs, do
not panic. The script itself may. -/
abbrev Script.Mild (script : Script σ) : Prop := script.Obeys .mild

theorem World.Obeys.usual (mild : w.Obeys .mild) : ∀ t ∈ w.config.tracked, t.extract.Usual := by
  intro t known
  obtain ⟨_, usual⟩ := mild.tracked t known
  exact usual

/-- What is still to be done of publishing a tree does not begin with a panic. -/
theorem Leads.no_panic {updates : List (Nat × Option Value)} {left : List (Item σ)} {u v : World σ}
    (leads : Leads plan (dispatch plan updates) u left v) (mild : u.Obeys .mild) :
    left.head? ≠ some (.go .panic) := by
  intro panics
  -- nothing but listeners and hooks is run, so that the law for these is the law for all the work
  have strict : u.Obeys Law.mild.strict :=
    ⟨mild.listeners, mild.hooks, fun t known => ⟨fun _ => .panic, mild.usual t known, nofun⟩⟩
  have kinds := (strict.leads (dispatch_obeys _ plan updates) leads).2
  exact (kinds _ (List.mem_of_mem_head? panics)).1.2 rfl

/-! ### Refreshes -/

/-- How a refresh ends whose fetch is over. If it is broken off there was not enough fuel, and if it
fails with the news that the configuration is closed that is true. -/
def Truthful : Except Stop (Except ConfigError Tree) × World σ → Prop
  | (.error stop, _) => stop = .exhausted
  | (.ok (.error e), v) => e.isClosed = true → v.config.closed = true
  | (.ok (.ok _), _) => True

theorem closed_of_failure {fetched : Except ConfigError Tree} (mild : w.Obeys .mild)
    (honest : (Fetched.over fetched).Honest) (fails : w.failure? fetched = some e)
    (closed : e.isClosed = true) : w.config.closed = true := by
  have other (open_ : e.isClosed = false) : w.config.closed = true := by
    rw [open_] at closed
    cases closed
  cases fetched with
  | error e' =>
    cases fails
    exact other honest
  | ok tree =>
    rw [World.failure?] at fails
    split at fails
    next closed => exact closed
    · split at fails
      · cases fails
      · split at fails
        next e' computes =>
          cases fails
          exact other (computeAll_honest mild.usual computes)
        · cases fails

theorem conclude_truthful (plan : Plan σ) (fuel : Nat) {fetched : Except ConfigError Tree}
    (mild : w.Obeys .mild) (honest : (Fetched.over fetched).Honest) :
    Truthful ((conclude plan fuel fetched).run.run w) := by
  have ends := concluded plan fuel fetched w
  generalize (conclude plan fuel fetched).run.run w = ran at ends
  cases ends with
  | failed e fails =>
    intro closed
    have before := closed_of_failure mild honest fails closed
    exact (Beside.ended w w.now (.error e)).closed.trans before
  | reloaded | published => trivial
  | @broken tree _ left _ stop opened other computes leads panics =>
    cases stop with
    | exhausted => rfl
    | panicked => exact absurd (panics rfl) (leads.no_panic (mild.swap tree))

namespace Session

variable {s base : Session σ} {t f g : Nat} {purpose : Purpose} {part : Fetched}

/-- How the leader of a refresh goes on with what a part of the fetch has given. -/
inductive Proceeds (s : Session σ) (t : Nat) (purpose : Purpose) (f : Nat) :
    Fetched → Session σ → Prop where
  | waits (pace : Pace) (progress : Progress) (deadline : Option Nat) :
    Proceeds s t purpose f (.waiting pace progress)
      (s.setTask t (.leading purpose f deadline progress))
  | brokeDown {fetched : Except ConfigError Tree} (broke : brokeDown fetched = true) :
    Proceeds s t purpose f (.over fetched) (s.crash t f .panicked)
  | exhausted {fetched : Except ConfigError Tree} {v : World σ} (sound : brokeDown fetched = false)
    (ran : (conclude s.plan s.fuel fetched).run.run s.world = (.error .exhausted, v)) :
    Proceeds s t purpose f (.over fetched)
      ((adoptLoops { s with world := v }).crash t f .exhausted)
  | settled {fetched result : Except ConfigError Tree} {v : World σ}
    (sound : brokeDown fetched = false)
    (ran : (conclude s.plan s.fuel fetched).run.run s.world = (.ok result, v))
    (truthful : Truthful (.ok result, v)) :
    Proceeds s t purpose f (.over fetched)
      (((adoptLoops { s with world := v }).land f (.settled result)).endRefresh t purpose result)

theorem lead_proceeds (mild : s.world.Obeys .mild) (honest : part.Honest) (t : Nat)
    (purpose : Purpose) (f : Nat) : Proceeds s t purpose f part (s.lead t purpose f part) := by
  rcases part with ⟨pace, progress⟩ | fetched
  · cases pace <;> exact .waits _ progress _
  · rw [lead]
    split
    next broke => exact .brokeDown broke
    next sound =>
      have truthful := conclude_truthful s.plan s.fuel mild honest
      rcases ran : (conclude s.plan s.fuel fetched).run.run s.world with ⟨stop | result, v⟩
      · rw [ran] at truthful
        obtain rfl : stop = .exhausted := truthful
        exact .exhausted (Bool.eq_false_iff.mpr sound) ran
      · rw [ran] at truthful
        exact .settled (Bool.eq_false_iff.mpr sound) ran truthful

/-- Whoever is told that the configuration is closed is told the truth. -/
def SaysTruth (s : Session σ) : Prop :=
  ∀ (f : Nat) e, s.flights[f]? = some (.settled (.error e)) → e.isClosed = true →
    s.world.config.closed = true

theorem getElem?_abandoned {flights : Array Flight} {result : Except ConfigError Tree}
    (settled : (flights.setIfInBounds f .abandoned)[g]? = some (.settled result)) :
    flights[g]? = some (.settled result) := by
  rw [Array.getElem?_setIfInBounds] at settled
  split at settled
  · split at settled <;> cases settled
  · exact settled

/-- If a refresh has failed when a leader has gone on then it had failed before, or it says the
truth. -/
theorem Proceeds.saysTruth {s' : Session σ} (proceeds : Proceeds base t purpose f part s')
    (settled : s'.flights[g]? = some (.settled (.error e))) (closed : e.isClosed = true) :
    base.flights[g]? = some (.settled (.error e)) ∨ s'.world.config.closed = true := by
  cases proceeds with
  | waits => exact .inl settled
  | brokeDown => exact .inl (getElem?_abandoned settled)
  | exhausted => exact .inl (getElem?_abandoned settled)
  | @settled _ result v sound ran truthful =>
    obtain ⟨task, ends, _⟩ := endRefresh_spec
      ((adoptLoops { base with world := v }).land f (.settled result)) t purpose result
    rw [ends] at settled ⊢
    have settled' : (base.flights.setIfInBounds f (.settled result))[g]? =
        some (.settled (.error e)) := settled
    rw [Array.getElem?_setIfInBounds] at settled'
    split at settled'
    · split at settled'
      · cases settled'
        exact .inr (truthful closed)
      · cases settled'
    · exact .inl settled'

/-- A session in which all scripts are mild, between two moves. -/
structure Mild (s : Session σ) : Prop where
  orderly : Orderly s
  latest : Latest s
  performs : s.Performs Script.Mild
  world : s.world.Obeys .mild
  saysTruth : SaysTruth s

namespace Mild

theorem begun (mild : Mild s) : s.begun.world.Obeys .mild := by
  obtain ⟨_, part, _⟩ := FetchPart.fetch s.plan s.marked
  have marked : s.marked.Obeys .mild := mild.world.congr (fun _ => rfl) rfl
  exact marked.beside part.beside

theorem resumed (mild : Mild s) (progress : Progress) :
    (s.resumed progress).world.Obeys .mild := by
  obtain ⟨_, part⟩ := FetchPart.resume s.plan progress s.world
  exact mild.world.beside part.beside

/-- The one who begins a refresh goes on with it. -/
theorem begins (mild : Mild s) (t : Nat) (purpose : Purpose) :
    Proceeds s.begun t purpose s.flights.size ((fetch s.plan).run s.marked).1
      (s.begun.lead t purpose s.flights.size ((fetch s.plan).run s.marked).1) :=
  lead_proceeds mild.begun (fetch_honest s.plan s.marked) t purpose _

/-- The one who leads a refresh goes on with it. -/
theorem goesOn (mild : Mild s) (t : Nat) (purpose : Purpose) (f : Nat) (progress : Progress) :
    Proceeds (s.resumed progress) t purpose f ((progress.resume s.plan).run s.world).1
      ((s.resumed progress).lead t purpose f ((progress.resume s.plan).run s.world).1) :=
  lead_proceeds (mild.resumed progress) (resume_honest s.plan progress s.world) t purpose f

theorem saysTruth_step (mild : Mild s) {m : Move σ}
    (kept : s.world.config.closed = true → (s.step m).world.config.closed = true) :
    SaysTruth (s.step m) := by
  intro g e settled closed
  generalize s.step m = s', moved s m = moved at settled kept
  cases moved with
  | aside aside =>
    rw [aside.flights] at settled
    exact kept (mild.saysTruth g e settled closed)
  | joined => exact kept (mild.saysTruth g e settled closed)
  | began t purpose found free opened idle =>
    rcases (mild.begins t purpose).saysTruth settled closed with before | truth
    · have before' : (s.flights.push .underWay)[g]? = some (.settled (.error e)) := before
      rw [Array.getElem?_push] at before'
      split at before'
      · cases before'
      · exact kept (mild.saysTruth g e before' closed)
    · exact truth
  | wentOn t purpose f deadline progress found =>
    rcases (mild.goesOn t purpose f progress).saysTruth settled closed with before | truth
    · exact kept (mild.saysTruth g e before closed)
    · exact truth
  | dropped t purpose f deadline progress doomed found =>
    exact kept (mild.saysTruth g e (getElem?_abandoned settled) closed)

theorem onward (mild : Mild s) {m : Move σ} (kind : m.Performs Script.Mild) :
    Onward Script.Mild s (s.step m) :=
  Session.onward mild.orderly mild.latest mild.performs kind

theorem step (mild : Mild s) {m : Move σ} (kind : m.Performs Script.Mild) : Mild (s.step m) where
  orderly := mild.orderly.after [m]
  latest := kept_by_deeds (fun _ _ latest deed => latest.deed deed) mild.latest [m]
  performs := (mild.onward kind).performs
  world := mild.world.effect (mild.onward kind).effect
  saysTruth := mild.saysTruth_step (mild.onward kind).effect.closed

theorem fresh (plan : Plan σ) (fuel : Nat) (surroundings : σ)
    (others : List (Option Value × NotifyOrder)) :
    Mild (freshBeside plan fuel surroundings others) where
  orderly := (Proper.fresh plan fuel surroundings others).orderly
  latest := nofun
  performs := List.forall_mem_nil _
  world := by
    refine ⟨fun c => ?_, fun c => ?_, List.forall_mem_nil _⟩ <;>
      rcases freshBeside_cell plan fuel surroundings others c with gone | ⟨value, order, same⟩
    · rw [gone]
      exact List.forall_mem_nil _
    · rw [same]
      exact List.forall_mem_nil _
    · rw [gone]
      nofun
    · rw [same]
      nofun
  saysTruth f e settled := by simp [freshBeside] at settled

theorem after (mild : Mild s) {moves : List (Move σ)}
    (kinds : ∀ m ∈ moves, m.Performs Script.Mild) : Mild (s.after moves) := by
  induction moves generalizing s with
  | nil => exact mild
  | cons m rest ih =>
    exact ih (mild.step (kinds m List.mem_cons_self))
      fun m' member => kinds m' (List.mem_cons_of_mem _ member)

end Mild

end Session

end LayeredConfig.Live
