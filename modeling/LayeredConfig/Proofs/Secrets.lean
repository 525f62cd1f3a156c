import LayeredConfig.Proofs.Recall
import LayeredConfig.Proofs.Strings
import LayeredConfig.Substitution.Secret
/-!
# Secrets are fetched when they are stale

A substitution is in use: trees are transformed, the provider changes its answers, and time passes.
Of every fetch it is put on record when it was made and what it gave. In a transform the provider is
asked for a key exactly if the tree refers to it, no key before it has failed, and no fetch of it
has succeeded within the lifetime; and what is put in place of a reference is what the last fetch of
its key that succeeded gave.

The proof is one induction over the keys of a tree. The cache is known only through what it recalls
of the fetches on record, so it does not matter which sweeps have taken place.
-/
namespace LayeredConfig

namespace Secret

/-- A fetch of a secret. -/
abbrev Fetch := Attempt String String

/-- The fetch of a key. -/
def fetch (provider : Provider) (now : Nat) (key : String) : Fetch :=
  ⟨key, now, provider key⟩

/-- The provider has to be asked for a key. -/
def Stale (ttl : Nat) (fetches : List Fetch) (now : Nat) (key : String) : Prop :=
  ttl = 0 ∨ ¬ ∃ f ∈ fetches, f.key = key ∧ (∃ text, f.outcome = .ok text) ∧ now < f.time + ttl

/-- One of the keys is looked up: none before it fails. -/
def Reached (fails : String → Prop) (keys : List String) (key : String) : Prop :=
  ∃ before after, keys = before ++ key :: after ∧ ∀ earlier ∈ before, ¬ fails earlier

theorem not_reached_nil (fails : String → Prop) (key : String) : ¬ Reached fails [] key := by
  rintro ⟨before, after, split, -⟩
  simp at split

theorem reached_cons {fails : String → Prop} {first key : String} {rest : List String} :
    Reached fails (first :: rest) key ↔ first = key ∨ ¬ fails first ∧ Reached fails rest key := by
  constructor
  · rintro ⟨before, after, split, sound⟩
    cases before with
    | nil =>
      rw [List.nil_append, List.cons.injEq] at split
      exact .inl split.1
    | cons other before =>
      rw [List.cons_append, List.cons.injEq] at split
      obtain ⟨rfl, rfl⟩ := split
      obtain ⟨here, sound⟩ := List.forall_mem_cons.1 sound
      exact .inr ⟨here, before, after, rfl, sound⟩
  · rintro (rfl | ⟨here, before, after, rfl, sound⟩)
    · exact ⟨[], rest, rfl, List.forall_mem_nil _⟩
    · exact ⟨first :: before, after, rfl, List.forall_mem_cons.2 ⟨here, sound⟩⟩

/-! ### Fetches on record -/

section Record

variable {provider : Provider} {ttl now later : Nat} {cache : Cache} {fetches : List Fetch}
  {key : String} {asked : List String}

/-- A key is stale if the cache does not find it. -/
theorem stale_iff (recalls : cache.Recalls fetches now) (key : String) :
    Stale cache.ttl fetches now key ↔ cache.get? now key = none := by
  rw [recalls.missing (Nat.le_refl now), Stale, ← recalls.inOrder.remembered_iff, not_exists]
  constructor
  · rintro (zero | nothing)
    · rintro text ⟨time, ⟨after, before, rfl, -⟩, fresh⟩
      have past := recalls.inOrder.past ⟨key, time, .ok text⟩ (by simp)
      simp only at past
      omega
    · exact nothing
  · exact .inr

/-- Whether a key is stale does not depend on fetches of other keys. -/
theorem stale_cons_of_ne {f : Fetch} (other : f.key ≠ key) :
    Stale ttl (f :: fetches) now key ↔ Stale ttl fetches now key := by
  simp [Stale, other]

end Record

/-! ### Looking keys up one after the other -/

section Lookups

variable {provider : Provider} {ttl now : Nat} {cache : Cache} {fetches : List Fetch}
  {resolved : List (String × String)} {key first : String} {rest : List String}

/-- A key is to be fetched that is not resolved yet. -/
def Due (ttl : Nat) (fetches : List Fetch) (now : Nat) (resolved : List (String × String))
    (key : String) : Prop :=
  resolved.lookup key = none ∧ Stale ttl fetches now key

/-- A key is to be fetched, and that fails. -/
def Fails (provider : Provider) (due : String → Prop) (key : String) : Prop :=
  due key ∧ ∃ e, provider key = .error e

theorem not_fails_of_ok {text : String} (gave : provider first = .ok text)
    (due : String → Prop) : ¬ Fails provider due first := by
  rintro ⟨-, e, fails⟩
  cases gave.symm.trans fails

/-- Whether a key is still due does not matter for what fails if it can be fetched. -/
theorem fails_of_ok {due : String → Prop} {text : String} (gave : provider first = .ok text) :
    Fails provider (fun key => key ≠ first ∧ due key) = Fails provider due := by
  funext key
  simp only [Fails, eq_iff_iff]
  constructor
  · rintro ⟨⟨-, here⟩, fails⟩
    exact ⟨here, fails⟩
  · rintro ⟨here, e, fails⟩
    refine ⟨⟨?_, here⟩, e, fails⟩
    rintro rfl
    cases gave.symm.trans fails

theorem due_nil : Due ttl fetches now [] = Stale ttl fetches now := by
  funext key
  simp [Due]

theorem due_cons {text : String} : Due ttl fetches now ((first, text) :: resolved) key ↔
    key ≠ first ∧ Due ttl fetches now resolved key := by
  by_cases same : key = first
  · simp [Due, same]
  · have other : (key == first) = false := by simpa using same
    simp [Due, List.lookup_cons, other, same]

/-- What came of looking keys up, of which some were resolved before and those that are due were to
be fetched. -/
structure LooksUp (provider : Provider) (ttl now : Nat) (fetches : List Fetch)
    (resolved : List (String × String)) (due : String → Prop) (keys : List String)
    (found : Lookup (List (String × String))) : Prop where
  recalls : found.cache.Recalls (recorded (fetch provider now) found.asked fetches) now
  lifetime : found.cache.ttl = ttl
  asked : ∀ key, key ∈ found.asked ↔ Reached (Fails provider due) keys key ∧ due key
  once : found.asked.Nodup
  failed : ∀ e, found.outcome = .error e ↔
    ∃ key, Reached (Fails provider due) keys key ∧ due key ∧ provider key = .error e
  kept : ∀ texts, found.outcome = .ok texts → ∀ key text, resolved.lookup key = some text →
    texts.lookup key = some text
  complete : ∀ texts, found.outcome = .ok texts → ∀ key ∈ keys, ∃ text,
    texts.lookup key = some text
  sound : ∀ texts, found.outcome = .ok texts → ∀ key text, texts.lookup key = some text →
    ∃ time, LastSuccess (recorded (fetch provider now) found.asked fetches) key time text

/-- The texts that are known already are what the last fetches gave. -/
def Sound (fetches : List Fetch) (resolved : List (String × String)) : Prop :=
  ∀ key text, resolved.lookup key = some text → ∃ time, LastSuccess fetches key time text

theorem lookup_cons_self (key text : String) (resolved : List (String × String)) :
    List.lookup key ((key, text) :: resolved) = some text := by
  simp

theorem lookup_cons_of_ne {text : String} (other : key ≠ first) :
    List.lookup key ((first, text) :: resolved) = resolved.lookup key := by
  have differs : (key == first) = false := by simpa using other
  rw [List.lookup_cons, differs]

namespace LooksUp

variable {due : String → Prop} {found : Lookup (List (String × String))}

/-- Nothing is left to be looked up. -/
theorem nil (recalls : cache.Recalls fetches now) (sound : Sound fetches resolved)
    (due : String → Prop) : LooksUp provider cache.ttl now fetches resolved due []
      ⟨.ok resolved, cache, []⟩ where
  recalls := recalls
  lifetime := rfl
  asked key := by simp [not_reached_nil]
  once := .nil
  failed e := by simp [not_reached_nil]
  kept texts done := by
    cases done
    exact fun _ _ known => known
  complete _ _ := List.forall_mem_nil _
  sound texts done := by
    cases done
    exact sound

/-- The first key needs not be fetched, and has a text before the others are looked up. -/
theorem skip {resolved' : List (String × String)} {text : String}
    (looksUp : LooksUp provider ttl now fetches resolved' due rest found) (idle : ¬ due first)
    (more : ∀ key text, resolved.lookup key = some text → resolved'.lookup key = some text)
    (here : resolved'.lookup first = some text) :
    LooksUp provider ttl now fetches resolved due (first :: rest) found where
  recalls := looksUp.recalls
  lifetime := looksUp.lifetime
  asked key := by
    rw [looksUp.asked, reached_cons]
    constructor
    · rintro ⟨reached, here⟩
      exact ⟨.inr ⟨fun fails => idle fails.1, reached⟩, here⟩
    · rintro ⟨rfl | ⟨-, reached⟩, here⟩
      · exact absurd here idle
      · exact ⟨reached, here⟩
  once := looksUp.once
  failed e := by
    rw [looksUp.failed]
    constructor
    · rintro ⟨key, reached, here⟩
      exact ⟨key, reached_cons.2 (.inr ⟨fun fails => idle fails.1, reached⟩), here⟩
    · rintro ⟨key, reached, here, gave⟩
      rcases reached_cons.1 reached with rfl | ⟨-, reached⟩
      · exact absurd here idle
      · exact ⟨key, reached, here, gave⟩
  kept texts done key text known := looksUp.kept texts done key text (more key text known)
  complete texts done := List.forall_mem_cons.2
    ⟨⟨text, looksUp.kept texts done first text here⟩, looksUp.complete texts done⟩
  sound := looksUp.sound

/-- The first key is fetched, and then it is no longer due. -/
theorem fetched {text : String} (isDue : due first) (gave : provider first = .ok text)
    (unresolved : resolved.lookup first = none)
    (looksUp : LooksUp provider ttl now (⟨first, now, .ok text⟩ :: fetches)
      ((first, text) :: resolved) (fun key => key ≠ first ∧ due key) rest found) :
    LooksUp provider ttl now fetches resolved due (first :: rest)
      { found with asked := first :: found.asked } where
  recalls := by
    rw [recorded_cons, fetch, gave]
    exact looksUp.recalls
  lifetime := looksUp.lifetime
  asked key := by
    rw [List.mem_cons, looksUp.asked, fails_of_ok gave, reached_cons]
    constructor
    · rintro (rfl | ⟨reached, -, here⟩)
      · exact ⟨.inl rfl, isDue⟩
      · exact ⟨.inr ⟨not_fails_of_ok gave due, reached⟩, here⟩
    · rintro ⟨reached, here⟩
      by_cases same : key = first
      · exact .inl same
      · rcases reached with rfl | ⟨-, reached⟩
        · exact absurd rfl same
        · exact .inr ⟨reached, same, here⟩
  once := by
    refine List.nodup_cons.2 ⟨fun again => ?_, looksUp.once⟩
    obtain ⟨-, other, -⟩ := (looksUp.asked first).1 again
    exact other rfl
  failed e := by
    rw [looksUp.failed, fails_of_ok gave]
    constructor
    · rintro ⟨key, reached, ⟨-, here⟩, fails⟩
      exact ⟨key, reached_cons.2 (.inr ⟨not_fails_of_ok gave due, reached⟩), here, fails⟩
    · rintro ⟨key, reached, here, fails⟩
      rcases reached_cons.1 reached with rfl | ⟨-, reached⟩
      · cases gave.symm.trans fails
      · refine ⟨key, reached, ⟨?_, here⟩, fails⟩
        rintro rfl
        cases gave.symm.trans fails
  kept texts done key text' known := by
    refine looksUp.kept texts done key text' ?_
    rw [lookup_cons_of_ne, known]
    rintro rfl
    rw [unresolved] at known
    cases known
  complete texts done := List.forall_mem_cons.2
    ⟨⟨text, looksUp.kept texts done first text (lookup_cons_self _ _ _)⟩,
      looksUp.complete texts done⟩
  sound texts done := by
    rw [recorded_cons, fetch, gave]
    exact looksUp.sound texts done

/-- The first key is fetched, but that fails. -/
theorem refused {e : ConfigError} (recalls : cache.Recalls fetches now) (isDue : due first)
    (gave : provider first = .error e) (resolved : List (String × String)) :
    LooksUp provider cache.ttl now fetches resolved due (first :: rest)
      ⟨.error e, cache, [first]⟩ where
  recalls := by
    rw [recorded_cons, fetch, gave]
    exact recalls.failed first e
  lifetime := rfl
  asked key := by
    simp only [List.mem_singleton, reached_cons]
    constructor
    · rintro rfl
      exact ⟨.inl rfl, isDue⟩
    · rintro ⟨rfl | ⟨sound, -⟩, -⟩
      · rfl
      · exact absurd ⟨isDue, e, gave⟩ sound
  once := List.nodup_cons.2 ⟨List.not_mem_nil, .nil⟩
  failed e' := by
    simp only [reached_cons, Except.error.injEq]
    constructor
    · rintro rfl
      exact ⟨first, .inl rfl, isDue, gave⟩
    · rintro ⟨key, rfl | ⟨sound, -⟩, -, gave'⟩
      · exact Except.error.inj (gave.symm.trans gave')
      · exact absurd ⟨isDue, e, gave⟩ sound
  kept := nofun
  complete := nofun
  sound := nofun

end LooksUp

theorem Sound.cons (sound : Sound fetches resolved) {time : Nat} {text : String}
    (last : LastSuccess fetches first time text) : Sound fetches ((first, text) :: resolved) := by
  intro key text' known
  by_cases same : key = first
  · subst same
    rw [lookup_cons_self] at known
    cases known
    exact ⟨time, last⟩
  · rw [lookup_cons_of_ne same] at known
    exact sound key text' known

/-- A fetch of a key that was not resolved leaves the last fetches of the others as they were. -/
theorem Sound.fetched (sound : Sound fetches resolved) (unresolved : resolved.lookup first = none)
    (outcome : Except ConfigError String) :
    Sound (⟨first, now, outcome⟩ :: fetches) resolved := by
  intro key text known
  obtain ⟨time, last⟩ := sound key text known
  refine ⟨time, lastSuccess_cons.2 (.inr ⟨?_, last⟩)⟩
  rintro rfl
  cases known.symm.trans unresolved

theorem lookupAll_of_known {text : String} (known : resolved.lookup first = some text) :
    lookupAll provider now cache resolved (first :: rest) =
      lookupAll provider now cache resolved rest := by
  simp [lookupAll, known]

theorem lookupAll_of_unknown (unknown : resolved.lookup first = none) :
    lookupAll provider now cache resolved (first :: rest) =
      match lookup provider now cache first with
      | ⟨.error e, cache, asked⟩ => ⟨.error e, cache, asked⟩
      | ⟨.ok value, cache, asked⟩ =>
        let others := lookupAll provider now cache ((first, value) :: resolved) rest
        { others with asked := asked ++ others.asked } := by
  have absent : ¬ (resolved.lookup first).isSome = true := by
    rw [unknown]
    exact Bool.false_ne_true
  rw [lookupAll]
  exact if_neg absent

/-- By induction on the keys: at each of them the cache recalls the fetches on record. -/
theorem lookupAll_looksUp (provider : Provider) (recalls : cache.Recalls fetches now)
    (sound : Sound fetches resolved) (keys : List String) :
    LooksUp provider cache.ttl now fetches resolved (Due cache.ttl fetches now resolved) keys
      (lookupAll provider now cache resolved keys) := by
  induction keys generalizing cache fetches resolved with
  | nil => exact .nil recalls sound _
  | cons first rest ih =>
    have stale := stale_iff recalls first
    cases known : resolved.lookup first with
    | some text =>
      have idle : ¬ Due cache.ttl fetches now resolved first := by
        rintro ⟨unknown, -⟩
        cases known.symm.trans unknown
      rw [lookupAll_of_known known]
      exact (ih recalls sound).skip idle (fun _ _ known => known) known
    | none =>
      rw [lookupAll_of_unknown known, lookup]
      cases found : cache.get? now first with
      | some text =>
        -- what is found is what the last fetch gave
        obtain ⟨time, last, -⟩ := (recalls.found now (Nat.le_refl now) first text).1 found
        have idle : ¬ Due cache.ttl fetches now resolved first := by
          rintro ⟨-, isStale⟩
          cases found.symm.trans (stale.1 isStale)
        have same : Due cache.ttl fetches now ((first, text) :: resolved) =
            Due cache.ttl fetches now resolved := by
          funext key
          rw [due_cons, eq_iff_iff, and_iff_right_iff_imp]
          rintro here rfl
          exact idle here
        have others := ih recalls (sound.cons last)
        rw [same] at others
        refine others.skip idle (fun key text' known' => ?_) (lookup_cons_self _ _ _)
        rw [lookup_cons_of_ne, known']
        rintro rfl
        cases known.symm.trans known'
      | none =>
        have isDue : Due cache.ttl fetches now resolved first := ⟨known, stale.2 found⟩
        cases gave : provider first with
        | error e => exact .refused recalls isDue gave resolved
        | ok text =>
          -- from now on the key counts as resolved
          have last : LastSuccess (⟨first, now, .ok text⟩ :: fetches) first now text :=
            lastSuccess_cons.2 (.inl rfl)
          have others := ih (recalls.succeeded first text) ((sound.fetched known _).cons last)
          have same : Due cache.ttl (⟨first, now, .ok text⟩ :: fetches) now
              ((first, text) :: resolved) =
                fun key => key ≠ first ∧ Due cache.ttl fetches now resolved key := by
            funext key
            rw [due_cons, eq_iff_iff, and_congr_right_iff]
            intro other
            rw [Due, stale_cons_of_ne (Ne.symm other), Due]
          rw [TtlCache.ttl_put, same] at others
          exact .fetched isDue gave known others

end Lookups

/-! ### Secrets in use -/

/-- A substitution in use. The fetches on record stand with the latest first. -/
structure Usage where
  substitution : Substitution
  provider : Provider
  now : Nat
  fetches : List Fetch := []

namespace Usage

/-- What can happen to secrets in use: a tree is transformed, the provider changes its answers, and
time passes. -/
inductive Move where
  | transform (t : Tree)
  | change (provider : Provider)
  | pass (micros : Nat)

/-- A substitution that nobody has used yet. -/
def fresh (leader : String) (ttl : Nat) (provider : Provider) (now : Nat) : Usage where
  substitution := { leader, cache := .new ttl }
  provider
  now

def transformed (u : Usage) (t : Tree) : Lookup Tree :=
  u.substitution.transform u.provider u.now t

/-- The fetches on record once a tree was transformed. -/
def fetchesWith (u : Usage) (t : Tree) : List Fetch :=
  recorded (fetch u.provider u.now) (u.transformed t).asked u.fetches

def step (u : Usage) : Move → Usage
  | .transform t =>
    { u with
      substitution := { u.substitution with cache := (u.transformed t).cache }
      fetches := u.fetchesWith t }
  | .change provider => { u with provider }
  | .pass micros => { u with now := u.now + micros }

def after (u : Usage) (moves : List Move) : Usage := moves.foldl step u

/-- The cache recalls the fetches on record. -/
def Recalls (u : Usage) : Prop := u.substitution.cache.Recalls u.fetches u.now

variable {u : Usage} {t : Tree} {key text : String}

theorem Recalls.looksUp (recalls : u.Recalls) (t : Tree) :
    LooksUp u.provider u.substitution.cache.ttl u.now u.fetches []
      (Stale u.substitution.cache.ttl u.fetches u.now) (u.substitution.keys t)
      (lookupAll u.provider u.now u.substitution.cache [] (u.substitution.keys t)) := by
  have sound : Sound u.fetches [] := by
    rintro key text ⟨⟩
  have looksUp := lookupAll_looksUp u.provider recalls sound (u.substitution.keys t)
  rwa [due_nil] at looksUp

theorem Recalls.step (recalls : u.Recalls) (m : Move) :
    (u.step m).Recalls ∧ (u.step m).substitution.cache.ttl = u.substitution.cache.ttl ∧
      (u.step m).substitution.leader = u.substitution.leader := by
  cases m with
  | transform t =>
    have looksUp := recalls.looksUp t
    exact ⟨looksUp.recalls, looksUp.lifetime, rfl⟩
  | change provider => exact ⟨recalls, rfl, rfl⟩
  | pass micros => exact ⟨recalls.passed (Nat.le_add_right _ _), rfl, rfl⟩

theorem Recalls.after (recalls : u.Recalls) (moves : List Move) :
    (u.after moves).Recalls ∧ (u.after moves).substitution.cache.ttl = u.substitution.cache.ttl ∧
      (u.after moves).substitution.leader = u.substitution.leader := by
  induction moves generalizing u with
  | nil => exact ⟨recalls, rfl, rfl⟩
  | cons m rest ih =>
    obtain ⟨recalls', ttl, leader⟩ := recalls.step m
    obtain ⟨recalls'', ttl', leader'⟩ := ih recalls'
    exact ⟨recalls'', ttl'.trans ttl, leader'.trans leader⟩

theorem recalls_fresh (leader : String) (ttl : Nat) (provider : Provider) (now : Nat) :
    (fresh leader ttl provider now).Recalls :=
  .empty ttl now

/-- The tree with `texts` in place of the references to secrets. -/
def replaced (leader : String) (texts : String → String) (t : Tree) : Tree :=
  t.mapStrings fun _ text => (pure ((key? leader text).map texts) : Id (Option String))

/-- Only the texts of the keys to which a tree refers matter for it. -/
theorem replaced_of_lookup {s : Substitution} {t : Tree} {resolved : List (String × String)}
    {texts : String → String}
    (known : ∀ key ∈ s.keys t, resolved.lookup key = some (texts key)) :
    (t.mapStrings fun _ text =>
      (pure ((key? s.leader text).bind fun key => resolved.lookup key) : Id (Option String))) =
      replaced s.leader texts t := by
  refine t.mapStrings_congr fun text shown path => congrArg pure ?_
  cases refers : key? s.leader text with
  | none => rfl
  | some key => exact known key (List.mem_filterMap.2 ⟨text, shown, refers⟩)

/-- What a transform does with secrets whose lifetime is `ttl`. -/
structure Timely (leader : String) (ttl : Nat) (u : Usage) (t : Tree) : Prop where
  -- The provider is asked for the keys that are stale, as far as no key has failed.
  asked : ∀ key, key ∈ (u.transformed t).asked ↔
    Reached (Fails u.provider (Stale ttl u.fetches u.now)) (u.substitution.keys t) key ∧
      Stale ttl u.fetches u.now key
  once : (u.transformed t).asked.Nodup
  -- The transform fails if and as the first key fails.
  failed : ∀ e, (u.transformed t).outcome = .error e ↔ ∃ key,
    Reached (Fails u.provider (Stale ttl u.fetches u.now)) (u.substitution.keys t) key ∧
      Stale ttl u.fetches u.now key ∧ u.provider key = .error e
  -- References are replaced by what the last successful fetch of their key gave.
  replaced : ∀ t', (u.transformed t).outcome = .ok t' → ∃ texts,
    (∀ key ∈ u.substitution.keys t, ∃ time, LastSuccess (u.fetchesWith t) key time (texts key)) ∧
      t' = replaced leader texts t
  -- Nothing is kept of a fetch that failed.
  uncached : ∀ key ∈ (u.transformed t).asked, ∀ e, u.provider key = .error e →
    ∀ later, u.now ≤ later → (u.transformed t).cache.get? later key = none
  -- Secrets that were not fetched are found as before.
  spared : ∀ key ∉ (u.transformed t).asked, ∀ later, u.now ≤ later →
    (u.transformed t).cache.get? later key = u.substitution.cache.get? later key

theorem Recalls.timely (recalls : u.Recalls) (t : Tree) :
    Timely u.substitution.leader u.substitution.cache.ttl u t := by
  have looksUp := recalls.looksUp t
  generalize whole : lookupAll u.provider u.now u.substitution.cache []
    (u.substitution.keys t) = found at looksUp
  have here : u.transformed t = ⟨found.outcome.map fun resolved => t.mapStrings fun _ text =>
      (pure ((key? u.substitution.leader text).bind fun key => resolved.lookup key) :
        Id (Option String)), found.cache, found.asked⟩ := by
    rw [← whole]
    rfl
  constructor
  · rw [here]
    exact looksUp.asked
  · rw [here]
    exact looksUp.once
  · intro e
    rw [here, ← looksUp.failed]
    cases found.outcome <;> simp [Except.map]
  · intro t' done
    rw [here] at done
    cases resolves : found.outcome with
    | error e => simp [resolves, Except.map] at done
    | ok resolved =>
      let texts (key : String) : String := (resolved.lookup key).getD ""
      have known : ∀ key ∈ u.substitution.keys t, resolved.lookup key = some (texts key) := by
        intro key among
        obtain ⟨text, known⟩ := looksUp.complete resolved resolves key among
        simp [texts, known]
      refine ⟨texts, fun key among => ?_, ?_⟩
      · rw [fetchesWith, here]
        exact looksUp.sound resolved resolves key _ (known key among)
      · rw [← replaced_of_lookup known]
        simpa [resolves, Except.map] using done.symm
  · intro key asked e gave later order
    rw [here] at asked ⊢
    obtain ⟨-, stale⟩ := (looksUp.asked key).1 asked
    have unfound := (stale_iff recalls key).1 stale
    rw [looksUp.recalls.missing order, looksUp.lifetime]
    intro text remembered
    have idle : ∀ other ∈ found.asked, other = key → ∃ e, u.provider other = .error e := by
      rintro _ - rfl
      exact ⟨e, gave⟩
    have before := (remembered_recorded idle).1 remembered
    exact (recalls.missing (Nat.le_refl _) key).1 unfound text (before.earlier order)
  · intro key unasked later order
    rw [here] at unasked ⊢
    have idle : ∀ other ∈ found.asked, other = key → ∃ e, u.provider other = .error e := by
      rintro _ asked rfl
      exact absurd asked unasked
    ext text
    rw [looksUp.recalls.found later order, looksUp.lifetime, recalls.found later order]
    exact remembered_recorded idle

/-- Secrets are fetched when they are stale, in every run. -/
theorem fetched_when_stale (leader : String) (ttl : Nat) (provider : Provider) (start : Nat)
    (moves : List Move) (t : Tree) :
    Timely leader ttl ((fresh leader ttl provider start).after moves) t := by
  obtain ⟨recalls, sameTtl, sameLeader⟩ := (recalls_fresh leader ttl provider start).after moves
  have timely := recalls.timely t
  rwa [sameTtl, sameLeader] at timely

end Usage

end Secret
end LayeredConfig
