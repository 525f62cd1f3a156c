import LayeredConfig.Proofs.Secrets
import LayeredConfig.Proofs.Texts
/-!
# One transform of references to secrets

The keys to which the strings of a tree refer are gathered first, and then all the references are
replaced. Whatever the cache holds before, the provider is asked once for each key that the cache
does not find, in the order in which the keys come first in the tree, and not any more once it has
failed. Main statement: `Provides` says what becomes of the tree, of the cache and of the provider.
-/
namespace LayeredConfig.Secret

/-! ### References -/

/-- A text refers to a key if it consists of the leader and something that trims to the key. -/
def Refers (leader text key : String) : Prop :=
  ∃ rest trimmed, text.toList = leader.toList ++ rest ∧ Text.Trims rest trimmed ∧
    key = String.ofList trimmed

/-- What stands in the place of a text if `texts` are the secrets under the keys. -/
inductive Replaced (leader : String) (texts : String → String) (text : String) : String → Prop where
  | reference {key : String} (refers : Refers leader text key) :
      Replaced leader texts text (texts key)
  | other (plain : ¬ leader.toList <+: text.toList) : Replaced leader texts text text

theorem key?_eq_some_iff {leader text key : String} :
    key? leader text = some key ↔ Refers leader text key := by
  simp only [key?, Option.map_eq_some_iff, Text.stripLead_eq_some_iff]
  constructor
  · rintro ⟨rest, split, rfl⟩
    exact ⟨rest, _, split, Text.trims_trimChars rest, rfl⟩
  · rintro ⟨rest, trimmed, split, trims, rfl⟩
    exact ⟨rest, split, congrArg String.ofList (Text.trims_iff.1 trims)⟩

theorem key?_eq_none_iff {leader text : String} :
    key? leader text = none ↔ ¬ leader.toList <+: text.toList := by
  rw [Option.eq_none_iff_forall_ne_some]
  constructor
  · rintro nothing ⟨rest, split⟩
    exact nothing _ (key?_eq_some_iff.2 ⟨rest, _, split.symm, Text.trims_trimChars rest, rfl⟩)
  · intro plain key found
    obtain ⟨rest, trimmed, split, -⟩ := key?_eq_some_iff.1 found
    exact plain ⟨rest, split.symm⟩

theorem rewritten_replaced (leader : String) (texts : String → String) (t : Tree) :
    t.Rewritten (Replaced leader texts) (Usage.replaced leader texts t) := by
  refine Tree.Rewritten.imp (Tree.rewritten_mapStrings _ t) fun text text' same => ?_
  cases found : key? leader text with
  | none =>
    rw [found] at same
    exact same ▸ .other (key?_eq_none_iff.1 found)
  | some key =>
    rw [found] at same
    exact same ▸ .reference (key?_eq_some_iff.1 found)

/-! ### Asking for keys -/

/-- The provider is asked for keys one after the other, until it fails. -/
inductive Asks (provider : Provider) : List String → List String → Except ConfigError Unit → Prop
  where
  | nil : Asks provider [] [] (.ok ())
  | cons {key text : String} {keys asked : List String} {outcome : Except ConfigError Unit}
      (gave : provider key = .ok text) (rest : Asks provider keys asked outcome) :
      Asks provider (key :: keys) (key :: asked) outcome
  | stop {key : String} {keys : List String} {e : ConfigError} (failed : provider key = .error e) :
      Asks provider (key :: keys) [key] (.error e)

namespace Asks

variable {provider : Provider} {keys asked : List String} {outcome : Except ConfigError Unit}

theorem isPrefix (asks : Asks provider keys asked outcome) : asked <+: keys := by
  induction asks with
  | nil => exact List.prefix_refl _
  | cons _ _ ih => exact (List.prefix_cons_inj _).2 ih
  | stop _ => exact ⟨_, rfl⟩

/-- If the provider has not failed, it was asked for all keys. -/
theorem of_ok (asks : Asks provider keys asked outcome) (done : outcome = .ok ()) :
    asked = keys ∧ ∀ key ∈ keys, ∃ text, provider key = .ok text := by
  induction asks with
  | nil => exact ⟨rfl, List.forall_mem_nil _⟩
  | cons gave _ ih =>
    obtain ⟨rfl, others⟩ := ih done
    exact ⟨rfl, List.forall_mem_cons.2 ⟨⟨_, gave⟩, others⟩⟩
  | stop _ => cases done

/-- If the provider has failed, it was not asked for any more keys. -/
theorem of_error {e : ConfigError} (asks : Asks provider keys asked outcome)
    (failed : outcome = .error e) : ∃ before key after, keys = before ++ key :: after ∧
      (∀ b ∈ before, ∃ text, provider b = .ok text) ∧ provider key = .error e ∧
      asked = before ++ [key] := by
  induction asks with
  | nil => cases failed
  | @cons first _ _ _ _ gave _ ih =>
    obtain ⟨before, key, after, rfl, sound, refused, rfl⟩ := ih failed
    exact ⟨first :: before, key, after, rfl, List.forall_mem_cons.2 ⟨⟨_, gave⟩, sound⟩, refused,
      rfl⟩
  | stop refused =>
    cases failed
    exact ⟨[], _, _, rfl, List.forall_mem_nil _, refused, rfl⟩

end Asks

/-! ### Keys to ask for -/

section Keys

variable {resolved : List (String × String)} {first key text : String} {rest keys : List String}
  {cache : Cache} {now : Nat}

theorem nodup_eraseDups (keys : List String) : keys.eraseDups.Nodup := by
  induction size : keys.length using Nat.strong_induction_on generalizing keys with
  | _ length ih =>
    cases keys with
    | nil => exact .nil
    | cons first rest =>
      rw [List.eraseDups_cons]
      refine List.nodup_cons.2 ⟨fun again => ?_, ?_⟩
      · have other := (List.mem_filter.1 (List.mem_eraseDups.1 again)).2
        simp at other
      · refine ih _ ?_ _ rfl
        have shorter := List.length_filter_le (fun key => !key == first) rest
        simp only [List.length_cons] at size
        omega

/-- The keys that are not resolved yet, in the order in which they come first. -/
def pending (resolved : List (String × String)) (keys : List String) : List String :=
  (keys.filter fun key => (resolved.lookup key).isNone).eraseDups

/-- Those of some keys that the cache does not find. -/
def unfound (now : Nat) (cache : Cache) (keys : List String) : List String :=
  keys.filter fun key => (cache.get? now key).isNone

theorem pending_of_known (known : resolved.lookup first = some text) :
    pending resolved (first :: rest) = pending resolved rest := by
  rw [pending, List.filter_cons_of_neg (by simp [known]), pending]

theorem pending_of_unknown (unknown : resolved.lookup first = none) (text : String) :
    pending resolved (first :: rest) = first :: pending ((first, text) :: resolved) rest := by
  rw [pending, List.filter_cons_of_pos (by simp [unknown]), List.eraseDups_cons, pending,
    List.filter_filter]
  refine congrArg (first :: List.eraseDups ·) (List.filter_congr fun key _ => ?_)
  by_cases same : key = first
  · simp [same]
  · simp [lookup_cons_of_ne same, same]

theorem mem_pending : key ∈ pending resolved keys ↔ key ∈ keys ∧ resolved.lookup key = none := by
  simp [pending]

theorem not_mem_pending : first ∉ pending ((first, text) :: resolved) rest := by
  simp [mem_pending]

/-- A put of one key does not matter for the others. -/
theorem unfound_put (distinct : cache.Distinct) (absent : first ∉ keys) (text : String) :
    unfound now (cache.put now first text) keys = unfound now cache keys := by
  refine List.filter_congr fun key member => ?_
  rw [distinct.get?_put_of_ne (ne_of_mem_of_not_mem member absent) (Nat.le_refl now)]

end Keys

/-! ### Gathering the secrets -/

section Gathering

variable {provider : Provider} {now : Nat} {cache : Cache} {resolved : List (String × String)}
  {first key text : String} {rest keys : List String} {found : Lookup (List (String × String))}

/-- The secret under a key: the one in the cache, or else the provider's. -/
inductive Stored (provider : Provider) (now : Nat) (cache : Cache) (key text : String) : Prop where
  | cached (hit : cache.get? now key = some text)
  | given (missed : cache.get? now key = none) (gave : provider key = .ok text)

/-- Where a cache had nothing to say on a key, it keeps what was put for its lifetime. -/
structure Keeps (provider : Provider) (now : Nat) (cache : Cache) (asked : List String)
    (cache' : Cache) : Prop where
  distinct : cache'.Distinct
  kept : ∀ key ∈ asked, ∀ text, provider key = .ok text → ∀ later, now ≤ later →
    cache'.get? later key = if later < now + cache.ttl then some text else none
  spared : ∀ key, (key ∈ asked → ∃ e, provider key = .error e) → ∀ later, now ≤ later →
    cache'.get? later key = cache.get? later key

/-- There is a text for each of the keys, and those that are `resolved` already are kept. -/
structure Completes (provider : Provider) (now : Nat) (cache : Cache)
    (resolved : List (String × String)) (keys : List String) (texts : List (String × String)) :
    Prop where
  kept : ∀ key text, resolved.lookup key = some text → texts.lookup key = some text
  complete : ∀ key ∈ keys, resolved.lookup key = none →
    ∃ text, texts.lookup key = some text ∧ Stored provider now cache key text

/-- What comes of gathering secrets, where some are `resolved` already. -/
structure Gathers (provider : Provider) (now : Nat) (cache : Cache)
    (resolved : List (String × String)) (keys : List String)
    (found : Lookup (List (String × String))) : Prop where
  asks : Asks provider (unfound now cache (pending resolved keys)) found.asked
    (found.outcome.map fun _ => ())
  completes : ∀ texts, found.outcome = .ok texts →
    Completes provider now cache resolved keys texts
  keeps : Keeps provider now cache found.asked found.cache

theorem Keeps.refl (distinct : cache.Distinct) : Keeps provider now cache [] cache where
  distinct := distinct
  kept _ member := absurd member List.not_mem_nil
  spared _ _ _ _ := rfl

theorem Keeps.refused {e : ConfigError} (distinct : cache.Distinct)
    (failed : provider first = .error e) : Keeps provider now cache [first] cache where
  distinct := distinct
  kept := by
    refine List.forall_mem_cons.2 ⟨fun text gave => ?_, List.forall_mem_nil _⟩
    cases failed.symm.trans gave
  spared _ _ _ _ := rfl

theorem Keeps.put {cache' : Cache} {asked : List String} (distinct : cache.Distinct)
    (gave : provider first = .ok text) (absent : first ∉ asked)
    (keeps : Keeps provider now (cache.put now first text) asked cache') :
    Keeps provider now cache (first :: asked) cache' where
  distinct := keeps.distinct
  kept := by
    refine List.forall_mem_cons.2 ⟨fun text' gave' later order => ?_, ?_⟩
    · cases gave.symm.trans gave'
      rw [keeps.spared first (fun member => absurd member absent) later order,
        cache.get?_put first text order]
    · intro key member text' gave' later order
      rw [keeps.kept key member text' gave' later order, TtlCache.ttl_put]
  spared key idle later order := by
    have other : key ≠ first := by
      rintro rfl
      obtain ⟨e, failed⟩ := idle List.mem_cons_self
      cases gave.symm.trans failed
    rw [keeps.spared key (fun member => idle (List.mem_cons_of_mem _ member)) later order,
      distinct.get?_put_of_ne other order]

/-- A put of one key does not matter for the secrets under the others. -/
theorem stored_put (distinct : cache.Distinct) (first text : String) :
    ∀ key text', key ≠ first → Stored provider now (cache.put now first text) key text' →
      Stored provider now cache key text' := by
  intro key text' other
  have same := distinct.get?_put_of_ne other (Nat.le_refl now) text
  rintro (hit | ⟨missed, gave⟩)
  · exact .cached (same.symm.trans hit)
  · exact .given (same.symm.trans missed) gave

/-- The text of the first key is known before those of the others. -/
theorem Completes.cons {cache' : Cache} {texts : List (String × String)}
    (unknown : resolved.lookup first = none) (stored : Stored provider now cache first text)
    (others : ∀ key text', key ≠ first → Stored provider now cache' key text' →
      Stored provider now cache key text')
    (completes : Completes provider now cache' ((first, text) :: resolved) rest texts) :
    Completes provider now cache resolved (first :: rest) texts := by
  have here := completes.kept first text (lookup_cons_self _ _ _)
  constructor
  · intro key text' known
    refine completes.kept key text' ?_
    rw [lookup_cons_of_ne, known]
    rintro rfl
    cases unknown.symm.trans known
  · refine List.forall_mem_cons.2 ⟨fun _ => ⟨text, here, stored⟩, fun key member unresolved => ?_⟩
    by_cases same : key = first
    · exact same ▸ ⟨text, here, stored⟩
    · have pending : ((first, text) :: resolved).lookup key = none := by
        rw [lookup_cons_of_ne same, unresolved]
      obtain ⟨text', there, stored'⟩ := completes.complete key member pending
      exact ⟨text', there, others key text' same stored'⟩

namespace Gathers

theorem nil (distinct : cache.Distinct) (resolved : List (String × String)) :
    Gathers provider now cache resolved [] ⟨.ok resolved, cache, []⟩ where
  asks := .nil
  completes _ done := by
    cases done
    exact ⟨fun _ _ known => known, List.forall_mem_nil _⟩
  keeps := .refl distinct

/-- The first key is resolved already. -/
theorem known (known : resolved.lookup first = some text)
    (gathers : Gathers provider now cache resolved rest found) :
    Gathers provider now cache resolved (first :: rest) found where
  asks := by
    rw [pending_of_known known]
    exact gathers.asks
  completes texts done := by
    obtain ⟨kept, complete⟩ := gathers.completes texts done
    refine ⟨kept, List.forall_mem_cons.2 ⟨fun unknown => ?_, complete⟩⟩
    cases known.symm.trans unknown
  keeps := gathers.keeps

/-- The first key is found in the cache. -/
theorem hit (unknown : resolved.lookup first = none) (hit : cache.get? now first = some text)
    (gathers : Gathers provider now cache ((first, text) :: resolved) rest found) :
    Gathers provider now cache resolved (first :: rest) found where
  asks := by
    rw [pending_of_unknown unknown text, unfound, List.filter_cons_of_neg (by simp [hit])]
    exact gathers.asks
  completes texts done := (gathers.completes texts done).cons unknown (.cached hit) fun _ _ _ => id
  keeps := gathers.keeps

/-- The first key is asked for. -/
theorem asked (distinct : cache.Distinct) (unknown : resolved.lookup first = none)
    (missed : cache.get? now first = none) (gave : provider first = .ok text)
    (gathers : Gathers provider now (cache.put now first text) ((first, text) :: resolved) rest
      found) :
    Gathers provider now cache resolved (first :: rest)
      { found with asked := first :: found.asked } := by
  -- the first key is no longer pending, so a put under it does not matter for what is asked
  have asks := gathers.asks
  rw [unfound_put distinct not_mem_pending] at asks
  have absent : first ∉ found.asked := fun member =>
    not_mem_pending (List.mem_filter.1 (asks.isPrefix.subset member)).1
  constructor
  · rw [pending_of_unknown unknown text, unfound, List.filter_cons_of_pos (by simp [missed])]
    exact .cons gave asks
  · exact fun texts done =>
      (gathers.completes texts done).cons unknown (.given missed gave)
        (stored_put distinct first text)
  · exact gathers.keeps.put distinct gave absent

/-- The first key is asked for, but the provider fails. -/
theorem refused {e : ConfigError} (distinct : cache.Distinct)
    (unknown : resolved.lookup first = none) (missed : cache.get? now first = none)
    (failed : provider first = .error e) :
    Gathers provider now cache resolved (first :: rest) ⟨.error e, cache, [first]⟩ where
  asks := by
    rw [pending_of_unknown unknown "", unfound, List.filter_cons_of_pos (by simp [missed])]
    exact .stop failed
  completes := nofun
  keeps := .refused distinct failed

end Gathers

/-- By induction on the keys, with more and more of them resolved and in the cache. -/
theorem lookupAll_gathers (provider : Provider) (now : Nat) (distinct : cache.Distinct)
    (resolved : List (String × String)) (keys : List String) :
    Gathers provider now cache resolved keys (lookupAll provider now cache resolved keys) := by
  induction keys generalizing cache resolved with
  | nil => exact .nil distinct resolved
  | cons first rest ih =>
    cases known : resolved.lookup first with
    | some text =>
      rw [lookupAll_of_known known]
      exact (ih distinct resolved).known known
    | none =>
      rw [lookupAll_of_unknown known, lookup]
      cases missed : cache.get? now first with
      | some text => exact (ih distinct _).hit known missed
      | none =>
        cases gave : provider first with
        | ok text => exact (ih (distinct.put now first text) _).asked distinct known missed gave
        | error e => exact .refused distinct known missed gave

end Gathering

/-! ### One transform -/

namespace Substitution

variable {s : Substitution} {provider : Provider} {now : Nat} {t : Tree} {key : String}

/-- The keys to ask for: a string of the tree refers to them and the cache does not find them. Each
stands where it comes first in the tree. -/
def due (s : Substitution) (now : Nat) (t : Tree) : List String :=
  unfound now s.cache (t.leaves.filterMap fun leaf => key? s.leader leaf.text).eraseDups

/-- What a transform does to a tree and to a cache, and for what it asks the provider. -/
structure Provides (s : Substitution) (provider : Provider) (now : Nat) (t : Tree)
    (found : Lookup Tree) : Prop where
  -- Due are the keys to which a string refers and which the cache does not find.
  isDue : ∀ key, key ∈ s.due now t ↔
    (∃ leaf ∈ t.leaves, Refers s.leader leaf.text key) ∧ s.cache.get? now key = none
  -- The provider is asked once for each key, and only for those that are due, in their order.
  once : found.asked.Nodup
  inOrder : found.asked <+: s.due now t
  -- The transform succeeds if the provider does for all the keys that are due.
  succeeds : (∃ t', found.outcome = .ok t') ↔ ∀ key ∈ s.due now t, ∃ text, provider key = .ok text
  asked : ∀ t', found.outcome = .ok t' → found.asked = s.due now t
  -- It fails as the first key fails, and the provider is not asked any more.
  fails : ∀ e, found.outcome = .error e → ∃ before key after,
    s.due now t = before ++ key :: after ∧ (∀ b ∈ before, ∃ text, provider b = .ok text) ∧
      provider key = .error e ∧ found.asked = before ++ [key]
  -- All references to one key make place for the same text, and nothing else changes.
  replaced : ∀ t', found.outcome = .ok t' → ∃ texts : String → String,
    (∀ leaf ∈ t.leaves, ∀ key, Refers s.leader leaf.text key →
      Stored provider now s.cache key (texts key)) ∧ t.Rewritten (Replaced s.leader texts) t'
  -- What was fetched stays in the cache, whether the transform succeeds or not.
  keeps : Keeps provider now s.cache found.asked found.cache
  -- Without references nothing happens.
  idle : (∀ leaf ∈ t.leaves, ¬ s.leader.toList <+: leaf.text.toList) →
    found = ⟨.ok t, s.cache, []⟩

theorem keys_eq (s : Substitution) (t : Tree) :
    s.keys t = t.leaves.filterMap fun leaf => key? s.leader leaf.text := by
  rw [keys, ← Value.text_leaves, List.filterMap_map]
  rfl

theorem mem_keys : key ∈ s.keys t ↔ ∃ leaf ∈ t.leaves, Refers s.leader leaf.text key := by
  simp only [keys_eq, List.mem_filterMap, key?_eq_some_iff]

theorem due_eq (s : Substitution) (now : Nat) (t : Tree) :
    s.due now t = unfound now s.cache (pending [] (s.keys t)) := by
  simp [due, pending, keys_eq]

theorem mem_due : key ∈ s.due now t ↔
    (∃ leaf ∈ t.leaves, Refers s.leader leaf.text key) ∧ s.cache.get? now key = none := by
  simp [due_eq, unfound, mem_pending, mem_keys]

theorem nodup_due (s : Substitution) (now : Nat) (t : Tree) : (s.due now t).Nodup :=
  (nodup_eraseDups _).filter _

theorem transform_of_plain (plain : ∀ leaf ∈ t.leaves, ¬ s.leader.toList <+: leaf.text.toList) :
    s.transform provider now t = ⟨.ok t, s.cache, []⟩ := by
  have nothing : s.keys t = [] := by
    rw [keys_eq, List.filterMap_eq_nil_iff]
    exact fun leaf among => key?_eq_none_iff.2 (plain leaf among)
  have same := t.mapStrings_none
  simp [transform, nothing, lookupAll, Except.map, same]

/-- Once all keys have texts, the references to one key all make place for its text. -/
theorem replaced_of_completes {resolved : List (String × String)}
    (completes : Completes provider now s.cache [] (s.keys t) resolved) :
    ∃ texts : String → String, (∀ leaf ∈ t.leaves, ∀ key, Refers s.leader leaf.text key →
      Stored provider now s.cache key (texts key)) ∧
      t.Rewritten (Replaced s.leader texts) (t.mapStrings fun _ text =>
        (pure ((key? s.leader text).bind fun key => resolved.lookup key) :
          Id (Option String))) := by
  let texts (key : String) : String := (resolved.lookup key).getD ""
  have known : ∀ key ∈ s.keys t,
      resolved.lookup key = some (texts key) ∧ Stored provider now s.cache key (texts key) := by
    intro key among
    obtain ⟨text, known, stored⟩ := completes.complete key among rfl
    have same : texts key = text := by simp [texts, known]
    exact same ▸ ⟨known, stored⟩
  refine ⟨texts, fun leaf among key refers => ?_, ?_⟩
  · exact (known key (mem_keys.2 ⟨leaf, among, refers⟩)).2
  · rw [Usage.replaced_of_lookup fun key among => (known key among).1]
    exact rewritten_replaced s.leader texts t

/-- A transform replaces all references alike, asks for no key twice or in vain, and keeps what it
was given. -/
theorem transform_provides (distinct : s.cache.Distinct) (provider : Provider) (now : Nat)
    (t : Tree) : s.Provides provider now t (s.transform provider now t) := by
  have gathers := lookupAll_gathers provider now distinct [] (s.keys t)
  have asks := gathers.asks
  rw [← due_eq] at asks
  -- the outcome of the lookups is that of the transform, but for the tree
  generalize whole : lookupAll provider now s.cache [] (s.keys t) = found at gathers asks
  have here : s.transform provider now t = ⟨(fun resolved => t.mapStrings fun _ text =>
      (pure ((key? s.leader text).bind fun key => resolved.lookup key) : Id (Option String))) <$>
        found.outcome, found.cache, found.asked⟩ := by
    rw [← whole]
    rfl
  refine ⟨fun key => mem_due, ?_, ?_, ?_, ?_, ?_, ?_, ?_, transform_of_plain⟩
  all_goals rw [here]
  · exact asks.isPrefix.sublist.nodup (nodup_due s now t)
  · exact asks.isPrefix
  · constructor
    · rintro ⟨t', done⟩
      obtain ⟨resolved, gathered, -⟩ := map_eq_ok_iff.1 done
      exact (asks.of_ok (congrArg (Except.map fun _ => ()) gathered)).2
    · intro sound
      cases outcome : found.outcome with
      | ok resolved => exact ⟨_, rfl⟩
      | error e =>
        obtain ⟨before, key, after, split, -, failed, -⟩ :=
          asks.of_error (congrArg (Except.map fun _ => ()) outcome)
        obtain ⟨text, gave⟩ := sound key (by simp [split])
        cases failed.symm.trans gave
  · intro t' done
    obtain ⟨resolved, gathered, -⟩ := map_eq_ok_iff.1 done
    exact (asks.of_ok (congrArg (Except.map fun _ => ()) gathered)).1
  · intro e failed
    exact asks.of_error (congrArg (Except.map fun _ => ()) (map_eq_error_iff.1 failed))
  · intro t' done
    obtain ⟨resolved, gathered, rfl⟩ := map_eq_ok_iff.1 done
    exact replaced_of_completes (gathers.completes resolved gathered)
  · exact gathers.keeps

/-- One key is in the cache, one occurs twice, and one fails before the last is asked for. -/
theorem transform_provides_until_failure :
    let s : Substitution := ⟨"secret:", ⟨10, [⟨"db", "cached", 5⟩]⟩⟩
    let provider : Provider := fun key =>
      if key = "api" then .ok "given" else .error (.invalidSettings key)
    let t : Tree := { root := [("a", .arr [.str "secret: api ", .str "secret:db"]),
      ("b", .str "secret:api"), ("c", .str "secret:gone"), ("d", .str "secret:late")] }
    s.cache.Distinct ∧ s.Provides provider 7 t (s.transform provider 7 t) ∧
    s.due 7 t = ["api", "gone", "late"] ∧ (s.transform provider 7 t).asked = ["api", "gone"] := by
  intro s provider t
  have distinct : s.cache.Distinct := List.pairwise_singleton _ _
  exact ⟨distinct, transform_provides distinct provider 7 t, by decide, by decide⟩

end Substitution

end LayeredConfig.Secret
