import LayeredConfig.Proofs.Live.Effects
import LayeredConfig.Proofs.Live.Tame
/-!
# What the scripts of a world are allowed

A law says of a script whether its next operation is allowed. A script obeys it if every operation
that it can come to is allowed, and so are those of all listeners and hooks that it leaves behind;
for these there can be a stricter law than for the script itself. A world obeys a law if its
listeners, its hooks and its derived cells came about in this way. No step breaks a law, and so no
move of a session does: `World.Obeys.effect`.
-/
namespace LayeredConfig.Live

variable {σ : Type}

/-- What scripts may do, and what listeners and hooks may. Both may have an entry forgotten, since
derived cells come with hooks that do. -/
structure Law (σ : Type) where
  own : Script σ → Prop
  inner : Script σ → Prop
  stricter : ∀ script, inner script → own script
  ends : ∀ reply, inner (.done reply)
  forgets : ∀ entry, inner (forget entry)
  hooks : ∀ c entry, inner (forgetOnClose c entry)

/-- What listeners and hooks may do as the law for everybody. -/
def Law.strict (law : Law σ) : Law σ :=
  { law with own := law.inner, stricter := fun _ => id }

/-- Whatever happens, the script does only what the law allows, and leaves only such listeners and
hooks behind. -/
def Script.Obeys (law : Law σ) (script : Script σ) : Prop :=
  law.own script ∧ match script with
    | .done _ | .panic => True
    | .update _ _ next => ∀ r, (next r).Obeys law
    | .register _ _ react next | .registerAndCall _ _ react next =>
      (∀ value, (react value).Obeys law.strict) ∧ ∀ id, (next id).Obeys law
    | .deregister _ _ next | .close _ next | .untrack _ next | .shut next => next.Obeys law
    | .alter _ next | .note _ _ _ next => next.Obeys law
    | .onClose _ hook next => hook.Obeys law.strict ∧ next.Obeys law
    | .look _ next => ∀ value, (next value).Obeys law
    | .derive _ next => ∀ made, (next made).Obeys law
    | .tree next => ∀ tree, (next tree).Obeys law
    | .start next => ∀ started, (next started).Obeys law
    | .inspect next => ∀ surroundings, (next surroundings).Obeys law

/-- A listener that obeys a law, whatever it is told. -/
def Listener.Obeys (law : Law σ) (l : Listener σ) : Prop := ∀ value, (l.react value).Obeys law

/-- What can stand on an agenda under a law. -/
def Item.Obeys (law : Law σ) : Item σ → Prop
  | .go script => script.Obeys law
  | .tell _ _ l _ | .greet _ l => l.Obeys law.strict
  | .derive extract => ∃ next, law.own (.derive extract next)
  | _ => True

/-- All listeners and hooks obey the law for them, and every derived cell may have been made. -/
structure World.Obeys (law : Law σ) (w : World σ) : Prop where
  listeners : ∀ c, ∀ entry ∈ (w.cell c).listeners, entry.2.Obeys law.strict
  hooks : ∀ c hook, (w.cell c).hook = some hook → hook.Obeys law.strict
  tracked : ∀ t ∈ w.config.tracked, ∃ next, law.own (.derive t.extract next)

variable {law : Law σ} {plan : Plan σ} {v w w' : World σ} {item : Item σ} {script : Script σ}

/-- Who obeys the law for listeners and hooks obeys the one for everybody. -/
theorem Script.Obeys.of_strict (obeys : script.Obeys law.strict) : script.Obeys law := by
  induction script with
  | done | panic => exact ⟨law.stricter _ obeys.1, trivial⟩
  | update c value next ih | look c next ih | derive extract next ih | tree next ih
    | start next ih | inspect next ih =>
    exact ⟨law.stricter _ obeys.1, fun r => ih r (obeys.2 r)⟩
  | register c name react next _ ih | registerAndCall c name react next _ ih =>
    exact ⟨law.stricter _ obeys.1, obeys.2.1, fun id => ih id (obeys.2.2 id)⟩
  | deregister c listener next ih | close c next ih | untrack entry next ih | shut next ih
    | alter change next ih | note listener step reply next ih =>
    exact ⟨law.stricter _ obeys.1, ih obeys.2⟩
  | onClose c hook next _ ih => exact ⟨law.stricter _ obeys.1, obeys.2.1, ih obeys.2.2⟩

theorem obeys_forget (law : Law σ) (entry : Nat) : (forget entry).Obeys law.strict :=
  ⟨law.forgets entry, law.ends _, trivial⟩

theorem obeys_forgetOnClose (law : Law σ) (c entry : Nat) : (forgetOnClose c entry).Obeys law :=
  .of_strict ⟨law.hooks c entry, obeys_forget law entry, law.ends _, trivial⟩

theorem Item.obeys_next (obeys : script.Obeys law) : ∀ i ∈ [Item.go script], i.Obeys law :=
  List.forall_mem_singleton.mpr obeys

theorem Item.obeys_then (first : item.Obeys law) (obeys : script.Obeys law) :
    ∀ i ∈ [item, .go script], i.Obeys law :=
  List.forall_mem_cons.mpr ⟨first, obeys_next obeys⟩

theorem dispatch_obeys (law : Law σ) (plan : Plan σ) (updates : List (Nat × Option Value)) :
    ∀ i ∈ dispatch plan updates, i.Obeys law := by
  intro i member
  rcases List.mem_append.mp member with puts | last
  · obtain ⟨update, -, rfl⟩ := List.mem_map.mp puts
    trivial
  · rw [List.mem_singleton.mp last]
    trivial

namespace World.Obeys

theorem congr (obeys : w.Obeys law) (cells : ∀ c, w'.cell c = w.cell c)
    (tracked : w'.config.tracked = w.config.tracked) : w'.Obeys law where
  listeners c := by rw [cells]; exact obeys.listeners c
  hooks c := by rw [cells]; exact obeys.hooks c
  tracked := by rw [tracked]; exact obeys.tracked

/-- Fewer entries are tracked than before. -/
theorem fewer (obeys : w.Obeys law) (cells : ∀ c, w'.cell c = w.cell c)
    (tracked : ∀ t ∈ w'.config.tracked, t ∈ w.config.tracked) : w'.Obeys law where
  listeners c := by rw [cells]; exact obeys.listeners c
  hooks c := by rw [cells]; exact obeys.hooks c
  tracked t known := obeys.tracked t (tracked t known)

theorem beside (obeys : w.Obeys law) (beside : Beside w w') : w'.Obeys law :=
  obeys.congr beside.cell beside.tracked

/-- One cell changed, to one whose listeners and whose hook are as they may be. -/
theorem modify (obeys : w.Obeys law) {c : Nat} {f : Cell σ → Cell σ}
    (listeners : ∀ entry ∈ (f (w.cell c)).listeners, entry.2.Obeys law.strict)
    (hooks : ∀ hook, (f (w.cell c)).hook = some hook → hook.Obeys law.strict) :
    (w.modifyCell c f).Obeys law where
  listeners d := by
    rcases w.cell_modifyCell c f d with same | ⟨rfl, _, now⟩
    · rw [same]; exact obeys.listeners d
    · rw [now]; exact listeners
  hooks d := by
    rcases w.cell_modifyCell c f d with same | ⟨rfl, _, now⟩
    · rw [same]; exact obeys.hooks d
    · rw [now]; exact hooks
  tracked := obeys.tracked

/-- One cell changed, but neither its listeners nor its hook. -/
theorem change (obeys : w.Obeys law) {c : Nat} {f : Cell σ → Cell σ}
    (listeners : ∀ cell, (f cell).listeners = cell.listeners)
    (hook : ∀ cell, (f cell).hook = cell.hook) : (w.modifyCell c f).Obeys law :=
  obeys.modify (by rw [listeners]; exact obeys.listeners c)
    (by rw [hook]; exact obeys.hooks c)

theorem listen (obeys : w.Obeys law) (c : Nat) {l : Listener σ} (kind : l.Obeys law.strict)
    (atOnce : Bool) : (w.listen c l atOnce).Obeys law := by
  refine (obeys.modify (c := c) (f := (·.register l)) (fun entry listens => ?_)
    (obeys.hooks c)).congr (fun _ => rfl) rfl
  rw [Cell.register] at listens
  dsimp only at listens
  split at listens
  · exact obeys.listeners c entry listens
  · rcases List.mem_append.mp listens with listens | new
    · exact obeys.listeners c entry listens
    · rw [List.mem_singleton.mp new]
      exact kind

theorem follow (obeys : w.Obeys law) {extract : Extractor}
    (kind : ∃ next, law.own (.derive extract next)) (value : Option Value) :
    (w.follow extract value).Obeys law := by
  have cell (d : Nat) : (w.follow extract value).cell d =
      if d = w.cells.length then { value } else w.cell d := World.cell_addCell w { value } d
  refine ⟨fun d => ?_, fun d => ?_, fun t known => ?_⟩
  · rw [cell]
    split
    · exact List.forall_mem_nil _
    · exact obeys.listeners d
  · rw [cell]
    split
    · exact nofun
    · exact obeys.hooks d
  · rcases List.mem_append.mp known with known | new
    · exact obeys.tracked t known
    · rw [List.mem_singleton.mp new]
      exact kind

theorem welcome {l : Listener σ} (kind : l.Obeys law.strict) (v : World σ) (c id : Nat) :
    ∀ i ∈ Live.welcome v c id l, i.Obeys law := by
  rw [Live.welcome]
  split
  · exact List.forall_mem_singleton.mpr kind
  · exact List.forall_mem_nil _

theorem step_script (obeys : w.Obeys law) (plan : Plan σ) (kind : script.Obeys law) :
    (script.step plan w).2.Obeys law ∧ ∀ i ∈ (script.step plan w).1, i.Obeys law := by
  cases script with
  | done reply => exact ⟨obeys, List.forall_mem_nil _⟩
  | panic => exact ⟨obeys, Item.obeys_next kind⟩
  | update c value next => exact ⟨obeys, Item.obeys_then trivial (kind.2 _)⟩
  | register c name react next =>
    exact ⟨obeys.listen c (l := ⟨name, react⟩) kind.2.1 false, Item.obeys_next (kind.2.2 _)⟩
  | registerAndCall c name react next =>
    exact ⟨obeys, Item.obeys_then kind.2.1 (kind.2.2 _)⟩
  | deregister c listener next =>
    have fewer : (w.modifyCell c (·.deregister listener)).Obeys law :=
      obeys.modify (fun entry listens => obeys.listeners c entry (List.mem_filter.mp listens).1)
        (obeys.hooks c)
    exact ⟨fewer.congr (fun _ => rfl) rfl, Item.obeys_next kind.2⟩
  | close c next => exact ⟨obeys, Item.obeys_then trivial kind.2⟩
  | onClose c hook next =>
    rw [Script.step]
    split
    · exact ⟨obeys.congr (fun _ => rfl) rfl, Item.obeys_then kind.2.1.of_strict kind.2.2⟩
    · refine ⟨obeys.modify (obeys.listeners c) fun script has => ?_, Item.obeys_next kind.2.2⟩
      cases has
      exact kind.2.1
  | look c next => exact ⟨obeys, Item.obeys_next (kind.2 _)⟩
  | derive extract next => exact ⟨obeys, Item.obeys_then ⟨next, kind.1⟩ (kind.2 _)⟩
  | untrack entry next =>
    exact ⟨obeys.fewer (fun _ => rfl) fun t known => (List.mem_filter.mp known).1,
      Item.obeys_next kind.2⟩
  | tree next => exact ⟨obeys, Item.obeys_next (kind.2 _)⟩
  | shut next => exact ⟨obeys, Item.obeys_then trivial kind.2⟩
  | start next =>
    rw [Script.step]
    refine ⟨?_, Item.obeys_next (kind.2 _)⟩
    dsimp only
    split
    · exact obeys.congr (fun _ => rfl) rfl
    · exact obeys
  | inspect next => exact ⟨obeys, Item.obeys_next (kind.2 _)⟩
  | alter change next => exact ⟨obeys.congr (fun _ => rfl) rfl, Item.obeys_next kind.2⟩
  | note listener step reply next =>
    exact ⟨obeys.congr (fun _ => rfl) rfl, Item.obeys_next kind.2⟩

/-- No step breaks the law, and none brings work with it that does. -/
theorem step (obeys : w.Obeys law) (plan : Plan σ) (kind : item.Obeys law) :
    (item.step plan w).2.Obeys law ∧ ∀ i ∈ (item.step plan w).1, i.Obeys law := by
  cases item with
  | go script => exact obeys.step_script plan kind
  | tell c id l value =>
    exact ⟨obeys.congr (fun _ => rfl) rfl, Item.obeys_next (kind value).of_strict⟩
  | put c value =>
    rw [Item.step]
    split
    · exact ⟨obeys, List.forall_mem_nil _⟩
    · split
      · have deferred : (w.modifyCell c (·.defer value)).Obeys law :=
          obeys.change (fun _ => rfl) fun _ => rfl
        exact ⟨deferred.congr (fun _ => rfl) rfl, List.forall_mem_nil _⟩
      · exact ⟨obeys.change (fun _ => rfl) fun _ => rfl, by simp [Item.Obeys]⟩
  | apply c value =>
    rw [Item.step]
    split
    · exact ⟨obeys, List.forall_mem_nil _⟩
    · split
      · exact ⟨obeys, by simp [Item.Obeys]⟩
      · have stored : (w.modifyCell c fun cell => { cell with value }).Obeys law :=
          obeys.change (fun _ => rfl) fun _ => rfl
        refine ⟨stored.congr (fun _ => rfl) rfl, fun i called => ?_⟩
        rcases List.mem_append.mp called with called | last
        · obtain ⟨listener, listens, rfl⟩ := List.mem_map.mp called
          exact obeys.listeners c listener ((w.cell c).order.mem_arrange.mp listens)
        · rw [List.mem_singleton.mp last]
          trivial
  | drain c =>
    rw [Item.step]
    split
    · exact ⟨obeys, List.forall_mem_nil _⟩
    · exact ⟨obeys.change (fun _ => rfl) fun _ => rfl, by simp [Item.Obeys]⟩
  | unmark c => exact ⟨obeys.change (fun _ => rfl) fun _ => rfl, List.forall_mem_nil _⟩
  | greet c l =>
    rw [Item.step]
    split
    · exact ⟨obeys.listen c kind true, welcome kind w c _⟩
    · have marked : (w.modifyCell c .mark).Obeys law := obeys.change (fun _ => rfl) fun _ => rfl
      refine ⟨marked.listen c kind true, fun i called => ?_⟩
      rcases List.mem_append.mp called with called | called
      · exact welcome kind w c _ i called
      · rcases List.mem_cons.mp called with rfl | called
        · trivial
        · rw [List.mem_singleton.mp called]
          trivial
  | close c =>
    rw [Item.step]
    split
    · exact ⟨obeys, List.forall_mem_nil _⟩
    · have shut : (w.modifyCell c .shut).Obeys law :=
        obeys.modify (List.forall_mem_nil _) fun hook has =>
          absurd has (Option.some_ne_none hook).symm
      dsimp only
      split
      next hook has =>
        exact ⟨shut.congr (fun _ => rfl) rfl,
          Item.obeys_next (obeys.hooks c hook has).of_strict⟩
      next => exact ⟨shut.congr (fun _ => rfl) rfl, List.forall_mem_nil _⟩
  | derive extract =>
    rw [Item.step]
    split
    · exact ⟨obeys, List.forall_mem_nil _⟩
    · split
      · exact ⟨obeys, List.forall_mem_nil _⟩
      · exact ⟨obeys.follow kind _, Item.obeys_next (obeys_forgetOnClose law _ _)⟩
  | shut =>
    rw [Item.step]
    split
    · exact ⟨obeys, List.forall_mem_nil _⟩
    · refine ⟨obeys.fewer (fun _ => rfl) (List.forall_mem_nil _), fun i member => ?_⟩
      rcases List.mem_append.mp member with closed | last
      · obtain ⟨t, _, rfl⟩ := List.mem_map.mp closed
        trivial
      · rw [List.mem_singleton.mp last]
        trivial
  | shutSources =>
    obtain ⟨_, _, _, after⟩ := closeSources_spec 0 plan.sources w
    rw [Item.step, after]
    exact ⟨obeys.congr (fun _ => rfl) rfl, List.forall_mem_nil _⟩
  | endDispatch => exact ⟨obeys.congr (fun _ => rfl) rfl, List.forall_mem_nil _⟩

theorem leads {a b : List (Item σ)} (obeys : w.Obeys law) (kinds : ∀ i ∈ a, i.Obeys law)
    (leads : Leads plan a w b v) : v.Obeys law ∧ ∀ i ∈ b, i.Obeys law := by
  induction leads with
  | here => exact ⟨obeys, kinds⟩
  | step _ ih =>
    obtain ⟨first, rest⟩ := List.forall_mem_cons.mp kinds
    obtain ⟨obeys', new⟩ := obeys.step _ first
    exact ih obeys' (List.forall_mem_append.mpr ⟨new, rest⟩)

theorem unwind (obeys : w.Obeys law) (agenda : List (Item σ)) : (unwind agenda w).Obeys law := by
  induction agenda generalizing w with
  | nil => exact obeys
  | cons item rest ih =>
    refine ih ?_
    cases item with
    | unmark c => exact obeys.change (fun _ => rfl) fun _ => rfl
    | endDispatch => exact obeys.congr (fun _ => rfl) rfl
    | _ => exact obeys

theorem swap (obeys : w.Obeys law) (tree : Tree) : (w.swap tree).Obeys law :=
  obeys.congr (fun _ => rfl) rfl

/-- No move of a session in which all scripts obey the law breaks it. -/
theorem effect {s s' : Session σ} (obeys : s.world.Obeys law)
    (effect : Session.Effect (Script.Obeys law) s s') : s'.world.Obeys law := by
  cases effect with
  | beside beside | reloaded beside => exact obeys.beside beside
  | ran kind leads unwinds =>
    exact ((obeys.leads (Item.obeys_next kind) leads).1.unwind _).beside unwinds
  | @published tree _ _ _ _ fetched opened other computes leads unwinds =>
    have swapped := (obeys.beside fetched).swap tree
    exact ((swapped.leads (dispatch_obeys law _ _) leads).1.unwind _).beside unwinds

end World.Obeys
end LayeredConfig.Live
