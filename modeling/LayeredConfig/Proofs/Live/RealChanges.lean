import LayeredConfig.Proofs.Equality
import LayeredConfig.Proofs.Live.Undisturbed
/-!
# Observers hear of real changes

Somebody who listens to a derived cell before anything is loaded, and goes on listening, is told of
the values that the rule of the cell gives for the trees that refreshes bring, except for those that
are no news: `observers_hear_real_changes`. Two filters lie in between. A tree that equals the
current one is not published, and a value that equals the one in the cell is not stored. What is
left out by them is what equals its predecessor.
-/
namespace LayeredConfig.Live

variable {σ : Type} {plan : Plan σ} {n c id : Nat} {t : Tracked} {u v w w' : World σ}

open Story

/-! ### What is news -/

/-- Of values beside the trees that they were computed from, those that are news: neither the tree
equals the one before nor the value. -/
def news (tree : Option Tree) (held : Option Value) :
    List (Tree × Option Value) → List (Option Value)
  | [] => []
  | (tree', value) :: later =>
    if tree == some tree' || held == value then news (some tree') value later
    else value :: news (some tree') value later

/-- The values of a list without those that equal their predecessors, of which the first one is
`held`. -/
def distinct (held : Option Value) : List (Option Value) → List (Option Value)
  | [] => []
  | value :: later => if held == value then distinct value later else value :: distinct value later

theorem news_concat (tree : Option Tree) (held : Option Value) {trees : List Tree}
    {values : List (Option Value)} (length : trees.length = values.length) (tree' : Tree)
    (value : Option Value) :
    news tree held ((trees ++ [tree']).zip (values ++ [value])) =
      news tree held (trees.zip values) ++
        if (trees.getLast?.or tree) == some tree' || values.getLastD held == value then []
        else [value] := by
  induction trees generalizing tree held values with
  | nil =>
    obtain rfl : values = [] := List.length_eq_zero_iff.mp length.symm
    rfl
  | cons first trees ih =>
    cases values with
    | nil => cases length
    | cons next values =>
      have rest := ih (some first) next (Nat.succ_inj.mp length)
      have last : (first :: trees).getLast?.or tree = trees.getLast?.or (some first) := by
        rw [List.getLast?_cons]
        cases trees.getLast? <;> rfl
      rw [last, List.getLastD_cons]
      simp only [List.cons_append, List.zip_cons_cons, news]
      split <;> rw [rest]
      rfl

/-- For values that equal themselves the trees do not matter. -/
theorem news_eq_distinct {f : Extractor} (usual : f.Usual) {tree : Option Tree}
    {held : Option Value} (follows : ∀ T, tree = some T → f T = .ok held) {trees : List Tree}
    {values : List (Option Value)}
    (gives : List.Forall₂ (fun T value => f T = .ok value) trees values)
    (proper : ∀ value ∈ values, (value == value) = true) :
    news tree held (trees.zip values) = distinct held values := by
  induction gives generalizing tree held with
  | nil => rfl
  | @cons T value trees values first _ ih =>
    have follows' : ∀ T', some T = some T' → f T' = .ok value := fun T' same => by
      cases same
      exact first
    have rest := ih follows' fun v member => proper v (List.mem_cons_of_mem _ member)
    rw [List.zip_cons_cons, news, distinct, rest]
    have same : (tree == some T || held == value) = (held == value) := by
      cases repeats : tree == some T with
      | false => rfl
      | true =>
        cases tree with
        | none => cases repeats
        | some T' =>
          obtain ⟨value', gives, alike⟩ := usual.respects repeats (follows T' rfl)
          rw [first] at gives
          cases gives
          rw [alike value, proper value List.mem_cons_self]
          rfl
    rw [same]

/-- How a listener stands when refreshes have brought some trees: what it was told is what was news.
The current tree and the value of its cell may be older than the last ones, but cannot be told from
them. -/
structure UpToDate (f : Extractor) (trees : List Tree) (heard : List (Option Value))
    (current : Option Tree) (held : Option Value) (values : List (Option Value)) : Prop where
  gives : List.Forall₂ (fun T value => f T = .ok value) trees values
  told : heard = news none none (trees.zip values)
  tree : Interchangeable trees.getLast? current
  value : Interchangeable (values.getLastD none) held
  follows : ∀ T, current = some T → ∃ value, f T = .ok value ∧ Interchangeable value held

namespace UpToDate

variable {f : Extractor} {trees : List Tree} {heard : List (Option Value)} {current : Option Tree}
  {held : Option Value} {values : List (Option Value)}

theorem nothing (f : Extractor) : UpToDate f [] [] none none [] :=
  ⟨.nil, rfl, .refl _, .refl _, nofun⟩

theorem zip_concat (upToDate : UpToDate f trees heard current held values) (T : Tree)
    (value : Option Value) :
    news none none ((trees ++ [T]).zip (values ++ [value])) =
      heard ++ if current == some T || held == value then [] else [value] := by
  rw [news_concat none none upToDate.gives.length_eq, Option.or_none, upToDate.tree,
    upToDate.value, upToDate.told]

/-- A tree that equals the current one is no news. -/
theorem reloaded (upToDate : UpToDate f trees heard current held values) (usual : f.Usual)
    {T : Tree} (same : (current == some T) = true) :
    ∃ value, UpToDate f (trees ++ [T]) heard current held (values ++ [value]) := by
  cases current with
  | none => cases same
  | some T' =>
    obtain ⟨value, gives, alike⟩ := upToDate.follows T' rfl
    obtain ⟨value', gives', alike'⟩ := usual.respects same gives
    refine ⟨value', List.rel_append upToDate.gives (.cons gives' .nil), ?_, ?_, ?_,
      upToDate.follows⟩
    · rw [upToDate.zip_concat, same, Bool.true_or, if_pos rfl, List.append_nil]
    · rw [List.getLast?_concat]
      exact (Interchangeable.lift (Tree.interchangeable same)).symm
    · rw [List.getLastD_concat]
      exact alike'.symm.trans alike

/-- Any other tree is news as far as the value is. -/
theorem published (upToDate : UpToDate f trees heard current held values) {T : Tree}
    {value : Option Value} (other : (current == some T) = false) (gives : f T = .ok value) :
    UpToDate f (trees ++ [T]) (heard ++ changes held [value]) (some T)
      ((changes held [value]).getLastD held) (values ++ [value]) := by
  -- the cell holds the value, or one that cannot be told from it
  have holds : Interchangeable value ((changes held [value]).getLastD held) := by
    rw [changes, changes, changes]
    split
    next same => exact (Interchangeable.of_beq same).symm
    next => exact .refl _
  refine ⟨List.rel_append upToDate.gives (.cons gives .nil), ?_, ?_, ?_, ?_⟩
  · rw [upToDate.zip_concat, other, Bool.false_or, changes, changes, changes]
  · rw [List.getLast?_concat]
    exact .refl _
  · rw [List.getLastD_concat]
    exact holds
  · rintro _ ⟨⟩
    exact ⟨value, gives, holds⟩

end UpToDate

/-! ### What moves tell a listener -/

/-- Sources and transformers are asked without anybody being told. -/
theorem Beside.told (beside : Beside w v) :
    told c id v.history.reverse = told c id w.history.reverse := by
  have calls := beside.filterMap (·.called? c) (fun _ => rfl) fun _ => rfl
  rw [Story.told, Story.calls, List.filterMap_reverse, calls, ← List.filterMap_reverse]
  rfl

theorem Beside.trees (beside : Beside w v) : trees v.history = trees w.history :=
  beside.filterMap _ (fun _ => rfl) fun _ => rfl

namespace Session

variable {s s' : Session σ} {P : Script σ → Prop}

/-- A tree is published, but some listener panics before everybody has been told, or the work does
not come to its end. -/
def BreaksOff (s s' : Session σ) : Prop :=
  trees s'.world.history ≠ trees s.world.history ∧ s'.loads = s.loads

/-- A tree that is published is put on record, however that ends. -/
theorem trees_of_published {tree : Tree} {a left : List (Item σ)} (fetched : Beside s.world u)
    (leads : Leads plan a (u.swap tree) left v) (unwinds : Beside (unwind left v) s'.world) :
    trees s'.world.history = tree :: trees s.world.history := by
  rw [unwinds.trees, (unwind_aloof left v).trees, leads.aloof.trees, ← fetched.trees]
  rfl

theorem Effect.sound (effect : Effect P s s') (sound : ∀ c, (s.world.cell c).Sound) :
    ∀ c, (s'.world.cell c).Sound := by
  have unwound {v w : World σ} (agenda : List (Item σ)) (sound : ∀ c, (v.cell c).Sound)
      (unwinds : Beside (unwind agenda v) w) (c : Nat) : (w.cell c).Sound := by
    rw [unwinds.cell]
    exact unwind_keeps agenda Cell.Sound (fun _ _ change => change.sound) (sound c)
  cases effect with
  | beside beside | reloaded beside => exact fun c => beside.cell c ▸ sound c
  | ran performs leads unwinds => exact unwound _ (leads.sound sound) unwinds
  | @published tree _ _ u _ fetched opened other computes leads unwinds =>
    have sound : ∀ c, ((u.swap tree).cell c).Sound := fun c => fetched.cell c ▸ sound c
    exact unwound _ (leads.sound sound) unwinds

/-- The values of a cell and what a listener of it was told when everything was broken off. -/
theorem unwound (c id : Nat) (agenda : List (Item σ)) (unwinds : Beside (unwind agenda v) w) :
    (w.cell c).value = (v.cell c).value ∧
      ((v.cell c).deferred = [] → (w.cell c).deferred = []) ∧
      told c id w.history.reverse = told c id v.history.reverse := by
  have history : (unwind agenda v).history = v.history := unwind_history agenda v
  rw [unwinds.cell, unwinds.told, history]
  rcases unwind_cell agenda v c with same | same
  · rw [same]
    exact ⟨rfl, fun idle => idle, rfl⟩
  · rw [same]
    exact ⟨rfl, fun _ => rfl, rfl⟩

/-- Nothing has been loaded, and nobody was told anything of a derived cell. -/
structure Unheard (c id : Nat) (s : Session σ) : Prop where
  current : s.world.config.current = none
  value : (s.world.cell c).value = none
  idle : (s.world.cell c).deferred = []
  told : told c id s.world.history.reverse = []

theorem Effect.unheard (effect : Effect (Script.Offered n) s s') (proper : Proper n s)
    (derived : n ≤ c) (unheard : Unheard c id s) (unloaded : s'.world.config.current = none) :
    s'.world.config.closed = true ∨ Unheard c id s' := by
  cases effect with
  | beside beside =>
    refine .inr ⟨unloaded, ?_, ?_, beside.told.trans unheard.told⟩
    · rw [beside.cell]; exact unheard.value
    · rw [beside.cell]; exact unheard.idle
  | reloaded beside same =>
    rw [unheard.current] at same
    cases same
  | @ran script left v offered leads unwinds =>
    rcases proper.regular with closed | regular
    · exact .inl (unwinds.closed_of_unwind (leads.aloof.closed closed))
    · have start : Undisturbed c id s.world [.go script] s.world :=
        .start unheard.idle (List.forall_mem_singleton.mpr trivial)
          (.inl ⟨unheard.value, unheard.current⟩)
      rcases regular.undisturbed (Item.fits_next offered) leads derived start with
        closed | ⟨_, undisturbed⟩
      · exact .inl (unwinds.closed_of_unwind closed)
      · obtain ⟨value, idle, told⟩ := unwound c id left unwinds
        exact .inr ⟨unloaded, value.trans (undisturbed.value.trans unheard.value),
          idle undisturbed.idle, told.trans (undisturbed.told.trans unheard.told)⟩
  | published fetched opened other computes leads unwinds =>
    have loaded := unwinds.current_of_unwind leads
    rw [unloaded] at loaded
    cases loaded

/-- Somebody listens to a derived cell and is up to date. -/
structure Attends (t : Tracked) (id : Nat) (s : Session σ) : Prop where
  sound : ∀ c, (s.world.cell c).Sound
  attended : s.world.Attended t id
  upToDate : ∃ values, UpToDate t.extract s.loads (told t.cell id s.world.history.reverse)
    s.world.config.current (s.world.cell t.cell).value values

/-- Scripts tell the listener nothing. -/
theorem Attends.ran {script : Script σ} {left : List (Item σ)} (attends : Attends t id s)
    (proper : Proper n s) (offered : script.Offered n)
    (leads : Leads s.plan [.go script] s.world left v) (unwinds : Beside (unwind left v) s'.world)
    (loads : s'.loads = s.loads) (sound : ∀ c, (s'.world.cell c).Sound) :
    s'.world.config.closed = true ∨ (s'.world.cell t.cell).Lost id ∨ Attends t id s' := by
  rcases proper.regular with closed | regular
  · exact .inl (unwinds.closed_of_unwind (leads.aloof.closed closed))
  have fits : ∀ i ∈ [Item.go script], i.Fits n s.world := Item.fits_next offered
  have derived := (regular.derived t attends.attended.tracked).1
  have start : Undisturbed t.cell id s.world [.go script] s.world :=
    .start ((attends.sound _).idle (proper.idle.unmarked _))
      (List.forall_mem_singleton.mpr trivial)
      (.inr ((attends.sound _).known id attends.attended.listens))
  rcases regular.undisturbed fits leads derived start with closed | ⟨_, undisturbed⟩
  · exact .inl (unwinds.closed_of_unwind closed)
  obtain ⟨values, upToDate⟩ := attends.upToDate
  refine (regular.attended fits leads (attends.sound _) attends.attended unwinds).imp_right
    (.imp_right fun attended => ⟨sound, attended, values, ?_⟩)
  obtain ⟨value, _, told⟩ := unwound t.cell id left unwinds
  rw [loads, told, undisturbed.told, unwinds.current_of_unwind leads, value, undisturbed.value]
  exact upToDate

/-- The listener is told of a tree that is published to the end. -/
theorem Attends.published {tree : Tree} {updates : List (Nat × Option Value)}
    (attends : Attends t id s) (proper : Proper n s) (fetched : Beside s.world u)
    (opened : u.config.closed = false) (other : (u.config.current == some tree) = false)
    (computes : computeAll tree u.config.tracked = .ok updates)
    (leads : Leads s.plan (dispatch s.plan updates) (u.swap tree) [] v) (ends : Beside v s'.world)
    (loads : s'.loads = s.loads ++ [tree]) (sound : ∀ c, (s'.world.cell c).Sound) :
    s'.world.config.closed = true ∨ (s'.world.cell t.cell).Lost id ∨ Attends t id s' := by
  have regular := proper.publishing fetched opened
  have soundBefore : (u.cell t.cell).Sound := fetched.cell t.cell ▸ attends.sound t.cell
  have before := attends.attended.beside fetched
  obtain ⟨value, gives, heard⟩ := regular.dispatch_heard (fetched.idle proper.idle) before.tracked
    soundBefore before.listens computes leads
  rcases heard with closed | lost | heard
  · exact .inl (ends.closed.trans closed)
  · exact .inr (.inl (ends.cell t.cell ▸ lost))
  have swapped : (u.swap tree).Attended t id := ⟨before.tracked, before.listens⟩
  obtain ⟨values, upToDate⟩ := attends.upToDate
  refine ((regular.swap tree).attended (dispatch_fits _ _) leads soundBefore swapped
    ends).imp_right (.imp_right fun attended => ⟨sound, attended, values ++ [value], ?_⟩)
  have current : s'.world.config.current = some tree :=
    Beside.current_of_unwind (b := []) leads ends
  rw [loads, ends.told, heard.told, fetched.told, fetched.cell, current, ends.cell, heard.value,
    fetched.cell]
  exact upToDate.published (fetched.current ▸ other) gives

/-- Who is up to date stays so, unless the listener is lost or the configuration closed. -/
theorem Effect.attends (effect : Effect (Script.Offered n) s s') (proper : Proper n s)
    (usual : t.extract.Usual) (attends : Attends t id s) (unbroken : ¬BreaksOff s s') :
    s'.world.config.closed = true ∨ (s'.world.cell t.cell).Lost id ∨ Attends t id s' := by
  have sound := effect.sound attends.sound
  obtain ⟨values, upToDate⟩ := attends.upToDate
  cases effect with
  | beside beside loads =>
    refine .inr (.inr ⟨sound, attends.attended.beside beside, values, ?_⟩)
    rw [loads, beside.told, beside.current, beside.cell]
    exact upToDate
  | reloaded beside same loads =>
    obtain ⟨value, upToDate⟩ := upToDate.reloaded usual same
    refine .inr (.inr ⟨sound, attends.attended.beside beside, values ++ [value], ?_⟩)
    rw [loads, beside.told, beside.current, beside.cell]
    exact upToDate
  | ran offered leads unwinds loads => exact attends.ran proper offered leads unwinds loads sound
  | @published tree updates left u v fetched opened other computes leads unwinds loads =>
    rcases loads with ⟨rfl, loads⟩ | loads
    · exact attends.published proper fetched opened other computes leads unwinds loads sound
    · refine absurd ⟨?_, loads⟩ unbroken
      rw [trees_of_published fetched leads unwinds]
      exact List.cons_ne_self _ _

/-! ### Before the first refresh -/

theorem flights_mono (s : Session σ) (moves : List (Move σ)) :
    s.flights.size ≤ (s.after moves).flights.size :=
  kept_by_deeds (P := fun s' => s.flights.size ≤ s'.flights.size) (fun s' s'' more deed => by
    cases deed with
    | aside aside => exact aside.flights ▸ more
    | joined found free flying flights => exact flights ▸ more
    | tookOff found free idle flights =>
      rw [flights, Array.size_push]
      exact Nat.le_succ_of_le more
    | advanced found flights => exact flights ▸ more
    | landed found flights =>
      rw [flights, Array.size_setIfInBounds]
      exact more) (Nat.le_refl _) moves

/-- Nothing is loaded before a refresh has begun. -/
theorem unloaded_after (orderly : Orderly s)
    (unloaded : s.flights.size = 0 → s.world.config.current = none) (moves : List (Move σ)) :
    (s.after moves).flights.size = 0 → (s.after moves).world.config.current = none :=
  (kept_by_deeds (P := fun s => Orderly s ∧ (s.flights.size = 0 → s.world.config.current = none))
    (fun s s' ⟨orderly, unloaded⟩ deed => by
      have led {t f : Nat} (leads : s.LedBy t f) : s.flights.size ≠ 0 := by
        have there := (orderly.underWay f).mp (orderly.leads t f leads)
        exact Nat.ne_zero_of_lt (Array.getElem?_eq_some_iff.mp there).1
      refine ⟨orderly.deed deed, fun unbegun => ?_⟩
      cases deed with
      | aside aside => exact aside.apart.current.trans (unloaded (aside.flights ▸ unbegun))
      | joined found free flying flights world => exact world ▸ unloaded (flights ▸ unbegun)
      | tookOff found free idle flights =>
        rw [flights, Array.size_push] at unbegun
        cases unbegun
      | advanced found flights => exact absurd (flights ▸ unbegun) (led ⟨_, _, _, found⟩)
      | landed found flights =>
        rw [flights, Array.size_setIfInBounds] at unbegun
        exact absurd unbegun (led ⟨_, _, _, found⟩)) ⟨orderly, unloaded⟩ moves).2

/-- Before the first refresh begins nobody is told anything of a derived cell. -/
theorem unheard_after (plan : Plan σ) (fuel : Nat) (surroundings : σ)
    (others : List (Option Value × NotifyOrder)) (derived : others.length ≤ c)
    {moves : List (Move σ)} (offered : ∀ m ∈ moves, m.Performs (Script.Offered others.length))
    (unbegun : ((freshBeside plan fuel surroundings others).after moves).flights.size = 0) :
    ((freshBeside plan fuel surroundings others).after moves).world.config.closed = true ∨
      Unheard c id ((freshBeside plan fuel surroundings others).after moves) := by
  have gone : (freshBeside plan fuel surroundings others).world.cell c = .gone :=
    World.cell_of_beyond (by simpa [freshBeside] using derived)
  refine (Proper.fresh plan fuel surroundings others).keeps (fun s => s.flights.size = 0 →
    s.world.config.closed = true ∨ Unheard c id s) (fun s m proper onward unheard unbegun => ?_)
    offered (fun _ => .inr ⟨rfl, by rw [gone]; rfl, by rw [gone]; rfl, rfl⟩) unbegun
  have unbegun' : s.flights.size = 0 :=
    Nat.eq_zero_of_le_zero (unbegun ▸ flights_mono s [m])
  rcases unheard unbegun' with closed | unheard
  · exact .inl (onward.effect.closed closed)
  · exact onward.effect.unheard proper derived unheard
      (unloaded_after proper.orderly (fun _ => unheard.current) [m] unbegun)

theorem sound_after (plan : Plan σ) (fuel : Nat) (surroundings : σ)
    (others : List (Option Value × NotifyOrder)) {moves : List (Move σ)}
    (offered : ∀ m ∈ moves, m.Performs (Script.Offered others.length)) (c : Nat) :
    (((freshBeside plan fuel surroundings others).after moves).world.cell c).Sound := by
  refine (Proper.fresh plan fuel surroundings others).keeps (fun s => ∀ c, (s.world.cell c).Sound)
    (fun _ _ _ onward sound => onward.effect.sound sound) offered (fun c => ?_) c
  rcases freshBeside_cell plan fuel surroundings others c with gone | ⟨value, order, same⟩
  · rw [gone]
    exact ⟨fun _ => rfl, .nil, nofun⟩
  · rw [same]
    exact ⟨fun _ => rfl, .nil, nofun⟩

/-! ### Whole runs -/

/-- None of the moves publishes a tree and is broken off before everybody has been told. -/
def Unbroken : Session σ → List (Move σ) → Prop
  | _, [] => True
  | s, m :: rest => ¬BreaksOff s (s.step m) ∧ Unbroken (s.step m) rest

/-- However many moves there are, who is up to date stays so. -/
theorem attends_after (proper : Proper n s) (usual : t.extract.Usual)
    (here : t.cell < s.world.cells.length)
    (start : s.world.config.closed = true ∨ (s.world.cell t.cell).Lost id ∨ Attends t id s)
    {moves : List (Move σ)} (offered : ∀ m ∈ moves, m.Performs (Script.Offered n))
    (unbroken : s.Unbroken moves) :
    (s.after moves).world.config.closed = true ∨ ((s.after moves).world.cell t.cell).Lost id ∨
      Attends t id (s.after moves) := by
  induction moves generalizing s with
  | nil => exact start
  | cons m rest ih =>
    have kind := offered m List.mem_cons_self
    have effect := (proper.onward kind).effect
    have here' := (effect.keeps here (fun _ => True) (fun _ _ _ _ => trivial) trivial).1
    refine ih (proper.step kind) here' ?_
      (fun m' member => offered m' (List.mem_cons_of_mem _ member)) unbroken.2
    rcases start with closed | lost | attends
    · exact .inl (effect.closed closed)
    · exact .inr (.inl (effect.keeps here (·.Lost id) (fun _ _ change => change.lost) lost).2)
    · exact effect.attends proper usual attends unbroken.1

/-- A listener of a derived cell that was there before the first refresh began, and is there still,
was told of the values for the trees that refreshes have brought, without those that are no news. -/
theorem observers_hear_real_changes (plan : Plan σ) (fuel : Nat) (surroundings : σ)
    (others : List (Option Value × NotifyOrder)) (earlier later : List (Move σ))
    (offered : ∀ m ∈ earlier ++ later, m.Performs (Script.Offered others.length))
    (t : Tracked) (id : Nat) (usual : t.extract.Usual) :
    let s := (freshBeside plan fuel surroundings others).after earlier
    let s' := s.after later
    t ∈ s.world.config.tracked → id ∈ (s.world.cell t.cell).listeners.map Prod.fst →
    s.flights.size = 0 → s.Unbroken later → s'.world.config.closed = false →
    (s'.world.cell t.cell).closed = false →
    id ∈ (s'.world.cell t.cell).listeners.map Prod.fst →
    ∃ values, List.Forall₂ (fun T value => t.extract T = .ok value) s'.loads values ∧
      told t.cell id s'.world.history.reverse = news none none (s'.loads.zip values) ∧
      ((∀ value ∈ values, (value == value) = true) →
        told t.cell id s'.world.history.reverse = distinct none values) := by
  intro s s' made listens unbegun unbroken opened open_ kept
  have offeredEarlier : ∀ m ∈ earlier, m.Performs (Script.Offered others.length) :=
    fun m member => offered m (List.mem_append_left _ member)
  have offeredLater : ∀ m ∈ later, m.Performs (Script.Offered others.length) :=
    fun m member => offered m (List.mem_append_right _ member)
  have proper : Proper others.length s :=
    (Proper.fresh plan fuel surroundings others).after offeredEarlier
  have opened' : s.world.config.closed ≠ true := fun closed => by
    have closed' : s'.world.config.closed = true :=
      proper.keeps (·.world.config.closed = true)
        (fun _ _ _ onward closed => onward.effect.closed closed) offeredLater closed
    rw [opened] at closed'
    cases closed'
  obtain ⟨derived, here, _⟩ := (proper.regular.resolve_left opened').derived t made
  have unheard : Unheard t.cell id s := (unheard_after plan fuel surroundings others derived
    offeredEarlier unbegun).resolve_left opened'
  have start : Attends t id s := by
    refine ⟨sound_after plan fuel surroundings others offeredEarlier, ⟨made, listens⟩, [], ?_⟩
    have none : s.loads = [] := by
      rw [loads, Array.eq_empty_of_size_eq_zero unbegun]
      rfl
    rw [none, unheard.told, unheard.current, unheard.value]
    exact .nothing _
  rcases attends_after proper usual here (.inr (.inr start)) offeredLater unbroken with
    closed | lost | attends
  · exact absurd (opened.symm.trans closed) Bool.false_ne_true
  · rcases lost with closed | ⟨_, absent⟩
    · exact absurd (open_.symm.trans closed) Bool.false_ne_true
    · exact absurd kept absent
  · obtain ⟨values, upToDate⟩ := attends.upToDate
    refine ⟨values, upToDate.gives, upToDate.told, fun proper => upToDate.told.trans ?_⟩
    exact news_eq_distinct usual (fun T wrong => by cases wrong) upToDate.gives proper

/-- A source that fails when it is asked for the second time, answers the third time what it
answered the first time, and then something else. -/
def fickleSource : Source Nat where
  name := "fickle"
  allowErrors _ := false
  ask _ asked := (.atOnce, asked)
  answer _ asked :=
    let answer : Except ConfigError Tree := match asked with
      | 0 | 2 => .ok .empty
      | 1 => .error (.invalidSettings "boom")
      | _ => .ok { root := [("a", .int 1)] }
    (answer, asked + 1)
  close asked := (.ok (), asked)

/-- A cell holds the whole tree, and somebody listens to it. -/
def listening : List (Move Nat) :=
  [.perform (.derive Extractor.whole fun _ =>
    .register 0 "observer" (fun _ => .done .nothing) fun _ => .done .nothing)]

def fourRefreshes : List (Move Nat) :=
  [.spawn 0 .refresh, .turn 0, .spawn 0 .refresh, .turn 1, .spawn 0 .refresh, .turn 2,
    .spawn 0 .refresh, .turn 3]

/-- The session before the refreshes. -/
def listenedTo : Session Nat :=
  (freshBeside { query := ⟨"app", [], none, none⟩, sources := [fickleSource] } 20 0 []).after
    listening

theorem observers_hear_real_changes_fickleSource :
    (∃ values, List.Forall₂ (fun T value => Extractor.whole T = .ok value)
        (listenedTo.after fourRefreshes).loads values ∧
      told 0 0 (listenedTo.after fourRefreshes).world.history.reverse =
        news none none ((listenedTo.after fourRefreshes).loads.zip values)) ∧
    (listenedTo.after fourRefreshes).loads = [.empty, .empty, { root := [("a", .int 1)] }] ∧
    told 0 0 (listenedTo.after fourRefreshes).world.history.reverse =
      [some (.obj []), some (.obj [("a", .int 1)])] := by
  have offered : ∀ m ∈ listening ++ fourRefreshes, m.Performs (Script.Offered 0) := by
    simp only [listening, fourRefreshes, List.cons_append, List.nil_append, List.forall_mem_cons]
    exact ⟨fun _ => ⟨fun _ => trivial, fun _ => trivial⟩, .refresh, trivial, .refresh, trivial,
      .refresh, trivial, .refresh, trivial, nofun⟩
  -- a tree is published only by two of the moves, and those end a refresh
  have quiet {s s' : Session Nat} (published : List Tree)
      (before : trees s.world.history = published)
      (now : trees s'.world.history = published) : ¬BreaksOff s s' :=
    fun breaks => breaks.1 (now.trans before.symm)
  have brings {s s' : Session Nat} (brought : Nat) (before : s.loads.length = brought)
      (now : s'.loads.length = brought + 1) : ¬BreaksOff s s' := fun breaks =>
    Nat.succ_ne_self brought (now.symm.trans ((congrArg List.length breaks.2).trans before))
  have unbroken : listenedTo.Unbroken fourRefreshes :=
    ⟨quiet [] rfl rfl, brings 0 rfl rfl, quiet [.empty] rfl rfl, quiet [.empty] rfl rfl,
      quiet [.empty] rfl rfl, quiet [.empty] rfl rfl, quiet [.empty] rfl rfl, brings 2 rfl rfl,
      trivial⟩
  have made : (⟨0, 0, Extractor.whole⟩ : Tracked) ∈ listenedTo.world.config.tracked :=
    List.mem_singleton_self _
  have listens : 0 ∈ (listenedTo.world.cell 0).listeners.map Prod.fst := List.mem_singleton_self _
  have still : 0 ∈ ((listenedTo.after fourRefreshes).world.cell 0).listeners.map Prod.fst :=
    List.mem_singleton_self _
  obtain ⟨values, gives, heard, _⟩ := observers_hear_real_changes _ 20 0 [] listening fourRefreshes
    offered ⟨0, 0, Extractor.whole⟩ 0 .whole made listens rfl unbroken rfl rfl still
  exact ⟨⟨values, gives, heard⟩, rfl, rfl⟩

end Session

end LayeredConfig.Live
