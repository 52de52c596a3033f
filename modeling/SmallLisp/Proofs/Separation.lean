import SmallLisp.Proofs.Evolution
import SmallLisp.Proofs.Transparency

/-!
# Roots that share a store

Lines may be evaluated in turn at several roots of one store, such as the global frames of several
sessions (`runTurns`).  From each root some frames are reached, by going outwards and through the
closures that the values of a frame refer to (`Store.Reaches`).  Roots are separate if no frame is
reached from two of them (`Separate`).

What is reached from a root is a closed region, the least one that has the root in it.  So a turn
changes frames that are reached from its own root and makes new ones, and it leaves alone what is
reached from another root: roots stay separate (`Separate.turn`).

New frames are numbered in the order in which all roots make them.  A root that has the store to
itself gets other frames for the same calls, and the two stores correspond along the frames that are
reached from the root in the shared one (`SharesView`).  The turns of the root keep them so, since
evaluation does not depend on which frames there are, and the turns of the others do, since they
change no paired frame.

`Separate.noninterference` says of any turns at separate roots that each root gets the results that
it gets without the others.
-/

namespace SmallLisp

open Value

/-! ### What is reached -/

/-- Whether a frame is reached from another one. -/
inductive Store.Reaches (s : Store) (r : FrameId) : FrameId → Prop
  | self : Reaches s r r
  | outer {g h : FrameId} (reached : Reaches s r g) (outer : s.outer? g = some h) : Reaches s r h
  | captured {g h : FrameId} {v : Value} (reached : Reaches s r g) (contains : s.Contains g v)
      (refers : v.Refers h) : Reaches s r h

namespace Store

variable {A : Region} {s : Store} {g r : FrameId}

/-- A closed region that has a frame has all that is reached from it. -/
theorem Reaches.mem_of_closed (h : s.Reaches r g) (hA : A.Closed s) (hr : A r) : A g := by
  induction h with
  | self => exact hr
  | outer _ outer ih => exact (hA.outer ih outer).1
  | captured _ contains refers ih => exact (hA.covers ih contains refers).1

theorem WellFormed.closed_reaches (hs : s.WellFormed) : Region.Closed (s.Reaches r) s := by
  constructor
  · intro g h hg houter
    exact ⟨hg.outer houter, hs.older houter⟩
  · intro g v hg hv h hrefers
    exact ⟨hg.captured hv hrefers, hs.captured hv hrefers⟩

/-- Nothing is reached that is not there. -/
theorem WellFormed.lt_size_of_reaches (hs : s.WellFormed) (h : s.Reaches r g)
    (hr : r < s.frames.size) : g < s.frames.size := by
  have hclosed : Region.Closed (fun g => g < s.frames.size) s := by
    constructor
    · intro g k hg houter
      have hlt := hs.older houter
      exact ⟨Nat.lt_trans hlt hg, hlt⟩
    · intro g v _ hv k hrefers
      have hk := hs.captured hv hrefers
      exact ⟨hk, hk⟩
  exact h.mem_of_closed hclosed hr

end Store

/-! ### Turns -/

/-- A line that is given to a root, and the depth to which it is evaluated. -/
structure Turn where
  depth : ℕ
  root : FrameId
  source : String

/-- Interprets the line at its root, which the result is given with. -/
def Turn.take (turn : Turn) : Run (FrameId × LineResult) := do
  return (turn.root, ← (interpret turn.depth turn.root turn.source).run)

/-- Takes turns one after the other. -/
def runTurns (turns : List Turn) : Run (List (FrameId × LineResult)) := turns.mapM Turn.take

section
variable {A : Region} {s s' : Store} {f g : FrameId} {depth : ℕ} {source : String}
  {result : LineResult}

theorem Turn.take_eq_some_iff {turn : Turn} {p : FrameId × LineResult} :
    turn.take.run s = some (p, s') ↔
      ∃ r, (interpret turn.depth turn.root turn.source).run.run s = some (r, s') ∧
        p = (turn.root, r) := by
  show ((interpret turn.depth turn.root turn.source).run.run s).bind
    (fun q => some ((turn.root, q.1), q.2)) = _ ↔ _
  rw [Option.bind_eq_some_iff]
  constructor
  · rintro ⟨⟨r, s₁⟩, hline, hp⟩
    obtain ⟨rfl, rfl⟩ := Prod.mk.inj (Option.some.inj hp)
    exact ⟨r, hline, rfl⟩
  · rintro ⟨r, hline, rfl⟩
    exact ⟨(r, s'), hline, rfl⟩

theorem runTurns_cons_eq_some_iff {turn : Turn} {turns : List Turn}
    {results : List (FrameId × LineResult)} :
    (runTurns (turn :: turns)).run s = some (results, s') ↔
      ∃ r s₁ rs, (interpret turn.depth turn.root turn.source).run.run s = some (r, s₁) ∧
        (runTurns turns).run s₁ = some (rs, s') ∧ results = (turn.root, r) :: rs := by
  unfold runTurns
  rw [Run.mapM_cons_eq_some_iff]
  constructor
  · rintro ⟨p, s₁, rs, hturn, hturns, rfl⟩
    obtain ⟨r, hline, rfl⟩ := Turn.take_eq_some_iff.1 hturn
    exact ⟨r, s₁, rs, hline, hturns, rfl⟩
  · rintro ⟨r, s₁, rs, hline, hturns, rfl⟩
    exact ⟨_, s₁, rs, Turn.take_eq_some_iff.2 ⟨r, hline, rfl⟩, hturns, rfl⟩

/-- A line at a frame of a closed region leaves it closed, and all other frames alone. -/
theorem Region.Closed.interpret (hA : A.Closed s) (hopen : A.Open s) (hf : A.Has s f)
    (h : (interpret depth f source).run.run s = some (result, s')) :
    A.Closed s' ∧ s.frames.size ≤ s'.frames.size ∧
      ∀ g, ¬A g → s'.frames[g]? = s.frames[g]? := by
  rcases interpret_cases h with ⟨x, -, -, rfl⟩ | ⟨e, log, r, hparse, hlog, -⟩
  · exact ⟨hA, Nat.le_refl _, fun _ _ => rfl⟩
  · have he : A.Covers s e := Region.covers_of_readable (readable_of_parse hparse)
    obtain ⟨hconfines, -⟩ := Evaluates.confined hlog hA hopen hf he
    have hreplay := hlog.replay_eq
    refine ⟨hconfines.closed_of_replay hreplay, hlog.size_le, fun g hg => ?_⟩
    have hold : g < s.frames.size := Nat.lt_of_not_le fun hle => hg (hopen hle)
    rw [hreplay]
    exact Effect.frames_replay hold fun hmem => hg (hconfines.mem_of_bind hmem)

theorem Store.WellFormed.interpret (hs : s.WellFormed) (hf : f < s.frames.size)
    (h : (interpret depth f source).run.run s = some (result, s')) :
    s'.WellFormed ∧ s.frames.size ≤ s'.frames.size := by
  have hclosed := Store.wellFormed_iff_closed.1 hs
  obtain ⟨hclosed', hsize, -⟩ := hclosed.interpret (fun _ _ => trivial) ⟨trivial, hf⟩ h
  exact ⟨Store.wellFormed_iff_closed.2 hclosed', hsize⟩

/-- A line changes only frames that are reached from its own, and no more than these and new ones is
reached from there afterwards. -/
theorem Store.WellFormed.reaches_of_interpret (hs : s.WellFormed) (hf : f < s.frames.size)
    (h : (SmallLisp.interpret depth f source).run.run s = some (result, s')) :
    (∀ g < s.frames.size, ¬s.Reaches f g → s'.frames[g]? = s.frames[g]?) ∧
      ∀ g < s.frames.size, s'.Reaches f g → s.Reaches f g := by
  -- The region of the frames that are reached, and of those that are not there yet.
  have hA : Region.Closed (fun g => s.Reaches f g ∨ s.frames.size ≤ g) s := by
    constructor
    · rintro g k (hg | hg) houter
      · obtain ⟨hk, hlt⟩ := hs.closed_reaches.outer hg houter
        exact ⟨Or.inl hk, hlt⟩
      · exact absurd (Store.lt_size_of_outer? houter) (Nat.not_lt.2 hg)
    · rintro g v (hg | hg) hv k hrefers
      · obtain ⟨hk, hlt⟩ := hs.closed_reaches.covers hg hv hrefers
        exact ⟨Or.inl hk, hlt⟩
      · exact absurd hv.lt_size (Nat.not_lt.2 hg)
  obtain ⟨hA', -, hframes⟩ := hA.interpret (fun _ => Or.inr) ⟨Or.inl .self, hf⟩ h
  constructor
  · intro g hg hnot
    exact hframes g fun hor => hor.elim hnot (Nat.not_le.2 hg)
  · intro g hg hreaches
    exact (hreaches.mem_of_closed hA' (Or.inl .self)).resolve_right (Nat.not_le.2 hg)

end

/-! ### Separate roots -/

/-- Whether some frames of a well-formed store are separate roots: no frame is reached from two of
them. -/
structure Separate (roots : Region) (s : Store) : Prop where
  wellFormed : s.WellFormed
  there : ∀ {r}, roots r → r < s.frames.size
  apart : ∀ {r r' g}, roots r → roots r' → s.Reaches r g → s.Reaches r' g → r = r'

namespace Separate

variable {roots : Region} {s s' t : Store} {r r' g : FrameId} {depth : ℕ} {source : String}
  {result : LineResult} {turns : List Turn} {results : List (FrameId × LineResult)}

theorem empty : Separate (fun _ => False) .empty :=
  ⟨Store.wellFormed_empty, False.elim, False.elim⟩

/-- A new global frame is separate from all roots. -/
theorem root (h : Separate roots s) : Separate (fun r => roots r ∨ r = s.root.1) s.root.2 := by
  have hgrows := s.grows_root
  -- From an old root, only old frames are reached, and from the new one, only itself.
  have hold {r g} (hr : roots r) (hg : s.root.2.Reaches r g) : s.Reaches r g := by
    refine hg.mem_of_closed (h.wellFormed.closed_reaches.congr hgrows.size_le fun k hk => ?_) .self
    exact hgrows.frames k (h.wellFormed.lt_size_of_reaches hk (h.there hr))
  have hnew {g} (hg : s.root.2.Reaches s.root.1 g) : g = s.root.1 := by
    have hclosed : Region.Closed (· = s.root.1) s.root.2 := by
      constructor
      · rintro g k rfl houter
        rw [s.outer?_root] at houter
        cases houter
      · rintro g v rfl hv k hrefers
        exact absurd hrefers (Store.not_refers_of_contains_root hv)
    exact hg.mem_of_closed hclosed rfl
  have hlt {r} (hr : roots r) (hg : s.root.2.Reaches r s.root.1) : False :=
    Nat.lt_irrefl _ (h.wellFormed.lt_size_of_reaches (hold hr hg) (h.there hr))
  refine ⟨h.wellFormed.root, ?_, ?_⟩
  · rintro r (hr | rfl)
    · exact Nat.lt_of_lt_of_le (h.there hr) hgrows.size_le
    · rw [s.size_root]
      exact Nat.lt_succ_self _
  · rintro r r' g (hr | rfl) (hr' | rfl) hg hg'
    · exact h.apart hr hr' (hold hr hg) (hold hr' hg')
    · exact (hlt hr (hnew hg' ▸ hg)).elim
    · exact (hlt hr' (hnew hg ▸ hg')).elim
    · rfl

/-- A turn leaves alone what is reached from other roots. -/
theorem frames_eq (h : Separate roots s) (hr : roots r) (hr' : roots r') (hne : r' ≠ r)
    (hturn : (interpret depth r source).run.run s = some (result, s')) (hg : s.Reaches r' g) :
    s'.frames[g]? = s.frames[g]? := by
  have hlt := h.wellFormed.lt_size_of_reaches hg (h.there hr')
  obtain ⟨hframes, -⟩ := h.wellFormed.reaches_of_interpret (h.there hr) hturn
  exact hframes g hlt fun hreaches => hne (h.apart hr' hr hg hreaches)

/-- After a turn, no more is reached from other roots than before. -/
theorem reaches_of_turn (h : Separate roots s) (hr : roots r) (hr' : roots r') (hne : r' ≠ r)
    (hturn : (interpret depth r source).run.run s = some (result, s')) (hg : s'.Reaches r' g) :
    s.Reaches r' g := by
  obtain ⟨-, hsize⟩ := h.wellFormed.interpret (h.there hr) hturn
  have hclosed : Region.Closed (s.Reaches r') s' :=
    h.wellFormed.closed_reaches.congr hsize fun k hk => h.frames_eq hr hr' hne hturn hk
  exact hg.mem_of_closed hclosed .self

/-- Roots stay separate when one of them takes a turn. -/
theorem turn (h : Separate roots s) (hr : roots r)
    (hturn : (interpret depth r source).run.run s = some (result, s')) : Separate roots s' := by
  obtain ⟨hs', hsize⟩ := h.wellFormed.interpret (h.there hr) hturn
  obtain ⟨-, hreaches⟩ := h.wellFormed.reaches_of_interpret (h.there hr) hturn
  -- What the turn adds is new, and therefore not reached from another root.
  have hapart {r' g} (hr' : roots r') (hg : s'.Reaches r g) (hg' : s'.Reaches r' g) : r' = r := by
    by_contra hne
    have hold := h.reaches_of_turn hr hr' hne hturn hg'
    have hlt := h.wellFormed.lt_size_of_reaches hold (h.there hr')
    exact hne (h.apart hr' hr hold (hreaches g hlt hg))
  refine ⟨hs', fun hr' => Nat.lt_of_lt_of_le (h.there hr') hsize, fun {r₁ r₂ g} h₁ h₂ hg₁ hg₂ => ?_⟩
  by_cases hne₁ : r₁ = r
  · subst hne₁
    exact (hapart h₂ hg₁ hg₂).symm
  by_cases hne₂ : r₂ = r
  · subst hne₂
    exact hapart h₁ hg₂ hg₁
  · exact h.apart h₁ h₂ (h.reaches_of_turn hr h₁ hne₁ hturn hg₁)
      (h.reaches_of_turn hr h₂ hne₂ hturn hg₂)

/-- Roots stay separate, whatever turns they take. -/
theorem runTurns (h : Separate roots s) (hturns : ∀ turn ∈ turns, roots turn.root)
    (hrun : (runTurns turns).run s = some (results, s')) : Separate roots s' := by
  induction turns generalizing s results with
  | nil =>
    obtain ⟨-, rfl⟩ := Prod.mk.inj (Option.some.inj hrun)
    exact h
  | cons turn turns ih =>
    obtain ⟨r, s₁, rs, hturn, hrest, -⟩ := runTurns_cons_eq_some_iff.1 hrun
    rw [List.forall_mem_cons] at hturns
    exact ih (h.turn hturns.1 hturn) hturns.2 hrest

end Separate

/-! ### The view from a root -/

theorem forall₂_and_right {α β : Type} {R : α → β → Prop} {p : β → Prop} {xs : List α}
    {ys : List β} (h : List.Forall₂ R xs ys) (hp : ∀ y ∈ ys, p y) :
    List.Forall₂ (fun x y => p y ∧ R x y) xs ys := by
  have hflip : List.Forall₂ (flip R) ys xs := List.Forall₂.flip h
  exact List.Forall₂.flip ((List.forall₂_and_left _ _).2 ⟨hp, hflip⟩)

section
variable {ρ : Pairing} {A : Region} {s t : Store} {r : FrameId} {v w : Value}

/-- A value is similar to itself if the frames that it refers to are paired with themselves. -/
theorem Similar.self (h : ∀ {g}, v.Refers g → ρ g g) : Similar ρ v v := by
  induction v using Value.induction with
  | atom v atomic => exact Alike.atom atomic
  | list items ih =>
    apply Alike.list
    rw [List.forall₂_same]
    exact fun v hv => ih v hv fun hg => h (.item hv hg)
  | closure stamp params body scope ih =>
    exact Alike.closure (.closure (ih fun hg => h (.body hg)) (h .scope))

/-- Only pairs of frames that are referred to matter. -/
theorem Similar.restrict (h : Similar ρ v w) (hw : ∀ {g}, w.Refers g → A g) :
    Similar (fun g g' => ρ g g' ∧ A g') v w := by
  induction w using Value.induction generalizing v with
  | atom w atomic =>
    cases h with
    | atom => exact Alike.atom atomic
    | list => cases atomic
    | closure => cases atomic
  | list items ih =>
    obtain ⟨xs, rfl, hitems⟩ := Alike.list_right_iff.1 h
    have hrestrict : ∀ w ∈ items, ∀ {v}, Similar ρ v w →
        Similar (fun g g' => ρ g g' ∧ A g') v w :=
      fun w hmem {v} hv => ih w hmem hv fun hg => hw (.item hmem hg)
    exact Alike.list ((forall₂_and_right hitems hrestrict).imp fun _ _ hv => hv.1 hv.2)
  | closure stamp params body scope ih =>
    cases h with
    | atom atomic => cases atomic
    | closure related =>
      cases related with
      | closure hbody hscope =>
        exact Alike.closure (.closure (ih hbody fun hg => hw (.body hg)) ⟨hscope, hw .scope⟩)

/-- Stores that correspond do so along the pairs with a frame in a closed region. -/
theorem Corresponds.restrict (h : Corresponds ρ s t) (hA : A.Closed t) :
    Corresponds (fun g g' => ρ g g' ∧ A g') s t := by
  refine ⟨fun hg hk => h.unique hg.1 hk.1, ?_⟩
  rintro g g' ⟨hg, hAg⟩
  obtain ⟨frame, frame', hframe, hframe', hsimilar⟩ := h.frames hg
  refine ⟨frame, frame', hframe, hframe', ?_, ?_⟩
  · have hcovers : ∀ q ∈ frame'.bindings, ∀ {k}, q.2.Refers k → A k := by
      intro q hq k hrefers
      exact (hA.covers hAg ⟨frame', hframe', q.1, hq⟩ hrefers).1
    have hboth := forall₂_and_right hsimilar.bindings hcovers
    exact hboth.imp fun p q hpq => ⟨hpq.2.1, hpq.2.2.restrict hpq.1⟩
  · rcases eq_none_or_eq_some_of_rel hsimilar.outer with ⟨hs, ht⟩ | ⟨k, k', hs, ht, hk, hlt⟩
    · rw [hs, ht]
      exact .none
    · have houter : t.outer? g' = some k' := (Store.outer?_of_frames_eq_some hframe').trans ht
      rw [hs, ht]
      exact .some ⟨⟨hk, (hA.outer hAg houter).1⟩, hlt⟩

/-- A well-formed store corresponds to itself along the frames that are there. -/
theorem Store.WellFormed.corresponds_self (hs : s.WellFormed) :
    Corresponds (fun g g' => g = g' ∧ g' < s.frames.size) s s := by
  constructor
  · rintro g g' k k' ⟨rfl, -⟩ ⟨rfl, -⟩
    exact Iff.rfl
  · rintro g g' ⟨rfl, hg⟩
    have hframe : s.frames[g]? = some s.frames[g] := Array.getElem?_eq_getElem hg
    refine ⟨_, _, hframe, hframe, ?_, ?_⟩
    · apply List.forall₂_same.2
      intro p hp
      exact ⟨rfl, Similar.self fun hrefers => ⟨rfl, hs.captured ⟨_, hframe, p.1, hp⟩ hrefers⟩⟩
    · cases houter : s.frames[g].outer with
      | none => exact .none
      | some k =>
        have hlt := hs.older ((Store.outer?_of_frames_eq_some hframe).trans houter)
        exact .some ⟨⟨rfl, Nat.lt_trans hlt hg⟩, Iff.rfl⟩

/-- Whether a root sees the same in two stores, where only frames matter that are reached from it in
the second one. -/
def SharesView (r : FrameId) (s t : Store) : Prop :=
  ∃ ρ : Pairing, ρ r r ∧ Corresponds ρ s t ∧ ∀ {g g'}, ρ g g' → t.Reaches r g'

theorem Corresponds.sharesView (h : Corresponds ρ s t) (hr : ρ r r) (ht : t.WellFormed) :
    SharesView r s t :=
  ⟨_, ⟨hr, .self⟩, h.restrict ht.closed_reaches, And.right⟩

end

namespace Separate

variable {roots : Region} {s s' t : Store} {r : FrameId} {turns : List Turn}
  {results : List (FrameId × LineResult)}

/-- What turns come to at a root, they come to without those at other roots. -/
theorem exists_runTurns_filter (h : Separate roots s) (hr : roots r)
    (hturns : ∀ turn ∈ turns, roots turn.root) (hview : SharesView r t s)
    (hrun : (SmallLisp.runTurns turns).run s = some (results, s')) :
    ∃ t', (SmallLisp.runTurns (turns.filter (·.root = r))).run t
      = some (results.filter (·.1 = r), t') := by
  induction turns generalizing s t results with
  | nil =>
    obtain ⟨rfl, -⟩ := Prod.mk.inj (Option.some.inj hrun)
    exact ⟨t, rfl⟩
  | cons turn turns ih =>
    obtain ⟨result, s₁, rs, hturn, hrest, rfl⟩ := runTurns_cons_eq_some_iff.1 hrun
    rw [List.forall_mem_cons] at hturns
    have h₁ := h.turn hturns.1 hturn
    obtain ⟨ρ, hρ, hcorresponds, hreaches⟩ := hview
    by_cases hown : turn.root = r
    · -- The root takes the turn in its own store as well.
      rw [List.filter_cons_of_pos (by simpa using hown),
        List.filter_cons_of_pos (by simpa using hown)]
      obtain ⟨t₁, ρ', hturn', hext, hcorresponds'⟩ :=
        interpret_of_corresponds (hown ▸ hρ) hcorresponds hturn
      have hview₁ := hcorresponds'.sharesView (hext hρ) h₁.wellFormed
      obtain ⟨t', ht'⟩ := ih h₁ hturns.2 hview₁ hrest
      exact ⟨t', runTurns_cons_eq_some_iff.2 ⟨result, t₁, _, hturn', ht', rfl⟩⟩
    · -- The turn changes no frame that is reached from the root.
      rw [List.filter_cons_of_neg (by simpa using hown),
        List.filter_cons_of_neg (by simpa using hown)]
      have hcorresponds' : Corresponds ρ t s₁ := hcorresponds.congr_right fun hg =>
        h.frames_eq hturns.1 hr (Ne.symm hown) hturn (hreaches hg)
      exact ih h₁ hturns.2 (hcorresponds'.sharesView hρ h₁.wellFormed) hrest

/-- **Separate roots do not interfere**: whatever turns they take, they stay separate, and each of
them gets the results that it gets when it takes its turns alone. -/
theorem noninterference (h : Separate roots s) (hturns : ∀ turn ∈ turns, roots turn.root)
    (hrun : (SmallLisp.runTurns turns).run s = some (results, s')) :
    Separate roots s' ∧ ∀ r, roots r →
      ∃ t', (SmallLisp.runTurns (turns.filter (·.root = r))).run s
        = some (results.filter (·.1 = r), t') := by
  refine ⟨h.runTurns hturns hrun, fun r hr => ?_⟩
  have hview : SharesView r s s :=
    h.wellFormed.corresponds_self.sharesView ⟨rfl, h.there hr⟩ h.wellFormed
  exact h.exists_runTurns_filter hr hturns hview hrun

/-- Two sessions that define the same name: the first finds its own value, with the other one or
without it. -/
theorem noninterference_sessions : ∃ s' t',
    (SmallLisp.runTurns [⟨2, 0, "(define a 1)"⟩, ⟨3, 1, "((lambda (x) 7) 5)"⟩,
        ⟨2, 1, "(define a 2)"⟩, ⟨1, 0, "a"⟩]).run Store.empty.root.2.root.2
      = some ([(0, .ok none), (1, .ok (some "7")), (1, .ok none), (0, .ok (some "1"))], s') ∧
    Separate (fun r => (False ∨ r = 0) ∨ r = 1) s' ∧
    (SmallLisp.runTurns [⟨2, 0, "(define a 1)"⟩, ⟨1, 0, "a"⟩]).run Store.empty.root.2.root.2
      = some ([(0, .ok none), (0, .ok (some "1"))], t') := by
  have hfirst : tokenize "(define a 1)" = ["(", "define", "a", "1", ")"] := by decide +kernel
  have hcall : tokenize "((lambda (x) 7) 5)"
      = ["(", "(", "lambda", "(", "x", ")", "7", ")", "5", ")"] := by decide +kernel
  have hsecond : tokenize "(define a 2)" = ["(", "define", "a", "2", ")"] := by decide +kernel
  have hlast : tokenize "a" = ["a"] := by decide +kernel
  have hroots : Separate (fun r => (False ∨ r = 0) ∨ r = 1) Store.empty.root.2.root.2 :=
    Separate.empty.root.root
  let s₁ := Store.empty.root.2.root.2.set 0 "a" (.int 1)
  let s₂ := (s₁.stamp.2.nested ["x"] [.int 5] 1).2
  let s₃ := s₂.set 1 "a" (.int 2)
  have hturn₁ : (interpret 2 0 "(define a 1)").run.run Store.empty.root.2.root.2
      = some (.ok none, s₁) := by
    rw [interpret_run, evalText_run, parse_eq, hfirst]
    rfl
  have hturn₂ : (interpret 3 1 "((lambda (x) 7) 5)").run.run s₁ = some (.ok (some "7"), s₂) := by
    rw [interpret_run, evalText_run, parse_eq, hcall]
    rfl
  have hturn₃ : (interpret 2 1 "(define a 2)").run.run s₂ = some (.ok none, s₃) := by
    rw [interpret_run, evalText_run, parse_eq, hsecond]
    rfl
  have hlookup : s₃.lookup? 0 "a" = some (.int 1) := by
    unfold Store.lookup? Store.find?
    rw [Store.chain_of_outer?_none rfl]
    rfl
  have hturn₄ : (interpret 1 0 "a").run.run s₃ = some (.ok (some "1"), s₃) := by
    rw [interpret_run, evalText_run, parse_eq, hlast]
    show some (Except.ok (some ((s₃.lookup? 0 "a").getD (.symbol "a")).text), s₃) = _
    rw [hlookup]
    rfl
  have hrun : (SmallLisp.runTurns [⟨2, 0, "(define a 1)"⟩, ⟨3, 1, "((lambda (x) 7) 5)"⟩,
      ⟨2, 1, "(define a 2)"⟩, ⟨1, 0, "a"⟩]).run Store.empty.root.2.root.2
        = some ([(0, .ok none), (1, .ok (some "7")), (1, .ok none), (0, .ok (some "1"))], s₃) := by
    refine runTurns_cons_eq_some_iff.2 ⟨_, _, _, hturn₁, ?_, rfl⟩
    refine runTurns_cons_eq_some_iff.2 ⟨_, _, _, hturn₂, ?_, rfl⟩
    refine runTurns_cons_eq_some_iff.2 ⟨_, _, _, hturn₃, ?_, rfl⟩
    exact runTurns_cons_eq_some_iff.2 ⟨_, _, _, hturn₄, rfl, rfl⟩
  obtain ⟨hseparate, hown⟩ := hroots.noninterference (by simp) hrun
  obtain ⟨t', ht'⟩ := hown 0 (Or.inl (Or.inr rfl))
  exact ⟨_, t', hrun, hseparate, ht'⟩

end Separate

end SmallLisp
