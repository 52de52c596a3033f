import SmallLisp.Proofs.Region

/-!
# How a store evolves

A store only grows, and its frames stay where they are.  A frame lies in an older one, so that going
outwards comes to an end, and a closure remembers a frame that is there (`Store.WellFormed`).  The
names that a frame binds stay bound, and new names come from definitions: an evaluation gives at
most one new name to the frames that were there, and that to the frame that it takes place in
(`Evolves`).  Calls of closures take place in new frames and assignments bind names that are bound
already, so neither gives a name to a frame from before.

The values of frames may refer to each other in circles, and therefore nothing here is shown by
following references.  What happens to names and places is read off the log of an evaluation
(`Effect.endures_replay`, `Effect.exists_bind_of_hasName`), and a name that is bound there was bound
before or is defined by the code (`Evaluates.names`).  That references lead to frames that are there
is the case of `Evaluates.confined` where the region is the whole store.

`Store.Develops.evolution` puts this together for all stores that sessions come to, those in the
middle of an evaluation included.
-/

namespace SmallLisp

open Value

/-! ### Names of frames -/

namespace Store

variable {s s' s'' : Store} {f g : FrameId} {x y : String} {v : Value}

/-- Whether a frame itself binds a name. -/
def HasName (s : Store) (g : FrameId) (x : String) : Prop := (s.get? g x).isSome = true

theorem hasName_congr (h : s'.frames[g]? = s.frames[g]?) : s'.HasName g x ↔ s.HasName g x := by
  unfold HasName
  rw [get?_congr h]

theorem HasName.lt_size (h : s.HasName g x) : g < s.frames.size := by
  obtain ⟨v, hv⟩ := Option.isSome_iff_exists.1 h
  exact lt_size_of_get? hv

theorem hasName_set (hg : g < s.frames.size) :
    (s.set f y v).HasName g x ↔ s.HasName g x ∨ (g = f ∧ x = y) := by
  unfold HasName
  by_cases hsame : g = f ∧ x = y
  · obtain ⟨rfl, rfl⟩ := hsame
    simp [get?_set_self hg]
  · have hne : f ≠ g ∨ x ≠ y := by
      by_contra hboth
      push Not at hboth
      exact hsame ⟨hboth.1.symm, hboth.2⟩
    simp [get?_set_of_ne hne, hsame]

/-- Whether frames stay where they are and keep the names that they bind. -/
structure Endures (s s' : Store) : Prop where
  size_le : s.frames.size ≤ s'.frames.size
  outer : ∀ {g}, g < s.frames.size → s'.outer? g = s.outer? g
  names : ∀ {g x}, s.HasName g x → s'.HasName g x

namespace Endures

theorem refl (s : Store) : Endures s s := ⟨Nat.le_refl _, fun _ => rfl, id⟩

theorem trans (h : Endures s s') (h' : Endures s' s'') : Endures s s'' := by
  refine ⟨Nat.le_trans h.size_le h'.size_le, fun {g} hg => ?_, fun hx => h'.names (h.names hx)⟩
  have hg' : g < s'.frames.size := Nat.lt_of_lt_of_le hg h.size_le
  rw [h'.outer hg', h.outer hg]

theorem set : Endures s (s.set f x v) := by
  refine ⟨Nat.le_of_eq size_set.symm, fun _ => outer?_set, fun {g y} hy => ?_⟩
  exact (hasName_set hy.lt_size).2 (Or.inl hy)

end Endures

theorem Grows.endures (h : Grows s s') : Endures s s' := by
  refine ⟨h.size_le, fun {g} hg => outer?_congr (h.frames g hg), fun {g x} hx => ?_⟩
  exact (hasName_congr (h.frames g hx.lt_size)).2 hx

end Store

/-! ### What a log says of names -/

namespace Effect

variable {s : Store} {g : FrameId} {x : String} {log : List Effect}

theorem endures_apply (s : Store) (change : Effect) : s.Endures (apply s change) := by
  cases change with
  | bind f y v => exact Store.Endures.set
  | frame params args scope => exact (Store.Grows.nested s params args scope).endures
  | stamp => exact (Store.Grows.stamp s).endures

/-- No change moves a frame or takes a name away. -/
theorem endures_replay (s : Store) (log : List Effect) : s.Endures (replay s log) := by
  induction log generalizing s with
  | nil => exact Store.Endures.refl s
  | cons change log ih => exact (endures_apply s change).trans (ih _)

theorem hasName_apply (hg : g < s.frames.size) {change : Effect}
    (h : (apply s change).HasName g x) : s.HasName g x ∨ ∃ v, change = .bind g x v := by
  cases change with
  | bind f y v =>
    rcases (Store.hasName_set hg).1 h with h | ⟨rfl, rfl⟩
    · exact Or.inl h
    · exact Or.inr ⟨v, rfl⟩
  | frame params args scope =>
    have hframe := (Store.Grows.nested s params args scope).frames g hg
    exact Or.inl ((Store.hasName_congr hframe).1 h)
  | stamp => exact Or.inl h

/-- A name that a frame has got was bound there. -/
theorem exists_bind_of_hasName (hg : g < s.frames.size) (h : (replay s log).HasName g x) :
    s.HasName g x ∨ ∃ v, .bind g x v ∈ log := by
  induction log generalizing s with
  | nil => exact Or.inl h
  | cons change log ih =>
    have hg' := Nat.lt_of_lt_of_le hg (endures_apply s change).size_le
    rcases ih hg' h with h | ⟨v, hv⟩
    · rcases hasName_apply hg h with h | ⟨v, rfl⟩
      · exact Or.inl h
      · exact Or.inr ⟨v, List.mem_cons_self ..⟩
    · exact Or.inr ⟨v, List.mem_cons_of_mem _ hv⟩

theorem Quiet.not_mem_bind (h : Quiet log) {v : Value} : .bind g x v ∉ log := by
  intro hmem
  have hpos : 0 < log.countP isBinding := List.countP_pos_iff.2 ⟨_, hmem, rfl⟩
  unfold Quiet at h
  omega

theorem Shape.quiet_or_endsInBinding {r : Outcome} (h : Shape log r) :
    Quiet log ∨ EndsInBinding log := by
  rcases r with x | _ | v
  · exact h
  · exact Or.inr h
  · exact Or.inl h

/-- Where one name is bound at most, all bindings are of that name. -/
theorem exists_forall_bind_eq (h : Quiet log ∨ EndsInBinding log) :
    ∃ y, ∀ g x v, .bind g x v ∈ log → x = y := by
  rcases h with hquiet | ⟨before, g', y, v', rfl, hbefore⟩
  · exact ⟨"", fun g x v hmem => absurd hmem hquiet.not_mem_bind⟩
  · refine ⟨y, fun g x v hmem => ?_⟩
    rcases List.mem_append.1 hmem with hmem | hmem
    · exact absurd hmem hbefore.not_mem_bind
    · cases List.mem_singleton.1 hmem
      rfl

end Effect

/-! ### Names come from definitions -/

/-- Whether code defines a name outside of all abstractions. -/
def Value.Defines (code : Value) (x : String) : Prop :=
  ∃ e, Occurs code [] (.list (Form.definition x e).spelling)

/-- Whether changes by code in a frame bind only names that the frames from before bind already, or
else names that the code defines, in this frame. -/
def NamesBy (code : Value) (f : FrameId) (s : Store) (log : List Effect) : Prop :=
  ∀ ⦃g x v⦄, .bind g x v ∈ log → g < s.frames.size → s.HasName g x ∨ (g = f ∧ code.Defines x)

section
variable {code e : Value} {f : FrameId} {s s₁ s' : Store} {log log' : List Effect} {r : Outcome}
  {depth : ℕ}

theorem NamesBy.nil : NamesBy code f s [] := by
  intro g x v hmem
  cases hmem

/-- Changes that are made when the store has only grown. -/
theorem NamesBy.of_grows (h : NamesBy code f s₁ log) (hs : s.Grows s₁) : NamesBy code f s log := by
  intro g x v hmem hg
  have hg₁ := Nat.lt_of_lt_of_le hg hs.size_le
  exact (h hmem hg₁).imp_left (Store.hasName_congr (hs.frames g hg)).1

theorem NamesBy.append (h : NamesBy code f s log) (h' : NamesBy code f s log') :
    NamesBy code f s (log ++ log') := by
  intro g x v hmem hg
  rcases List.mem_append.1 hmem with hmem | hmem
  · exact h hmem hg
  · exact h' hmem hg

/-- Operands with values leave alone what was there. -/
theorem Evaluates.grows_operands {lack : Error} {es values : List Value}
    (h : Operands (Evaluates depth f) lack s es log (.ok values) s') : s.Grows s' := by
  have hquiet : Effect.Quiet log := shape_operands shape h
  rw [replay_operands replay_eq h]
  exact hquiet.grows s

/-- Whether evaluations to a depth bind only names that their code defines. -/
def DefinesNames (depth : ℕ) : Prop :=
  ∀ ⦃f s s' e log r⦄, Evaluates depth f s e log r s' → ∀ ⦃code⦄, Occurs code [] e →
    NamesBy code f s log

theorem names_operands (ih : DefinesNames depth) {lack : Error} {es : List Value}
    {r : Except Error (List Value)} (h : Operands (Evaluates depth f) lack s es log r s')
    (hes : ∀ e ∈ es, Occurs code [] e) : NamesBy code f s log := by
  induction h with
  | nil => exact .nil
  | cons head _ ih' =>
    -- The first operand has a value, so the others find the frames as they were.
    have htail := ih' fun e he => hes e (List.mem_cons_of_mem _ he)
    exact (ih head (hes _ (List.mem_cons_self ..))).append (htail.of_grows head.grows)
  | silent head => exact ih head (hes _ (List.mem_cons_self ..))
  | fail head => exact ih head (hes _ (List.mem_cons_self ..))

theorem names_finishes (ih : DefinesNames depth) {before : Store} {items values : List Value}
    {form : Form} (h : Finishes (Evaluates depth) f before s form values log r s')
    (hgrows : before.Grows s) (form_eq : Form.ofList items = .ok form)
    (hcode : Occurs code [] (.list items)) : NamesBy code f s log := by
  cases h with
  | @conditional _ _ _ b _ _ _ chosen =>
    refine ih chosen (hcode.part form_eq ?_)
    cases b <;> simp [Form.parts]
  | @definition name e v =>
    intro g x w hmem hg
    cases List.mem_singleton.1 hmem
    refine Or.inr ⟨rfl, e, ?_⟩
    rwa [← Form.spelling_of_ofList form_eq]
  | @assignment name _ v g bound =>
    -- The frame was found before the operand was evaluated, and has the name since then.
    intro g' x w hmem hg
    cases List.mem_singleton.1 hmem
    have hbound : before.HasName g name := Store.isSome_get?_of_find? bound
    exact Or.inl ((Store.hasName_congr (hgrows.frames g hbound.lt_size)).2 hbound)
  | @closure _ body _ args stamp params scope _ _ _ agree called =>
    -- The body names things in the frame of the call, which is none of those from before.
    intro g x w hmem hg
    have hcalled := ih called Occurs.self
    have hframes := (Store.Grows.nested s params args scope).frames g hg
    have hg' : g < (s.nested params args scope).2.frames.size := by
      rw [Store.size_nested]
      exact Nat.lt_succ_of_lt hg
    rcases hcalled (List.mem_of_ne_of_mem (by simp) hmem) hg' with hname | ⟨rfl, -⟩
    · exact Or.inl ((Store.hasName_congr hframes).1 hname)
    · exact absurd hg (Nat.lt_irrefl _)
  | abstraction =>
    intro g x w hmem
    simp at hmem
  | _ => exact .nil

/-- **Names come from definitions**: whatever an evaluation binds in a frame from before, the frame
binds already, or the code defines it there. -/
theorem Evaluates.names : DefinesNames depth := by
  induction depth with
  | zero =>
    intro f s s' e log r h
    exact h.elim
  | succ depth ih =>
    intro f s s' e log r h code hcode
    cases h with
    | fail form_eq ready operands =>
      exact names_operands ih operands fun e' he' =>
        hcode.part form_eq (Form.mem_parts_of_mem_operands he')
    | finish form_eq operands finishes =>
      have hgrows := grows_operands operands
      have hoperands := names_operands ih operands fun e' he' =>
        hcode.part form_eq (Form.mem_parts_of_mem_operands he')
      have hfinishes := names_finishes ih finishes hgrows form_eq hcode
      exact hoperands.append (hfinishes.of_grows hgrows)
    | _ => exact .nil

/-- What an evaluation of code in a frame does to the frames that were there: none moves or loses a
name, and none gets a name but the frame itself, one at most, which the code defines. -/
structure Evolves (code : Value) (f : FrameId) (s s' : Store) : Prop extends s.Endures s' where
  others : ∀ {g x}, g < s.frames.size → g ≠ f → s'.HasName g x → s.HasName g x
  own : ∃ y, ∀ x, s'.HasName f x → s.HasName f x ∨ (x = y ∧ code.Defines y)

theorem Evaluates.evolves (h : Evaluates depth f s e log r s') (hf : f < s.frames.size) :
    Evolves e f s s' := by
  have hnames : NamesBy e f s log := h.names Occurs.self
  rw [h.replay_eq]
  refine ⟨Effect.endures_replay s log, fun {g x} hg hne hx => ?_, ?_⟩
  · rcases Effect.exists_bind_of_hasName hg hx with hx | ⟨v, hv⟩
    · exact hx
    · exact (hnames hv hg).resolve_right fun hgf => hne hgf.1
  · -- All that is bound, in whichever frame, is of one name.
    obtain ⟨y, hy⟩ := Effect.exists_forall_bind_eq h.shape.quiet_or_endsInBinding
    refine ⟨y, fun x hx => ?_⟩
    rcases Effect.exists_bind_of_hasName hf hx with hx | ⟨v, hv⟩
    · exact Or.inl hx
    · obtain rfl := hy f x v hv
      exact (hnames hv hf).imp_right fun hdefines => ⟨rfl, hdefines.2⟩

end

/-! ### Calls and assignments -/

section
variable {f g : FrameId} {s s' : Store} {depth : ℕ} {r : Outcome} {x y : String}

/-- A call of a closure gives no name to a frame from before, and takes none away. -/
theorem hasName_call {stamp : ℕ} {params : List String} {body : Value} {scope : FrameId}
    {args : List Value}
    (h : (call (eval depth) (.closure stamp params body scope) args).run.run s = some (r, s'))
    (hg : g < s.frames.size) : s'.HasName g x ↔ s.HasName g x := by
  rw [run_call_closure] at h
  split_ifs at h
  · -- The body is evaluated in the new frame, so all frames from before are others.
    obtain ⟨log, hlog⟩ := (describes_eval depth).1 h
    have hgrows := Store.Grows.nested s params args scope
    have hg' : g < (s.nested params args scope).2.frames.size :=
      Nat.lt_of_lt_of_le hg hgrows.size_le
    have hnew : s.frames.size < (s.nested params args scope).2.frames.size := by
      rw [Store.size_nested]
      exact Nat.lt_succ_self _
    have hevolves := hlog.evolves hnew
    rw [← Store.hasName_congr (hgrows.frames g hg)]
    exact ⟨hevolves.others hg' (Nat.ne_of_lt hg), hevolves.names⟩
  · cases h
    exact Iff.rfl

/-- An assignment gives no name to a frame from before: if one gets a name, then the expression on
the right defines it, has no value for that reason, and the assignment fails. -/
theorem hasName_assignment {e : Value}
    (h : (eval depth f (.list (Form.assignment x e).spelling)).run.run s = some (r, s'))
    (hg : g < s.frames.size) (hy : s'.HasName g y) :
    s.HasName g y ∨ (g = f ∧ e.Defines y ∧ ∃ err, r = .error err) := by
  obtain ⟨log, hlog⟩ := (describes_eval depth).1 h
  have hreplay := hlog.replay_eq
  have hform : Form.ofList (Form.assignment x e).spelling = .ok (.assignment x e) := rfl
  rw [hreplay] at hy
  rcases Effect.exists_bind_of_hasName hg hy with hy | ⟨v, hv⟩
  · exact Or.inl hy
  cases depth with
  | zero => exact hlog.elim
  | succ depth =>
    cases hlog with
    | fail form_eq ready operands =>
      cases hform.symm.trans form_eq
      have hself : ∀ e' ∈ [e], Occurs e [] e' := by
        intro e' he'
        rw [List.mem_singleton.1 he']
        exact .self
      have hnames := names_operands Evaluates.names operands hself
      exact (hnames hv hg).imp_right fun ⟨hgf, hdefines⟩ => ⟨hgf, hdefines, _, rfl⟩
    | @finish _ _ _ before _ _ _ _ form_eq operands finishes =>
      cases hform.symm.trans form_eq
      -- The operand has a value, so the one binding is that of the name that is assigned.
      have hquiet : Effect.Quiet before := Evaluates.shape_operands Evaluates.shape operands
      cases finishes with
      | assignment bound =>
        rcases List.mem_append.1 hv with hv | hv
        · exact absurd hv hquiet.not_mem_bind
        · cases List.mem_singleton.1 hv
          exact Or.inl (Store.isSome_get?_of_find? bound)
    | malformed form => cases hform.symm.trans form
    | constant constant => cases constant
    | unbound => cases hv

end

/-! ### Well-formed stores -/

namespace Store

variable {s s' s₀ : Store} {f g : FrameId} {x : String}

/-- Whether frames lie in older frames, and closures remember frames that are there. -/
structure WellFormed (s : Store) : Prop where
  older : ∀ {g h}, s.outer? g = some h → h < g
  captured : ∀ {g v h}, s.Contains g v → v.Refers h → h < s.frames.size

/-- Whether going outwards from a frame comes to a frame that lies in no other. -/
inductive Rooted (s : Store) : FrameId → Prop
  | top {g : FrameId} (there : g < s.frames.size) (outer : s.outer? g = none) : Rooted s g
  | inside {g h : FrameId} (outer : s.outer? g = some h) (rest : Rooted s h) : Rooted s g

/-- A store is well formed if the region of all frames is closed. -/
theorem wellFormed_iff_closed : s.WellFormed ↔ Region.Closed (fun _ => True) s := by
  constructor
  · intro h
    exact ⟨fun _ houter => ⟨trivial, h.older houter⟩, fun _ hv g hg => ⟨trivial, h.captured hv hg⟩⟩
  · intro h
    exact ⟨fun houter => (h.outer trivial houter).2, fun hv hg => (h.covers trivial hv hg).2⟩

theorem WellFormed.rooted (hs : s.WellFormed) (hg : g < s.frames.size) : s.Rooted g := by
  induction g using Nat.strongRecOn with
  | ind g ih =>
    cases houter : s.outer? g with
    | none => exact .top hg houter
    | some h =>
      have hlt := hs.older houter
      exact .inside houter (ih h hlt (Nat.lt_trans hlt hg))

/-- Frames that stay where they are lie in the same frames as before. -/
theorem Endures.chain_eq (h : Endures s s') (hs : s.WellFormed) (hg : g < s.frames.size) :
    s'.chain g = s.chain g := by
  induction g using Nat.strongRecOn with
  | ind g ih =>
    have houter' := h.outer hg
    cases houter : s.outer? g with
    | none => rw [chain_of_outer?_none houter, chain_of_outer?_none (houter'.trans houter)]
    | some k =>
      have hlt := hs.older houter
      rw [chain_of_outer?_some houter hlt, chain_of_outer?_some (houter'.trans houter) hlt,
        ih k hlt (Nat.lt_trans hlt hg)]

theorem isSome_lookup?_iff :
    (s.lookup? f x).isSome = true ↔ ∃ g ∈ s.chain f, s.HasName g x := by
  unfold lookup?
  constructor
  · intro h
    obtain ⟨v, hv⟩ := Option.isSome_iff_exists.1 h
    obtain ⟨g, hfind, -⟩ := Option.bind_eq_some_iff.1 hv
    exact ⟨g, mem_chain_of_find? hfind, isSome_get?_of_find? hfind⟩
  · intro h
    have hsome : (s.find? f x).isSome = true := List.find?_isSome.2 h
    obtain ⟨g, hg⟩ := Option.isSome_iff_exists.1 hsome
    rw [hg, Option.bind_some]
    exact isSome_get?_of_find? hg

/-- What is bound as seen from a frame stays bound. -/
theorem Endures.isSome_lookup? (h : Endures s s') (hs : s.WellFormed) (hg : g < s.frames.size)
    (hx : (s.lookup? g x).isSome = true) : (s'.lookup? g x).isSome = true := by
  rw [isSome_lookup?_iff] at hx ⊢
  obtain ⟨k, hk, hname⟩ := hx
  rw [h.chain_eq hs hg]
  exact ⟨k, hk, h.names hname⟩

/-! ### Sessions -/

/-- What can become of a store: new global frames are made, and expressions whose closures remember
frames that are there are evaluated in such frames.  An evaluation comes to the stores that its log
has led to after any number of changes. -/
inductive Develops (s₀ : Store) : Store → Prop
  | refl : Develops s₀ s₀
  | root {s : Store} (before : Develops s₀ s) : Develops s₀ s.root.2
  | eval {s s' : Store} {depth : ℕ} {f : FrameId} {e : Value} {log : List Effect} {r : Outcome}
      (before : Develops s₀ s) (there : f < s.frames.size)
      (captured : ∀ {g}, e.Refers g → g < s.frames.size)
      (ran : Evaluates depth f s e log r s') (n : ℕ) : Develops s₀ (Effect.replay s (log.take n))

/-- The last of these stores is the one that the evaluation leaves. -/
theorem Develops.run {depth : ℕ} {e : Value} {r : Outcome} (h : Develops s₀ s)
    (hf : f < s.frames.size) (he : ∀ {g}, e.Refers g → g < s.frames.size)
    (ran : (SmallLisp.eval depth f e).run.run s = some (r, s')) : Develops s₀ s' := by
  obtain ⟨log, hlog⟩ := (describes_eval depth).1 ran
  have hlast := h.eval hf he hlog log.length
  rwa [List.take_length, ← hlog.replay_eq] at hlast

/-- A line that is given to a session is evaluated, if it can be read. -/
theorem Develops.line {depth : ℕ} {source : String} {r : Outcome} (h : Develops s₀ s)
    (hf : f < s.frames.size) (ran : (evalText depth f source).run.run s = some (r, s')) :
    Develops s₀ s' := by
  rw [evalText_run] at ran
  cases hparse : parse source with
  | error x =>
    rw [hparse] at ran
    cases ran
    exact h
  | ok e =>
    rw [hparse] at ran
    have hcaptured : ∀ {g}, e.Refers g → g < s.frames.size := fun hg =>
      absurd hg (not_refers_of_readable (readable_of_parse hparse))
    exact h.run hf hcaptured ran

theorem wellFormed_empty : empty.WellFormed := by
  constructor
  · rintro g h ⟨⟩
  · rintro g v h ⟨frame, ⟨⟩, -⟩

theorem grows_root (s : Store) : s.Grows s.root.2 := by
  refine ⟨fun g hg => ?_, Nat.le_refl _⟩
  show (s.frames.push _)[g]? = _
  rw [Array.getElem?_push, if_neg (Nat.ne_of_lt hg)]

theorem size_root (s : Store) : s.root.2.frames.size = s.frames.size + 1 := Array.size_push _

theorem outer?_root (s : Store) : s.root.2.outer? s.root.1 = none :=
  outer?_of_frames_eq_some s.frames_root

/-- The values of a new global frame refer to nothing. -/
theorem not_refers_of_contains_root {v : Value} (h : s.root.2.Contains s.root.1 v) :
    ¬v.Refers g := by
  obtain ⟨frame, hframe, x, hmem⟩ := h
  rw [s.frames_root] at hframe
  obtain rfl := Option.some.inj hframe
  have hatomic := isAtomic_of_mem_standardBindings hmem
  intro hrefers
  cases hrefers <;> cases hatomic

/-- All other frames were there before. -/
theorem lt_size_or_eq_root (hg : g < s.root.2.frames.size) : g < s.frames.size ∨ g = s.root.1 := by
  rw [s.size_root] at hg
  exact Nat.lt_or_eq_of_le (Nat.le_of_lt_succ hg)

theorem WellFormed.root (hs : s.WellFormed) : s.root.2.WellFormed := by
  have hgrows := s.grows_root
  constructor
  · intro g h houter
    rcases lt_size_or_eq_root (lt_size_of_outer? houter) with hg | rfl
    · rw [outer?_congr (hgrows.frames g hg)] at houter
      exact hs.older houter
    · rw [s.outer?_root] at houter
      cases houter
  · intro g v h hv hrefers
    rcases lt_size_or_eq_root hv.lt_size with hg | rfl
    · rw [contains_congr (hgrows.frames g hg)] at hv
      exact Nat.lt_of_lt_of_le (hs.captured hv hrefers) hgrows.size_le
    · exact absurd hrefers (not_refers_of_contains_root hv)

/-- Stores stay well formed all through an evaluation, and the value that it comes to remembers
frames that are there. -/
theorem WellFormed.eval {depth : ℕ} {e : Value} {log : List Effect} {r : Outcome}
    (hs : s.WellFormed) (hf : f < s.frames.size) (he : ∀ {g}, e.Refers g → g < s.frames.size)
    (h : Evaluates depth f s e log r s') :
    (∀ n, (Effect.replay s (log.take n)).WellFormed) ∧
      ∀ v, r = .ok (some v) → ∀ g, v.Refers g → g < s'.frames.size := by
  obtain ⟨hconfines, hvalue⟩ := Evaluates.confined h (wellFormed_iff_closed.1 hs)
    (fun _ _ => trivial) ⟨trivial, hf⟩ fun g hg => ⟨trivial, he hg⟩
  exact ⟨fun n => wellFormed_iff_closed.2 (hconfines.closed n), fun v hr g hg => (hvalue v hr hg).2⟩

theorem Develops.wellFormed (h : Develops s₀ s) (hs₀ : s₀.WellFormed) : s.WellFormed := by
  induction h with
  | refl => exact hs₀
  | root _ ih => exact ih.root
  | eval _ there captured ran n ih => exact (ih.eval there captured ran).1 n

theorem Develops.endures (h : Develops s₀ s) : s₀.Endures s := by
  induction h with
  | refl => exact Endures.refl s₀
  | root _ ih => exact ih.trans (grows_root _).endures
  | eval _ _ _ _ n ih => exact ih.trans (Effect.endures_replay ..)

/-- **Stores evolve by growing**: whatever store sessions come to is well formed, and going outwards
from any frame of it comes to a frame that lies in no other.  An evaluation moves no frame, takes no
name away and gives one at most, which its code defines, to the frame that it takes place in.  Calls
of closures and assignments give no name to a frame from before.  What is bound as seen from a frame
stays bound, whatever becomes of the store. -/
theorem Develops.evolution (h : empty.Develops s) :
    (s.WellFormed ∧ ∀ g < s.frames.size, s.Rooted g) ∧
    (∀ {depth f e r s'}, f < s.frames.size → (SmallLisp.eval depth f e).run.run s = some (r, s') →
      Evolves e f s s' ∧ ((∀ {g}, e.Refers g → g < s.frames.size) →
        ∀ v, r = .ok (some v) → ∀ g, v.Refers g → g < s'.frames.size)) ∧
    (∀ {depth stamp params body scope args r s'},
      (call (SmallLisp.eval depth) (.closure stamp params body scope) args).run.run s
          = some (r, s') →
        ∀ g < s.frames.size, ∀ x, s'.HasName g x ↔ s.HasName g x) ∧
    (∀ {depth f x e r s'},
      (SmallLisp.eval depth f (.list (Form.assignment x e).spelling)).run.run s = some (r, s') →
        ∀ g < s.frames.size, ∀ y, s'.HasName g y →
          s.HasName g y ∨ (g = f ∧ e.Defines y ∧ ∃ err, r = .error err)) ∧
    ∀ {s'}, s.Develops s' → ∀ g < s.frames.size, ∀ x,
      (s.lookup? g x).isSome = true → (s'.lookup? g x).isSome = true := by
  have hs := h.wellFormed wellFormed_empty
  refine ⟨⟨hs, fun g hg => hs.rooted hg⟩, fun {depth f e r s'} hf ran => ?_, ?_, ?_, ?_⟩
  · obtain ⟨log, hlog⟩ := (describes_eval depth).1 ran
    exact ⟨hlog.evolves hf, fun he => (hs.eval hf he hlog).2⟩
  · exact fun ran g hg x => hasName_call ran hg
  · exact fun ran g hg y hy => hasName_assignment ran hg hy
  · exact fun hdevelops g hg x hx => hdevelops.endures.isSome_lookup? hs hg hx

/-- A call whose body defines a name: the frame of the call gets it, and the global frame, in which
the call is evaluated, keeps the name that it was given by a line. -/
theorem Develops.evolution_call : ∃ s s' e, empty.Develops s ∧
    parse "((lambda (x) (define z 7)) 5)" = .ok e ∧
      (SmallLisp.eval 3 0 e).run.run s = some (.ok none, s') ∧ s.Rooted 0 ∧ Evolves e 0 s s' ∧
        s'.HasName 1 "z" ∧ ¬s'.HasName 0 "z" ∧
        (s.lookup? 0 "a").isSome = true ∧ (s'.lookup? 0 "a").isSome = true := by
  have htokens : tokenize "(define a 1)" = ["(", "define", "a", "1", ")"] := by decide +kernel
  have hline : (evalText 2 0 "(define a 1)").run.run empty.root.2
      = some (.ok none, empty.root.2.set 0 "a" (.int 1)) := by
    rw [evalText_run, parse_eq, htokens]
    rfl
  have hdevelops : empty.Develops (empty.root.2.set 0 "a" (.int 1)) :=
    Develops.refl.root.line (by decide) hline
  have hlookup : ((empty.root.2.set 0 "a" (.int 1)).lookup? 0 "a").isSome = true := by
    rw [isSome_lookup?_iff, chain_of_outer?_none rfl]
    exact ⟨0, List.mem_singleton_self 0, rfl⟩
  have htokens' : tokenize "((lambda (x) (define z 7)) 5)" = ["(", "(", "lambda", "(", "x", ")",
      "(", "define", "z", "7", ")", ")", "5", ")"] := by decide +kernel
  have hparse : parse "((lambda (x) (define z 7)) 5)" = .ok (.list [.lambda ["x"]
      (.list (Form.definition "z" (.int 7)).spelling), .int 5]) := by
    rw [parse_eq, htokens']
    rfl
  have hran : (SmallLisp.eval 3 0 (.list [.lambda ["x"]
      (.list (Form.definition "z" (.int 7)).spelling), .int 5])).run.run
        (empty.root.2.set 0 "a" (.int 1)) = some (.ok none,
          (((empty.root.2.set 0 "a" (.int 1)).stamp.2.nested ["x"] [.int 5] 0).2.set 1 "z"
            (.int 7))) := rfl
  obtain ⟨⟨-, hrooted⟩, heval, -, -, hbound⟩ := Develops.evolution hdevelops
  obtain ⟨hevolves, -⟩ := heval (by decide) hran
  have hcaptured {g : FrameId} (hg : Value.Refers _ g) : g < 1 :=
    absurd hg (not_refers_of_readable (readable_of_parse hparse))
  refine ⟨_, _, _, hdevelops, hparse, hran, hrooted 0 (by decide), hevolves, rfl,
    fun hz => Bool.false_ne_true hz, hlookup, ?_⟩
  exact hbound (Develops.refl.run (by decide) hcaptured hran) 0 (by decide) "a" hlookup

end Store

end SmallLisp
