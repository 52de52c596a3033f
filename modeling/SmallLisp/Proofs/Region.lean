import SmallLisp.Proofs.Effects
import SmallLisp.Proofs.Session

/-!
# Regions of a store

A value refers to the frames that its closures remember, and a frame to the frame that it lies in
and to those that its values refer to.  A region is a set of frames, and it is closed in a store if
its frames refer to nothing outside it (`Region.Closed`).

Evaluation makes up no references: every value comes out of the expression or out of frames that
are seen from where it is evaluated.  So an evaluation that starts inside a closed region stays
inside it (`Evaluates.confined`): the region stays closed, frames outside it are left alone, and
what comes out refers to frames of the region only.  The frames of calls are new, and so the region
has to have all frames to come (`Region.Open`).
-/

namespace SmallLisp

open Value

/-! ### References -/

/-- Whether a closure remembers a frame, anywhere in a value. -/
inductive Value.Refers : Value → FrameId → Prop
  | scope {stamp : ℕ} {params : List String} {body : Value} {g : FrameId} :
      Refers (.closure stamp params body g) g
  | body {stamp : ℕ} {params : List String} {body : Value} {scope g : FrameId}
      (refers : Refers body g) : Refers (.closure stamp params body scope) g
  | item {items : List Value} {v : Value} {g : FrameId} (mem : v ∈ items) (refers : Refers v g) :
      Refers (.list items) g

section
variable {v w : Value} {g : FrameId}

/-- What a value holds refers to nothing else than the value does. -/
theorem Value.Holds.refers (h : Holds v w) (hw : w.Refers g) : v.Refers g := by
  induction h with
  | self => exact hw
  | item mem _ ih => exact .item mem (ih hw)

/-- It is a closure of the value that refers to a frame. -/
theorem Value.Refers.exists_closure (h : v.Refers g) : ∃ stamp params body scope,
    Holds v (.closure stamp params body scope) ∧ (closure stamp params body scope).Refers g := by
  induction h with
  | scope => exact ⟨_, _, _, _, .self _, .scope⟩
  | body refers _ => exact ⟨_, _, _, _, .self _, .body refers⟩
  | item mem _ ih =>
    obtain ⟨stamp, params, body, scope, hheld, hrefers⟩ := ih
    exact ⟨stamp, params, body, scope, .item mem hheld, hrefers⟩

/-- What is readable refers to no frame. -/
theorem not_refers_of_readable (h : Readable v) : ¬v.Refers g := by
  intro hrefers
  obtain ⟨stamp, params, body, scope, hheld, -⟩ := hrefers.exists_closure
  exact not_holds_of_readable h hheld

/-- A primitive refers only to frames that its arguments refer to. -/
theorem Primitive.refers_of_apply {p : Primitive} {args : List Value} (h : p.apply args = .ok v)
    (hv : v.Refers g) : ∃ w ∈ args, w.Refers g := by
  obtain ⟨stamp, params, body, scope, hheld, hrefers⟩ := hv.exists_closure
  obtain ⟨w, hw, hheld'⟩ := p.holds_of_apply h hheld
  exact ⟨w, hw, hheld'.refers hrefers⟩

end

/-! ### Values of a frame -/

namespace Bindings

variable {x y : String} {v w : Value} {b : Bindings}

theorem mem_put (h : (y, w) ∈ b.put x v) : w = v ∨ (y, w) ∈ b := by
  induction b with
  | nil =>
    obtain ⟨-, rfl⟩ := Prod.mk.inj (List.mem_singleton.1 h)
    exact Or.inl rfl
  | cons p b ih =>
    obtain ⟨z, u⟩ := p
    unfold put at h
    split_ifs at h with hz
    · rcases List.mem_cons.1 h with hyw | hmem
      · exact Or.inl (Prod.mk.inj hyw).2
      · exact Or.inr (List.mem_cons_of_mem _ hmem)
    · rcases List.mem_cons.1 h with hyw | hmem
      · exact Or.inr (hyw ▸ List.mem_cons_self ..)
      · exact (ih hmem).imp_right (List.mem_cons_of_mem _)

theorem mem_of_mem_ofPairs {pairs : List (String × Value)} (h : (y, w) ∈ ofPairs pairs) :
    w ∈ pairs.map Prod.snd := by
  induction pairs using List.reverseRecOn with
  | nil => cases h
  | append_singleton pairs p ih =>
    rw [ofPairs_concat] at h
    rw [List.map_append, List.mem_append, List.map_singleton, List.mem_singleton]
    exact (mem_put h).symm.imp_left ih

end Bindings

namespace Store

variable {s s' : Store} {f g : FrameId} {x : String} {v w : Value}

/-- Whether a value stands in a frame. -/
def Contains (s : Store) (g : FrameId) (v : Value) : Prop :=
  ∃ frame, s.frames[g]? = some frame ∧ ∃ x, (x, v) ∈ frame.bindings

theorem contains_of_get? (h : s.get? g x = some v) : s.Contains g v := by
  obtain ⟨frame, hframe, hv⟩ := Option.bind_eq_some_iff.1 h
  exact ⟨frame, hframe, x, Bindings.mem_of_get? hv⟩

theorem Contains.lt_size (h : s.Contains g v) : g < s.frames.size := by
  obtain ⟨frame, hframe, -⟩ := h
  exact lt_size_of_frames_eq_some hframe

theorem contains_congr (h : s'.frames[g]? = s.frames[g]?) : s'.Contains g v ↔ s.Contains g v := by
  unfold Contains
  rw [h]

theorem contains_set (h : (s.set f x v).Contains g w) : w = v ∨ s.Contains g w := by
  obtain ⟨frame, hframe, y, hmem⟩ := h
  rw [frames_set] at hframe
  split_ifs at hframe
  · obtain ⟨old, hold, rfl⟩ := Option.map_eq_some_iff.1 hframe
    exact (Bindings.mem_put hmem).imp_right fun hmem => ⟨old, hold, y, hmem⟩
  · exact Or.inr ⟨frame, hframe, y, hmem⟩

theorem contains_nested {params : List String} {args : List Value} {scope : FrameId}
    (h : (s.nested params args scope).2.Contains g w) :
    (g = s.frames.size ∧ w ∈ args) ∨ s.Contains g w := by
  obtain ⟨frame, hframe, y, hmem⟩ := h
  rw [frames_nested] at hframe
  split_ifs at hframe with hg
  · obtain rfl := Option.some.inj hframe
    have hsnd := Bindings.mem_of_mem_ofPairs hmem
    obtain ⟨p, hp, rfl⟩ := List.mem_map.1 hsnd
    exact Or.inl ⟨hg, (List.of_mem_zip hp).2⟩
  · exact Or.inr ⟨frame, hframe, y, hmem⟩

end Store

/-! ### Regions -/

/-- A set of frames. -/
abbrev Region := FrameId → Prop

namespace Region

/-- Whether a frame is in a region, and there. -/
def Has (A : Region) (s : Store) (g : FrameId) : Prop := A g ∧ g < s.frames.size

/-- Whether a value refers only to frames of a region that are there. -/
def Covers (A : Region) (s : Store) (v : Value) : Prop := ∀ ⦃g⦄, v.Refers g → A.Has s g

/-- Whether the frames of a region lie in older frames of it, and have values that refer only to
frames of it. -/
structure Closed (A : Region) (s : Store) : Prop where
  outer : ∀ {g h}, A g → s.outer? g = some h → A h ∧ h < g
  covers : ∀ {g v}, A g → s.Contains g v → A.Covers s v

/-- Whether a region has all frames to come. -/
def Open (A : Region) (s : Store) : Prop := ∀ ⦃g⦄, s.frames.size ≤ g → A g

variable {A : Region} {s s' : Store} {f g : FrameId} {x : String} {e v : Value}

theorem Has.mono (h : A.Has s g) (hs : s.frames.size ≤ s'.frames.size) : A.Has s' g :=
  ⟨h.1, Nat.lt_of_lt_of_le h.2 hs⟩

theorem Covers.mono (h : A.Covers s v) (hs : s.frames.size ≤ s'.frames.size) : A.Covers s' v :=
  fun _ hg => (h hg).mono hs

theorem Open.mono (h : A.Open s) (hs : s.frames.size ≤ s'.frames.size) : A.Open s' :=
  fun _ hg => h (Nat.le_trans hs hg)

theorem covers_of_readable (h : Readable v) : A.Covers s v :=
  fun _ hg => absurd hg (not_refers_of_readable h)

theorem Covers.item {items : List Value} (h : A.Covers s (.list items)) (he : e ∈ items) :
    A.Covers s e :=
  fun _ hg => h (.item he hg)

/-- The parts of a covered form are covered. -/
theorem Covers.part {items : List Value} {form : Form} (h : A.Covers s (.list items))
    (form_eq : Form.ofList items = .ok form) (he : e ∈ form.parts) : A.Covers s e := by
  have hmem := Form.mem_spelling_of_mem_parts he
  rw [← Form.spelling_of_ofList form_eq] at hmem
  exact h.item hmem

/-! ### What is seen from a closed region -/

namespace Closed

theorem mem_chain (hA : A.Closed s) (hf : A f) (hg : g ∈ s.chain f) : A g := by
  -- The chain goes on to an older frame, which is in the region as well.
  induction f using Nat.strongRecOn with
  | ind f ih =>
    cases houter : s.outer? f with
    | none =>
      rw [Store.chain_of_outer?_none houter, List.mem_singleton] at hg
      exact hg ▸ hf
    | some h =>
      obtain ⟨hh, hlt⟩ := hA.outer hf houter
      rw [Store.chain_of_outer?_some houter hlt] at hg
      rcases List.mem_cons.1 hg with rfl | hg
      · exact hf
      · exact ih h hlt hh hg

theorem lookup? (hA : A.Closed s) (hf : A f) (hv : s.lookup? f x = some v) : A.Covers s v := by
  obtain ⟨g, hfind, hget⟩ := Option.bind_eq_some_iff.1 hv
  have hg : A g := hA.mem_chain hf (Store.mem_chain_of_find? hfind)
  exact hA.covers hg (Store.contains_of_get? hget)

/-! ### What changes do to it -/

/-- Frames that are as they were make up a closed region as before. -/
theorem congr (hA : A.Closed s) (hs : s.frames.size ≤ s'.frames.size)
    (hframes : ∀ g, A g → s'.frames[g]? = s.frames[g]?) : A.Closed s' := by
  constructor
  · intro g h hg houter
    rw [Store.outer?_congr (hframes g hg)] at houter
    exact hA.outer hg houter
  · intro g v hg hv
    rw [Store.contains_congr (hframes g hg)] at hv
    exact (hA.covers hg hv).mono hs

theorem set (hA : A.Closed s) (hv : A.Covers s v) : A.Closed (s.set f x v) := by
  have hsize : s.frames.size ≤ (s.set f x v).frames.size := Nat.le_of_eq Store.size_set.symm
  constructor
  · intro g h hg houter
    rw [Store.outer?_set] at houter
    exact hA.outer hg houter
  · intro g w hg hw
    rcases Store.contains_set hw with rfl | hw
    · exact hv.mono hsize
    · exact (hA.covers hg hw).mono hsize

theorem stamp (hA : A.Closed s) : A.Closed s.stamp.2 := hA.congr (Nat.le_refl _) fun _ _ => rfl

theorem nested (hA : A.Closed s) {params : List String} {args : List Value} {scope : FrameId}
    (hscope : A.Has s scope) (hargs : ∀ v ∈ args, A.Covers s v) :
    A.Closed (s.nested params args scope).2 := by
  have hgrows : s.Grows (s.nested params args scope).2 := Store.Grows.nested ..
  constructor
  · intro g h hg houter
    by_cases hnew : g = s.frames.size
    · rw [hnew, Store.outer?_nested_self] at houter
      obtain rfl := Option.some.inj houter
      exact ⟨hscope.1, hnew ▸ hscope.2⟩
    · have hlt := Store.lt_size_of_outer? houter
      rw [Store.size_nested] at hlt
      have hold : g < s.frames.size := Nat.lt_of_le_of_ne (Nat.le_of_lt_succ hlt) hnew
      rw [Store.outer?_congr (hgrows.frames g hold)] at houter
      exact hA.outer hg houter
  · intro g w hg hw
    rcases Store.contains_nested hw with ⟨-, hmem⟩ | hw
    · exact (hargs w hmem).mono hgrows.size_le
    · exact (hA.covers hg hw).mono hgrows.size_le

end Closed

end Region

/-! ### Evaluation -/

/-- No evaluation takes a frame away. -/
theorem Evaluates.size_le {depth : ℕ} {f : FrameId} {s s' : Store} {e : Value}
    {log : List Effect} {r : Outcome} (h : Evaluates depth f s e log r s') :
    s.frames.size ≤ s'.frames.size := by
  rw [h.replay_eq]
  exact Effect.size_le_replay s log

/-- A frame in which nothing is bound is as it was. -/
theorem Effect.frames_replay {s : Store} {g : FrameId} {log : List Effect}
    (hg : g < s.frames.size) (h : ∀ {x v}, .bind g x v ∉ log) :
    (replay s log).frames[g]? = s.frames[g]? := by
  induction log generalizing s with
  | nil => rfl
  | cons change log ih =>
    have hchange : (apply s change).frames[g]? = s.frames[g]? := by
      cases change with
      | bind f y v =>
        have hne : f ≠ g := by
          rintro rfl
          exact h (List.mem_cons_self ..)
        show (s.set f y v).frames[g]? = _
        rw [Store.frames_set, if_neg hne]
      | frame params args scope => exact (Store.Grows.nested s params args scope).frames g hg
      | stamp => rfl
    have hg' : g < (apply s change).frames.size :=
      Nat.lt_of_lt_of_le hg (size_le_replay s [change])
    rw [← hchange]
    exact ih hg' fun hmem => h (List.mem_cons_of_mem _ hmem)

/-- Whether changes stay inside a region: it is closed in every store on the way, and names are
bound in frames of it only. -/
structure Region.Confines (A : Region) (s : Store) (log : List Effect) : Prop where
  closed : ∀ n, A.Closed (Effect.replay s (log.take n))
  mem_of_bind : ∀ {g x v}, .bind g x v ∈ log → A g

section
variable {A : Region} {s s₁ s' : Store} {f : FrameId} {e : Value} {log log' : List Effect}
  {change : Effect} {r : Outcome} {depth : ℕ}

/-- It is closed in the end. -/
theorem Region.Confines.closed_of_replay (h : A.Confines s log) (hs : s' = Effect.replay s log) :
    A.Closed s' := by
  have hlast := h.closed log.length
  rwa [List.take_length, ← hs] at hlast

theorem Region.Closed.confines (hA : A.Closed s) : A.Confines s [] := by
  refine ⟨fun n => ?_, by simp⟩
  rw [List.take_nil]
  exact hA

theorem Region.Confines.append (h : A.Confines s log) (hs : s₁ = Effect.replay s log)
    (h' : A.Confines s₁ log') : A.Confines s (log ++ log') := by
  refine ⟨fun n => ?_, fun hmem => (List.mem_append.1 hmem).elim h.mem_of_bind h'.mem_of_bind⟩
  -- The first changes end in the first log, or they have all of it and go on in the second.
  rw [List.take_append, Effect.replay_append]
  by_cases hn : n ≤ log.length
  · rw [Nat.sub_eq_zero_of_le hn, List.take_zero]
    exact h.closed n
  · rw [List.take_of_length_le (by omega), ← hs]
    exact h'.closed _

/-- One change after which the region is closed. -/
theorem Region.Closed.confines_singleton (hA : A.Closed s) (hA' : A.Closed (change.apply s))
    (hbind : ∀ {g x v}, change = .bind g x v → A g) : A.Confines s [change] := by
  refine ⟨fun n => ?_, fun hmem => hbind (List.mem_singleton.1 hmem).symm⟩
  cases n with
  | zero => exact hA
  | succ n =>
    rw [List.take_succ_cons, List.take_nil]
    exact hA'

/-- Whether evaluations to a depth stay inside a region, with values that it covers. -/
def Region.Bounds (A : Region) (depth : ℕ) : Prop :=
  ∀ ⦃f s s' e log r⦄, Evaluates depth f s e log r s' → A.Closed s → A.Open s → A.Has s f →
    A.Covers s e → A.Confines s log ∧ ∀ v, r = .ok (some v) → A.Covers s' v

theorem confined_operands (ih : A.Bounds depth) {lack : Error} {es : List Value}
    {r : Except Error (List Value)} (h : Operands (Evaluates depth f) lack s es log r s')
    (hA : A.Closed s) (hopen : A.Open s) (hf : A.Has s f) (hes : ∀ e ∈ es, A.Covers s e) :
    A.Confines s log ∧ s.frames.size ≤ s'.frames.size ∧
      ∀ values, r = .ok values → ∀ v ∈ values, A.Covers s' v := by
  induction h with
  | nil =>
    refine ⟨hA.confines, Nat.le_refl _, ?_⟩
    rintro values ⟨⟩ v ⟨⟩
  | @cons s s₁ s₂ e v es _ _ r head _ ih' =>
    obtain ⟨hhead, hv⟩ := ih head hA hopen hf (hes e (List.mem_cons_self ..))
    have hreplay := head.replay_eq
    have hsize := head.size_le
    have hes' : ∀ e' ∈ es, A.Covers s₁ e' := fun e' he' =>
      (hes e' (List.mem_cons_of_mem _ he')).mono hsize
    obtain ⟨htail, hsize', hvs⟩ := ih' (hhead.closed_of_replay hreplay) (hopen.mono hsize)
      (hf.mono hsize) hes'
    refine ⟨hhead.append hreplay htail, Nat.le_trans hsize hsize', fun values hr => ?_⟩
    cases r with
    | error x => cases hr
    | ok vs =>
      obtain rfl := Except.ok.inj hr
      exact List.forall_mem_cons.2 ⟨(hv v rfl).mono hsize', hvs vs rfl⟩
  | silent head =>
    obtain ⟨hhead, -⟩ := ih head hA hopen hf (hes _ (List.mem_cons_self ..))
    exact ⟨hhead, head.size_le, by simp⟩
  | fail head =>
    obtain ⟨hhead, -⟩ := ih head hA hopen hf (hes _ (List.mem_cons_self ..))
    exact ⟨hhead, head.size_le, by simp⟩

theorem confined_finishes (ih : A.Bounds depth) {before : Store} {items values : List Value}
    {form : Form} (h : Finishes (Evaluates depth) f before s form values log r s')
    (hbefore : A.Closed before) (hA : A.Closed s) (hopen : A.Open s) (hf : A.Has s f)
    (hitems : A.Covers s (.list items)) (form_eq : Form.ofList items = .ok form)
    (hvalues : ∀ v ∈ values, A.Covers s v) :
    A.Confines s log ∧ ∀ v, r = .ok (some v) → A.Covers s' v := by
  have hspelling := Form.spelling_of_ofList form_eq
  cases h with
  | @quotation e =>
    refine ⟨hA.confines, ?_⟩
    rintro v ⟨⟩
    apply hitems.item
    rw [hspelling]
    simp [Form.spelling]
  | noBool => exact ⟨hA.confines, by simp⟩
  | @conditional _ _ _ b _ _ _ chosen =>
    refine ih chosen hA hopen hf (hitems.part form_eq ?_)
    cases b <;> simp [Form.parts]
  | @definition name _ v =>
    have hv : A.Covers s v := hvalues v (List.mem_singleton_self v)
    refine ⟨hA.confines_singleton (hA.set hv) ?_, by simp⟩
    rintro g x w ⟨⟩
    exact hf.1
  | @assignment name _ v g bound =>
    -- The frame is on the chain of the frame that the form is evaluated in.
    have hv : A.Covers s v := hvalues v (List.mem_singleton_self v)
    have hg : A g := hbefore.mem_chain hf.1 (Store.mem_chain_of_find? bound)
    refine ⟨hA.confines_singleton (hA.set hv) ?_, by simp⟩
    rintro g x w ⟨⟩
    exact hg
  | @abstraction params body =>
    -- The closure remembers the frame that it is made in, and its body is an item of the form.
    refine ⟨hA.confines_singleton hA.stamp (by simp), ?_⟩
    rintro v ⟨⟩ g hg
    cases hg with
    | scope => exact hf
    | body hbody =>
      have hmem : body ∈ items := by
        rw [hspelling]
        simp [Form.spelling]
      exact hitems.item hmem hbody
  | @primitive _ _ args p =>
    refine ⟨hA.confines, fun v hr g hg => ?_⟩
    cases hp : p.apply args with
    | error x =>
      rw [hp] at hr
      cases hr
    | ok w =>
      rw [hp] at hr
      cases hr
      obtain ⟨u, hu, hrefers⟩ := p.refers_of_apply hp hg
      exact hvalues u (List.mem_cons_of_mem _ hu) hrefers
  | arity => exact ⟨hA.confines, by simp⟩
  | @closure _ body _ args stamp params scope log _ _ agree called =>
    -- The body is evaluated in the next frame, which the region has as it has all frames to come.
    rw [List.forall_mem_cons] at hvalues
    obtain ⟨hclosure, hargs⟩ := hvalues
    have hsize : s.frames.size ≤ (s.nested params args scope).2.frames.size :=
      (Store.Grows.nested ..).size_le
    have hnew : A.Has (s.nested params args scope).2 s.frames.size := by
      refine ⟨hopen (Nat.le_refl _), ?_⟩
      rw [Store.size_nested]
      exact Nat.lt_succ_self _
    have hbody : A.Covers (s.nested params args scope).2 body := fun g hg =>
      (hclosure (.body hg)).mono hsize
    have hnested : A.Closed (s.nested params args scope).2 := hA.nested (hclosure .scope) hargs
    obtain ⟨hcalled, hvalue⟩ := ih called hnested (hopen.mono hsize) hnew hbody
    have hframe : A.Confines s [.frame params args scope] :=
      hA.confines_singleton hnested (by simp)
    exact ⟨hframe.append rfl hcalled, hvalue⟩
  | plain =>
    refine ⟨hA.confines, ?_⟩
    rintro v ⟨⟩
    exact hvalues _ (List.mem_singleton_self _)
  | noProcedure => exact ⟨hA.confines, by simp⟩

/-- **Evaluation stays inside a closed region** that it starts in. -/
theorem Evaluates.confined : A.Bounds depth := by
  induction depth with
  | zero =>
    intro f s s' e log r h
    exact h.elim
  | succ depth ih =>
    intro f s s' e log r h hA hopen hf he
    cases h with
    | symbol name =>
      -- A name that is not bound stands for itself, which is the expression.
      refine ⟨hA.confines, ?_⟩
      rintro v ⟨⟩
      cases hlookup : s.lookup? f name with
      | none => exact he
      | some v => exact hA.lookup? hf.1 hlookup
    | constant =>
      refine ⟨hA.confines, ?_⟩
      rintro v ⟨⟩
      exact he
    | malformed => exact ⟨hA.confines, by simp⟩
    | unbound => exact ⟨hA.confines, by simp⟩
    | fail form_eq ready operands =>
      obtain ⟨hconfines, -, -⟩ := confined_operands ih operands hA hopen hf fun e' he' =>
        he.part form_eq (Form.mem_parts_of_mem_operands he')
      exact ⟨hconfines, by simp⟩
    | finish form_eq operands finishes =>
      obtain ⟨hconfines, hsize, hvalues⟩ := confined_operands ih operands hA hopen hf fun e' he' =>
        he.part form_eq (Form.mem_parts_of_mem_operands he')
      have hreplay := replay_operands replay_eq operands
      obtain ⟨hconfines', hvalue⟩ := confined_finishes ih finishes hA
        (hconfines.closed_of_replay hreplay) (hopen.mono hsize) (hf.mono hsize) (he.mono hsize)
        form_eq (hvalues _ rfl)
      exact ⟨hconfines.append hreplay hconfines', hvalue⟩

end

end SmallLisp
