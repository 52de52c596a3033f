import SmallLisp.Proofs.Effects
import SmallLisp.Proofs.Session

/-!
# Lexical scope

The scope of a closure is what the code says: the chain of frames that it remembers has one frame
for each abstraction around the one that made it, with the parameters of that abstraction bound and
no other name, and then the global frame (`Addressed`).

A definition in the body of a closure adds a name to the frame of a call and so breaks this for the
frame.  But it has no value, so nothing can come out of the call after it, and as at most one
binding is made no closure over the frame has been put anywhere before it.  The invariant `Sound`
is therefore about the frames that are *kept*: they hold only closures with the right scopes, all of
whose frames are kept too.  Evaluation keeps the new frames (`Evaluates.sound`), except that a line
may end by spoiling a frame of its own and leaving alone all frames from before it.  Then only the
latter are kept (`Session.sound`).

`closure_lexically_addressed` says it of every closure that can be got at between lines.
-/

namespace SmallLisp

open Value

namespace Store

/-- Whether a frame binds exactly these names itself. -/
def Binds (s : Store) (g : FrameId) (names : List String) : Prop :=
  ∀ x, (s.get? g x).isSome ↔ x ∈ names

/-- Whether the frames of a store still lie where they lay and, but for one, bind the names that
they bound. -/
structure Keeps (root : FrameId) (s s' : Store) : Prop where
  outer : ∀ g < s.frames.size, s'.outer? g = s.outer? g
  names : ∀ g < s.frames.size, g ≠ root → ∀ x, (s'.get? g x).isSome = (s.get? g x).isSome

variable {root : FrameId} {s s' s'' : Store}

theorem keeps_of_frames (h : ∀ g < s.frames.size, s'.frames[g]? = s.frames[g]?) :
    Keeps root s s' := by
  constructor
  · intro g hg
    exact outer?_congr (h g hg)
  · intro g hg _ x
    rw [get?_congr (h g hg)]

theorem Grows.keeps (h : Grows s s') : Keeps root s s' := keeps_of_frames h.frames

/-- Binding anew a name that is bound keeps the frames, and so does binding any name in the one
frame that is left out. -/
theorem keeps_set {g : FrameId} {x : String} {v : Value}
    (h : g = root ∨ (s.get? g x).isSome = true) : Keeps root s (s.set g x v) := by
  constructor
  · intro g' _
    exact outer?_set
  · intro g' hg' hne y
    by_cases hsame : g = g' ∧ y = x
    · obtain ⟨rfl, rfl⟩ := hsame
      rw [get?_set_self hg', h.resolve_left hne]
      rfl
    · rw [get?_set_of_ne (by tauto)]

theorem Grows.trans_keeps (h : Grows s s') (h' : Keeps root s' s'') : Keeps root s s'' := by
  have hsize := h.size_le
  constructor
  · intro g hg
    rw [h'.outer g (by omega), outer?_congr (h.frames g hg)]
  · intro g hg hne x
    rw [h'.names g (by omega) hne, get?_congr (h.frames g hg)]

end Store

/-! ### Scopes -/

/-- A chain of kept frames that bind the given names and no others, up to the global frame. -/
inductive Addressed (kept : FrameId → Prop) (root : FrameId) (s : Store) :
    FrameId → List (List String) → Prop
  | root : Addressed kept root s root []
  | frame {g h : FrameId} {params : List String} {enclosing : List (List String)}
      (mem : kept g) (outer : s.outer? g = some h) (older : h < g) (ne : g ≠ root)
      (binds : s.Binds g params) (rest : Addressed kept root s h enclosing) :
      Addressed kept root s g (params :: enclosing)

namespace Addressed

variable {kept kept' : FrameId → Prop} {root g : FrameId} {s s' : Store}
  {enclosing : List (List String)}

theorem mono (h : Addressed kept root s g enclosing)
    (hkept : ∀ g < s.frames.size, kept g → kept' g) (hs : s.Keeps root s') :
    Addressed kept' root s' g enclosing := by
  induction h with
  | root => exact Addressed.root
  | frame kept outer older ne binds _ ih =>
    have hlt := Store.lt_size_of_outer? outer
    refine Addressed.frame (hkept _ hlt kept) ((hs.outer _ hlt).trans outer) older ne ?_ ih
    intro x
    rw [hs.names _ hlt ne]
    exact binds x

theorem keep (h : Addressed kept root s g enclosing) (hs : s.Keeps root s') :
    Addressed kept root s' g enclosing :=
  h.mono (fun _ _ hg => hg) hs

/-- The chain of the frame, as a list. -/
theorem exists_chain (h : Addressed kept root s g enclosing) (hroot : s.outer? root = none) :
    ∃ frames, s.chain g = frames ++ [root] ∧ List.Forall₂ s.Binds frames enclosing := by
  induction h with
  | root => exact ⟨[], Store.chain_of_outer?_none hroot, .nil⟩
  | frame _ outer older _ binds _ ih =>
    obtain ⟨frames, hchain, hbinds⟩ := ih
    refine ⟨_ :: frames, ?_, .cons binds hbinds⟩
    rw [Store.chain_of_outer?_some outer older, hchain, List.cons_append]

theorem kept_of_mem_chain (h : Addressed kept root s g enclosing) (hroot : s.outer? root = none)
    (hkept : kept root) {g' : FrameId} (hg' : g' ∈ s.chain g) : kept g' := by
  induction h with
  | root =>
    rw [Store.chain_of_outer?_none hroot, List.mem_singleton] at hg'
    exact hg' ▸ hkept
  | frame kept outer older _ _ _ ih =>
    rw [Store.chain_of_outer?_some outer older] at hg'
    rcases List.mem_cons.1 hg' with rfl | hg'
    · exact kept
    · exact ih hg'

theorem lt_size (h : Addressed kept root s g enclosing) (hroot : root < s.frames.size) :
    g < s.frames.size := by
  cases h with
  | root => exact hroot
  | frame _ outer => exact Store.lt_size_of_outer? outer

end Addressed

/-! ### The invariant -/

/-- What a line is evaluated in: the code of the session so far, its global frame, and the frames
that are kept, among them all frames from some number on. -/
structure Setting where
  code : Value → Prop
  root : FrameId
  kept : FrameId → Prop
  since : ℕ
  readable : ∀ {e}, code e → Readable e
  kept_root : kept root
  kept_since : ∀ {g}, since ≤ g → kept g

/-- Whether every closure of a value was made by an abstraction of the code, in its scope. -/
def Proper (c : Setting) (s : Store) (v : Value) : Prop :=
  ∀ ⦃stamp params body scope⦄, Holds v (.closure stamp params body scope) →
    ∃ e enclosing, c.code e ∧ Occurs e enclosing (.lambda params body) ∧
      Addressed c.kept c.root s scope enclosing

/-- Whether the kept frames hold only such closures. -/
structure Sound (c : Setting) (s : Store) : Prop where
  outer_root : s.outer? c.root = none
  root_lt : c.root < s.frames.size
  since_le : c.since ≤ s.frames.size
  proper : ∀ {g x v}, c.kept g → s.get? g x = some v → Proper c s v

/-- Whether code is in a frame that has its scope: the global frame, or one that is new. -/
def Located (c : Setting) (s : Store) (f : FrameId) (e : Value) : Prop :=
  ∃ e₀ enclosing, c.code e₀ ∧ Occurs e₀ enclosing e ∧ Addressed c.kept c.root s f enclosing ∧
    (f = c.root ∨ c.since ≤ f)

section
variable {c : Setting} {s s' : Store} {f : FrameId} {e v : Value}

/-- A proper value stays proper in a setting with no less code and no fewer kept frames. -/
theorem Proper.mono {c' : Setting} (h : Proper c s v) (hroot : c'.root = c.root)
    (hcode : ∀ e, c.code e → c'.code e) (hkept : ∀ g < s.frames.size, c.kept g → c'.kept g)
    (hs : s.Keeps c.root s') : Proper c' s' v := by
  intro stamp params body scope hheld
  obtain ⟨e, enclosing, he, hoccurs, hscope⟩ := h hheld
  rw [← hroot] at hscope hs
  exact ⟨e, enclosing, hcode e he, hoccurs, hscope.mono hkept hs⟩

theorem Proper.keep (h : Proper c s v) (hs : s.Keeps c.root s') : Proper c s' v :=
  h.mono rfl (fun _ he => he) (fun _ _ hg => hg) hs

theorem Located.keep (h : Located c s f e) (hs : s.Keeps c.root s') : Located c s' f e := by
  obtain ⟨e₀, enclosing, he₀, hoccurs, hscope, hf⟩ := h
  exact ⟨e₀, enclosing, he₀, hoccurs, hscope.keep hs, hf⟩

/-- Readable values have no closures at all. -/
theorem proper_of_readable (h : Readable v) : Proper c s v := by
  intro stamp params body scope hheld
  exact absurd hheld (not_holds_of_readable h)

theorem Located.readable (h : Located c s f e) : Readable e := by
  obtain ⟨e₀, enclosing, he₀, hoccurs, -⟩ := h
  exact hoccurs.readable (c.readable he₀)

theorem Located.part {items : List Value} {form : Form} (h : Located c s f (.list items))
    (form_eq : Form.ofList items = .ok form) (he : e ∈ form.parts) : Located c s f e := by
  obtain ⟨e₀, enclosing, he₀, hoccurs, hscope, hf⟩ := h
  exact ⟨e₀, enclosing, he₀, hoccurs.part form_eq he, hscope, hf⟩

/-- What is bound in a frame that is seen from located code is proper. -/
theorem Sound.proper_of_chain (hs : Sound c s) (h : Located c s f e) {g : FrameId} {x : String}
    (hg : g ∈ s.chain f) (hv : s.get? g x = some v) : Proper c s v := by
  obtain ⟨e₀, enclosing, he₀, hoccurs, hscope, hf⟩ := h
  exact hs.proper (hscope.kept_of_mem_chain hs.outer_root c.kept_root hg) hv

/-! ### What changes do to it -/

theorem Sound.stamp (hs : Sound c s) : Sound c s.stamp.2 := by
  refine ⟨hs.outer_root, hs.root_lt, hs.since_le, fun hg hv => ?_⟩
  exact (hs.proper hg hv).keep (Store.Grows.stamp s).keeps

theorem Sound.set (hs : Sound c s) (hv : Proper c s v) {g : FrameId} {x : String}
    (hg : g = c.root ∨ (s.get? g x).isSome = true) : Sound c (s.set g x v) := by
  have hkeeps : s.Keeps c.root (s.set g x v) := Store.keeps_set hg
  refine ⟨?_, ?_, ?_, fun {g' y w} hg' hw => ?_⟩
  · rw [Store.outer?_set]
    exact hs.outer_root
  · rw [Store.size_set]
    exact hs.root_lt
  · rw [Store.size_set]
    exact hs.since_le
  · by_cases hsame : g = g' ∧ y = x
    · -- The new binding itself.
      obtain ⟨rfl, rfl⟩ := hsame
      have hlt := Store.lt_size_of_get? hw
      rw [Store.size_set] at hlt
      rw [Store.get?_set_self hlt] at hw
      have hproper : Proper c (s.set g y v) v := hv.keep hkeeps
      rwa [← Option.some.inj hw]
    · rw [Store.get?_set_of_ne (by tauto)] at hw
      exact (hs.proper hg' hw).keep hkeeps

section
variable {params : List String} {args : List Value} {scope : FrameId}

theorem Sound.nested (hs : Sound c s) (hargs : ∀ v ∈ args, Proper c s v) :
    Sound c (s.nested params args scope).2 := by
  have hgrows : s.Grows (s.nested params args scope).2 := Store.Grows.nested ..
  have hsize := hgrows.size_le
  refine ⟨?_, Nat.lt_of_lt_of_le hs.root_lt hsize, hs.since_le.trans hsize,
    fun {g x v} hg hv => ?_⟩
  · rw [Store.outer?_congr (hgrows.frames _ hs.root_lt)]
    exact hs.outer_root
  · by_cases hnew : g = s.frames.size
    · -- The new frame binds arguments only.
      rw [hnew, Store.get?_nested_self] at hv
      have hmem : v ∈ args := (List.of_mem_zip (Bindings.mem_of_get?_ofPairs hv)).2
      exact (hargs v hmem).keep hgrows.keeps
    · have hlt := Store.lt_size_of_get? hv
      rw [Store.size_nested] at hlt
      have hold : g < s.frames.size := Nat.lt_of_le_of_ne (Nat.le_of_lt_succ hlt) hnew
      rw [Store.get?_congr (hgrows.frames g hold)] at hv
      exact (hs.proper hg hv).keep hgrows.keeps

/-- The body of a proper closure is in its scope in the frame of a call. -/
theorem Proper.located_body {stamp : ℕ} {body : Value} (hs : Sound c s)
    (h : Proper c s (.closure stamp params body scope)) (hlen : params.length = args.length) :
    Located c (s.nested params args scope).2 s.frames.size body := by
  obtain ⟨e, enclosing, he, hoccurs, hscope⟩ := h (Holds.self _)
  have hrest : Addressed c.kept c.root (s.nested params args scope).2 scope enclosing :=
    hscope.keep (Store.Grows.nested ..).keeps
  refine ⟨e, params :: enclosing, he, hoccurs.body, ?_, Or.inr hs.since_le⟩
  refine Addressed.frame (c.kept_since hs.since_le) Store.outer?_nested_self
    (hscope.lt_size hs.root_lt) (Nat.ne_of_gt hs.root_lt) ?_ hrest
  intro x
  rw [Store.get?_nested_self, Bindings.isSome_get?_ofPairs, List.map_fst_zip (Nat.le_of_eq hlen)]

end

/-! ### Evaluation -/

/-- How an evaluation without a value may end: in keeping with the invariant, or with a new frame
spoiled and the frames from before as they were. -/
def Ends (c : Setting) (s s' : Store) : Prop :=
  (Sound c s' ∧ s.Keeps c.root s') ∨ ∀ g < c.since, s'.frames[g]? = s.frames[g]?

theorem Ends.refl (hs : Sound c s) : Ends c s s := Or.inl ⟨hs, (Store.Grows.refl s).keeps⟩

theorem Ends.of_grows {s₁ : Store} (h : Ends c s₁ s') (hs : Sound c s) (hgrows : s.Grows s₁) :
    Ends c s s' := by
  rcases h with ⟨hsound, hkeeps⟩ | hframes
  · exact Or.inl ⟨hsound, hgrows.trans_keeps hkeeps⟩
  · right
    intro g hg
    have hsince := hs.since_le
    rw [hframes g hg, hgrows.frames g (by omega)]

/-- What holds after an evaluation, by what it comes to. -/
def After (c : Setting) (s : Store) : Outcome → Store → Prop
  | .ok (some v), s' => Sound c s' ∧ Proper c s' v
  | .ok none, s' => Ends c s s'
  | .error _, s' => Ends c s s'

theorem After.of_grows {s₁ : Store} {r : Outcome} (h : After c s₁ r s') (hs : Sound c s)
    (hgrows : s.Grows s₁) : After c s r s' := by
  rcases r with x | _ | v
  · exact Ends.of_grows h hs hgrows
  · exact Ends.of_grows h hs hgrows
  · exact h

/-- Whether evaluations to a depth keep the invariant. -/
def Preserves (c : Setting) (depth : ℕ) : Prop :=
  ∀ ⦃f s s' e log r⦄, Evaluates depth f s e log r s' → Sound c s → Located c s f e →
    After c s r s'

section
variable {depth : ℕ}

theorem sound_operands (ih : Preserves c depth) {lack : Error} {es : List Value}
    {log : List Effect} {r : Except Error (List Value)}
    (h : Operands (Evaluates depth f) lack s es log r s') (hs : Sound c s)
    (hes : ∀ e ∈ es, Located c s f e) :
    match r with
      | .ok values => Sound c s' ∧ s.Grows s' ∧ ∀ v ∈ values, Proper c s' v
      | .error _ => Ends c s s' := by
  induction h with
  | nil => exact ⟨hs, Store.Grows.refl _, by simp⟩
  | @cons s s₁ s₂ e v es _ _ r head _ ih' =>
    obtain ⟨hsound, hproper⟩ := ih head hs (hes e (List.mem_cons_self ..))
    have hgrows := head.grows
    have hrest := ih' hsound fun e' he' =>
      (hes e' (List.mem_cons_of_mem _ he')).keep hgrows.keeps
    cases r with
    | ok values =>
      obtain ⟨hsound', hgrows', hvalues⟩ := hrest
      have hv : Proper c s₂ v := hproper.keep hgrows'.keeps
      exact ⟨hsound', hgrows.trans hgrows', List.forall_mem_cons.2 ⟨hv, hvalues⟩⟩
    | error x => exact Ends.of_grows hrest hs hgrows
  | silent head => exact ih head hs (hes _ (List.mem_cons_self ..))
  | fail head => exact ih head hs (hes _ (List.mem_cons_self ..))

theorem sound_finishes (ih : Preserves c depth) {before : Store} {items values : List Value}
    {form : Form} {log : List Effect} {r : Outcome}
    (h : Finishes (Evaluates depth) f before s form values log r s') (hgrows : before.Grows s)
    (hs : Sound c s) (hlocated : Located c s f (.list items))
    (form_eq : Form.ofList items = .ok form) (hvalues : ∀ v ∈ values, Proper c s v) :
    After c s r s' := by
  have hspelling := Form.spelling_of_ofList form_eq
  cases h with
  | quotation =>
    -- What is quoted is code, and code holds no closures.
    refine ⟨hs, proper_of_readable ?_⟩
    cases hlocated.readable with
    | list readable =>
      apply readable
      rw [hspelling]
      simp [Form.spelling]
  | noBool => exact Ends.refl hs
  | @conditional _ _ _ b _ _ _ chosen =>
    refine ih chosen hs (hlocated.part form_eq ?_)
    cases b <;> simp [Form.parts]
  | @definition name _ v =>
    -- In the global frame a new name is fine.  Any other frame is a new one, and is spoiled.
    have hv : Proper c s v := hvalues v (List.mem_singleton_self v)
    obtain ⟨e₀, enclosing, he₀, hoccurs, hscope, hf | hf⟩ := hlocated
    · exact Or.inl ⟨hs.set hv (Or.inl hf), Store.keeps_set (Or.inl hf)⟩
    · right
      intro g hg
      rw [Store.frames_set, if_neg]
      rintro rfl
      exact absurd hf (Nat.not_le_of_lt hg)
  | @assignment name _ v g bound =>
    -- The name was bound before the operand was evaluated, and still is.
    have hv : Proper c s v := hvalues v (List.mem_singleton_self v)
    have hbound := Store.isSome_get?_of_find? bound
    obtain ⟨w, hw⟩ := Option.isSome_iff_exists.1 hbound
    rw [← Store.get?_congr (hgrows.frames g (Store.lt_size_of_get? hw))] at hbound
    exact Or.inl ⟨hs.set hv (Or.inr hbound), Store.keeps_set (Or.inr hbound)⟩
  | @abstraction params body =>
    refine ⟨hs.stamp, ?_⟩
    obtain ⟨e₀, enclosing, he₀, hoccurs, hscope, hf⟩ := hlocated
    rw [hspelling] at hoccurs
    rintro stamp params' body' scope hheld
    cases hheld
    exact ⟨e₀, enclosing, he₀, hoccurs, hscope.keep (Store.Grows.stamp s).keeps⟩
  | @primitive _ _ args p =>
    cases hp : p.apply args with
    | error x => exact Ends.refl hs
    | ok v =>
      refine ⟨hs, fun stamp params body scope hheld => ?_⟩
      obtain ⟨w, hw, hheld'⟩ := Primitive.holds_of_apply hp hheld
      exact hvalues w (List.mem_cons_of_mem _ hw) hheld'
  | arity => exact Ends.refl hs
  | closure agree called =>
    rw [List.forall_mem_cons] at hvalues
    obtain ⟨hclosure, hargs⟩ := hvalues
    have hcalled := ih called (hs.nested hargs) (hclosure.located_body hs agree)
    exact hcalled.of_grows hs (Store.Grows.nested ..)
  | plain => exact ⟨hs, hvalues _ (List.mem_singleton_self _)⟩
  | noProcedure => exact Ends.refl hs

/-- Evaluation of code in its scope keeps the invariant, or spoils a new frame at the end. -/
theorem Evaluates.sound : Preserves c depth := by
  induction depth with
  | zero =>
    intro f s s' e log r h
    exact h.elim
  | succ depth ih =>
    intro f s s' e log r h hs hlocated
    cases h with
    | symbol name =>
      refine ⟨hs, ?_⟩
      unfold Store.lookup?
      rcases hfind : s.find? f name with _ | g
      · exact proper_of_readable hlocated.readable
      · obtain ⟨v, hv⟩ := Option.isSome_iff_exists.1 (Store.isSome_get?_of_find? hfind)
        rw [Option.bind_some, hv]
        exact hs.proper_of_chain hlocated (Store.mem_chain_of_find? hfind) hv
    | constant => exact ⟨hs, proper_of_readable hlocated.readable⟩
    | malformed => exact Ends.refl hs
    | unbound => exact Ends.refl hs
    | fail form_eq ready operands =>
      exact sound_operands ih operands hs fun e he =>
        hlocated.part form_eq (Form.mem_parts_of_mem_operands he)
    | finish form_eq operands finishes =>
      obtain ⟨hsound, hgrows, hvalues⟩ := sound_operands ih operands hs fun e he =>
        hlocated.part form_eq (Form.mem_parts_of_mem_operands he)
      have hfinishes := sound_finishes ih finishes hgrows hsound (hlocated.keep hgrows.keeps)
        form_eq hvalues
      exact hfinishes.of_grows hs hgrows

end

end

/-! ### Sessions -/

/-- The invariant holds in another setting with the same kept frames and no less code. -/
theorem Sound.change {c c' : Setting} {s : Store} (hs : Sound c s) (hroot : c'.root = c.root)
    (hcode : ∀ e, c.code e → c'.code e) (hkept : ∀ g < s.frames.size, c'.kept g ↔ c.kept g)
    (hsince : c'.since ≤ s.frames.size) : Sound c' s := by
  refine ⟨hroot ▸ hs.outer_root, hroot ▸ hs.root_lt, hsince, fun {g x v} hg hv => ?_⟩
  have hproper := hs.proper ((hkept g (Store.lt_size_of_get? hv)).1 hg) hv
  exact hproper.mono hroot hcode (fun g hg => (hkept g hg).2) (Store.Grows.refl s).keeps

/-- What the reader made of the lines of a session. -/
def sessionCode (lines : List Line) (e : Value) : Prop :=
  ∃ line ∈ lines, parse line.source = .ok e

theorem readable_of_sessionCode {lines : List Line} {e : Value} (h : sessionCode lines e) :
    Readable e := by
  obtain ⟨line, -, he⟩ := h
  exact readable_of_parse he

theorem sessionCode_append {lines : List Line} {line : Line} {e : Value}
    (h : sessionCode lines e) : sessionCode (lines ++ [line]) e := by
  obtain ⟨line', hmem, he⟩ := h
  exact ⟨line', List.mem_append_left _ hmem, he⟩

/-- Whether values that came out of lines are proper. -/
def ProperResults (c : Setting) (s : Store) (lines : List Line) : Prop :=
  ∀ line ∈ lines, ∀ v, line.result = .ok (some v) → Proper c s v

theorem proper_of_isAtomic {c : Setting} {s : Store} {v : Value} (h : v.isAtomic = true) :
    Proper c s v := by
  intro stamp params body scope hheld
  cases hheld <;> cases h

/-- The setting of a session that has been given nothing. -/
def Setting.start (root : FrameId) : Setting where
  code := sessionCode []
  root := root
  kept g := root ≤ g
  since := root + 1
  readable := readable_of_sessionCode
  kept_root := Nat.le_refl _
  kept_since h := Nat.le_of_succ_le h

theorem sound_start (s : Store) : Sound (Setting.start s.root.1) s.root.2 := by
  have hframe := s.frames_root
  have hsize : s.root.2.frames.size = s.root.1 + 1 := Array.size_push _
  refine ⟨?_, ?_, ?_, fun {g x v} hg hv => ?_⟩
  · show s.root.2.outer? s.root.1 = none
    unfold Store.outer?
    rw [hframe]
    rfl
  · exact Store.lt_size_of_frames_eq_some hframe
  · exact Nat.le_of_eq hsize.symm
  · -- The global frame is the last one, so no other is kept yet.
    have hlt := Store.lt_size_of_get? hv
    rw [hsize] at hlt
    obtain rfl : g = s.root.1 := Nat.le_antisymm (Nat.le_of_lt_succ hlt) hg
    unfold Store.get? at hv
    rw [hframe] at hv
    have hmem : (x, v) ∈ standardBindings := Bindings.mem_of_get? hv
    exact proper_of_isAtomic (isAtomic_of_mem_standardBindings hmem)

/-- A setting of a session, with the invariant. -/
structure Tracks (c : Setting) (root : FrameId) (lines : List Line) (s : Store) : Prop where
  root_eq : c.root = root
  code_eq : c.code = sessionCode lines
  since_eq : c.since = s.frames.size
  sound : Sound c s
  results : ProperResults c s lines

/-- The setting with the code of one more line. -/
def Setting.read (c : Setting) (lines : List Line) : Setting :=
  { c with code := sessionCode lines, readable := readable_of_sessionCode }

/-- The setting in which frames from a number on are new, and of those from before another number
the ones that were kept are kept. -/
def Setting.forget (c : Setting) (old new : ℕ) (hroot : c.root < old) : Setting where
  code := c.code
  root := c.root
  kept g := (g < old ∧ c.kept g) ∨ new ≤ g
  since := new
  readable := c.readable
  kept_root := Or.inl ⟨hroot, c.kept_root⟩
  kept_since h := Or.inr h

section
variable {c : Setting} {root : FrameId} {lines : List Line} {line : Line} {s s' : Store}

/-- After a line that spoiled a frame of its own, the old frames are still sound. -/
theorem Sound.forget (hs : Sound c s) (hframes : ∀ g < s.frames.size, s'.frames[g]? = s.frames[g]?)
    (hsize : s.frames.size ≤ s'.frames.size) :
    Sound (c.forget s.frames.size s'.frames.size hs.root_lt) s' := by
  refine ⟨?_, Nat.lt_of_lt_of_le hs.root_lt hsize, Nat.le_refl _, fun {g x v} hg hv => ?_⟩
  · exact (Store.outer?_congr (hframes _ hs.root_lt)).trans hs.outer_root
  · -- A kept frame that is there is an old one.
    have hlt := Store.lt_size_of_get? hv
    obtain ⟨hold, hkept⟩ := hg.resolve_right (Nat.not_le_of_lt hlt)
    rw [Store.get?_congr (hframes g hold)] at hv
    exact (hs.proper hkept hv).mono rfl (fun _ he => he) (fun g hg hkept => Or.inl ⟨hg, hkept⟩)
      (Store.keeps_of_frames hframes)

theorem Sound.tracks_forget (hs : Sound c s) (hcode : c.code = sessionCode lines)
    (hresults : ProperResults c s lines)
    (hframes : ∀ g < s.frames.size, s'.frames[g]? = s.frames[g]?)
    (hsize : s.frames.size ≤ s'.frames.size) :
    Tracks (c.forget s.frames.size s'.frames.size hs.root_lt) c.root lines s' := by
  refine ⟨rfl, hcode, rfl, hs.forget hframes hsize, fun line hline v hv => ?_⟩
  exact (hresults line hline v hv).mono rfl (fun _ he => he)
    (fun g hg hkept => Or.inl ⟨hg, hkept⟩) (Store.keeps_of_frames hframes)

theorem ProperResults.keep (h : ProperResults c s lines) (hs : s.Keeps c.root s') :
    ProperResults c s' lines :=
  fun line hline v hv => (h line hline v hv).keep hs

theorem ProperResults.append (h : ProperResults c s lines)
    (hv : ∀ v, line.result = .ok (some v) → Proper c s v) :
    ProperResults c s (lines ++ [line]) := by
  intro line' hline'
  rcases List.mem_append.1 hline' with hline' | hline'
  · exact h line' hline'
  · rw [List.mem_singleton.1 hline']
    exact hv

/-- Between lines no frame is new. -/
theorem Sound.tracks (hs : Sound c s) (hcode : c.code = sessionCode lines)
    (hresults : ProperResults c s lines) :
    Tracks (c.forget s.frames.size s.frames.size hs.root_lt) c.root lines s :=
  hs.tracks_forget hcode hresults (fun _ _ => rfl) (Nat.le_refl _)

/-- The invariant holds when one more line has been read. -/
theorem Tracks.read (h : Tracks c root lines s) (line : Line) :
    Sound (c.read (lines ++ [line])) s ∧ ProperResults (c.read (lines ++ [line])) s lines := by
  have hcode : ∀ e, c.code e → sessionCode (lines ++ [line]) e := by
    intro e he
    rw [h.code_eq] at he
    exact sessionCode_append he
  constructor
  · exact h.sound.change rfl hcode (fun _ _ => Iff.rfl) (Nat.le_of_eq h.since_eq)
  · intro line' hline' v hv
    have hproper := h.results line' hline' v hv
    exact hproper.mono rfl hcode (fun _ _ hg => hg) (Store.Grows.refl s).keeps

/-- After a line without a value, either all frames that were kept are, or only the old ones. -/
theorem Ends.exists_tracks (h : Ends c s s') (hs : Sound c s)
    (hcode : c.code = sessionCode (lines ++ [line])) (hsince : c.since = s.frames.size)
    (hsize : s.frames.size ≤ s'.frames.size) (hresults : ProperResults c s lines)
    (hline : ∀ v, line.result ≠ .ok (some v)) :
    ∃ c', Tracks c' c.root (lines ++ [line]) s' := by
  rcases h with ⟨hsound, hkeeps⟩ | hframes
  · have hresults' := (hresults.keep hkeeps).append fun v hv => absurd hv (hline v)
    exact ⟨_, hsound.tracks hcode hresults'⟩
  · have hresults' := hresults.append fun v hv => absurd hv (hline v)
    rw [hsince] at hframes
    exact ⟨_, hs.tracks_forget hcode hresults' hframes hsize⟩

/-- A line keeps the invariant, with the frames that it spoiled no longer kept. -/
theorem Tracks.exists_next (h : Tracks c root lines s) {depth : ℕ} {source : String}
    {result : Outcome}
    (ran : (evalText depth root source).run.run s = some (result, s')) :
    ∃ c', Tracks c' root (lines ++ [⟨source, result⟩]) s' := by
  obtain ⟨hs, hresults⟩ := h.read ⟨source, result⟩
  obtain ⟨rfl, -, hsince, -, -⟩ := h
  rw [evalText_run] at ran
  cases hparse : parse source with
  | error x =>
    rw [hparse] at ran
    obtain ⟨rfl, rfl⟩ := Prod.mk.inj (Option.some.inj ran)
    exact ⟨_, hs.tracks rfl (hresults.append (by simp))⟩
  | ok e =>
    rw [hparse] at ran
    obtain ⟨log, heval⟩ := (describes_eval depth).1 ran
    have hcode : sessionCode (lines ++ [⟨source, result⟩]) e :=
      ⟨⟨source, result⟩, by simp, hparse⟩
    have hafter := Evaluates.sound heval hs
      ⟨e, [], hcode, Occurs.self, Addressed.root, Or.inl rfl⟩
    have hsize : s.frames.size ≤ s'.frames.size := by
      rw [heval.replay_eq]
      exact Effect.size_le_replay s log
    rcases result with x | _ | v
    · have hends : Ends (c.read _) s s' := hafter
      exact hends.exists_tracks hs rfl hsince hsize hresults (by simp)
    · have hends : Ends (c.read _) s s' := hafter
      exact hends.exists_tracks hs rfl hsince hsize hresults (by simp)
    · obtain ⟨hsound, hproper⟩ := hafter
      refine ⟨_, hsound.tracks rfl ((hresults.keep heval.grows.keeps).append ?_)⟩
      rintro w ⟨⟩
      exact hproper

/-- Sessions keep the invariant. -/
theorem Session.tracks (h : Session root lines s) : ∃ c, Tracks c root lines s := by
  induction h with
  | start s =>
    refine ⟨Setting.start s.root.1, rfl, rfl, (Array.size_push _).symm, sound_start s, ?_⟩
    intro line hline
    cases hline
  | line _ ran ih =>
    obtain ⟨c, hc⟩ := ih
    exact hc.exists_next ran

end

/-! ### What can be got at -/

/-- The values that can be got at between lines: results of lines, what is bound in the global
frame, items of lists, and what is bound in the frames that closures remember. -/
inductive Reachable (root : FrameId) (lines : List Line) (s : Store) : Value → Prop
  | result {line : Line} {v : Value} (mem : line ∈ lines) (result : line.result = .ok (some v)) :
      Reachable root lines s v
  | global {x : String} {v : Value} (bound : s.get? root x = some v) : Reachable root lines s v
  | item {items : List Value} {v : Value} (list : Reachable root lines s (.list items))
      (mem : v ∈ items) : Reachable root lines s v
  | captured {stamp : ℕ} {params : List String} {body v : Value} {scope g : FrameId} {x : String}
      (closure : Reachable root lines s (.closure stamp params body scope))
      (mem : g ∈ s.chain scope) (bound : s.get? g x = some v) : Reachable root lines s v

theorem Tracks.proper {c : Setting} {root : FrameId} {lines : List Line} {s : Store}
    (h : Tracks c root lines s) {v : Value} (hv : Reachable root lines s v) : Proper c s v := by
  induction hv with
  | result mem result => exact h.results _ mem _ result
  | global bound =>
    rw [← h.root_eq] at bound
    exact h.sound.proper c.kept_root bound
  | item _ mem ih =>
    intro stamp params body scope hheld
    exact ih (Holds.item mem hheld)
  | captured _ mem bound ih =>
    obtain ⟨e, enclosing, -, -, hscope⟩ := ih (Holds.self _)
    exact h.sound.proper (hscope.kept_of_mem_chain h.sound.outer_root c.kept_root mem) bound

/-- **Closures are lexically addressed**: between the lines of a session, a closure that can be got
at was made by an abstraction in a line so far, with its parameters and its body.  The chain of
frames that it remembers has one frame for each abstraction around that one, each binding exactly
the parameters of it, and ends in the global frame. -/
theorem closure_lexically_addressed {root : FrameId} {lines : List Line} {s : Store}
    (session : Session root lines s) {stamp : ℕ} {params : List String} {body : Value}
    {scope : FrameId} (h : Reachable root lines s (.closure stamp params body scope)) :
    ∃ line ∈ lines, ∃ e, parse line.source = .ok e ∧
      ∃ enclosing, Occurs e enclosing (.lambda params body) ∧
        ∃ frames, s.chain scope = frames ++ [root] ∧ List.Forall₂ s.Binds frames enclosing := by
  obtain ⟨c, hc⟩ := session.tracks
  obtain ⟨e, enclosing, he, hoccurs, hscope⟩ := hc.proper h (Holds.self _)
  rw [hc.code_eq] at he
  obtain ⟨line, hline, hparse⟩ := he
  refine ⟨line, hline, e, hparse, enclosing, hoccurs, ?_⟩
  rw [← hc.root_eq]
  exact hscope.exists_chain hc.sound.outer_root

/-- A closure made in the body of another remembers the frame of the call. -/
theorem closure_lexically_addressed_nested :
    ∃ s, Session 0 [⟨"((lambda (x) (lambda (y) x)) 5)",
        .ok (some (.closure 1 ["y"] (.symbol "x") 1))⟩] s ∧
      ∃ e enclosing, parse "((lambda (x) (lambda (y) x)) 5)" = .ok e ∧
        Occurs e enclosing (.lambda ["y"] (.symbol "x")) ∧
          ∃ frames, s.chain 1 = frames ++ [0] ∧ List.Forall₂ s.Binds frames enclosing := by
  have htokens : tokenize "((lambda (x) (lambda (y) x)) 5)" = ["(", "(", "lambda", "(", "x", ")",
      "(", "lambda", "(", "y", ")", "x", ")", ")", "5", ")"] := by
    decide +kernel
  have hparse : parse "((lambda (x) (lambda (y) x)) 5)"
      = .ok (.list [.lambda ["x"] (.lambda ["y"] (.symbol "x")), .int 5]) := by
    rw [parse_eq, htokens]
    rfl
  have hran : (evalText 3 0 "((lambda (x) (lambda (y) x)) 5)").run.run Store.empty.root.2
      = some (.ok (some (.closure 1 ["y"] (.symbol "x") 1)),
          (Store.empty.root.2.stamp.2.nested ["x"] [.int 5] 0).2.stamp.2) := by
    rw [evalText_run, hparse]
    rfl
  have hsession := Session.line (.start Store.empty) hran
  obtain ⟨line, hline, e, he, enclosing, h⟩ := closure_lexically_addressed hsession
    (.result (List.mem_singleton_self _) rfl)
  rw [List.mem_singleton.1 hline] at he
  exact ⟨_, hsession, e, enclosing, he, h⟩

end SmallLisp
