import SmallLisp.Proofs.Evolution
import SmallLisp.Proofs.Scope

/-!
# Names at run time

The names in code are words, since the reader makes symbols of tokens only.  Evaluation makes new
symbols, by joining two of them, and these are words again.  So all names in the values of a session
are words (`Value.Worded`), whether they stand in a result or in a frame that can be got at.

As in `SmallLisp.Proofs.Region`, evaluation starts inside a closed region, here the frames from the
global one on, and stays inside it.  What is new is that the values in its frames are worded
(`Region.Worded`): primitives keep words (`Primitive.keepsWords_apply`), and so does evaluation
(`Evaluates.worded`) and with it a session (`Session.spelled`).

A worded value without procedures is legible, so its text reads back with every leaf in its place
(`Session.names_are_words`).  A leaf need not be what it was: a truth value comes back as a symbol,
and two symbols may have been joined to something that looks like a number.
-/

namespace SmallLisp

open Value

/-! ### Names in values -/

/-- Whether a name stands in a value, as a symbol or as a parameter of a closure, at any depth. -/
inductive Value.Mentions : Value → String → Prop
  | symbol (name : String) : Mentions (.symbol name) name
  | item {items : List Value} {v : Value} {name : String} (mem : v ∈ items)
      (mentions : Mentions v name) : Mentions (.list items) name
  | param {stamp : ℕ} {params : List String} {body : Value} {scope : FrameId} {name : String}
      (mem : name ∈ params) : Mentions (.closure stamp params body scope) name
  | body {stamp : ℕ} {params : List String} {body : Value} {scope : FrameId} {name : String}
      (mentions : Mentions body name) : Mentions (.closure stamp params body scope) name

/-- Whether all names in a value are words. -/
def Value.Worded (v : Value) : Prop := ∀ ⦃name⦄, v.Mentions name → IsWord name.toList

namespace Value.Worded

variable {v body : Value} {items : List Value} {params : List String} {stamp : ℕ} {scope : FrameId}

theorem list (h : ∀ v ∈ items, v.Worded) : (Value.list items).Worded := by
  rintro name (_ | ⟨mem, mentions⟩)
  exact h _ mem mentions

theorem of_mem (h : (Value.list items).Worded) (hv : v ∈ items) : v.Worded :=
  fun _ mentions => h (.item hv mentions)

theorem of_readable (h : Readable v) : v.Worded := by
  induction h with
  | int => rintro name ⟨⟩
  | real => rintro name ⟨⟩
  | symbol word =>
    rintro name ⟨⟩
    exact word
  | list _ ih => exact .list ih

theorem of_plain (h : Plain v) : v.Worded := by
  induction h with
  | single plain =>
    rintro name ⟨⟩ <;> cases plain
  | list _ ih => exact .list ih

theorem body_of_closure (h : (closure stamp params body scope).Worded) : body.Worded :=
  fun _ mentions => h (.body mentions)

/-- An abstraction whose names are words makes a closure whose names are words. -/
theorem closure_of_lambda (h : (Value.lambda params body).Worded) :
    (closure stamp params body scope).Worded := by
  have hparams : (Value.list (params.map .symbol)).Worded := h.of_mem (by simp)
  have hbody : body.Worded := h.of_mem (by simp)
  rintro name (_ | _ | ⟨mem⟩ | ⟨mentions⟩)
  · have hname : (Value.symbol name).Worded := hparams.of_mem (List.mem_map_of_mem mem)
    exact hname (.symbol name)
  · exact hbody mentions

end Value.Worded

/-! ### Primitives -/

theorem IsWord.append {word word' : List Char} (h : IsWord word) (h' : IsWord word') :
    IsWord (word ++ word') := by
  refine ⟨List.append_ne_nil_of_left_ne_nil h.1 _, fun a ha => ?_⟩
  rcases List.mem_append.1 ha with ha | ha
  · exact h.2 a ha
  · exact h'.2 a ha

/-- Whether a primitive makes worded values of worded values. -/
def Primitive.KeepsWords (g : List Value → Primitive.Result) : Prop :=
  ∀ ⦃args : List Value⦄ ⦃v : Value⦄, (∀ w ∈ args, w.Worded) → g args = .ok v → v.Worded

/-- Primitives on single values keep words. -/
theorem Scalar.keepsWords {g : List Value → Primitive.Result} (hg : Scalar g) :
    Primitive.KeepsWords g := by
  intro args v hargs h
  have hresult := hg args
  rw [h] at hresult
  cases hresult with
  | make _ plain => exact .of_plain plain
  | @join a b symbols =>
    subst symbols
    have ha : IsWord a.toList := hargs (.symbol a) (by simp) (.symbol a)
    have hb : IsWord b.toList := hargs (.symbol b) (by simp) (.symbol b)
    rintro name ⟨⟩
    rw [String.toList_append]
    exact ha.append hb

namespace Primitive

theorem keepsWords_appending : KeepsWords appending := by
  intro args v hargs h
  unfold appending at h
  split at h <;> cases h
  refine .list fun w hw => ?_
  rcases List.mem_append.1 hw with hw | hw
  · exact (hargs _ (by simp)).of_mem hw
  · exact (hargs _ (by simp)).of_mem hw

theorem keepsWords_first : KeepsWords first := by
  intro args v hargs h
  unfold first at h
  split at h <;> cases h
  exact (hargs _ (List.mem_singleton_self _)).of_mem (List.mem_cons_self ..)

theorem keepsWords_rest : KeepsWords rest := by
  intro args v hargs h
  unfold rest at h
  split at h <;> cases h
  exact .list fun w hw => (hargs _ (List.mem_singleton_self _)).of_mem (List.mem_cons_of_mem _ hw)

theorem keepsWords_counting : KeepsWords counting := by
  intro args v _ h
  unfold counting at h
  split at h <;> cases h
  exact .of_plain (.single rfl)

theorem keepsWords_testing (test : Value → Bool) : KeepsWords (testing test) := by
  intro args v _ h
  unfold testing at h
  split at h <;> cases h
  exact .of_plain (.single rfl)

theorem keepsWords_summing : KeepsWords summing := by
  intro args v _ h
  unfold summing at h
  split at h
  · rename_i items _
    split at h
    · cases h
      exact .of_plain (.single (isPlain_ofInt _))
    · rcases hreals : items.mapM Value.toReal with x | reals
      · rw [hreals] at h
        cases h
      · rw [hreals] at h
        cases h
        exact .of_plain (.single rfl)
  · cases h

/-- All primitives keep words. -/
theorem keepsWords_apply (p : Primitive) : KeepsWords p.apply := by
  have hlist : KeepsWords fun args => .ok (.list args) := by
    rintro args v hargs ⟨⟩
    exact .list hargs
  exact apply_cases KeepsWords Scalar.keepsWords keepsWords_appending keepsWords_first
    keepsWords_rest keepsWords_counting hlist (keepsWords_testing _) (keepsWords_testing _)
    keepsWords_summing p

end Primitive

/-! ### Frames -/

namespace Region

/-- Whether the frames of a region hold worded values only. -/
def Worded (A : Region) (s : Store) : Prop := ∀ ⦃g v⦄, A g → s.Contains g v → v.Worded

variable {A : Region} {s s' : Store} {f : FrameId} {e v : Value}

theorem Worded.set (hA : A.Worded s) (hv : v.Worded) {x : String} : A.Worded (s.set f x v) := by
  intro g w hg hw
  rcases Store.contains_set hw with rfl | hw
  · exact hv
  · exact hA hg hw

theorem Worded.nested (hA : A.Worded s) {params : List String} {args : List Value}
    {scope : FrameId} (hargs : ∀ v ∈ args, v.Worded) :
    A.Worded (s.nested params args scope).2 := by
  intro g w hg hw
  rcases Store.contains_nested hw with ⟨-, hmem⟩ | hw
  · exact hargs w hmem
  · exact hA hg hw

/-- Whether a frame is in a closed region that holds worded values only and has all frames to
come. -/
structure Surrounds (A : Region) (s : Store) (f : FrameId) : Prop where
  closed : A.Closed s
  unbounded : A.Open s
  has : A.Has s f
  worded : A.Worded s

/-- Whether an expression refers to frames of a region only, and all names in it are words. -/
structure Admits (A : Region) (s : Store) (e : Value) : Prop where
  covers : A.Covers s e
  worded : e.Worded

theorem Admits.mono (h : A.Admits s e) (hs : s.frames.size ≤ s'.frames.size) : A.Admits s' e :=
  ⟨h.covers.mono hs, h.worded⟩

theorem Admits.of_mem {items : List Value} (h : A.Admits s (.list items)) (he : e ∈ items) :
    A.Admits s e :=
  ⟨h.covers.item he, h.worded.of_mem he⟩

theorem admits_of_readable (h : Readable e) : A.Admits s e :=
  ⟨covers_of_readable h, .of_readable h⟩

theorem Admits.body {stamp : ℕ} {params : List String} {body : Value} {scope : FrameId}
    (h : A.Admits s (.closure stamp params body scope)) : A.Admits s body :=
  ⟨fun _ hg => h.covers (.body hg), h.worded.body_of_closure⟩

theorem Admits.part {items : List Value} {form : Form} (h : A.Admits s (.list items))
    (form_eq : Form.ofList items = .ok form) (he : e ∈ form.parts) : A.Admits s e := by
  have hmem := Form.mem_spelling_of_mem_parts he
  rw [← Form.spelling_of_ofList form_eq] at hmem
  exact h.of_mem hmem

/-- What is seen from a surrounded frame is worded. -/
theorem Surrounds.lookup? (h : A.Surrounds s f) {x : String} (hv : s.lookup? f x = some v) :
    v.Worded := by
  obtain ⟨g, hfind, hget⟩ := Option.bind_eq_some_iff.1 hv
  have hg : A g := h.closed.mem_chain h.has.1 (Store.mem_chain_of_find? hfind)
  exact h.worded hg (Store.contains_of_get? hget)

/-- The frame of a call is surrounded if its closure and its arguments are admitted. -/
theorem Surrounds.nested (h : A.Surrounds s f) {params : List String} {args : List Value}
    {scope : FrameId} (hscope : A.Has s scope) (hargs : ∀ v ∈ args, A.Admits s v) :
    A.Surrounds (s.nested params args scope).2 s.frames.size := by
  have hsize : s.frames.size ≤ (s.nested params args scope).2.frames.size :=
    (Store.Grows.nested ..).size_le
  refine ⟨h.closed.nested hscope fun v hv => (hargs v hv).covers, h.unbounded.mono hsize,
    ⟨h.unbounded (Nat.le_refl _), ?_⟩, h.worded.nested fun v hv => (hargs v hv).worded⟩
  rw [Store.size_nested]
  exact Nat.lt_succ_self _

end Region

/-! ### Evaluation -/

/-- Whether evaluations to a depth keep the values of a region worded, and come to such values. -/
def Region.Speaks (A : Region) (depth : ℕ) : Prop :=
  ∀ ⦃f s s' e log r⦄, Evaluates depth f s e log r s' → A.Surrounds s f → A.Admits s e →
    A.Worded s' ∧ ∀ v, r = .ok (some v) → v.Worded

section
variable {A : Region} {s s' : Store} {f : FrameId} {e : Value} {log : List Effect} {r : Outcome}
  {depth : ℕ}

/-- Then a frame stays surrounded, and the values are admitted, as evaluation stays inside the
region. -/
theorem Region.Speaks.after (ih : A.Speaks depth) (h : Evaluates depth f s e log r s')
    (hf : A.Surrounds s f) (he : A.Admits s e) :
    A.Surrounds s' f ∧ ∀ v, r = .ok (some v) → A.Admits s' v := by
  obtain ⟨hworded, hvalue⟩ := ih h hf he
  obtain ⟨hconfines, hcovers⟩ := Evaluates.confined h hf.closed hf.unbounded hf.has he.covers
  have hsize := h.size_le
  have hclosed : A.Closed s' := hconfines.closed_of_replay h.replay_eq
  exact ⟨⟨hclosed, hf.unbounded.mono hsize, hf.has.mono hsize, hworded⟩,
    fun v hr => ⟨hcovers v hr, hvalue v hr⟩⟩

theorem worded_operands (ih : A.Speaks depth) {lack : Error} {es : List Value}
    {r : Except Error (List Value)} (h : Operands (Evaluates depth f) lack s es log r s')
    (hf : A.Surrounds s f) (hes : ∀ e ∈ es, A.Admits s e) :
    A.Surrounds s' f ∧ s.frames.size ≤ s'.frames.size ∧
      ∀ values, r = .ok values → ∀ v ∈ values, A.Admits s' v := by
  induction h with
  | nil =>
    refine ⟨hf, Nat.le_refl _, ?_⟩
    rintro values ⟨⟩ v ⟨⟩
  | @cons s s₁ s₂ e v es _ _ r head _ ih' =>
    obtain ⟨hf₁, hv⟩ := ih.after head hf (hes e (List.mem_cons_self ..))
    have hsize := head.size_le
    have hes' : ∀ e' ∈ es, A.Admits s₁ e' := fun e' he' =>
      (hes e' (List.mem_cons_of_mem _ he')).mono hsize
    obtain ⟨hf₂, hsize', hvs⟩ := ih' hf₁ hes'
    refine ⟨hf₂, Nat.le_trans hsize hsize', fun values hr => ?_⟩
    cases r with
    | error x => cases hr
    | ok vs =>
      obtain rfl := Except.ok.inj hr
      exact List.forall_mem_cons.2 ⟨(hv v rfl).mono hsize', hvs vs rfl⟩
  | silent head =>
    obtain ⟨hf₁, -⟩ := ih.after head hf (hes _ (List.mem_cons_self ..))
    exact ⟨hf₁, head.size_le, by simp⟩
  | fail head =>
    obtain ⟨hf₁, -⟩ := ih.after head hf (hes _ (List.mem_cons_self ..))
    exact ⟨hf₁, head.size_le, by simp⟩

theorem worded_finishes (ih : A.Speaks depth) {before : Store} {items values : List Value}
    {form : Form} (h : Finishes (Evaluates depth) f before s form values log r s')
    (hf : A.Surrounds s f) (hitems : A.Admits s (.list items))
    (form_eq : Form.ofList items = .ok form) (hvalues : ∀ v ∈ values, A.Admits s v) :
    A.Worded s' ∧ ∀ v, r = .ok (some v) → v.Worded := by
  have hspelling := Form.spelling_of_ofList form_eq
  cases h with
  | @quotation e =>
    have hmem : e ∈ items := by simp [hspelling, Form.spelling]
    refine ⟨hf.worded, ?_⟩
    rintro v ⟨⟩
    exact hitems.worded.of_mem hmem
  | noBool => exact ⟨hf.worded, by simp⟩
  | @conditional _ _ _ b _ _ _ chosen =>
    refine ih chosen hf (hitems.part form_eq ?_)
    cases b <;> simp [Form.parts]
  | definition => exact ⟨hf.worded.set (hvalues _ (List.mem_singleton_self _)).worded, by simp⟩
  | assignment => exact ⟨hf.worded.set (hvalues _ (List.mem_singleton_self _)).worded, by simp⟩
  | @abstraction params body =>
    -- The stamp changes no frame, and the closure has the names of the form.
    have hworded : (Value.lambda params body).Worded := by
      have hlist := hitems.worded
      rwa [hspelling] at hlist
    refine ⟨hf.worded, ?_⟩
    rintro v ⟨⟩
    exact hworded.closure_of_lambda
  | @primitive _ _ args p =>
    refine ⟨hf.worded, fun v hr => ?_⟩
    cases hp : p.apply args with
    | error x =>
      rw [hp] at hr
      cases hr
    | ok w =>
      rw [hp] at hr
      cases hr
      exact p.keepsWords_apply (fun w hw => (hvalues w (List.mem_cons_of_mem _ hw)).worded) hp
  | arity => exact ⟨hf.worded, by simp⟩
  | closure _ called =>
    rw [List.forall_mem_cons] at hvalues
    obtain ⟨hclosure, hargs⟩ := hvalues
    exact ih called (hf.nested (hclosure.covers .scope) hargs)
      (hclosure.body.mono (Store.Grows.nested ..).size_le)
  | plain =>
    refine ⟨hf.worded, ?_⟩
    rintro v ⟨⟩
    exact (hvalues _ (List.mem_singleton_self _)).worded
  | noProcedure => exact ⟨hf.worded, by simp⟩

/-- **Evaluation makes words of words.** -/
theorem Evaluates.worded : A.Speaks depth := by
  induction depth with
  | zero =>
    intro f s s' e log r h
    exact h.elim
  | succ depth ih =>
    intro f s s' e log r h hf he
    cases h with
    | symbol name =>
      -- A name that is not bound stands for itself, which is the expression.
      refine ⟨hf.worded, ?_⟩
      rintro v ⟨⟩
      cases hlookup : s.lookup? f name with
      | none => exact he.worded
      | some v => exact hf.lookup? hlookup
    | constant =>
      refine ⟨hf.worded, ?_⟩
      rintro v ⟨⟩
      exact he.worded
    | malformed => exact ⟨hf.worded, by simp⟩
    | unbound => exact ⟨hf.worded, by simp⟩
    | fail form_eq ready operands =>
      obtain ⟨hf₁, -, -⟩ := worded_operands ih operands hf fun e' he' =>
        he.part form_eq (Form.mem_parts_of_mem_operands he')
      exact ⟨hf₁.worded, by simp⟩
    | finish form_eq operands finishes =>
      obtain ⟨hf₁, hsize, hvalues⟩ := worded_operands ih operands hf fun e' he' =>
        he.part form_eq (Form.mem_parts_of_mem_operands he')
      exact worded_finishes ih finishes hf₁ (he.mono hsize) form_eq (hvalues _ rfl)

end

/-! ### Sessions -/

section
variable {root : FrameId} {lines : List Line} {s s' : Store}

/-- A session has the frames from its global one on. -/
def Region.since (root : FrameId) : Region := fun g => root ≤ g

/-- The global frame of a session is surrounded by the frames of the session, and its results are
admitted there. -/
structure Spelled (root : FrameId) (lines : List Line) (s : Store) : Prop where
  surrounds : (Region.since root).Surrounds s root
  results : ∀ line ∈ lines, ∀ v, line.result = .ok (some v) → (Region.since root).Admits s v

theorem worded_of_contains_root {v : Value} (h : s.root.2.Contains s.root.1 v) : v.Worded := by
  obtain ⟨frame, hframe, x, hmem⟩ := h
  rw [s.frames_root] at hframe
  obtain rfl := Option.some.inj hframe
  rcases standardBindings_cases hmem with ⟨r, rfl⟩ | ⟨p, rfl⟩ <;> rintro name ⟨⟩

theorem spelled_start (s : Store) : Spelled s.root.1 [] s.root.2 := by
  have hsize := s.size_root
  have hroot : s.root.1 < s.root.2.frames.size := by
    rw [hsize]
    exact Nat.lt_succ_self _
  -- The global frame is the last one, so the region has no other yet.
  have honly {g : FrameId} (hg : s.root.1 ≤ g) (hlt : g < s.root.2.frames.size) :
      g = s.root.1 := by
    rw [hsize] at hlt
    exact Nat.le_antisymm (Nat.le_of_lt_succ hlt) hg
  refine ⟨⟨⟨?_, ?_⟩, ?_, ⟨Nat.le_refl _, hroot⟩, ?_⟩, by simp⟩
  · intro g h hg houter
    obtain rfl := honly hg (Store.lt_size_of_outer? houter)
    rw [s.outer?_root] at houter
    cases houter
  · intro g v hg hv k hk
    obtain rfl := honly hg hv.lt_size
    exact absurd hk (Store.not_refers_of_contains_root hv)
  · intro g hg
    exact Nat.le_trans (Nat.le_of_lt hroot) hg
  · intro g v hg hv
    obtain rfl := honly hg hv.lt_size
    exact worded_of_contains_root hv

/-- One more line keeps this if the frame stays surrounded and its result is admitted. -/
theorem Spelled.append (h : Spelled root lines s) (hsize : s.frames.size ≤ s'.frames.size)
    (hroot : (Region.since root).Surrounds s' root) {line : Line}
    (hline : ∀ v, line.result = .ok (some v) → (Region.since root).Admits s' v) :
    Spelled root (lines ++ [line]) s' := by
  refine ⟨hroot, fun line' hline' v hv => ?_⟩
  rcases List.mem_append.1 hline' with hmem | hmem
  · exact (h.results line' hmem v hv).mono hsize
  · rw [List.mem_singleton.1 hmem] at hv
    exact hline v hv

theorem Spelled.next (h : Spelled root lines s) {depth : ℕ} {source : String} {result : Outcome}
    (ran : (evalText depth root source).run.run s = some (result, s')) :
    Spelled root (lines ++ [⟨source, result⟩]) s' := by
  rw [evalText_run] at ran
  cases hparse : parse source with
  | error x =>
    rw [hparse] at ran
    obtain ⟨rfl, rfl⟩ := Prod.mk.inj (Option.some.inj ran)
    exact h.append (Nat.le_refl _) h.surrounds (by simp)
  | ok e =>
    rw [hparse] at ran
    obtain ⟨log, heval⟩ := (describes_eval depth).1 ran
    have he : (Region.since root).Admits s e := Region.admits_of_readable (readable_of_parse hparse)
    obtain ⟨hroot, hvalue⟩ := Evaluates.worded.after heval h.surrounds he
    exact h.append heval.size_le hroot hvalue

/-- Sessions keep to words. -/
theorem Session.spelled (h : Session root lines s) : Spelled root lines s := by
  induction h with
  | start s => exact spelled_start s
  | line _ ran ih => exact ih.next ran

/-- What can be got at is admitted. -/
theorem Spelled.admits (h : Spelled root lines s) {v : Value} (hv : Reachable root lines s v) :
    (Region.since root).Admits s v := by
  have hcontains {g : FrameId} {x : String} {v : Value} (hg : Region.since root g)
      (bound : s.get? g x = some v) : (Region.since root).Admits s v := by
    have hmem := Store.contains_of_get? bound
    exact ⟨h.surrounds.closed.covers hg hmem, h.surrounds.worded hg hmem⟩
  induction hv with
  | result mem result => exact h.results _ mem _ result
  | global bound => exact hcontains (Nat.le_refl root) bound
  | item _ mem ih => exact ih.of_mem mem
  | captured _ mem bound ih =>
    have hscope := ih.covers .scope
    exact hcontains (h.surrounds.closed.mem_chain hscope.1 mem) bound

end

/-! ### Texts of results -/

/-- A value is written in words if its names are words and it holds no procedure. -/
theorem Value.Worded.legible {v : Value} (h : v.Worded)
    (hv : ∀ w, v.Holds w → w.isProcedure = false) : v.Legible := by
  induction v using Value.induction with
  | atom v atomic =>
    cases v with
    | int n => exact .leaf rfl ((Readable.int n).atom_text rfl).1
    | real x => exact .leaf rfl ((Readable.real x).atom_text rfl).1
    | bool b =>
      refine .leaf rfl ?_
      cases b <;> exact isWord_of_all (by decide) (by decide)
    | symbol name => exact .leaf rfl (h (.symbol name))
    | primitive p => exact absurd (hv _ (.self _)) (by simp [isProcedure])
    | list => cases atomic
    | closure => cases atomic
  | list items ih =>
    exact .list fun v mem => ih v mem (h.of_mem mem) fun w hw => hv w (.item mem hw)
  | closure => exact absurd (hv _ (.self _)) (by simp [isProcedure])

/-- **Names at run time are words**: so are all names in values that can be got at between the lines
of a session.  Hence the text of a result without procedures reads back, as a value with the same
lists in which each leaf is what the reader makes of its text.  A number is that number again, and a
truth value becomes a symbol. -/
theorem Session.names_are_words {root : FrameId} {lines : List Line} {s : Store}
    (session : Session root lines s) :
    (∀ v, Reachable root lines s v → ∀ name, v.Mentions name → IsWord name.toList) ∧
    (∀ line ∈ lines, ∀ v, line.result = .ok (some v) →
      (∀ w, v.Holds w → w.isProcedure = false) → parse v.text = .ok v.reread) ∧
    (∀ n, (Value.int n).reread = .int n) ∧ (∀ x, (Value.real x).reread = .real x) ∧
    ∀ b, (Value.bool b).reread = .symbol (if b then "true" else "false") := by
  have hspelled := session.spelled
  refine ⟨fun v hv name hname => (hspelled.admits hv).worded hname,
    fun line hline v hvalue hplain => ?_, fun n => (Readable.int n).legible_and_reread_eq.2,
    fun x => (Readable.real x).legible_and_reread_eq.2, fun b => ?_⟩
  · have hworded := (hspelled.results line hline v hvalue).worded
    exact parse_text_of_legible (hworded.legible hplain)
  · cases b <;> rfl

/-- A result with a symbol that was joined of two, which reads back as a number. -/
theorem Session.names_are_words_joined : ∃ s v,
    Session 0 [⟨"(list (+ in f) (= 1 1) -7)", .ok (some v)⟩] s ∧
      v = .list [.symbol "inf", .bool true, .int (-7)] ∧ IsWord "inf".toList ∧
      parse v.text = .ok (.list [.real (.infinity false), .symbol "true", .int (-7)]) := by
  have htokens : tokenize "(list (+ in f) (= 1 1) -7)" = ["(", "list", "(", "+", "in", "f", ")",
      "(", "=", "1", "1", ")", "-7", ")"] := by decide +kernel
  have hparse : parse "(list (+ in f) (= 1 1) -7)" = .ok (.list [.symbol "list",
      .list [.symbol "+", .symbol "in", .symbol "f"], .list [.symbol "=", .int 1, .int 1],
      .int (-7)]) := by
    rw [parse_eq, htokens]
    rfl
  let s := Store.empty.root.2
  have hname {depth : ℕ} (x : String) : Evaluates (depth + 1) 0 s (.symbol x) []
      (.ok (some ((s.get? 0 x).getD (.symbol x)))) s := by
    have hlookup : s.lookup? 0 x = s.get? 0 x := Store.lookup?_of_outer?_none rfl
    rw [← hlookup]
    exact Rule.symbol x
  have hnumber {depth : ℕ} (n : Int64) :
      Evaluates (depth + 1) 0 s (.int n) [] (.ok (some (.int n))) s := Rule.constant rfl
  obtain ⟨_, hjoin⟩ : ∃ log, Evaluates 2 0 s (.list [.symbol "+", .symbol "in", .symbol "f"]) log
      (.ok (some (.symbol "inf"))) s :=
    ⟨_, Rule.finish rfl (.cons (hname "+") (.cons (hname "in") (.cons (hname "f") .nil)))
      .primitive⟩
  obtain ⟨_, htest⟩ : ∃ log, Evaluates 2 0 s (.list [.symbol "=", .int 1, .int 1]) log
      (.ok (some (.bool true))) s :=
    ⟨_, Rule.finish rfl (.cons (hname "=") (.cons (hnumber 1) (.cons (hnumber 1) .nil)))
      .primitive⟩
  have hran : (evalText 3 0 "(list (+ in f) (= 1 1) -7)").run.run s
      = some (.ok (some (.list [.symbol "inf", .bool true, .int (-7)])), s) := by
    rw [evalText_run, hparse]
    exact (describes_eval 3).2 ⟨_, Rule.finish rfl (.cons (hname "list")
      (.cons hjoin (.cons htest (.cons (hnumber (-7)) .nil)))) .primitive⟩
  have hsession := Session.line (.start Store.empty) hran
  obtain ⟨hnames, htexts, -⟩ := Session.names_are_words hsession
  refine ⟨s, _, hsession, rfl, ?_, ?_⟩
  · exact hnames _ (.result (List.mem_singleton_self _) rfl) "inf"
      (.item (List.mem_cons_self ..) (.symbol "inf"))
  · refine htexts _ (List.mem_singleton_self _) _ rfl fun w hw => ?_
    cases hw with
    | self => rfl
    | item mem hw =>
      simp only [List.mem_cons, List.not_mem_nil, or_false] at mem
      rcases mem with rfl | rfl | rfl <;> cases hw <;> rfl

end SmallLisp
