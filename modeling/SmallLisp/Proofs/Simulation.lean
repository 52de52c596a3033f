import SmallLisp.Proofs.Correspondence
import SmallLisp.Proofs.Evaluates

/-!
# Evaluation in corresponding stores

Evaluating similar expressions in paired frames of corresponding stores comes to similar values or
the same error, or in both cases to no outcome, and leaves stores that correspond along a pairing
with more pairs (`eval_simulates`).

`Simulates` says this of two computations.  It is put together along their steps: `Simulates.bind`
for two steps one after the other, and a lemma for each step that the evaluator takes.
-/

namespace SmallLisp

variable {α β γ δ : Type} {ρ ρ' : Pairing}

/-! ### Computations -/

/-- Outcomes of two computations that agree, with stores that correspond. -/
inductive Matched (ρ : Pairing) (Q : Pairing → α → β → Prop) :
    Option (Except Error α × Store) → Option (Except Error β × Store) → Prop
  | none : Matched ρ Q none none
  | some {ρ' : Pairing} {r : Except Error α} {r' : Except Error β} {s t : Store}
      (grown : ρ.Extends ρ') (stores : Corresponds ρ' s t) (results : Agree (Q ρ') r r') :
      Matched ρ Q (some (r, s)) (some (r', t))

/-- Computations whose outcomes match in all corresponding stores. -/
def Simulates (ρ : Pairing) (Q : Pairing → α → β → Prop) (x : Action α) (y : Action β) : Prop :=
  ∀ ⦃s t⦄, Corresponds ρ s t → Matched ρ Q (x.run.run s) (y.run.run t)

namespace Simulates

variable {Q : Pairing → α → β → Prop} {Q' : Pairing → γ → δ → Prop}

theorem pure {a : α} {b : β} (h : Q ρ a b) : Simulates ρ Q (pure a) (pure b) :=
  fun _ _ hst => .some (.refl ρ) hst (.ok h)

theorem throw (x : Error) : Simulates ρ Q (throw x) (throw x) :=
  fun _ _ hst => .some (.refl ρ) hst (.error x)

theorem ofExcept {r : Except Error α} {r' : Except Error β} (h : Agree (Q ρ) r r') :
    Simulates ρ Q (ofExcept r) (ofExcept r') := by
  cases h with
  | ok related => exact pure related
  | error x => exact throw x

/-- Two steps one after the other, the second in all stores that the first may leave. -/
theorem bind {x : Action α} {y : Action β} {k : α → Action γ} {l : β → Action δ}
    (hx : Simulates ρ Q x y)
    (hk : ∀ {ρ' a b}, ρ.Extends ρ' → Q ρ' a b → Simulates ρ' Q' (k a) (l b)) :
    Simulates ρ Q' (x >>= k) (y >>= l) := by
  intro s t hst
  rw [Action.run_bind, Action.run_bind]
  have hxy := hx hst
  revert hxy
  generalize x.run.run s = o, y.run.run t = o'
  rintro (_ | ⟨hρ, hst', hresults⟩)
  · exact .none
  · -- Both first steps fail, or the second steps are taken in stores that correspond again.
    cases hresults with
    | error x => exact .some hρ hst' (.error x)
    | ok related =>
      have hkl := hk hρ related hst'
      simp only [Option.bind_some]
      revert hkl
      generalize (k _).run.run _ = o, (l _).run.run _ = o'
      rintro (_ | ⟨hρ', hst'', hresults'⟩)
      · exact .none
      · exact .some (hρ.trans hρ') hst'' hresults'

/-- A first step that only looks at the stores. -/
theorem get_bind {k : Store → Action α} {l : Store → Action β}
    (h : ∀ {s t}, Corresponds ρ s t → Matched ρ Q ((k s).run.run s) ((l t).run.run t)) :
    Simulates ρ Q (get >>= k) (get >>= l) := by
  intro s t hst
  rw [Action.run_get_bind, Action.run_get_bind]
  exact h hst

/-- If the second computation comes to something, the first comes to something that matches. -/
theorem exists_ok {x : Action α} {y : Action β} (h : Simulates ρ Q x y) {s t t' : Store} {b : β}
    (hst : Corresponds ρ s t) (hy : y.run.run t = some (.ok b, t')) :
    ∃ a s' ρ', x.run.run s = some (.ok a, s') ∧ ρ.Extends ρ' ∧ Corresponds ρ' s' t' ∧
      Q ρ' a b := by
  have hmatched := h hst
  rw [hy] at hmatched
  generalize x.run.run s = o at hmatched
  cases hmatched with
  | some hρ hstores hresults =>
    cases hresults with
    | ok related => exact ⟨_, _, _, rfl, hρ, hstores, related⟩

end Simulates

/-! ### Forms -/

/-- Forms of one kind with the same names and similar parts. -/
inductive SimilarForms (ρ : Pairing) : Form → Form → Prop
  | quotation {e e' : Value} (similar : Similar ρ e e') :
      SimilarForms ρ (.quotation e) (.quotation e')
  | conditional {e₁ e₂ e₃ e₁' e₂' e₃' : Value} (test : Similar ρ e₁ e₁')
      (consequent : Similar ρ e₂ e₂') (alternative : Similar ρ e₃ e₃') :
      SimilarForms ρ (.conditional e₁ e₂ e₃) (.conditional e₁' e₂' e₃')
  | definition {name : String} {e e' : Value} (similar : Similar ρ e e') :
      SimilarForms ρ (.definition name e) (.definition name e')
  | assignment {name : String} {e e' : Value} (similar : Similar ρ e e') :
      SimilarForms ρ (.assignment name e) (.assignment name e')
  | abstraction {params : List String} {body body' : Value} (similar : Similar ρ body body') :
      SimilarForms ρ (.abstraction params body) (.abstraction params body')
  | application {head head' : Value} {args args' : List Value} (similar : Similar ρ head head')
      (items : List.Forall₂ (Similar ρ) args args') :
      SimilarForms ρ (.application head args) (.application head' args')

theorem symbols?_eq {xs ys : List Value} (h : List.Forall₂ (Similar ρ) xs ys) :
    Form.symbols? xs = Form.symbols? ys := by
  induction h with
  | nil => rfl
  | @cons v w _ _ hv _ ih =>
    cases hv with
    | atom =>
      cases v with
      | symbol name => rw [Form.symbols?, Form.symbols?, ih]
      | _ => rfl
    | list => rfl
    | closure => rfl

/-- A symbol is similar to itself only. -/
theorem similar_symbol_iff {name : String} {v : Value} :
    (Similar ρ (.symbol name) v ↔ v = .symbol name) ∧
      (Similar ρ v (.symbol name) ↔ v = .symbol name) := by
  refine ⟨⟨?_, ?_⟩, ?_, ?_⟩
  · rintro ⟨⟩
    rfl
  · rintro rfl
    exact Alike.atom rfl
  · rintro ⟨⟩
    rfl
  · rintro rfl
    exact Alike.atom rfl

/-- Similar lists are both a symbol and an expression, or neither is. -/
theorem symbol_pair_cases {xs ys : List Value} (h : List.Forall₂ (Similar ρ) xs ys) :
    (∃ name e e', xs = [.symbol name, e] ∧ ys = [.symbol name, e'] ∧ Similar ρ e e') ∨
      (∀ name e, xs ≠ [.symbol name, e]) ∧ ∀ name e, ys ≠ [.symbol name, e] := by
  by_cases hxs : ∃ name e, xs = [.symbol name, e]
  · obtain ⟨name, e, rfl⟩ := hxs
    simp only [List.forall₂_cons_left_iff, List.forall₂_nil_left_iff, similar_symbol_iff] at h
    obtain ⟨_, _, rfl, ⟨e', _, he, rfl, rfl⟩, rfl⟩ := h
    exact Or.inl ⟨name, e, e', rfl, rfl, he⟩
  · refine Or.inr ⟨fun name e hx => hxs ⟨name, e, hx⟩, ?_⟩
    rintro name e' rfl
    simp only [List.forall₂_cons_right_iff, List.forall₂_nil_right_iff, similar_symbol_iff] at h
    obtain ⟨_, _, rfl, ⟨e, _, he, rfl, rfl⟩, rfl⟩ := h
    exact hxs ⟨name, e, rfl⟩

/-- Similar lists are both a list and an expression, or neither is. -/
theorem list_pair_cases {xs ys : List Value} (h : List.Forall₂ (Similar ρ) xs ys) :
    (∃ vars vars' e e', xs = [.list vars, e] ∧ ys = [.list vars', e'] ∧
      List.Forall₂ (Similar ρ) vars vars' ∧ Similar ρ e e') ∨
        (∀ vars e, xs ≠ [.list vars, e]) ∧ ∀ vars e, ys ≠ [.list vars, e] := by
  by_cases hxs : ∃ vars e, xs = [.list vars, e]
  · obtain ⟨vars, e, rfl⟩ := hxs
    simp only [List.forall₂_cons_left_iff, List.forall₂_nil_left_iff, Alike.list_left_iff] at h
    obtain ⟨_, _, ⟨vars', rfl, hvars⟩, ⟨e', _, he, rfl, rfl⟩, rfl⟩ := h
    exact Or.inl ⟨vars, vars', e, e', rfl, rfl, hvars, he⟩
  · refine Or.inr ⟨fun vars e hx => hxs ⟨vars, e, hx⟩, ?_⟩
    rintro vars' e' rfl
    simp only [List.forall₂_cons_right_iff, List.forall₂_nil_right_iff, Alike.list_right_iff] at h
    obtain ⟨_, _, ⟨vars, rfl, hvars⟩, ⟨e, _, he, rfl, rfl⟩, rfl⟩ := h
    exact hxs ⟨vars, e, rfl⟩

theorem ofSymbol_agree {name : String} {xs ys : List Value}
    (h : List.Forall₂ (Similar ρ) xs ys) :
    Agree (SimilarForms ρ) (Form.ofSymbol name xs) (Form.ofSymbol name ys) := by
  unfold Form.ofSymbol
  split
  · rcases h with _ | ⟨h₁, _ | ⟨h₂, h⟩⟩
    · exact .error _
    · exact .ok (.quotation h₁)
    · exact .error _
  · rcases h with _ | ⟨h₁, _ | ⟨h₂, _ | ⟨h₃, _ | ⟨h₄, h⟩⟩⟩⟩
    · exact .error _
    · exact .error _
    · exact .error _
    · exact .ok (.conditional h₁ h₂ h₃)
    · exact .error _
  · rcases symbol_pair_cases h with ⟨x, e, e', rfl, rfl, he⟩ | ⟨hxs, hys⟩
    · exact .ok (.definition he)
    · split
      · exact absurd rfl (hxs _ _)
      · exact .error _
  · rcases symbol_pair_cases h with ⟨x, e, e', rfl, rfl, he⟩ | ⟨hxs, hys⟩
    · exact .ok (.assignment he)
    · split
      · exact absurd rfl (hxs _ _)
      · exact .error _
  · rcases list_pair_cases h with ⟨vars, vars', e, e', rfl, rfl, hvars, he⟩ | ⟨hxs, hys⟩
    · simp only [symbols?_eq hvars]
      cases Form.symbols? vars' with
      | none => exact .error _
      | some params => exact .ok (.abstraction he)
    · split
      · exact absurd rfl (hxs _ _)
      · exact .error _
  · exact .ok (.application (Alike.atom rfl) h)

theorem ofList_agree {xs ys : List Value} (h : List.Forall₂ (Similar ρ) xs ys) :
    Agree (SimilarForms ρ) (Form.ofList xs) (Form.ofList ys) := by
  cases h with
  | nil => exact .error _
  | @cons v w _ _ hv htail =>
    cases hv with
    | atom atomic =>
      cases v with
      | symbol name => exact ofSymbol_agree htail
      | list => cases atomic
      | closure => cases atomic
      | _ => exact .ok (.application (Alike.atom rfl) htail)
    | list items => exact .ok (.application (Alike.list items) htail)
    | closure related => exact .ok (.application (Alike.closure related) htail)

/-! ### The steps of the evaluator -/

/-- Answers that are similar values, or both nothing. -/
abbrev SimilarAnswers (ρ : Pairing) : Option Value → Option Value → Prop :=
  Option.Rel (Similar ρ)

section
variable {f f' : FrameId} {v w : Value} {x : String}

theorem require_simulates {err : Error} {o o' : Option Value} (h : SimilarAnswers ρ o o') :
    Simulates ρ Similar (Action.require err o) (Action.require err o') := by
  cases h with
  | none => exact Simulates.throw err
  | some hv => exact Simulates.pure hv

theorem evalSymbol_simulates (hf : ρ f f') :
    Simulates ρ Similar (evalSymbol f x) (evalSymbol f' x) := by
  intro s t hst
  have hvalue : Similar ρ ((s.lookup? f x).getD (.symbol x))
      ((t.lookup? f' x).getD (.symbol x)) := by
    rcases eq_none_or_eq_some_of_rel (hst.lookup? hf (x := x)) with ⟨hs, ht⟩ | ⟨v, w, hs, ht, hv⟩
    · rw [hs, ht]
      exact Alike.atom rfl
    · rw [hs, ht]
      exact hv
  exact .some (.refl ρ) hst (.ok hvalue)

/-- Binding a name in paired frames. -/
theorem set_simulates (hf : ρ f f') (hv : Similar ρ v w) :
    Simulates ρ SimilarAnswers
      (do modify fun s => s.set f x v; return none)
      (do modify fun s => s.set f' x w; return none) :=
  fun _ _ hst => .some (.refl ρ) (hst.set hf hv) (.ok .none)

theorem makeClosure_simulates {params : List String} (hf : ρ f f') (hv : Similar ρ v w) :
    Simulates ρ Similar (makeClosure f params v) (makeClosure f' params w) := by
  intro s t hst
  have hstores : Corresponds ρ s.stamp.2 t.stamp.2 := ⟨hst.unique, hst.frames⟩
  exact .some (.refl ρ) hstores (.ok (Alike.closure (.closure hv hf)))

/-- The frames of two calls are paired from then on. -/
theorem enter_simulates {params : List String} {args args' : List Value} (hf : ρ f f')
    (hargs : List.Forall₂ (Similar ρ) args args') :
    Simulates ρ (fun ρ => ρ) (enter params args f) (enter params args' f') := by
  unfold enter
  rw [hargs.length_eq]
  split_ifs
  · intro s t hst
    exact .some (ρ.extends_next s t) (hst.nested hargs hf) (.ok (Or.inr ⟨rfl, rfl⟩))
  · exact Simulates.throw _

end

/-! ### Evaluation -/

/-- Whether an evaluator treats similar expressions in paired frames alike. -/
def Uniform (ev : FrameId → Value → Action (Option Value)) : Prop :=
  ∀ ⦃ρ f f' e e'⦄, ρ f f' → Similar ρ e e' → Simulates ρ SimilarAnswers (ev f e) (ev f' e')

section
variable {ev : FrameId → Value → Action (Option Value)} {f f' : FrameId}

theorem operand_simulates (hev : Uniform ev) {err : Error} {e e' : Value} (hf : ρ f f')
    (he : Similar ρ e e') :
    Simulates ρ Similar (evalOperand ev f err e) (evalOperand ev f' err e') :=
  (hev hf he).bind fun _ ho => require_simulates ho

theorem operands_simulates (hev : Uniform ev) {err : Error} {es es' : List Value} (hf : ρ f f')
    (hes : List.Forall₂ (Similar ρ) es es') :
    Simulates ρ (fun ρ => List.Forall₂ (Similar ρ)) (evalOperands ev f err es)
      (evalOperands ev f' err es') := by
  induction es generalizing ρ es' with
  | nil =>
    cases hes
    exact Simulates.pure .nil
  | cons e es ih =>
    cases hes with
    | cons he hes =>
      rw [evalOperands_cons, evalOperands_cons]
      refine (operand_simulates hev hf he).bind fun hρ hv => ?_
      refine (ih (hρ hf) (Similar.mono_list hρ hes)).bind fun hρ' hvs => ?_
      exact Simulates.pure (.cons (hv.mono hρ') hvs)

theorem call_simulates (hev : Uniform ev) {v w : Value} {args args' : List Value}
    (hv : Similar ρ v w) (hargs : List.Forall₂ (Similar ρ) args args') :
    Simulates ρ SimilarAnswers (call ev v args) (call ev w args') := by
  have hplain : v.isProcedure = false → w.isProcedure = false →
      Simulates ρ SimilarAnswers (call ev v args) (call ev w args') := by
    intro hpv hpw
    rw [call_of_not_isProcedure hpv, call_of_not_isProcedure hpw]
    cases hargs with
    | nil => exact Simulates.pure (.some hv)
    | cons => exact Simulates.throw _
  cases hv with
  | atom atomic =>
    cases v with
    | primitive p =>
      have happly : Simulates ρ Similar (ofExcept (p.apply args)) (ofExcept (p.apply args')) :=
        Simulates.ofExcept (p.apply_agree hargs)
      exact happly.bind fun _ hr => Simulates.pure (.some hr)
    | closure => cases atomic
    | _ => exact hplain rfl rfl
  | list => exact hplain rfl rfl
  | closure related =>
    cases related with
    | closure hbody hscope =>
      exact (enter_simulates hscope hargs).bind fun hρ hg => hev hg (Similar.mono hρ hbody)

theorem evalForm_simulates (hev : Uniform ev) {form form' : Form} (hf : ρ f f')
    (hform : SimilarForms ρ form form') :
    Simulates ρ SimilarAnswers (evalForm ev f form) (evalForm ev f' form') := by
  cases hform with
  | quotation he => exact Simulates.pure (.some he)
  | conditional htest hconsequent halternative =>
    -- Similar truth values are the same, so both take the same branch.
    refine (hev hf htest).bind fun hρ₁ ho => ?_
    refine (require_simulates ho).bind fun {_ v w} hρ₂ hv => ?_
    have hρ := hρ₁.trans hρ₂
    cases hv with
    | atom =>
      cases v with
      | bool b =>
        cases b
        · exact hev (hρ hf) (halternative.mono hρ)
        · exact hev (hρ hf) (hconsequent.mono hρ)
      | _ => exact Simulates.throw _
    | list => exact Simulates.throw _
    | closure => exact Simulates.throw _
  | definition he =>
    refine (hev hf he).bind fun hρ₁ ho => ?_
    refine (require_simulates ho).bind fun hρ₂ hv => ?_
    exact set_simulates (hρ₂ (hρ₁ hf)) hv
  | @assignment name e e' he =>
    -- The frames are found before the values are known, and stay paired.
    refine Simulates.get_bind fun hst => ?_
    rcases eq_none_or_eq_some_of_rel (hst.find? hf (x := name)) with ⟨hs, ht⟩ | ⟨g, g', hs, ht, hg⟩
    · rw [hs, ht]
      exact Simulates.throw _ hst
    · rw [hs, ht]
      refine Simulates.bind (hev hf he) (fun hρ₁ ho => ?_) hst
      refine (require_simulates ho).bind fun hρ₂ hv => ?_
      exact set_simulates (hρ₂ (hρ₁ hg)) hv
  | abstraction hbody =>
    exact (makeClosure_simulates hf hbody).bind fun _ hv => Simulates.pure (.some hv)
  | application hhead hargs =>
    refine (hev hf hhead).bind fun hρ₁ ho => ?_
    refine (require_simulates ho).bind fun hρ₂ hv => ?_
    have hρ := hρ₁.trans hρ₂
    refine (operands_simulates hev (hρ hf) (Similar.mono_list hρ hargs)).bind fun hρ₃ hvs => ?_
    exact call_simulates hev (hv.mono hρ₃) hvs

/-- **Evaluation does not depend on which frames there are**: similar expressions in paired frames
of corresponding stores come to the same, up to the pairing. -/
theorem eval_simulates (depth : ℕ) : Uniform (eval depth) := by
  induction depth with
  | zero => exact fun ρ f f' e e' _ _ s t _ => .none
  | succ depth ih =>
    intro ρ f f' e e' hf he
    cases he with
    | atom atomic =>
      cases e with
      | symbol name =>
        exact (evalSymbol_simulates hf).bind fun _ hv => Simulates.pure (.some hv)
      | list => cases atomic
      | closure => cases atomic
      | _ => exact Simulates.pure (.some (Alike.atom rfl))
    | list items =>
      have hform : Simulates ρ SimilarForms (ofExcept (Form.ofList _)) (ofExcept (Form.ofList _)) :=
        Simulates.ofExcept (ofList_agree items)
      exact hform.bind fun hρ hform => evalForm_simulates ih (hρ hf) hform
    | closure related => exact Simulates.pure (.some (Alike.closure related))

end

end SmallLisp
