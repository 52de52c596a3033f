import SmallLisp.Proofs.Alike
import SmallLisp.Proofs.Effects
import SmallLisp.Proofs.Session

/-!
# Failures

A line that fails says why, and the wording tells what it may have done.  Text that cannot be read
is refused by the reader (`Error.OfReading`).  All other failures come from evaluation: either
nothing has been bound by then (`Error.Early`), or something had to have a value and was found to
have none or the wrong one (`Error.Late`), which may be after a name was bound.

`Evaluates.blames` shows this for evaluations, by the rules: an operand that binds a name has no
value, and what is missing it says so.  `interpret_error` is the statement about lines.
-/

namespace SmallLisp

/-! ### What errors say -/

namespace Error

/-- Whether an error is of a kind and has one of some wordings. -/
def Says (x : Error) (kind : ErrorKind) (wordings : List String) : Prop :=
  x.kind = kind ∧ x.wording ∈ wordings

instance (x : Error) (kind : ErrorKind) (wordings : List String) :
    Decidable (x.Says kind wordings) :=
  inferInstanceAs (Decidable (_ ∧ _))

/-- Errors of texts that cannot be read. -/
def OfReading (x : Error) : Prop :=
  x.Says .malformed ["unexpected EOF while reading", "unexpected )", "unexpected trailing tokens"]

instance (x : Error) : Decidable x.OfReading :=
  inferInstanceAs (Decidable (x.Says _ _))

/-- Errors of evaluations that have bound nothing. -/
def Early (x : Error) : Prop :=
  x.Says .malformed ["invalid quotation", "invalid lambda", "invalid procedure input"] ∨
    x.kind = .evaluation ∧ ∃ name, x.wording = "unbound symbol: " ++ name

/-- Errors of evaluations that may have bound a name. -/
def Late (x : Error) : Prop :=
  x.Says .malformed
      ["invalid conditional statement", "invalid definition", "invalid assignment"] ∨
    x.Says .evaluation ["invalid procedure called"]

/-- Errors that are both of one kind share a wording. -/
theorem Says.exists_wording {x : Error} {kind : ErrorKind} {wordings wordings' : List String}
    (h : x.Says kind wordings) (h' : x.Says kind wordings') :
    ∃ wording ∈ wordings, wording ∈ wordings' :=
  ⟨x.wording, h.2, h'.2⟩

/-- Evaluation does not say what the reader says. -/
theorem not_ofReading {x : Error} (h : x.Early ∨ x.Late) : ¬x.OfReading := by
  intro hreading
  rcases h with (hwording | ⟨hkind, -⟩) | hwording | ⟨hkind, -⟩
  · simpa using hwording.exists_wording hreading
  · cases hkind.symm.trans hreading.1
  · simpa using hwording.exists_wording hreading
  · cases hkind.symm.trans hreading.1

theorem early_invalidLambda : Early .invalidLambda := Or.inl (by decide)

theorem early_invalidInput : Early .invalidInput := Or.inl (by decide)

theorem early_unbound (name : String) : Early (.unbound name) := Or.inr ⟨rfl, name, rfl⟩

theorem late_invalidConditional : Late .invalidConditional := Or.inl (by decide)

theorem late_invalidDefinition : Late .invalidDefinition := Or.inl (by decide)

theorem late_invalidAssignment : Late .invalidAssignment := Or.inl (by decide)

theorem late_invalidCall : Late .invalidCall := Or.inr (by decide)

end Error

/-- What the reader refuses is an error of reading. -/
theorem Reader.ofReading_of_step {lists : Open} {token : String} {x : Error}
    (h : step lists token = .fail x) : x.OfReading := by
  unfold step at h
  split_ifs at h
  · rcases lists with _ | ⟨items, outer⟩
    · cases h
      decide
    · rcases outer <;> cases h
  · rcases lists <;> cases h

theorem Reader.ofReading_of_readTokens {lists : Open} {tokens : List String} {x : Error}
    (h : (readTokens lists tokens).1 = .error x) : x.OfReading := by
  induction tokens generalizing lists with
  | nil =>
    obtain rfl := Except.error.inj h
    decide
  | cons token tokens ih =>
    rw [readTokens_cons] at h
    rcases hs : step lists token with v | lists' | y
    · rw [hs] at h
      cases h
    · rw [hs] at h
      exact ih h
    · rw [hs] at h
      obtain rfl := Except.error.inj h
      exact ofReading_of_step hs

theorem ofReading_of_parse {source : String} {x : Error} (h : parse source = .error x) :
    x.OfReading := by
  rw [parse_eq, parseTokens] at h
  rcases hread : Reader.readTokens [] (tokenize source) with ⟨y | v, rest⟩
  · rw [hread] at h
    obtain rfl := Except.error.inj h
    exact Reader.ofReading_of_readTokens (congrArg Prod.fst hread)
  · rw [hread] at h
    simp only at h
    split_ifs at h
    cases h
    decide

/-! ### Primitives -/

namespace Primitive

/-- Whether the only error of a primitive is that its arguments are wrong. -/
def Rejecting (g : List Value → Result) : Prop :=
  ∀ ⦃args : List Value⦄ ⦃x : Error⦄, g args = .error x → x = .invalidInput

end Primitive

/-- Primitives on single values are rejecting. -/
theorem Scalar.rejecting {g : List Value → Primitive.Result} (hg : Scalar g) :
    Primitive.Rejecting g := by
  intro args x h
  have hresult := hg args
  rw [h] at hresult
  cases hresult
  rfl

namespace Primitive

theorem rejecting_appending : Rejecting appending := by
  intro args x h
  unfold appending at h
  split at h <;> cases h
  rfl

theorem rejecting_first : Rejecting first := by
  intro args x h
  unfold first at h
  split at h <;> cases h
  rfl

theorem rejecting_rest : Rejecting rest := by
  intro args x h
  unfold rest at h
  split at h <;> cases h
  rfl

theorem rejecting_counting : Rejecting counting := by
  intro args x h
  unfold counting at h
  split at h <;> cases h
  rfl

theorem rejecting_testing (test : Value → Bool) : Rejecting (testing test) := by
  intro args x h
  unfold testing at h
  split at h <;> cases h
  rfl

theorem eq_invalidInput_of_mapM_toReal {items : List Value} {x : Error}
    (h : items.mapM Value.toReal = .error x) : x = .invalidInput := by
  induction items with
  | nil => cases h
  | cons v items ih =>
    rw [List.mapM_cons] at h
    rcases v.toReal_cases with hv | ⟨-, y, hv⟩
    · rw [hv] at h
      cases h
      rfl
    · rw [hv] at h
      rcases hitems : items.mapM Value.toReal with z | reals
      · rw [hitems] at h
        cases h
        exact ih hitems
      · rw [hitems] at h
        cases h

theorem rejecting_summing : Rejecting summing := by
  intro args x h
  unfold summing at h
  split at h
  · rename_i items
    split at h
    · cases h
    · rcases hitems : items.mapM Value.toReal with y | reals
      · rw [hitems] at h
        cases h
        exact eq_invalidInput_of_mapM_toReal hitems
      · rw [hitems] at h
        cases h
  · cases h
    rfl

/-- All primitives are rejecting. -/
theorem rejecting_apply (p : Primitive) : Rejecting p.apply := by
  have hlist : Rejecting fun args => .ok (.list args) := by
    rintro args x ⟨⟩
  exact apply_cases Rejecting Scalar.rejecting rejecting_appending rejecting_first rejecting_rest
    rejecting_counting hlist (rejecting_testing _) (rejecting_testing _) rejecting_summing p

end Primitive

/-! ### Forms -/

namespace Form

/-- What is wrong when a part has no value may be found late. -/
theorem late_lack {form : Form} (h : form.operands ≠ []) : form.lack.Late := by
  cases form with
  | quotation => exact absurd rfl h
  | conditional => exact Error.late_invalidConditional
  | definition => exact Error.late_invalidDefinition
  | assignment => exact Error.late_invalidAssignment
  | abstraction => exact absurd rfl h
  | application => exact Error.late_invalidCall

/-- Lists that are no form are refused by what their first word stands for. -/
theorem early_or_late_of_ofSymbol {name : String} {args : List Value} {x : Error}
    (h : ofSymbol name args = .error x) : x.Early ∨ x.Late := by
  unfold ofSymbol at h
  split at h
  · split at h <;> cases h
    exact Or.inl (Or.inl (by decide))
  · split at h <;> cases h
    exact Or.inr Error.late_invalidConditional
  · split at h <;> cases h
    exact Or.inr Error.late_invalidDefinition
  · split at h <;> cases h
    exact Or.inr Error.late_invalidAssignment
  · split at h
    · split at h <;> cases h
      exact Or.inl Error.early_invalidLambda
    · cases h
      exact Or.inl Error.early_invalidLambda
  · cases h

theorem early_or_late_of_ofList {items : List Value} {x : Error} (h : ofList items = .error x) :
    x.Early ∨ x.Late := by
  unfold ofList at h
  split at h
  · cases h
    exact Or.inr Error.late_invalidCall
  · exact early_or_late_of_ofSymbol h
  · cases h

end Form

/-! ### Evaluations -/

namespace Evaluates

open Effect

/-- What an error says of the changes before it: either it is early and they bind nothing, or it is
late. -/
def Blames (log : List Effect) (x : Error) : Prop := x.Early ∧ Quiet log ∨ x.Late

theorem Blames.append {log log' : List Effect} {x : Error} (h : Quiet log) (h' : Blames log' x) :
    Blames (log ++ log') x := by
  rcases h' with ⟨hearly, hquiet⟩ | hlate
  · exact Or.inl ⟨hearly, h.append hquiet⟩
  · exact Or.inr hlate

theorem blames_nil {x : Error} (h : x.Early ∨ x.Late) : Blames [] x := by
  rcases h with hearly | hlate
  · exact Or.inl ⟨hearly, Quiet.nil⟩
  · exact Or.inr hlate

theorem blames_operands {part : Judgement} {lack x : Error} {s s' : Store} {es : List Value}
    {log : List Effect} {r : Except Error (List Value)}
    (hpart : ∀ {s s' e log x}, part s e log (.error x) s' → Blames log x)
    (hvalue : ∀ {s s' e log v}, part s e log (.ok (some v)) s' → Quiet log)
    (hlack : es ≠ [] → lack.Late) (h : Operands part lack s es log r s') (hr : r = .error x) :
    Blames log x := by
  induction h generalizing x with
  | nil => cases hr
  | @cons _ _ _ _ _ _ _ _ r head _ ih =>
    cases r with
    | ok values => cases hr
    | error y =>
      obtain rfl := Except.error.inj hr
      exact (ih (fun _ => hlack (List.cons_ne_nil _ _)) rfl).append (hvalue head)
  | silent head =>
    -- The operand has bound a name, and the form finds that it has no value.
    obtain rfl := Except.error.inj hr
    exact Or.inr (hlack (List.cons_ne_nil _ _))
  | fail head =>
    obtain rfl := Except.error.inj hr
    exact hpart head

theorem blames_finishes {part : FrameId → Judgement} {f : FrameId} {before s s' : Store}
    {form : Form} {values : List Value} {log : List Effect} {r : Outcome} {x : Error}
    (hpart : ∀ {g s s' e log x}, part g s e log (.error x) s' → Blames log x)
    (h : Finishes part f before s form values log r s') (hr : r = .error x) : Blames log x := by
  cases h with
  | conditional chosen =>
    subst hr
    exact hpart chosen
  | @primitive _ _ values p =>
    have hx : p.apply values = .error x := by
      rcases happly : p.apply values with y | v
      · rw [happly] at hr
        cases hr
        rfl
      · rw [happly] at hr
        cases hr
    obtain rfl := p.rejecting_apply hx
    exact blames_nil (Or.inl Error.early_invalidInput)
  | closure agree called =>
    subst hr
    exact (hpart called).append (Quiet.frame _ _ _)
  | noBool =>
    cases hr
    exact Or.inr Error.late_invalidConditional
  | arity =>
    cases hr
    exact blames_nil (Or.inl Error.early_invalidInput)
  | noProcedure =>
    cases hr
    exact Or.inr Error.late_invalidCall
  | _ => cases hr

/-- An evaluation that fails early has bound nothing. -/
theorem blames {depth : ℕ} {f : FrameId} {s s' : Store} {e : Value} {log : List Effect}
    {x : Error} (h : Evaluates depth f s e log (.error x) s') : Blames log x := by
  induction depth generalizing f s s' e log x with
  | zero => exact h.elim
  | succ depth ih =>
    cases h with
    | malformed form => exact blames_nil (Form.early_or_late_of_ofList form)
    | unbound => exact blames_nil (Or.inl (Error.early_unbound _))
    | fail form_eq ready operands =>
      exact blames_operands ih (fun hvalue => hvalue.shape) Form.late_lack operands rfl
    | finish form_eq operands finishes =>
      have hoperands : Quiet _ := shape_operands shape operands
      exact (blames_finishes ih finishes rfl).append hoperands

end Evaluates

/-- Changes that bind one name at most leave all other bindings of the frames that were there. -/
theorem Effect.exists_get?_replay_eq {log : List Effect} (h : Quiet log ∨ EndsInBinding log)
    (s : Store) : ∃ g x, ∀ g' < s.frames.size, ∀ y, (g', y) ≠ (g, x) →
      (replay s log).get? g' y = s.get? g' y := by
  rcases h with hquiet | ⟨before, g, x, v, rfl, hbefore⟩
  · exact ⟨0, "", fun g' hg' y _ => Store.get?_congr ((hquiet.grows s).frames g' hg')⟩
  · refine ⟨g, x, fun g' hg' y hne => ?_⟩
    have hother : g ≠ g' ∨ y ≠ x := by
      by_contra hsame
      push Not at hsame
      exact hne (by rw [hsame.1, hsame.2])
    rw [replay_append]
    show ((replay s before).set g x v).get? g' y = _
    rw [Store.get?_set_of_ne hother, Store.get?_congr ((hbefore.grows s).frames g' hg')]

/-! ### Lines -/

/-- A line that fails does so in the reader or in its evaluation. -/
theorem interpret_error_cases {depth : ℕ} {f : FrameId} {source : String} {s s' : Store} {x : Error}
    (h : (interpret depth f source).run.run s = some (.error x, s')) :
    parse source = .error x ∧ s' = s ∨
      ∃ e log, parse source = .ok e ∧ Evaluates depth f s e log (.error x) s' := by
  rcases interpret_cases h with ⟨y, hparse, hy, hs⟩ | ⟨e, log, r, hparse, hlog, hr⟩
  · obtain rfl := Except.error.inj hy
    exact Or.inl ⟨hparse, hs⟩
  · cases r with
    | ok o => cases hr
    | error y =>
      obtain rfl := Except.error.inj hr
      exact Or.inr ⟨e, log, hparse, hlog⟩

/-- **What a failure says of the session**: a line that fails says what the reader says exactly if
it cannot be read, and otherwise its error is early or late.  Unless it is late, all frames from
before are as they were, and if it is late, one binding of theirs at most has changed. -/
theorem interpret_error {depth : ℕ} {f : FrameId} {source : String} {s s' : Store} {x : Error}
    (h : (interpret depth f source).run.run s = some (.error x, s')) :
    (x.OfReading ↔ ¬∃ e, parse source = .ok e) ∧
      ((∃ e, parse source = .ok e) → x.Early ∨ x.Late) ∧
      (¬x.Late → ∀ g < s.frames.size, s'.frames[g]? = s.frames[g]?) ∧
      ∃ g y, ∀ g' < s.frames.size, ∀ z, (g', z) ≠ (g, y) → s'.get? g' z = s.get? g' z := by
  rcases interpret_error_cases h with ⟨hparse, rfl⟩ | ⟨e, log, hparse, hlog⟩
  · -- The reader refuses the line, and no frame is touched.
    have hnot : ¬∃ e, parse source = .ok e := by
      rintro ⟨e, he⟩
      cases hparse.symm.trans he
    refine ⟨iff_of_true (ofReading_of_parse hparse) hnot, fun he => absurd he hnot, ?_, ?_⟩
    · exact fun _ _ _ => rfl
    · exact ⟨0, "", fun _ _ _ _ => rfl⟩
  · -- The frames after the line are those before it with the changes of the evaluation.
    have hclass : x.Early ∨ x.Late := hlog.blames.imp And.left id
    rw [hlog.replay_eq]
    refine ⟨iff_of_false (Error.not_ofReading hclass) (not_not.2 ⟨e, hparse⟩), fun _ => hclass,
      fun hlate => ?_, Effect.exists_get?_replay_eq hlog.shape s⟩
    obtain ⟨-, hquiet⟩ := hlog.blames.resolve_right hlate
    exact (hquiet.grows s).frames

/-- A definition that is used as an argument is made, and then found to have no value. -/
theorem interpret_error_argument : ∃ s',
    (interpret 3 0 "(car (define a 1))").run.run Store.empty.root.2
        = some (.error .invalidCall, s') ∧
      s'.get? 0 "a" = some (.int 1) ∧ Store.empty.root.2.get? 0 "a" = none ∧
      ¬Error.OfReading .invalidCall ∧ Error.Late .invalidCall ∧
      ∃ g y, ∀ g' < Store.empty.root.2.frames.size, ∀ z, (g', z) ≠ (g, y) →
        s'.get? g' z = Store.empty.root.2.get? g' z := by
  have htokens : tokenize "(car (define a 1))"
      = ["(", "car", "(", "define", "a", "1", ")", ")"] := by
    decide +kernel
  have hrun : (interpret 3 0 "(car (define a 1))").run.run Store.empty.root.2
      = some (.error .invalidCall, Store.empty.root.2.set 0 "a" (.int 1)) := by
    rw [interpret_run, evalText_run, parse_eq, htokens]
    rfl
  have hparse : ∃ e, parse "(car (define a 1))" = .ok e := by
    rw [parse_eq, htokens]
    exact ⟨_, rfl⟩
  obtain ⟨hreading, -, -, hone⟩ := interpret_error hrun
  exact ⟨_, hrun, rfl, rfl, fun h => hreading.1 h hparse, Error.late_invalidCall, hone⟩

end SmallLisp
