import Mathlib.Tactic.Common
import SmallLisp.Eval

/-!
# Rules of evaluation

The evaluator as a relation: `Evaluates depth f s e log r s'` says that evaluating `e` in the frame
`f` comes to `r` and turns the store `s` into `s'`, and that `log` is what it did to the store, in
order.

Most forms first evaluate some operands, all of which have to have values (`Operands`), and then
do one more thing with them (`Finishes`).  `Rule` puts these together, given how parts are
evaluated, and `Evaluates` repeats it as deeply as the evaluator may go.

`describes_eval` says that the rules are those of `eval`: an evaluation has an outcome exactly when
the rules give it one, with some log.  The log tells the truth about the store, which is the old one
with the log replayed on it (`Evaluates.replay_eq`).  Properties of all evaluations are proved by
induction on the depth and cases on the rule.
-/

namespace SmallLisp

/-- What an evaluation comes to: a value, nothing, or an error. -/
abbrev Outcome := Except Error (Option Value)

/-- A change that evaluation makes to a store. -/
inductive Effect where
  /-- A name is bound in a frame that is there. -/
  | bind (f : FrameId) (name : String) (v : Value)
  /-- The frame of a call is made. -/
  | frame (params : List String) (args : List Value) (scope : FrameId)
  /-- A stamp is taken for a closure. -/
  | stamp

namespace Effect

/-- Makes a change. -/
def apply (s : Store) : Effect → Store
  | bind f name v => s.set f name v
  | frame params args scope => (s.nested params args scope).2
  | stamp => s.stamp.2

/-- Whether a change binds a name in a frame that is there already. -/
def isBinding : Effect → Bool
  | bind _ _ _ => true
  | _ => false

/-- Makes changes one after the other. -/
def replay (s : Store) (log : List Effect) : Store := log.foldl apply s

theorem replay_append (s : Store) (log log' : List Effect) :
    replay s (log ++ log') = replay (replay s log) log' :=
  List.foldl_append

end Effect

/-- Whether a value can be called. -/
def Value.isProcedure : Value → Bool
  | .primitive _ => true
  | .closure _ _ _ _ => true
  | _ => false

/-- Whether an expression stands for itself. -/
def Value.isConstant : Value → Bool
  | .symbol _ => false
  | .list _ => false
  | _ => true

namespace Form

/-- The parts of a form that have to have values before anything else is done. -/
def operands : Form → List Value
  | quotation _ => []
  | conditional test _ _ => [test]
  | definition _ e => [e]
  | assignment _ e => [e]
  | abstraction _ _ => []
  | application head args => head :: args

/-- What is wrong when one of these parts has no value. -/
def lack : Form → Error
  | quotation _ => .invalidQuotation
  | conditional _ _ _ => .invalidConditional
  | definition _ _ => .invalidDefinition
  | assignment _ _ => .invalidAssignment
  | abstraction _ _ => .invalidLambda
  | application _ _ => .invalidCall

/-- Whether a form gets as far as its operands: a name that is assigned has to be bound. -/
def Ready (s : Store) (f : FrameId) : Form → Prop
  | assignment name _ => ∃ g, s.find? f name = some g
  | _ => True

end Form

/-! ### Rules -/

/-- How expressions are evaluated in some frame. -/
abbrev Judgement := Store → Value → List Effect → Outcome → Store → Prop

/-- Evaluating expressions from left to right, all of which have to have values. -/
inductive Operands (part : Judgement) (lack : Error) :
    Store → List Value → List Effect → Except Error (List Value) → Store → Prop
  | nil {s : Store} : Operands part lack s [] [] (.ok []) s
  | cons {s s₁ s₂ : Store} {e v : Value} {es : List Value} {log log' : List Effect}
      {r : Except Error (List Value)} (head : part s e log (.ok (some v)) s₁)
      (tail : Operands part lack s₁ es log' r s₂) :
      Operands part lack s (e :: es) (log ++ log') (r.map (v :: ·)) s₂
  | silent {s s₁ : Store} {e : Value} {es : List Value} {log : List Effect}
      (head : part s e log (.ok none) s₁) : Operands part lack s (e :: es) log (.error lack) s₁
  | fail {s s₁ : Store} {e : Value} {es : List Value} {log : List Effect} {x : Error}
      (head : part s e log (.error x) s₁) : Operands part lack s (e :: es) log (.error x) s₁

/-- What a form does once its operands have values.  The store `before` is the one from before
the operands were evaluated. -/
inductive Finishes (part : FrameId → Judgement) (f : FrameId) (before s : Store) :
    Form → List Value → List Effect → Outcome → Store → Prop
  | quotation {e : Value} : Finishes part f before s (.quotation e) [] [] (.ok (some e)) s
  | noBool {test consequent alternative v : Value} (noBool : ∀ b, v ≠ .bool b) :
      Finishes part f before s (.conditional test consequent alternative) [v] []
        (.error .invalidConditional) s
  | conditional {test consequent alternative : Value} {b : Bool} {log : List Effect}
      {r : Outcome} {s' : Store}
      (chosen : part f s (if b then consequent else alternative) log r s') :
      Finishes part f before s (.conditional test consequent alternative) [.bool b] log r s'
  | definition {name : String} {e v : Value} :
      Finishes part f before s (.definition name e) [v] [.bind f name v] (.ok none)
        (s.set f name v)
  | assignment {name : String} {e v : Value} {g : FrameId}
      (bound : before.find? f name = some g) :
      Finishes part f before s (.assignment name e) [v] [.bind g name v] (.ok none)
        (s.set g name v)
  | abstraction {params : List String} {body : Value} :
      Finishes part f before s (.abstraction params body) [] [.stamp]
        (.ok (some (.closure s.stamps params body f))) s.stamp.2
  | primitive {head : Value} {args values : List Value} {p : Primitive} :
      Finishes part f before s (.application head args) (.primitive p :: values) []
        ((p.apply values).map some) s
  | arity {head body : Value} {args values : List Value} {stamp : ℕ} {params : List String}
      {scope : FrameId} (differ : params.length ≠ values.length) :
      Finishes part f before s (.application head args)
        (.closure stamp params body scope :: values) [] (.error .invalidInput) s
  | closure {head body : Value} {args values : List Value} {stamp : ℕ} {params : List String}
      {scope : FrameId} {log : List Effect} {r : Outcome} {s' : Store}
      (agree : params.length = values.length)
      (called : part s.frames.size (s.nested params values scope).2 body log r s') :
      Finishes part f before s (.application head args)
        (.closure stamp params body scope :: values) (.frame params values scope :: log) r s'
  | plain {head v : Value} {args : List Value} (noProcedure : v.isProcedure = false) :
      Finishes part f before s (.application head args) [v] [] (.ok (some v)) s
  | noProcedure {head v : Value} {args values : List Value} (noProcedure : v.isProcedure = false)
      (given : values ≠ []) :
      Finishes part f before s (.application head args) (v :: values) [] (.error .invalidCall) s

/-- The ways in which an evaluation can end, given how parts are evaluated. -/
inductive Rule (part : FrameId → Judgement) (f : FrameId) (s : Store) :
    Value → List Effect → Outcome → Store → Prop
  | symbol (name : String) :
      Rule part f s (.symbol name) [] (.ok (some ((s.lookup? f name).getD (.symbol name)))) s
  | constant {v : Value} (constant : v.isConstant = true) : Rule part f s v [] (.ok (some v)) s
  | malformed {items : List Value} {x : Error} (form : Form.ofList items = .error x) :
      Rule part f s (.list items) [] (.error x) s
  | unbound {items : List Value} {name : String} {e : Value}
      (form : Form.ofList items = .ok (.assignment name e)) (unbound : s.find? f name = none) :
      Rule part f s (.list items) [] (.error (.unbound name)) s
  | fail {items : List Value} {form : Form} {log : List Effect} {x : Error} {s' : Store}
      (form_eq : Form.ofList items = .ok form) (ready : form.Ready s f)
      (operands : Operands (part f) form.lack s form.operands log (.error x) s') :
      Rule part f s (.list items) log (.error x) s'
  | finish {items : List Value} {form : Form} {values : List Value} {log log' : List Effect}
      {r : Outcome} {s₁ s₂ : Store} (form_eq : Form.ofList items = .ok form)
      (operands : Operands (part f) form.lack s form.operands log (.ok values) s₁)
      (finishes : Finishes part f s s₁ form values log' r s₂) :
      Rule part f s (.list items) (log ++ log') r s₂

/-- Evaluation in a frame, to at most the given depth: the outcome, the store that it leaves, and
what it did to the store on the way. -/
def Evaluates : (depth : ℕ) → FrameId → Judgement
  | 0 => fun _ _ _ _ _ _ => False
  | depth + 1 => fun f s e log r s' => Rule (Evaluates depth) f s e log r s'

/-! ### The log -/

namespace Evaluates

theorem replay_operands {part : Judgement} {lack : Error} {s s' : Store} {es : List Value}
    {log : List Effect} {r : Except Error (List Value)}
    (hpart : ∀ {s s' e log r}, part s e log r s' → s' = Effect.replay s log)
    (h : Operands part lack s es log r s') : s' = Effect.replay s log := by
  induction h with
  | nil => rfl
  | cons head _ ih => rw [Effect.replay_append, ← hpart head, ← ih]
  | silent head => exact hpart head
  | fail head => exact hpart head

theorem replay_finishes {part : FrameId → Judgement} {f : FrameId} {before s s' : Store}
    {form : Form} {values : List Value} {log : List Effect} {r : Outcome}
    (hpart : ∀ {g s s' e log r}, part g s e log r s' → s' = Effect.replay s log)
    (h : Finishes part f before s form values log r s') : s' = Effect.replay s log := by
  cases h with
  | conditional chosen => exact hpart chosen
  | closure agree called =>
    have hcalled := hpart called
    exact hcalled
  | _ => rfl

/-- The log of an evaluation leads from the old store to the new one. -/
theorem replay_eq {depth : ℕ} {f : FrameId} {s s' : Store} {e : Value} {log : List Effect}
    {r : Outcome} (h : Evaluates depth f s e log r s') : s' = Effect.replay s log := by
  induction depth generalizing f s s' e log r with
  | zero => exact h.elim
  | succ depth ih =>
    cases h with
    | fail form_eq ready operands => exact replay_operands ih operands
    | finish form_eq operands finishes =>
      rw [Effect.replay_append, ← replay_operands ih operands, ← replay_finishes ih finishes]
    | _ => rfl

end Evaluates

/-! ### The rules are those of the evaluator -/

namespace Action

variable {α β : Type}

theorem run_bind (x : Action α) (k : α → Action β) (s : Store) :
    (x >>= k).run.run s = (x.run.run s).bind fun p => match p with
      | (.ok a, s₁) => (k a).run.run s₁
      | (.error x, s₁) => some (.error x, s₁) := by
  show (x.run.run s).bind _ = _
  congr 1
  funext ⟨r, s₁⟩
  cases r <;> rfl

/-- Two actions one after the other end where the second does, or where the first fails. -/
theorem run_bind_eq_some_iff {x : Action α} {k : α → Action β} {s s' : Store}
    {r : Except Error β} :
    (x >>= k).run.run s = some (r, s') ↔
      (∃ a s₁, x.run.run s = some (.ok a, s₁) ∧ (k a).run.run s₁ = some (r, s')) ∨
        ∃ err, x.run.run s = some (.error err, s') ∧ r = .error err := by
  rw [run_bind, Option.bind_eq_some_iff]
  constructor
  · rintro ⟨⟨_ | a, s₁⟩, hx, h⟩
    · obtain ⟨rfl, rfl⟩ := Prod.mk.inj (Option.some.inj h)
      exact Or.inr ⟨_, hx, rfl⟩
    · exact Or.inl ⟨a, s₁, hx, h⟩
  · rintro (⟨a, s₁, hx, h⟩ | ⟨err, hx, rfl⟩)
    · exact ⟨_, hx, h⟩
    · exact ⟨_, hx, rfl⟩

theorem run_get_bind (k : Store → Action β) (s : Store) :
    ((get : Action Store) >>= k).run.run s = (k s).run.run s := rfl

/-- An action that ends in one way is described by a rule that gives it this way to end and no
other. -/
theorem run_iff_of_rule {rule : List Effect → Except Error α → Store → Prop} {x : Action α}
    {s s₀ : Store} {log₀ : List Effect} {r₀ : Except Error α} (hrule : rule log₀ r₀ s₀)
    (hrun : x.run.run s = some (r₀, s₀))
    (hunique : ∀ {log r s'}, rule log r s' → r = r₀ ∧ s' = s₀) {r : Except Error α} {s' : Store} :
    x.run.run s = some (r, s') ↔ ∃ log, rule log r s' := by
  constructor
  · intro h
    rw [hrun] at h
    obtain ⟨rfl, rfl⟩ := Prod.mk.inj (Option.some.inj h)
    exact ⟨log₀, hrule⟩
  · rintro ⟨log, h⟩
    obtain ⟨rfl, rfl⟩ := hunique h
    exact hrun

end Action

/-- Whether a judgement describes an evaluator. -/
def Describes (part : FrameId → Judgement) (ev : FrameId → Value → Action (Option Value)) : Prop :=
  ∀ ⦃f s e r s'⦄, (ev f e).run.run s = some (r, s') ↔ ∃ log, part f s e log r s'

/-- Evaluates an expression that has to have a value. -/
def evalOperand (ev : FrameId → Value → Action (Option Value)) (f : FrameId) (lack : Error)
    (e : Value) : Action Value := do
  Action.require lack (← ev f e)

/-- Evaluates expressions that have to have values, from left to right. -/
def evalOperands (ev : FrameId → Value → Action (Option Value)) (f : FrameId) (lack : Error)
    (es : List Value) : Action (List Value) :=
  es.mapM (evalOperand ev f lack)

/-- What a form does once its operands have values. -/
def Form.finish (ev : FrameId → Value → Action (Option Value)) (f : FrameId) (before : Store) :
    Form → List Value → Action (Option Value)
  | quotation e, _ => pure (some e)
  | conditional _ consequent alternative, [v] =>
    match v with
    | .bool true => ev f consequent
    | .bool false => ev f alternative
    | _ => throw .invalidConditional
  | definition name _, [v] => do
    modify fun s => s.set f name v
    return none
  | assignment name _, [v] =>
    match before.find? f name with
    | none => throw (.unbound name)
    | some g => do
      modify fun s => s.set g name v
      return none
  | abstraction params body, _ => do return some (← makeClosure f params body)
  | application _ _, head :: values => call ev head values
  | _, _ => Action.diverge

section
variable {part : FrameId → Judgement} {ev : FrameId → Value → Action (Option Value)}

theorem evalOperands_cons {f : FrameId} {lack : Error} {e : Value} {es : List Value} :
    evalOperands ev f lack (e :: es) = evalOperand ev f lack e >>= fun v =>
      evalOperands ev f lack es >>= fun vs => pure (v :: vs) := by
  simp [evalOperands]

/-- A form that gets as far evaluates its operands and then finishes. -/
theorem evalForm_run {f : FrameId} {form : Form} {s : Store} (h : form.Ready s f) :
    (evalForm ev f form).run.run s
      = (evalOperands ev f form.lack form.operands >>= form.finish ev f s).run.run s := by
  cases form with
  | quotation e => rfl
  | conditional test consequent alternative =>
    have hbind : evalOperands ev f .invalidConditional [test]
          >>= Form.finish ev f s (.conditional test consequent alternative)
        = ev f test >>= fun o => Action.require .invalidConditional o >>= fun v =>
          Form.finish ev f s (.conditional test consequent alternative) [v] := by
      simp [evalOperands, evalOperand]
    exact (congrArg (fun x => x.run.run s) hbind).symm
  | definition name e =>
    simp [evalForm, evalOperands, evalOperand, Form.operands, Form.lack, Form.finish]
  | assignment name e =>
    obtain ⟨g, hg⟩ := h
    have hget : (evalForm ev f (.assignment name e)).run.run s
        = (ev f e >>= fun o => Action.require .invalidAssignment o >>= fun v => do
            modify fun s => s.set g name v
            return none).run.run s := by
      unfold evalForm
      rw [Action.run_get_bind, hg]
    rw [hget]
    simp [evalOperands, evalOperand, Form.operands, Form.lack, Form.finish, hg]
  | abstraction params body => rfl
  | application head args =>
    have hmap : (args.mapM fun arg => do Action.require .invalidCall (← ev f arg))
        = evalOperands ev f .invalidCall args := rfl
    simp [evalForm, hmap, evalOperands_cons, evalOperand, Form.operands, Form.lack, Form.finish]

/-- An operand has to have a value. -/
theorem run_operand_iff (hev : Describes part ev) {f : FrameId} {lack : Error} {e : Value}
    {s s' : Store} {r : Except Error Value} :
    (evalOperand ev f lack e).run.run s = some (r, s') ↔
      ∃ log, (∃ v, r = .ok v ∧ part f s e log (.ok (some v)) s') ∨
        (r = .error lack ∧ part f s e log (.ok none) s') ∨
          ∃ x, r = .error x ∧ part f s e log (.error x) s' := by
  unfold evalOperand
  rw [Action.run_bind_eq_some_iff]
  constructor
  · rintro (⟨_ | v, s₁, he, hr⟩ | ⟨x, he, rfl⟩)
    · obtain ⟨log, he⟩ := hev.1 he
      obtain ⟨rfl, rfl⟩ := Prod.mk.inj (Option.some.inj hr)
      exact ⟨log, Or.inr (Or.inl ⟨rfl, he⟩)⟩
    · obtain ⟨log, he⟩ := hev.1 he
      obtain ⟨rfl, rfl⟩ := Prod.mk.inj (Option.some.inj hr)
      exact ⟨log, Or.inl ⟨v, rfl, he⟩⟩
    · obtain ⟨log, he⟩ := hev.1 he
      exact ⟨log, Or.inr (Or.inr ⟨x, rfl, he⟩)⟩
  · rintro ⟨log, ⟨v, rfl, he⟩ | ⟨rfl, he⟩ | ⟨x, rfl, he⟩⟩
    · exact Or.inl ⟨some v, s', hev.2 ⟨log, he⟩, rfl⟩
    · exact Or.inl ⟨none, s', hev.2 ⟨log, he⟩, rfl⟩
    · exact Or.inr ⟨x, hev.2 ⟨log, he⟩, rfl⟩

theorem run_operands_iff (hev : Describes part ev) {f : FrameId} {lack : Error} {es : List Value}
    {s s' : Store} {r : Except Error (List Value)} :
    (evalOperands ev f lack es).run.run s = some (r, s') ↔
      ∃ log, Operands (part f) lack s es log r s' := by
  induction es generalizing s r with
  | nil =>
    refine Action.run_iff_of_rule Operands.nil rfl ?_
    rintro log r s' ⟨⟩
    exact ⟨rfl, rfl⟩
  | cons e es ih =>
    rw [evalOperands_cons, Action.run_bind_eq_some_iff]
    constructor
    · rintro (⟨v, s₁, hv, h⟩ | ⟨x, hx, rfl⟩)
      · -- The first operand has a value, and the others have values or fail.
        obtain ⟨log, ⟨v', hvv, hv⟩ | ⟨hvv, -⟩ | ⟨_, hvv, -⟩⟩ := (run_operand_iff hev).1 hv <;>
          cases hvv
        rcases Action.run_bind_eq_some_iff.1 h with ⟨vs, s₂, hvs, h⟩ | ⟨x, hx, rfl⟩
        · obtain ⟨rfl, rfl⟩ := Prod.mk.inj (Option.some.inj h)
          obtain ⟨log', hvs⟩ := ih.1 hvs
          exact ⟨_, Operands.cons hv hvs⟩
        · obtain ⟨log', hx⟩ := ih.1 hx
          exact ⟨_, Operands.cons hv hx⟩
      · -- The first operand has no value, or it fails itself.
        obtain ⟨log, ⟨_, hx', -⟩ | ⟨hx', he⟩ | ⟨_, hx', he⟩⟩ := (run_operand_iff hev).1 hx <;>
          cases hx'
        · exact ⟨log, Operands.silent he⟩
        · exact ⟨log, Operands.fail he⟩
    · rintro ⟨log, h⟩
      cases h with
      | @cons _ s₁ _ _ v _ log log' r head tail =>
        refine Or.inl ⟨v, s₁, (run_operand_iff hev).2 ⟨_, Or.inl ⟨v, rfl, head⟩⟩, ?_⟩
        have htail := ih.2 ⟨_, tail⟩
        rw [Action.run_bind, htail]
        cases r <;> rfl
      | silent head =>
        exact Or.inr ⟨_, (run_operand_iff hev).2 ⟨_, Or.inr (Or.inl ⟨rfl, head⟩)⟩, rfl⟩
      | fail head =>
        exact Or.inr ⟨_, (run_operand_iff hev).2 ⟨_, Or.inr (Or.inr ⟨_, rfl, head⟩)⟩, rfl⟩

/-- Operands that all have values have one each. -/
theorem Operands.length_eq {part : Judgement} {lack : Error} {s s' : Store} {es values : List Value}
    {log : List Effect} (h : Operands part lack s es log (.ok values) s') :
    values.length = es.length := by
  induction es generalizing s log values with
  | nil =>
    cases h
    rfl
  | cons e es ih =>
    generalize hr : (Except.ok values : Except Error (List Value)) = r at h
    cases h with
    | @cons _ _ _ _ v _ _ _ r head tail =>
      cases r with
      | error x => cases hr
      | ok rest =>
        obtain rfl := Except.ok.inj hr
        rw [List.length_cons, List.length_cons, ih tail]
    | silent head => cases hr
    | fail head => cases hr

theorem call_of_not_isProcedure {v : Value} {values : List Value} (hv : v.isProcedure = false) :
    call ev v values = if values.isEmpty then pure (some v) else throw .invalidCall := by
  cases v with
  | primitive => cases hv
  | closure => cases hv
  | _ => rfl

theorem run_call_primitive {p : Primitive} {values : List Value} {s : Store} :
    (call ev (.primitive p) values).run.run s = some ((p.apply values).map some, s) := by
  simp only [call]
  cases p.apply values <;> rfl

theorem run_call_closure {stamp : ℕ} {params : List String} {body : Value} {scope : FrameId}
    {values : List Value} {s : Store} :
    (call ev (.closure stamp params body scope) values).run.run s =
      if params.length = values.length
        then (ev s.frames.size body).run.run (s.nested params values scope).2
        else some (.error .invalidInput, s) := by
  simp only [call, enter]
  split <;> rfl

theorem run_call_iff (hev : Describes part ev) {f : FrameId} {before s s' : Store}
    {head v : Value} {args values : List Value} {r : Outcome} :
    (call ev v values).run.run s = some (r, s') ↔
      ∃ log, Finishes part f before s (.application head args) (v :: values) log r s' := by
  have hplain (hv : v.isProcedure = false) : (call ev v values).run.run s = some (r, s') ↔
      ∃ log, Finishes part f before s (.application head args) (v :: values) log r s' := by
    rw [call_of_not_isProcedure hv]
    cases values with
    | nil =>
      refine Action.run_iff_of_rule (Finishes.plain hv) rfl ?_
      intro log r s' h
      cases h with
      | plain => exact ⟨rfl, rfl⟩
      | noProcedure _ given => exact absurd rfl given
      | _ => cases hv
    | cons w ws =>
      refine Action.run_iff_of_rule (Finishes.noProcedure hv (List.cons_ne_nil w ws)) rfl ?_
      intro log r s' h
      cases h with
      | noProcedure => exact ⟨rfl, rfl⟩
      | _ => cases hv
  cases v with
  | primitive p =>
    refine Action.run_iff_of_rule Finishes.primitive run_call_primitive ?_
    intro log r s' h
    cases h with
    | primitive => exact ⟨rfl, rfl⟩
    | plain hv => cases hv
    | noProcedure hv => cases hv
  | closure stamp params body scope =>
    by_cases hlen : params.length = values.length
    · rw [run_call_closure, if_pos hlen, hev]
      constructor
      · rintro ⟨log, h⟩
        exact ⟨_, Finishes.closure hlen h⟩
      · rintro ⟨log, h⟩
        cases h with
        | closure _ called => exact ⟨_, called⟩
        | arity differ => exact absurd hlen differ
        | plain hv => cases hv
        | noProcedure hv => cases hv
    · have hrun : (call ev (.closure stamp params body scope) values).run.run s
          = some (.error .invalidInput, s) := by
        rw [run_call_closure, if_neg hlen]
      refine Action.run_iff_of_rule (Finishes.arity hlen) hrun ?_
      intro log r s' h
      cases h with
      | arity => exact ⟨rfl, rfl⟩
      | closure agree => exact absurd agree hlen
      | plain hv => cases hv
      | noProcedure hv => cases hv
  | _ => exact hplain rfl

theorem run_finish_iff (hev : Describes part ev) {f : FrameId} {before s s' : Store} {form : Form}
    {values : List Value} {r : Outcome} (ready : form.Ready before f)
    (hlen : values.length = form.operands.length) :
    (form.finish ev f before values).run.run s = some (r, s') ↔
      ∃ log, Finishes part f before s form values log r s' := by
  cases form with
  | quotation e =>
    obtain rfl := List.length_eq_zero_iff.1 hlen
    refine Action.run_iff_of_rule Finishes.quotation rfl ?_
    rintro log r s' ⟨⟩
    exact ⟨rfl, rfl⟩
  | conditional test consequent alternative =>
    obtain ⟨v, rfl⟩ := List.length_eq_one_iff.1 hlen
    by_cases hv : ∀ b, v ≠ .bool b
    · have hthrow : Form.finish ev f before (.conditional test consequent alternative) [v]
          = throw .invalidConditional := by
        cases v with
        | bool b => exact absurd rfl (hv b)
        | _ => rfl
      rw [hthrow]
      refine Action.run_iff_of_rule (Finishes.noBool hv) rfl ?_
      intro log r s' h
      cases h with
      | noBool => exact ⟨rfl, rfl⟩
      | conditional => exact absurd rfl (hv _)
    · push Not at hv
      obtain ⟨b, rfl⟩ := hv
      have hchosen : Form.finish ev f before (.conditional test consequent alternative) [.bool b]
          = ev f (if b then consequent else alternative) := by
        cases b <;> rfl
      rw [hchosen, hev]
      constructor
      · rintro ⟨log, h⟩
        exact ⟨log, Finishes.conditional h⟩
      · rintro ⟨log, h⟩
        cases h with
        | noBool noBool => exact absurd rfl (noBool b)
        | conditional chosen => exact ⟨log, chosen⟩
  | definition name e =>
    obtain ⟨v, rfl⟩ := List.length_eq_one_iff.1 hlen
    refine Action.run_iff_of_rule Finishes.definition rfl ?_
    rintro log r s' ⟨⟩
    exact ⟨rfl, rfl⟩
  | assignment name e =>
    obtain ⟨v, rfl⟩ := List.length_eq_one_iff.1 hlen
    obtain ⟨g, hg⟩ := ready
    simp only [Form.finish, hg]
    refine Action.run_iff_of_rule (Finishes.assignment hg) rfl ?_
    intro log r s' h
    cases h with
    | assignment bound =>
      -- A frame that the rule finds is the one that the evaluator found.
      obtain rfl := Option.some.inj (hg.symm.trans bound)
      exact ⟨rfl, rfl⟩
  | abstraction params body =>
    obtain rfl := List.length_eq_zero_iff.1 hlen
    refine Action.run_iff_of_rule Finishes.abstraction rfl ?_
    rintro log r s' ⟨⟩
    exact ⟨rfl, rfl⟩
  | application head args =>
    obtain ⟨v, values, rfl⟩ := List.exists_cons_of_length_eq_add_one hlen
    exact run_call_iff hev

/-- A name that is not bound is refused before anything is evaluated. -/
theorem run_assignment_of_unbound {f : FrameId} {name : String} {e : Value} {s : Store}
    (h : s.find? f name = none) :
    (evalForm ev f (.assignment name e)).run.run s = some (.error (.unbound name), s) := by
  unfold evalForm
  rw [Action.run_get_bind, h]
  rfl

/-- A value is bound in the frame that was found before it was known. -/
theorem run_assignment_of_value {f g : FrameId} {name : String} {e v : Value} {s s₁ : Store}
    (hg : s.find? f name = some g) (he : (ev f e).run.run s = some (.ok (some v), s₁)) :
    (evalForm ev f (.assignment name e)).run.run s = some (.ok none, s₁.set g name v) := by
  unfold evalForm
  rw [Action.run_get_bind, hg]
  dsimp only
  rw [Action.run_bind, he]
  rfl

/-- Forms that do not get as far as their operands assign names that are not bound. -/
theorem Form.eq_assignment_of_not_ready {s : Store} {f : FrameId} {form : Form}
    (h : ¬ form.Ready s f) : ∃ name e, form = .assignment name e ∧ s.find? f name = none := by
  cases form with
  | assignment name e =>
    refine ⟨name, e, rfl, ?_⟩
    rw [Option.eq_none_iff_forall_ne_some]
    intro g hg
    exact h ⟨g, hg⟩
  | _ => exact absurd trivial h

theorem Finishes.ready {f : FrameId} {before s s' : Store} {form : Form} {values : List Value}
    {log : List Effect} {r : Outcome} (h : Finishes part f before s form values log r s') :
    form.Ready before f := by
  cases h with
  | assignment bound => exact ⟨_, bound⟩
  | _ => trivial

theorem run_form_iff (hev : Describes part ev) {f : FrameId} {items : List Value} {form : Form}
    (form_eq : Form.ofList items = .ok form) {s s' : Store} {r : Outcome} :
    (evalForm ev f form).run.run s = some (r, s') ↔
      ∃ log, Rule part f s (.list items) log r s' := by
  by_cases ready : form.Ready s f
  · -- The operands are evaluated.  Either one of them fails the form, or the form finishes.
    rw [evalForm_run ready, Action.run_bind_eq_some_iff]
    constructor
    · rintro (⟨values, s₁, hvalues, h⟩ | ⟨x, hx, rfl⟩)
      · obtain ⟨log, operands⟩ := (run_operands_iff hev).1 hvalues
        obtain ⟨log', finishes⟩ := (run_finish_iff hev ready operands.length_eq).1 h
        exact ⟨_, Rule.finish form_eq operands finishes⟩
      · obtain ⟨log, operands⟩ := (run_operands_iff hev).1 hx
        exact ⟨_, Rule.fail form_eq ready operands⟩
    · rintro ⟨log, h⟩
      cases h with
      | constant constant => cases constant
      | malformed form_eq' => cases form_eq.symm.trans form_eq'
      | unbound form_eq' unbound =>
        cases form_eq.symm.trans form_eq'
        obtain ⟨g, hg⟩ := ready
        cases hg.symm.trans unbound
      | fail form_eq' _ operands =>
        cases form_eq.symm.trans form_eq'
        exact Or.inr ⟨_, (run_operands_iff hev).2 ⟨_, operands⟩, rfl⟩
      | finish form_eq' operands finishes =>
        cases form_eq.symm.trans form_eq'
        exact Or.inl ⟨_, _, (run_operands_iff hev).2 ⟨_, operands⟩,
          (run_finish_iff hev ready operands.length_eq).2 ⟨_, finishes⟩⟩
  · -- Only the rule for names that are not bound applies: all others need the form to be ready.
    obtain ⟨name, e, rfl, hnone⟩ := Form.eq_assignment_of_not_ready ready
    refine Action.run_iff_of_rule (Rule.unbound form_eq hnone) (run_assignment_of_unbound hnone) ?_
    intro log r s' h
    cases h with
    | constant constant => cases constant
    | malformed form_eq' => cases form_eq.symm.trans form_eq'
    | unbound form_eq' unbound =>
      cases form_eq.symm.trans form_eq'
      exact ⟨rfl, rfl⟩
    | fail form_eq' ready' operands =>
      cases form_eq.symm.trans form_eq'
      exact absurd ready' ready
    | finish form_eq' operands finishes =>
      cases form_eq.symm.trans form_eq'
      exact absurd finishes.ready ready

end

theorem run_eval_list {depth : ℕ} {f : FrameId} {items : List Value} {s : Store} :
    (eval (depth + 1) f (.list items)).run.run s = match Form.ofList items with
      | .ok form => (evalForm (eval depth) f form).run.run s
      | .error x => some (.error x, s) := by
  show ((ofExcept (Form.ofList items) : Action Form) >>= evalForm (eval depth) f).run.run s = _
  cases Form.ofList items <;> rfl

/-- **The rules are those of the evaluator**: an evaluation has an outcome exactly when the rules
give it that outcome, with some log. -/
theorem describes_eval (depth : ℕ) : Describes (Evaluates depth) (eval depth) := by
  induction depth with
  | zero =>
    intro f s e r s'
    constructor
    · rintro ⟨⟩
    · rintro ⟨log, ⟨⟩⟩
  | succ depth ih =>
    intro f s e r s'
    have hconstant (he : e.isConstant = true) : (eval (depth + 1) f e).run.run s = some (r, s') ↔
        ∃ log, Evaluates (depth + 1) f s e log r s' := by
      have heval : eval (depth + 1) f e = pure (some e) := by
        cases e with
        | symbol => cases he
        | list => cases he
        | _ => rfl
      rw [heval]
      refine Action.run_iff_of_rule (Rule.constant he) rfl ?_
      intro log r s' h
      cases h with
      | constant => exact ⟨rfl, rfl⟩
      | _ => cases he
    cases e with
    | symbol name =>
      refine Action.run_iff_of_rule (Rule.symbol name) rfl ?_
      intro log r s' h
      cases h with
      | symbol => exact ⟨rfl, rfl⟩
      | constant constant => cases constant
    | list items =>
      cases form_eq : Form.ofList items with
      | error x =>
        have hrun : (eval (depth + 1) f (.list items)).run.run s = some (.error x, s) := by
          rw [run_eval_list, form_eq]
        refine Action.run_iff_of_rule (Rule.malformed form_eq) hrun ?_
        intro log r s' h
        cases h with
        | constant constant => cases constant
        | malformed form_eq' =>
          cases form_eq.symm.trans form_eq'
          exact ⟨rfl, rfl⟩
        | unbound form_eq' => cases form_eq.symm.trans form_eq'
        | fail form_eq' => cases form_eq.symm.trans form_eq'
        | finish form_eq' => cases form_eq.symm.trans form_eq'
      | ok form =>
        rw [run_eval_list, form_eq]
        exact run_form_iff ih form_eq
    | _ => exact hconstant rfl

end SmallLisp
