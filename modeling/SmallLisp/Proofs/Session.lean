import SmallLisp.Proofs.Alike
import SmallLisp.Proofs.Evaluates
import SmallLisp.Proofs.RoundTrip
import SmallLisp.Session

/-!
# Sessions and their code

A session is given lines, one after the other, and keeps its global frame (`Session`).  What it
evaluates is code: what the reader made of a line, and the parts of it that are in places where they
can be evaluated (`Occurs`), each within some abstractions.

Code holds no closures (`not_holds_of_readable`).  A list that is a form is spelled in the one way
that the form has (`Form.spelling_of_ofList`).
-/

namespace SmallLisp

/-! ### Sessions -/

/-- A line of a session, and what it came to. -/
structure Line where
  source : String
  result : Outcome

/-- A session with a global frame: the lines that it was given so far, all of which came to an end,
and the store that they left.  The store may have other frames from before. -/
inductive Session : FrameId → List Line → Store → Prop
  | start (s : Store) : Session s.root.1 [] s.root.2
  | line {root : FrameId} {lines : List Line} {s s' : Store} {depth : ℕ} {source : String}
      {result : Outcome} (session : Session root lines s)
      (ran : (evalText depth root source).run.run s = some (result, s')) :
      Session root (lines ++ [⟨source, result⟩]) s'

theorem evalText_run {depth : ℕ} {f : FrameId} {source : String} {s : Store} :
    (evalText depth f source).run.run s = match parse source with
      | .ok e => (eval depth f e).run.run s
      | .error x => some (.error x, s) := by
  show ((ofExcept (parse source) : Action Value) >>= eval depth f).run.run s = _
  cases parse source <;> rfl

theorem interpret_run {depth : ℕ} {f : FrameId} {source : String} {s : Store} :
    (interpret depth f source).run.run s = ((evalText depth f source).run.run s).map fun p =>
      (p.1.map (Option.map Value.text), p.2) := by
  unfold interpret
  rw [Action.run_bind, Option.map_eq_bind]
  congr 1
  funext ⟨r, s₁⟩
  cases r <;> rfl

/-- A line is read and then evaluated, or it cannot be read and changes nothing. -/
theorem interpret_cases {depth : ℕ} {f : FrameId} {source : String} {s s' : Store}
    {result : LineResult} (h : (interpret depth f source).run.run s = some (result, s')) :
    (∃ x, parse source = .error x ∧ result = .error x ∧ s' = s) ∨
      ∃ e log r, parse source = .ok e ∧ Evaluates depth f s e log r s' ∧
        result = r.map (Option.map Value.text) := by
  rw [interpret_run, evalText_run] at h
  obtain ⟨⟨r, s₁⟩, heval, hresult⟩ := Option.map_eq_some_iff.1 h
  obtain ⟨rfl, rfl⟩ := Prod.mk.inj hresult
  cases hparse : parse source with
  | error x =>
    rw [hparse] at heval
    obtain ⟨rfl, rfl⟩ := Prod.mk.inj (Option.some.inj heval)
    exact Or.inl ⟨x, rfl, rfl, rfl⟩
  | ok e =>
    rw [hparse] at heval
    obtain ⟨log, hlog⟩ := (describes_eval depth).1 heval
    exact Or.inr ⟨e, log, r, rfl, hlog, rfl⟩

/-- A new global frame binds the standard names and lies in no other frame. -/
theorem Store.frames_root (s : Store) :
    s.root.2.frames[s.root.1]? = some ⟨standardBindings, none⟩ :=
  Array.getElem?_push_size

/-- What is bound at the start is a number or a primitive. -/
theorem standardBindings_cases {x : String} {v : Value} (h : (x, v) ∈ standardBindings) :
    (∃ r, v = .real r) ∨ ∃ p, v = .primitive p := by
  rcases List.mem_append.1 h with h | h
  · simp only [List.mem_cons, List.not_mem_nil, or_false, Prod.mk.injEq] at h
    rcases h with ⟨-, rfl⟩ | ⟨-, rfl⟩ | ⟨-, rfl⟩ | ⟨-, rfl⟩ <;> exact Or.inl ⟨_, rfl⟩
  · obtain ⟨p, -, hp⟩ := List.mem_map.1 h
    obtain ⟨rfl, rfl⟩ := Prod.mk.inj hp
    exact Or.inr ⟨p, rfl⟩

/-- What is bound at the start is neither a list nor a closure. -/
theorem isAtomic_of_mem_standardBindings {x : String} {v : Value}
    (h : (x, v) ∈ standardBindings) : v.isAtomic = true := by
  rcases standardBindings_cases h with ⟨r, rfl⟩ | ⟨p, rfl⟩ <;> rfl

/-! ### Forms and their spelling -/

/-- The expression that makes a closure. -/
def Value.lambda (params : List String) (body : Value) : Value :=
  .list [.symbol "lambda", .list (params.map .symbol), body]

namespace Form

/-- The items of the list that is a form. -/
def spelling : Form → List Value
  | quotation e => [.symbol "quote", e]
  | conditional test consequent alternative => [.symbol "if", test, consequent, alternative]
  | definition name e => [.symbol "define", .symbol name, e]
  | assignment name e => [.symbol "set!", .symbol name, e]
  | abstraction params body => [.symbol "lambda", .list (params.map .symbol), body]
  | application head args => head :: args

/-- The parts of a form that are evaluated in the frame that it is evaluated in. -/
def parts : Form → List Value
  | quotation _ => []
  | conditional test consequent alternative => [test, consequent, alternative]
  | definition _ e => [e]
  | assignment _ e => [e]
  | abstraction _ _ => []
  | application head args => head :: args

theorem eq_map_symbol_of_symbols? {vars : List Value} {params : List String}
    (h : symbols? vars = some params) : vars = params.map .symbol := by
  induction vars generalizing params with
  | nil =>
    obtain rfl := Option.some.inj h
    rfl
  | cons v vars ih =>
    cases v with
    | symbol name =>
      obtain ⟨rest, hrest, rfl⟩ := Option.map_eq_some_iff.1 h
      rw [ih hrest, List.map_cons]
    | _ => cases h

theorem spelling_of_ofSymbol {name : String} {args : List Value} {form : Form}
    (h : ofSymbol name args = .ok form) : .symbol name :: args = form.spelling := by
  unfold ofSymbol at h
  split at h
  · split at h
    · obtain rfl := Except.ok.inj h
      rfl
    · cases h
  · split at h
    · obtain rfl := Except.ok.inj h
      rfl
    · cases h
  · split at h
    · obtain rfl := Except.ok.inj h
      rfl
    · cases h
  · split at h
    · obtain rfl := Except.ok.inj h
      rfl
    · cases h
  · split at h
    · split at h
      · rename_i hparams
        obtain rfl := Except.ok.inj h
        rw [eq_map_symbol_of_symbols? hparams]
        rfl
      · cases h
    · cases h
  · obtain rfl := Except.ok.inj h
    rfl

/-- A list that is a form is spelled as that form is. -/
theorem spelling_of_ofList {items : List Value} {form : Form} (h : ofList items = .ok form) :
    items = form.spelling := by
  unfold ofList at h
  split at h
  · cases h
  · exact spelling_of_ofSymbol h
  · obtain rfl := Except.ok.inj h
    rfl

/-- The parts of a form are items of its list. -/
theorem mem_spelling_of_mem_parts {form : Form} {e : Value} (h : e ∈ form.parts) :
    e ∈ form.spelling := by
  cases form with
  | quotation => cases h
  | conditional => exact List.mem_cons_of_mem _ h
  | definition => exact List.mem_cons_of_mem _ (List.mem_cons_of_mem _ h)
  | assignment => exact List.mem_cons_of_mem _ (List.mem_cons_of_mem _ h)
  | abstraction => cases h
  | application => exact h

/-- What has to have a value is a part. -/
theorem mem_parts_of_mem_operands {form : Form} {e : Value} (h : e ∈ form.operands) :
    e ∈ form.parts := by
  cases form with
  | conditional => exact List.mem_singleton.1 h ▸ List.mem_cons_self ..
  | _ => exact h

end Form

/-! ### Code -/

/-- Code that occurs in an expression, in a place where it can be evaluated, with the parameters of
the abstractions around it, from the inside out. -/
inductive Occurs (e : Value) : List (List String) → Value → Prop
  | self : Occurs e [] e
  | part {enclosing : List (List String)} {items : List Value} {form : Form} {sub : Value}
      (list : Occurs e enclosing (.list items)) (form_eq : Form.ofList items = .ok form)
      (mem : sub ∈ form.parts) : Occurs e enclosing sub
  | body {enclosing : List (List String)} {params : List String} {body : Value}
      (abstraction : Occurs e enclosing (.lambda params body)) :
      Occurs e (params :: enclosing) body

/-- Code in readable code is readable. -/
theorem Occurs.readable {e sub : Value} {enclosing : List (List String)}
    (h : Occurs e enclosing sub) (he : Readable e) : Readable sub := by
  induction h with
  | self => exact he
  | part _ form_eq mem ih =>
    cases ih with
    | list readable =>
      rw [Form.spelling_of_ofList form_eq] at readable
      exact readable _ (Form.mem_spelling_of_mem_parts mem)
  | body _ ih =>
    cases ih with
    | list readable => exact readable _ (by simp)

/-- What is readable holds no closure. -/
theorem not_holds_of_readable {e : Value} (he : Readable e) {stamp : ℕ} {params : List String}
    {body : Value} {scope : FrameId} : ¬ Value.Holds e (.closure stamp params body scope) := by
  intro h
  generalize hc : Value.closure stamp params body scope = c at h
  induction h with
  | self =>
    subst hc
    cases he
  | item mem _ ih =>
    cases he with
    | list readable => exact ih (readable _ mem) hc

end SmallLisp
