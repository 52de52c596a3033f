import SmallLisp.Proofs.Scope

/-!
# What is printed, given back

A session prints the values of its lines.  A closure is printed as an abstraction with its
parameters and its body, and these come from code, which reads back as it was written
(`readable_lambda`).  So the text of a closure makes a closure with the same text wherever it is
interpreted: `lambda` at the head of a list is a special form, whatever it is bound to.

`interpret_text_closure` says it of the closures that sessions print.
-/

namespace SmallLisp

/-- A closure is printed as the expression that makes it. -/
theorem Value.text_closure (stamp : ℕ) (params : List String) (body : Value) (scope : FrameId) :
    (closure stamp params body scope).text = (lambda params body).text := by
  have hparams : textsWith Binary64.text (params.map symbol) = params := by
    rw [textsWith_eq_map, List.map_map]
    exact List.map_id' params
  unfold text lambda
  rw [textWith, textWith, textsWith, textsWith, textsWith, textsWith, textWith, textWith, hparams]

theorem Form.symbols?_map_symbol (params : List String) :
    symbols? (params.map .symbol) = some params := by
  induction params with
  | nil => rfl
  | cons name params ih => rw [List.map_cons, symbols?, ih, Option.map_some]

/-- The spelling of an abstraction is that form, for any parameters. -/
theorem Form.ofList_abstraction (params : List String) (body : Value) :
    ofList (abstraction params body).spelling = .ok (abstraction params body) := by
  show ofSymbol "lambda" [.list (params.map .symbol), body] = _
  unfold ofSymbol
  simp only [symbols?_map_symbol]

/-- An abstraction makes a closure and changes no frame. -/
theorem run_eval_lambda (depth : ℕ) (f : FrameId) (params : List String) (body : Value)
    (s : Store) :
    (eval (depth + 1) f (.lambda params body)).run.run s
      = some (.ok (some (.closure s.stamps params body f)), s.stamp.2) := by
  have hform : Form.ofList (Form.abstraction params body).spelling = _ :=
    Form.ofList_abstraction params body
  show (eval (depth + 1) f (.list (Form.abstraction params body).spelling)).run.run s = _
  rw [run_eval_list, hform]
  rfl

/-- The abstractions behind the closures of a session can be read. -/
theorem Session.readable_lambda {root : FrameId} {lines : List Line} {s : Store}
    (session : Session root lines s) {line : Line} (hline : line ∈ lines) {stamp : ℕ}
    {params : List String} {body : Value} {scope : FrameId}
    (hvalue : line.result = .ok (some (.closure stamp params body scope))) :
    Readable (.lambda params body) := by
  obtain ⟨c, hc⟩ := session.tracks
  obtain ⟨e, enclosing, he, hoccurs, -⟩ := hc.results line hline _ hvalue (.self _)
  exact hoccurs.readable (c.readable he)

/-- **Printed closures make themselves**: where a line of a session has a closure as its value, the
text of the closure has a value with the same text, in every frame of every store, and interpreting
it changes no frame. -/
theorem interpret_text_closure {root : FrameId} {lines : List Line} {s : Store}
    (session : Session root lines s) {line : Line} (hline : line ∈ lines) {stamp : ℕ}
    {params : List String} {body : Value} {scope : FrameId}
    (hvalue : line.result = .ok (some (.closure stamp params body scope))) {text : String}
    (htext : (Value.closure stamp params body scope).text = text) (depth : ℕ) (f : FrameId)
    (t : Store) :
    ∃ t', (interpret (depth + 1) f text).run.run t = some (.ok (some text), t') ∧
      t'.frames = t.frames := by
  have hparse : parse text = .ok (.lambda params body) := by
    rw [← htext, Value.text_closure]
    exact parse_text (session.readable_lambda hline hvalue)
  refine ⟨t.stamp.2, ?_, rfl⟩
  rw [interpret_run, evalText_run, hparse]
  simp only [run_eval_lambda, Option.map_some, Except.map]
  rw [Value.text_closure, ← Value.text_closure stamp params body scope, htext]

/-- A closure that one session prints, given to another in which `lambda` is bound to a number. -/
theorem interpret_text_closure_rebound :
    ∃ s t t', Session 0 [⟨"( lambda(x)(+ x +1))",
        .ok (some (.closure 0 ["x"] (.list [.symbol "+", .symbol "x", .int 1]) 0))⟩] s ∧
      Session 0 [⟨"(define lambda 7)", .ok none⟩] t ∧ t.get? 0 "lambda" = some (.int 7) ∧
      (interpret 1 0 "(lambda (x) (+ x 1))").run.run t
        = some (.ok (some "(lambda (x) (+ x 1))"), t') ∧ t'.frames = t.frames := by
  have htokens : tokenize "( lambda(x)(+ x +1))"
      = ["(", "lambda", "(", "x", ")", "(", "+", "x", "+1", ")", ")"] := by decide +kernel
  have htokens' : tokenize "(define lambda 7)" = ["(", "define", "lambda", "7", ")"] := by
    decide +kernel
  have hran : (evalText 1 0 "( lambda(x)(+ x +1))").run.run Store.empty.root.2
      = some (.ok (some (.closure 0 ["x"] (.list [.symbol "+", .symbol "x", .int 1]) 0)),
          Store.empty.root.2.stamp.2) := by
    rw [evalText_run, parse_eq, htokens]
    rfl
  have hran' : (evalText 2 0 "(define lambda 7)").run.run Store.empty.root.2
      = some (.ok none, Store.empty.root.2.set 0 "lambda" (.int 7)) := by
    rw [evalText_run, parse_eq, htokens']
    rfl
  have hsession := Session.line (.start Store.empty) hran
  have htext : (Value.closure 0 ["x"] (.list [.symbol "+", .symbol "x", .int 1]) 0).text
      = "(lambda (x) (+ x 1))" := by decide +kernel
  obtain ⟨t', hrun, hframes⟩ := interpret_text_closure hsession (List.mem_singleton_self _) rfl
    htext 0 0 (Store.empty.root.2.set 0 "lambda" (.int 7))
  exact ⟨_, _, t', hsession, .line (.start Store.empty) hran', rfl, hrun, hframes⟩

end SmallLisp
