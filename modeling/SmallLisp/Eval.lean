import SmallLisp.Form
import SmallLisp.Primitive.Apply
import SmallLisp.Store

/-!
# Evaluation

Evaluating an expression in a frame yields a value, or nothing at all as definitions and
assignments do, or an error.  In each case the store may have changed, and an error undoes no
change.

The evaluator recurs on `depth`, a bound on how deeply evaluations may be nested.  An evaluation
that would go deeper has no outcome, `none`, so that running out is told apart from every answer of
the language.
-/

namespace SmallLisp

/-- A computation on a store that may have no outcome. -/
abbrev Run := StateT Store Option

/-- A computation on a store that may fail; the store is kept when it does. -/
abbrev Action := ExceptT Error Run

namespace Action

/-- A computation without an outcome. -/
def diverge {α : Type} : Action α := ExceptT.mk fun _ => none

/-- Requires a value where there may be none. -/
def require (e : Error) : Option Value → Action Value
  | some v => pure v
  | none => throw e

end Action

/-- The value of a symbol as seen from a frame; an unbound symbol stands for itself. -/
def evalSymbol (f : FrameId) (name : String) : Action Value := do
  return ((← get).lookup? f name).getD (.symbol name)

/-- Makes a closure over a frame. -/
def makeClosure (f : FrameId) (params : List String) (body : Value) : Action Value := do
  let stamp ← modifyGet Store.stamp
  return .closure stamp params body f

/-- Makes the frame of a call to a closure, which takes as many arguments as it has parameters. -/
def enter (params : List String) (args : List Value) (scope : FrameId) : Action FrameId :=
  if params.length = args.length then modifyGet fun s => s.nested params args scope
  else throw .invalidInput

/-- Calls a procedure, given how to evaluate the body of a closure.  A value that is no procedure
may stand at the head of a list by itself, and is then its value. -/
def call (evalBody : FrameId → Value → Action (Option Value)) (head : Value) (args : List Value) :
    Action (Option Value) :=
  match head with
  | .primitive p => do return some (← ofExcept (p.apply args))
  | .closure _ params body scope => do evalBody (← enter params args scope) body
  | v => if args.isEmpty then pure (some v) else throw .invalidCall

/-- Evaluates a form, given how to evaluate its parts in a frame. -/
def evalForm (evalPart : FrameId → Value → Action (Option Value)) (f : FrameId) :
    Form → Action (Option Value)
  | .quotation e => pure (some e)
  | .conditional test consequent alternative => do
    match ← Action.require .invalidConditional (← evalPart f test) with
    | .bool true => evalPart f consequent
    | .bool false => evalPart f alternative
    | _ => throw .invalidConditional
  | .definition name e => do
    let v ← Action.require .invalidDefinition (← evalPart f e)
    modify fun s => s.set f name v
    return none
  | .assignment name e => do
    -- The frame is found before the value is known.
    match (← get).find? f name with
    | none => throw (.unbound name)
    | some g =>
      let v ← Action.require .invalidAssignment (← evalPart f e)
      modify fun s => s.set g name v
      return none
  | .abstraction params body => do return some (← makeClosure f params body)
  | .application head args => do
    let procedure ← Action.require .invalidCall (← evalPart f head)
    let values ← args.mapM fun arg => do Action.require .invalidCall (← evalPart f arg)
    call evalPart procedure values

/-- Evaluates an expression in a frame, to at most the given depth. -/
def eval : (depth : Nat) → FrameId → Value → Action (Option Value)
  | 0, _, _ => Action.diverge
  | depth + 1, f, e =>
    match e with
    | .symbol name => do return some (← evalSymbol f name)
    | .list items => do evalForm (eval depth) f (← ofExcept (Form.ofList items))
    | v => pure (some v)

end SmallLisp
