import SmallLisp.Error
import SmallLisp.Value.Basic

/-!
# Forms

What a list means as an expression.  Five words at the head of a list make it a special form, each
of a fixed shape; whether the shape is right is settled here, before anything is evaluated.  Any
other list is an application of its head to the rest, and the empty list means nothing.
-/

namespace SmallLisp

/-- The meaning of a list as an expression. -/
inductive Form where
  /-- The expression itself as the value. -/
  | quotation (e : Value)
  | conditional (test consequent alternative : Value)
  | definition (name : String) (e : Value)
  | assignment (name : String) (e : Value)
  | abstraction (params : List String) (body : Value)
  | application (head : Value) (args : List Value)

namespace Form

/-- The names of symbols, if all are symbols. -/
def symbols? : List Value → Option (List String)
  | [] => some []
  | .symbol name :: rest => (symbols? rest).map (name :: ·)
  | _ :: _ => none

/-- The form that starts with a symbol. -/
def ofSymbol (name : String) (args : List Value) : Except Error Form :=
  match name with
  | "quote" =>
    match args with
    | [e] => .ok (.quotation e)
    | _ => .error .invalidQuotation
  | "if" =>
    match args with
    | [test, consequent, alternative] => .ok (.conditional test consequent alternative)
    | _ => .error .invalidConditional
  | "define" =>
    match args with
    | [.symbol x, e] => .ok (.definition x e)
    | _ => .error .invalidDefinition
  | "set!" =>
    match args with
    | [.symbol x, e] => .ok (.assignment x e)
    | _ => .error .invalidAssignment
  | "lambda" =>
    match args with
    | [.list vars, body] =>
      match symbols? vars with
      | some params => .ok (.abstraction params body)
      | none => .error .invalidLambda
    | _ => .error .invalidLambda
  | _ => .ok (.application (.symbol name) args)

/-- The form of a list. -/
def ofList : List Value → Except Error Form
  | [] => .error .invalidCall
  | .symbol name :: args => ofSymbol name args
  | head :: args => .ok (.application head args)

end Form

end SmallLisp
