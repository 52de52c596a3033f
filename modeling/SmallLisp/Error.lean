/-!
# Errors

What can go wrong between reading a line and printing its value.  The causes are the constructors;
each belongs to a kind and has a wording, and the message shows both.
-/

namespace SmallLisp

/-- The kinds of errors. -/
inductive ErrorKind where
  /-- The text, a special form or the arguments of a primitive are malformed. -/
  | malformed
  /-- What is well formed still has no meaning. -/
  | evaluation
  | unknown
deriving DecidableEq, Repr

namespace ErrorKind

/-- The words that a message starts with. -/
def label : ErrorKind → String
  | malformed => "syntax error"
  | evaluation => "evaluation error"
  | unknown => "unknown error"

end ErrorKind

/-- The causes of errors. -/
inductive Error where
  | unexpectedEnd
  | unexpectedClose
  | trailingTokens
  | invalidQuotation
  | invalidConditional
  | invalidDefinition
  | invalidAssignment
  | invalidLambda
  | invalidInput
  | invalidCall
  | unbound (name : String)
  /-- A malformed input, in the words of whoever found it. -/
  | malformed (wording : String)
  /-- A failed evaluation, in the words of whoever found it. -/
  | evaluation (wording : String)
  | unknown
deriving DecidableEq, Repr

namespace Error

def kind : Error → ErrorKind
  | invalidCall => .evaluation
  | unbound _ => .evaluation
  | evaluation _ => .evaluation
  | unknown => .unknown
  | _ => .malformed

/-- What an error says, without its kind. -/
def wording : Error → String
  | unexpectedEnd => "unexpected EOF while reading"
  | unexpectedClose => "unexpected )"
  | trailingTokens => "unexpected trailing tokens"
  | invalidQuotation => "invalid quotation"
  | invalidConditional => "invalid conditional statement"
  | invalidDefinition => "invalid definition"
  | invalidAssignment => "invalid assignment"
  | invalidLambda => "invalid lambda"
  | invalidInput => "invalid procedure input"
  | invalidCall => "invalid procedure called"
  | unbound name => "unbound symbol: " ++ name
  | malformed wording => wording
  | evaluation wording => wording
  | unknown => "should never occur"

/-- The whole message of an error. -/
def message (e : Error) : String :=
  e.kind.label ++ ": " ++ e.wording

end Error

end SmallLisp
