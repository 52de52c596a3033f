import SmallLisp.Eval
import SmallLisp.Reader
import SmallLisp.Text.Blank
import SmallLisp.Text.Lines
import SmallLisp.Value.Printer

/-!
# Sessions

A session is a root frame that starts with the primitives and a few constants, and that keeps what
one line defines for the lines after it.  Several sessions may share a store; each has a root of
its own.

A script is a text taken line by line, without the blank lines; a line that fails does not stop
those after it.
-/

namespace SmallLisp

/-- What is bound at the start: constants under their two names, and all primitives. -/
def standardBindings : Bindings :=
  [("pi", .real .pi), ("π", .real .pi), ("e", .real .euler), ("𝑒", .real .euler)] ++
    Primitive.all.map fun p => (p.name, .primitive p)

/-- Makes a root frame with the standard bindings. -/
def Store.root (s : Store) : FrameId × Store :=
  s.push standardBindings none

/-- Reads an expression and evaluates it in a frame. -/
def evalText (depth : Nat) (f : FrameId) (source : String) : Action (Option Value) := do
  eval depth f (← ofExcept (parse source))

/-- Reads an expression, evaluates it in a frame and writes its value, if it has one. -/
def interpret (depth : Nat) (f : FrameId) (source : String) : Action (Option String) := do
  return (← evalText depth f source).map Value.text

/-- What a line comes to: the text of its value, nothing, or an error. -/
abbrev LineResult := Except Error (Option String)

/-- The lines of a text that are not blank. -/
def scriptLines (source : String) : List String :=
  (Text.lines source).filter fun line => !Text.isBlank line

/-- Interprets the lines of a text one after the other. -/
def runScript (depth : Nat) (f : FrameId) (source : String) : Run (List LineResult) :=
  (scriptLines source).mapM fun line => (interpret depth f line).run

end SmallLisp
