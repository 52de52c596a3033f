import SmallLisp.Error
import SmallLisp.Numeral
import SmallLisp.Token
import SmallLisp.Value.Basic

/-!
# Reading expressions

A token that is not a parenthesis is an integer if it can be, else a floating-point number if it
can be, else a symbol.  An expression is such a token, or expressions in parentheses.

The reader walks over the tokens once and keeps the lists that are still open, innermost first,
each with its items in reverse.  It stops behind the expression that it has read, or where it
cannot go on.
-/

namespace SmallLisp

/-- The integer of 64 bits that a token is. -/
def int64? (token : String) : Option Int64 :=
  (Numeral.integer? token.toList).bind fun z =>
    if IsInt64 z then some (Int64.ofInt z) else none

/-- The value of a token that is not a parenthesis. -/
def atom (token : String) : Value :=
  match int64? token with
  | some n => .int n
  | none =>
    match Numeral.real? token.toList with
    | some x => .real x
    | none => .symbol token

namespace Reader

/-- The lists that are open at some place, innermost first, with their items in reverse. -/
abbrev Open := List (List Value)

/-- What a token does to the open lists. -/
inductive Step where
  | done (v : Value)
  | more (lists : Open)
  | fail (e : Error)

/-- Puts a finished expression into the innermost open list, if one is open. -/
def finish (v : Value) : Open → Step
  | [] => .done v
  | items :: outer => .more ((v :: items) :: outer)

/-- The step that a token makes. -/
def step (lists : Open) (token : String) : Step :=
  if token = "(" then .more ([] :: lists)
  else if token = ")" then
    match lists with
    | [] => .fail .unexpectedClose
    | items :: outer => finish (.list items.reverse) outer
  else finish (atom token) lists

/-- Reads on with the given lists open. -/
def readFrom (lists : Open) (c : Cursor String) : Except Error Value × Cursor String :=
  match _h : c.next with
  | (none, c') => (.error .unexpectedEnd, c')
  | (some token, c') =>
    match step lists token with
    | .done v => (.ok v, c')
    | .fail e => (.error e, c')
    | .more lists' => readFrom lists' c'
termination_by c.remaining
decreasing_by
  have h1 : c.next.1.isSome = true := by rw [_h]; rfl
  rw [show c' = c.next.2 by rw [_h]]
  exact Cursor.remaining_next_lt h1

end Reader

namespace Cursor

/-- Reads the next expression of a stream of tokens. -/
def read (c : Cursor String) : Except Error Value × Cursor String :=
  Reader.readFrom [] c

end Cursor

/-- A cursor over the tokens of a text. -/
def tokenCursor (source : String) : Cursor String :=
  Cursor.ofList (tokenize source)

/-- The expression that a text holds, which is exactly one. -/
def parse (source : String) : Except Error Value :=
  match (tokenCursor source).read with
  | (.error e, _) => .error e
  | (.ok v, c) => if c.atEnd.1 then .ok v else .error .trailingTokens

end SmallLisp
