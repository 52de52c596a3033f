import SmallLisp.Binary64.Text
import SmallLisp.Text.Quoted
import SmallLisp.Value.Basic

/-!
# Inspecting values

`Value.inspect` shows how a value is made up: the kind of every part, symbols between quotes, and
procedures by name or by parameters.
-/

namespace SmallLisp.Value

/-- Items in brackets. -/
def bracketed (items : List String) : String :=
  "[" ++ ", ".intercalate items ++ "]"

/-- What a kind of value is made of. -/
def made (kind content : String) : String :=
  kind ++ "(" ++ content ++ ")"

mutual

/-- How a value is made up. -/
def inspect : Value → String
  | int n => made "Integer" (toString n.toInt)
  | real x => made "Float" x.text
  | bool b => made "Boolean" (if b then "true" else "false")
  | symbol name => made "Symbol" (Text.quoted name)
  | list items => made "List" (bracketed (inspectAll items))
  | primitive p => made "Proc" (made "Native" (Text.quoted p.name))
  | closure _ params _ _ =>
    made "Proc" ("(lambda (" ++ bracketed (params.map Text.quoted) ++ ") ...)")

/-- How several values are made up. -/
def inspectAll : List Value → List String
  | [] => []
  | v :: vs => inspect v :: inspectAll vs

end

end SmallLisp.Value
