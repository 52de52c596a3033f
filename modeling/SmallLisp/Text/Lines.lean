/-!
# Lines of a text

A line ends at a line feed, and one carriage return right before the line feed belongs to the
ending.  What follows the last line feed is a line of its own unless it is empty, and keeps its
carriage returns.
-/

namespace SmallLisp.Text

/-- A reversed line without the carriage return that ends it, if one does. -/
def dropReturn : List Char → List Char
  | '\r' :: cs => cs
  | cs => cs

/-- The lines of `cs`, of which the first goes on from the reversed characters `line`. -/
def linesFrom (line : List Char) : List Char → List (List Char)
  | [] => if line.isEmpty then [] else [line.reverse]
  | '\n' :: cs => (dropReturn line).reverse :: linesFrom [] cs
  | c :: cs => linesFrom (c :: line) cs

/-- The lines of a text, without their endings. -/
def lines (text : String) : List String :=
  (linesFrom [] text.toList).map String.ofList

end SmallLisp.Text
