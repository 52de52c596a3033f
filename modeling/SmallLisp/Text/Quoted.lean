import SmallLisp.Text.Hidden

/-!
# Quoted text

A text between double quotes, in which quotes, backslashes and line controls are escaped by a
backslash, and characters without a visible form are given by number.
-/

namespace SmallLisp.Text

/-- A character by its number in hexadecimal. -/
def numbered (c : Char) : String :=
  "\\u\x7b" ++ String.ofList (Nat.toDigits 16 c.toNat) ++ "\x7d"

/-- A character between quotes. -/
def escaped (c : Char) : String :=
  if c = '\x00' then "\\0"
  else if c = '\t' then "\\t"
  else if c = '\r' then "\\r"
  else if c = '\n' then "\\n"
  else if c = '\"' then "\\\""
  else if c = '\\' then "\\\\"
  else if isHidden c then numbered c
  else c.toString

/-- A text between quotes. -/
def quoted (text : String) : String :=
  "\"" ++ String.join (text.toList.map escaped) ++ "\""

end SmallLisp.Text
