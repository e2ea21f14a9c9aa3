import AgentMarkup.Text.Unprintable

/-!
The quoted form of a text, used wherever a value is shown for inspection. Inside
double quotes the quote and the backslash are escaped, four controls have short
escapes, and every other unprintable character is written by its code point.
-/

set_option autoImplicit false
set_option relaxedAutoImplicit false

namespace AgentMarkup.Text

/-- Lower-case hexadecimal digits without leading zeros. -/
def hexadecimal (n : Nat) : String :=
  String.ofList (Nat.toDigits 16 n)

def quoteChar (c : Char) : String :=
  if c = '\x00' then "\\0"
  else if c = '\t' then "\\t"
  else if c = '\n' then "\\n"
  else if c = '\r' then "\\r"
  else if c = '"' then "\\\""
  else if c = '\\' then "\\\\"
  else if isUnprintable c then "\\u\x7b" ++ hexadecimal c.toNat ++ "\x7d"
  else c.toString

def quote (s : String) : String :=
  "\"" ++ String.join (s.toList.map quoteChar) ++ "\""

/-- A bracketed list of quoted texts. -/
def quoteList (texts : List String) : String :=
  "[" ++ String.intercalate ", " (texts.map quote) ++ "]"

/-- A name and its named fields, each already shown. -/
def quoteRecord (name : String) (fields : List (String × String)) : String :=
  name ++ " \x7b " ++
    String.intercalate ", " (fields.map fun field ↦ field.1 ++ ": " ++ field.2) ++ " \x7d"

end AgentMarkup.Text
