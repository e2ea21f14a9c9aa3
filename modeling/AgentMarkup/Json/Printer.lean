import AgentMarkup.Decimal.Shortest
import AgentMarkup.Json.Basic

/-!
Written JSON, compact and indented by two spaces. Only the quote, the backslash and
the controls below the space are escaped. Doubles show the fewest digits that read
back, positionally while the point stays within sixteen digits; an exponent has a sign.
-/

set_option autoImplicit false
set_option relaxedAutoImplicit false

namespace AgentMarkup

/-- Where doubles change from positional to scientific notation. -/
structure NumberFormat where
  /-- Digits before the point that are still written out. -/
  wholeDigits : Int
  /-- Zeros after the point that are still written out. -/
  leadingZeros : Int

namespace NumberFormat

def json : NumberFormat := ⟨16, 4⟩

def zeros (count : Int) : String :=
  String.ofList (List.replicate count.toNat '0')

def write (format : NumberFormat) (d : Decimal.Digits) : String :=
  let digits := Nat.toDigits 10 d.digits
  let point : Int := digits.length + d.exponent
  if 0 ≤ d.exponent ∧ point ≤ format.wholeDigits then
    String.ofList digits ++ zeros d.exponent ++ ".0"
  else if 0 < point ∧ point ≤ format.wholeDigits then
    String.ofList (digits.take point.toNat) ++ "." ++ String.ofList (digits.drop point.toNat)
  else if -format.leadingZeros ≤ point ∧ point ≤ 0 then
    "0." ++ zeros (-point) ++ String.ofList digits
  else
    let fraction := digits.drop 1
    String.ofList (digits.take 1) ++ (if fraction.isEmpty then "" else ".") ++
      String.ofList fraction ++ (if point ≤ 0 then "e" else "e+") ++ toString (point - 1)

end NumberFormat

def Number.write : Number → String
  | .int value => toString value
  | .real negative magnitude =>
    (if negative then "-" else "") ++
      if magnitude.mantissa = 0 then "0.0"
      else NumberFormat.json.write (Decimal.shortest magnitude)

namespace Json

/-- Two hexadecimal digits. -/
def hexByte (n : Nat) : String :=
  String.ofList [Nat.digitChar (n / 16 % 16), Nat.digitChar (n % 16)]

def escapeChar (c : Char) : String :=
  if c = '"' then "\\\""
  else if c = '\\' then "\\\\"
  else if c = '\x08' then "\\b"
  else if c = '\t' then "\\t"
  else if c = '\n' then "\\n"
  else if c = '\x0c' then "\\f"
  else if c = '\r' then "\\r"
  else if c.toNat < 0x20 then "\\u00" ++ hexByte c.toNat
  else c.toString

def writeText (s : String) : String :=
  "\"" ++ String.join (s.toList.map escapeChar) ++ "\""

end Json

def Scalar.write : Scalar → String
  | .null => "null"
  | .bool true => "true"
  | .bool false => "false"
  | .num value => value.write
  | .str value => Json.writeText value

namespace Json

mutual

def compact : Json → String
  | .scalar value => value.write
  | .arr items => "[" ++ String.intercalate "," (compactItems items) ++ "]"
  | .obj members => "\x7b" ++ String.intercalate "," (compactMembers members) ++ "\x7d"

def compactItems : List Json → List String
  | [] => []
  | item :: rest => item.compact :: compactItems rest

def compactMembers : List (String × Json) → List String
  | [] => []
  | (key, value) :: rest => (writeText key ++ ":" ++ value.compact) :: compactMembers rest

end

/-- A bracketed block with one line per part, or the bare brackets if there is none. -/
def block (opening closing : String) (indent : String) (parts : List String) : String :=
  if parts.isEmpty then opening ++ closing
  else
    opening ++ "\n" ++ String.intercalate ",\n" (parts.map (indent ++ "  " ++ ·)) ++
      "\n" ++ indent ++ closing

mutual

def prettyAt (indent : String) : Json → String
  | .scalar value => value.write
  | .arr items => block "[" "]" indent (prettyItems (indent ++ "  ") items)
  | .obj members => block "\x7b" "\x7d" indent (prettyMembers (indent ++ "  ") members)

def prettyItems (indent : String) : List Json → List String
  | [] => []
  | item :: rest => item.prettyAt indent :: prettyItems indent rest

def prettyMembers (indent : String) : List (String × Json) → List String
  | [] => []
  | (key, value) :: rest =>
    (writeText key ++ ": " ++ value.prettyAt indent) :: prettyMembers indent rest

end

def pretty (value : Json) : String :=
  value.prettyAt ""

end Json

end AgentMarkup
