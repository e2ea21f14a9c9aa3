/-!
Blank characters are the twenty-five of the Unicode property White_Space. Trimming
takes them off both ends and leaves every blank inside in place.
-/

set_option autoImplicit false
set_option relaxedAutoImplicit false

namespace AgentMarkup.Text

/-- The property White_Space, which has no character outside the basic plane. -/
def isBlank (c : Char) : Bool :=
  let n := c.toNat
  (0x09 ≤ n && n ≤ 0x0d) || n == 0x20 || n == 0x85 || n == 0xa0 || n == 0x1680 ||
    (0x2000 ≤ n && n ≤ 0x200a) || n == 0x2028 || n == 0x2029 || n == 0x202f ||
    n == 0x205f || n == 0x3000

variable {α : Type}

/-- Drops the longest final segment all of whose members satisfy `p`. -/
def dropEndWhile (p : α → Bool) (l : List α) : List α :=
  (l.reverse.dropWhile p).reverse

def trimBy (p : α → Bool) (l : List α) : List α :=
  dropEndWhile p (l.dropWhile p)

def trim (s : String) : String :=
  String.ofList (trimBy isBlank s.toList)

def trimEnd (s : String) : String :=
  String.ofList (dropEndWhile isBlank s.toList)

/-- Blank texts are those that trim to nothing. -/
def isBlankText (s : String) : Bool :=
  s.toList.all isBlank

/-- Cuts a text at its first blank, which belongs to neither part. -/
def splitAtBlank (s : String) : String × Option String :=
  let isInside (c : Char) : Bool := !isBlank c
  match s.toList.dropWhile isInside with
  | [] => (s, none)
  | _ :: rest => (String.ofList (s.toList.takeWhile isInside), some (String.ofList rest))

/-- Lower case for ASCII letters; no other letter has an ASCII lower case that the
words compared here contain. -/
def lowercase (s : String) : String :=
  String.ofList (s.toList.map Char.toLower)

end AgentMarkup.Text
