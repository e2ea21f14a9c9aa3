import AgentMarkup.Comment
import AgentMarkup.Text.Blank
import AgentMarkup.Token.Basic

/-!
Cutting a document into tokens. Content runs up to the next tag start, `<` or `</`
before a letter, and gives a token if it trims to something. A tag runs to its
terminator, to the next tag start or to the end; inside it only attributes with a
double-quoted value count, and whatever else stands there is passed over.
-/

set_option autoImplicit false
set_option relaxedAutoImplicit false

namespace AgentMarkup

def Glyph.isBlank (g : Glyph) : Bool :=
  Text.isBlank g.char

/-- The text that glyphs spell. -/
def Glyph.spell (gs : List Glyph) : String :=
  String.ofList (gs.map Glyph.char)

namespace Token

def isNameChar (c : Char) : Bool :=
  c.isAlphanum || c = '-'

def isAttrStart (c : Char) : Bool :=
  c.isAlpha || c = '_' || c = ':'

def isAttrChar (c : Char) : Bool :=
  c.isAlphanum || c = '-' || c = '_' || c = ':'

/-- Whether the first glyph satisfies a test. -/
def headIs (p : Char → Bool) : List Glyph → Bool
  | [] => false
  | g :: _ => p g.char

/-- Whether a tag starts here: `<` before a letter, or `</` before a letter. -/
def startsTag : List Glyph → Bool
  | [] => false
  | g :: gs =>
    g.char = '<' && (headIs Char.isAlpha gs || (headIs (· = '/') gs && headIs Char.isAlpha gs.tail))

/-- The content before the next tag start, and the rest. -/
def splitContent : List Glyph → List Glyph × List Glyph
  | [] => ([], [])
  | g :: gs =>
    if startsTag (g :: gs) then ([], g :: gs)
    else (g :: (splitContent gs).1, (splitContent gs).2)

/-- The token of a content run, if the run is not blank. -/
def ofContent (run : List Glyph) : List Token :=
  match Text.trimBy Glyph.isBlank run with
  | [] => []
  | g :: gs => [⟨.text, Glyph.spell (g :: gs), g.offset⟩]

/-- The value before the next double quote, the quote, and the rest. -/
def splitQuoted : List Glyph → Option (List Glyph × Glyph × List Glyph)
  | [] => none
  | g :: gs =>
    if g.char = '"' then some ([], g, gs)
    else (splitQuoted gs).map fun r ↦ (g :: r.1, r.2)

/-- The glyphs after `="`, if they follow. -/
def afterEquals? : List Glyph → Option (List Glyph)
  | a :: b :: gs => if a.char = '=' ∧ b.char = '"' then some gs else none
  | _ => none

/-- The name and value tokens of an attribute. A value stands where the first glyph
after its opening quote does, be that the closing quote. -/
def ofAttribute (name : List Glyph) (start : Nat) (value : List Glyph) (closing : Glyph) :
    List Token :=
  [⟨.attrName, Glyph.spell name, start⟩,
    ⟨.attrValue, Glyph.spell value, ((value ++ [closing]).headD closing).offset⟩]

/-- The tokens of the attribute that starts with this glyph, and the glyphs to go on
with. A name without a quoted value gives no token; neither does one whose value is
never closed, and what follows its opening quote is then read as more of the tag. -/
def scanAttribute (g : Glyph) (gs : List Glyph) : List Token × List Glyph :=
  match afterEquals? (gs.dropWhile (isAttrChar ·.char)) with
  | none => ([], gs.dropWhile (isAttrChar ·.char))
  | some quoted =>
    match splitQuoted quoted with
    | none => ([], quoted)
    | some (value, closing, rest) =>
      (ofAttribute (g :: gs.takeWhile (isAttrChar ·.char)) g.offset value closing, rest)

theorem length_dropWhile_le {α : Type} (p : α → Bool) (l : List α) :
    (l.dropWhile p).length ≤ l.length :=
  (List.dropWhile_sublist p).length_le

theorem length_splitContent_le (gs : List Glyph) : (splitContent gs).2.length ≤ gs.length := by
  induction gs with
  | nil => simp [splitContent]
  | cons g gs ih =>
    simp only [splitContent]
    split
    · simp
    · exact Nat.le_succ_of_le ih

theorem length_of_splitQuoted {gs value rest : List Glyph} {closing : Glyph}
    (h : splitQuoted gs = some (value, closing, rest)) : rest.length < gs.length := by
  induction gs generalizing value with
  | nil => simp [splitQuoted] at h
  | cons g gs ih =>
    simp only [splitQuoted] at h
    split at h
    · simp only [Option.some.injEq, Prod.mk.injEq] at h
      simp [← h.2.2]
    · obtain ⟨⟨v, c, r⟩, hr, heq⟩ := Option.map_eq_some_iff.mp h
      simp only [Prod.mk.injEq] at heq
      obtain ⟨_, rfl, rfl⟩ := heq
      exact Nat.lt_succ_of_lt (ih hr)

theorem length_of_afterEquals? {gs rest : List Glyph} (h : afterEquals? gs = some rest) :
    rest.length < gs.length := by
  unfold afterEquals? at h
  split at h
  · split at h
    · simp only [Option.some.injEq] at h
      subst h
      simp only [List.length_cons]
      omega
    · simp at h
  · simp at h

theorem length_scanAttribute_le (g : Glyph) (gs : List Glyph) :
    (scanAttribute g gs).2.length ≤ gs.length := by
  have hname := length_dropWhile_le (isAttrChar ·.char) gs
  unfold scanAttribute
  split
  · exact hname
  · rename_i quoted hquoted
    have hlt := length_of_afterEquals? hquoted
    split
    · exact Nat.le_of_lt (Nat.lt_of_lt_of_le hlt hname)
    · rename_i hvalue
      have := length_of_splitQuoted hvalue
      dsimp only
      omega

/-- The tokens of a tag after its name, up to and including its terminator, and the
glyphs after it. -/
def scanBody : List Glyph → List Token × List Glyph
  | [] => ([], [])
  | g :: gs =>
    if g.isBlank then scanBody gs
    else if g.char = '/' ∧ headIs (· = '>') gs then ([⟨.selfClose, "/>", g.offset⟩], gs.tail)
    else if g.char = '>' then ([⟨.tagEnd, ">", g.offset⟩], gs)
    else if startsTag (g :: gs) then ([], g :: gs)
    else if isAttrStart g.char then
      have := length_scanAttribute_le g gs
      ((scanAttribute g gs).1 ++ (scanBody (scanAttribute g gs).2).1,
        (scanBody (scanAttribute g gs).2).2)
    else scanBody gs
termination_by gs => gs.length
decreasing_by
  all_goals simp only [List.length_cons]; omega

theorem length_scanBody_le (gs : List Glyph) : (scanBody gs).2.length ≤ gs.length := by
  fun_induction scanBody gs with
  | case1 => simp
  | case2 g gs _ ih => exact Nat.le_succ_of_le ih
  | case3 g gs =>
    simp only [List.length_tail, List.length_cons]
    omega
  | case4 => simp
  | case5 => simp
  | case6 =>
    simp only [List.length_cons]
    omega
  | case7 g gs _ _ _ _ _ ih => exact Nat.le_succ_of_le ih

/-- The tokens of the tag that starts with this glyph, and the glyphs after it. -/
def scanTag (g : Glyph) (gs : List Glyph) : List Token × List Glyph :=
  let closes := headIs (· = '/') gs
  let named := if closes then gs.tail else gs
  let body := scanBody (named.dropWhile (isNameChar ·.char))
  let name := Glyph.spell (named.takeWhile (isNameChar ·.char))
  (⟨if closes then .tagClose else .tagOpen, name, g.offset⟩ :: body.1, body.2)

theorem length_scanTag_le (g : Glyph) (gs : List Glyph) :
    (scanTag g gs).2.length ≤ gs.length := by
  simp only [scanTag]
  refine Nat.le_trans (length_scanBody_le _) (Nat.le_trans (length_dropWhile_le _ _) ?_)
  split <;> simp

/-- The tokens of content: its text, then the tag after it and the content after that. -/
def scan (gs : List Glyph) : List Token :=
  match h : splitContent gs with
  | (run, []) => ofContent run
  | (run, g :: rest) =>
    have hrest : (g :: rest).length ≤ gs.length := by
      have := length_splitContent_le gs
      rwa [h] at this
    have htag := length_scanTag_le g rest
    ofContent run ++ ((scanTag g rest).1 ++ scan (scanTag g rest).2)
termination_by gs.length
decreasing_by
  simp only [List.length_cons] at hrest
  omega

end Token

/-- The tokens of a document without its comments. -/
def tokenize (input : String) : List Token :=
  Token.scan (Comment.strip 0 input.toList)

end AgentMarkup
