import AgentMarkup.Proofs.Comment.Stripped
import AgentMarkup.Proofs.Token.Tag

/-!
The scanner does not read offsets. If each glyph is moved to another place, the tokens are the
same and move with their glyphs (`scan_map_moved`). Each part of the scanner has this
property, from the dispatch on what begins here up to whole texts. Tokens may therefore be read
from the stripped text by itself, and their positions looked up afterwards
(`tokenize_eq_map_moved`).
-/

set_option autoImplicit false
set_option relaxedAutoImplicit false

namespace AgentMarkup

def Glyph.moved (f : Nat → Nat) (g : Glyph) : Glyph :=
  ⟨g.char, f g.offset⟩

def Token.moved (f : Nat → Nat) (t : Token) : Token :=
  ⟨t.kind, t.value, f t.position⟩

theorem Glyph.spell_map_moved (f : Nat → Nat) (gs : List Glyph) :
    spell (gs.map (moved f)) = spell gs := by
  rw [spell, spell, List.map_map]
  rfl

namespace Token

variable (f : Nat → Nat)

theorem headIs_map_moved (p : Char → Bool) (gs : List Glyph) :
    headIs p (gs.map (Glyph.moved f)) = headIs p gs := by
  cases gs <;> rfl

theorem startsTag_map_moved (gs : List Glyph) :
    startsTag (gs.map (Glyph.moved f)) = startsTag gs := by
  cases gs with
  | nil => rfl
  | cons g gs =>
    rw [List.map_cons, startsTag, startsTag, headIs_map_moved, headIs_map_moved, ← List.map_tail,
      headIs_map_moved]
    rfl

theorem dropWhile_map_moved (p : Char → Bool) (gs : List Glyph) :
    (gs.map (Glyph.moved f)).dropWhile (fun g ↦ p g.char) =
      (gs.dropWhile fun g ↦ p g.char).map (Glyph.moved f) :=
  List.dropWhile_map

theorem takeWhile_map_moved (p : Char → Bool) (gs : List Glyph) :
    (gs.map (Glyph.moved f)).takeWhile (fun g ↦ p g.char) =
      (gs.takeWhile fun g ↦ p g.char).map (Glyph.moved f) :=
  List.takeWhile_map

/-! ### Content -/

theorem splitContent_map_moved (gs : List Glyph) :
    splitContent (gs.map (Glyph.moved f)) =
      ((splitContent gs).1.map (Glyph.moved f), (splitContent gs).2.map (Glyph.moved f)) := by
  induction gs with
  | nil => rfl
  | cons g gs ih =>
    have hstart := startsTag_map_moved f (g :: gs)
    rw [List.map_cons] at hstart ⊢
    rw [splitContent, splitContent, hstart, ih]
    split_ifs <;> rfl

theorem ofContent_map_moved (run : List Glyph) :
    ofContent (run.map (Glyph.moved f)) = (ofContent run).map (Token.moved f) := by
  have htrim : Text.trimBy Glyph.isBlank (run.map (Glyph.moved f)) =
      (Text.trimBy Glyph.isBlank run).map (Glyph.moved f) :=
    (Text.map_trimBy (Glyph.moved f) Glyph.isBlank run).symm
  rw [ofContent, ofContent, htrim]
  cases Text.trimBy Glyph.isBlank run with
  | nil => rfl
  | cons g gs =>
    have hspell := Glyph.spell_map_moved f (g :: gs)
    rw [List.map_cons] at hspell ⊢
    simp only [hspell]
    rfl

/-! ### Attributes -/

theorem splitQuoted_map_moved (gs : List Glyph) :
    splitQuoted (gs.map (Glyph.moved f)) = (splitQuoted gs).map fun r ↦
      (r.1.map (Glyph.moved f), r.2.1.moved f, r.2.2.map (Glyph.moved f)) := by
  induction gs with
  | nil => rfl
  | cons g gs ih =>
    rw [List.map_cons, splitQuoted, splitQuoted, ih, Option.map_map]
    split_ifs with hmoved hquote hquote
    · rfl
    · exact absurd hmoved hquote
    · exact absurd hquote hmoved
    · rw [Option.map_map]
      rfl

theorem afterEquals?_map_moved (gs : List Glyph) :
    afterEquals? (gs.map (Glyph.moved f)) = (afterEquals? gs).map (List.map (Glyph.moved f)) := by
  match gs with
  | [] => rfl
  | [_] => rfl
  | a :: b :: gs =>
    simp only [List.map_cons, afterEquals?, Glyph.moved]
    split_ifs <;> rfl

theorem ofAttribute_map_moved (name : List Glyph) (start : Nat) (value : List Glyph)
    (closing : Glyph) :
    ofAttribute (name.map (Glyph.moved f)) (f start) (value.map (Glyph.moved f))
        (closing.moved f) = (ofAttribute name start value closing).map (Token.moved f) := by
  rw [ofAttribute, Glyph.spell_map_moved, Glyph.spell_map_moved]
  cases value <;> rfl

theorem scanAttribute_map_moved (g : Glyph) (gs : List Glyph) :
    scanAttribute (g.moved f) (gs.map (Glyph.moved f)) =
      ((scanAttribute g gs).1.map (Token.moved f),
        (scanAttribute g gs).2.map (Glyph.moved f)) := by
  rw [scanAttribute, scanAttribute, dropWhile_map_moved, takeWhile_map_moved,
    afterEquals?_map_moved]
  cases afterEquals? (gs.dropWhile (isAttrChar ·.char)) with
  | none => rfl
  | some quoted =>
    simp only [Option.map_some, splitQuoted_map_moved]
    cases splitQuoted quoted with
    | none => rfl
    | some parts => exact congrArg (·, _) (ofAttribute_map_moved f (g :: _) g.offset _ _)

/-! ### Tags and texts -/

/-- Moved glyphs in a tag are told apart by their characters, as the glyphs are. -/
theorem scanBody_map_moved_cons (g : Glyph) (gs : List Glyph) :
    scanBody ((g :: gs).map (Glyph.moved f)) =
      if g.isBlank then scanBody (gs.map (Glyph.moved f))
      else if g.char = '/' ∧ headIs (· = '>') gs then
        ([⟨.selfClose, "/>", f g.offset⟩], gs.tail.map (Glyph.moved f))
      else if g.char = '>' then ([⟨.tagEnd, ">", f g.offset⟩], gs.map (Glyph.moved f))
      else if startsTag (g :: gs) then ([], (g :: gs).map (Glyph.moved f))
      else if isAttrStart g.char then
        ((scanAttribute g gs).1.map (Token.moved f) ++
            (scanBody ((scanAttribute g gs).2.map (Glyph.moved f))).1,
          (scanBody ((scanAttribute g gs).2.map (Glyph.moved f))).2)
      else scanBody (gs.map (Glyph.moved f)) := by
  have hstart := startsTag_map_moved f (g :: gs)
  rw [List.map_cons] at hstart ⊢
  rw [scanBody_cons, headIs_map_moved, hstart, scanAttribute_map_moved, List.map_tail]
  rfl

theorem scanBody_map_moved (gs : List Glyph) :
    scanBody (gs.map (Glyph.moved f)) =
      ((scanBody gs).1.map (Token.moved f), (scanBody gs).2.map (Glyph.moved f)) := by
  fun_induction scanBody gs with
  | case1 =>
    rw [List.map_nil, scanBody.eq_def]
    rfl
  | case2 g gs h ih => rw [scanBody_map_moved_cons, if_pos h, ih]
  | case3 g gs h hmark =>
    rw [scanBody_map_moved_cons, if_neg h, if_pos hmark]
    rfl
  | case4 g gs h hmark hclose =>
    rw [scanBody_map_moved_cons, if_neg h, if_neg hmark, if_pos hclose]
    rfl
  | case5 g gs h hmark hclose htag =>
    rw [scanBody_map_moved_cons, if_neg h, if_neg hmark, if_neg hclose, if_pos htag]
    rfl
  | case6 g gs h hmark hclose htag hattr _ ih =>
    rw [scanBody_map_moved_cons, if_neg h, if_neg hmark, if_neg hclose, if_neg htag,
      if_pos hattr, ih, List.map_append]
  | case7 g gs h hmark hclose htag hattr ih =>
    rw [scanBody_map_moved_cons, if_neg h, if_neg hmark, if_neg hclose, if_neg htag,
      if_neg hattr, ih]

theorem scanTag_map_moved (g : Glyph) (gs : List Glyph) :
    scanTag (g.moved f) (gs.map (Glyph.moved f)) =
      ((scanTag g gs).1.map (Token.moved f), (scanTag g gs).2.map (Glyph.moved f)) := by
  have hnamed : (if headIs (· = '/') gs then (gs.map (Glyph.moved f)).tail
      else gs.map (Glyph.moved f)) =
      (if headIs (· = '/') gs then gs.tail else gs).map (Glyph.moved f) := by
    split_ifs
    · exact List.map_tail.symm
    · rfl
  simp only [scanTag, headIs_map_moved, hnamed, dropWhile_map_moved, takeWhile_map_moved,
    scanBody_map_moved, Glyph.spell_map_moved, List.map_cons]
  rfl

/-- Tokens move with the glyphs that they are read from. -/
theorem scan_map_moved (gs : List Glyph) :
    scan (gs.map (Glyph.moved f)) = (scan gs).map (Token.moved f) := by
  have hsplit := splitContent_map_moved f gs
  fun_induction scan gs with
  | case1 gs run h =>
    rw [h] at hsplit
    rw [scan_eq, hsplit, ofContent_map_moved, List.map_nil, scanFromTag, List.append_nil]
  | case2 gs run g rest h _ _ ih =>
    rw [h] at hsplit
    have hrest := ih (splitContent_map_moved f _)
    rw [scan_eq, hsplit, ofContent_map_moved, List.map_cons, scanFromTag, scanTag_map_moved,
      hrest, List.map_append, List.map_append]

theorem glyphsFrom_eq_map_moved (s : Comment.Stripped) (start : Nat) (cs : List Char) :
    s.glyphsFrom start cs =
      (Comment.place start (cs.map .kept)).map (Glyph.moved s.originalOffset) := by
  induction cs generalizing start with
  | nil => rfl
  | cons c cs ih =>
    rw [Comment.Stripped.glyphsFrom, ih, List.map_cons, Comment.place, List.map_cons, Glyph.moved]

/-- The tokens of a document are those of its stripped text, whose positions there tell where they
stand in the document. -/
theorem tokenize_eq_map_moved (input : String) :
    tokenize input =
      (scan (Comment.place 0 ((Comment.stripped 0 input.toList).text.toList.map .kept))).map
        (Token.moved (Comment.stripped 0 input.toList).originalOffset) := by
  rw [tokenize, Comment.strip, glyphsFrom_eq_map_moved, scan_map_moved]

end Token

end AgentMarkup
