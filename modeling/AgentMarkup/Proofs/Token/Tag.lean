import AgentMarkup.Proofs.Token.Content

/-!
Reading a tag. One lemma for each thing that may stand in a tag says what the scanner does
there: blanks are passed over, an attribute gives the tokens of its name and its value, and
a terminator ends the tag. `scanTag_open` and `scanTag_close` put the name in front.
-/

set_option autoImplicit false
set_option relaxedAutoImplicit false

namespace AgentMarkup.Token

/-! ### Inside a tag -/

theorem scanBody_cons (g : Glyph) (gs : List Glyph) : scanBody (g :: gs) =
    if g.isBlank then scanBody gs
    else if g.char = '/' ∧ headIs (· = '>') gs then ([⟨.selfClose, "/>", g.offset⟩], gs.tail)
    else if g.char = '>' then ([⟨.tagEnd, ">", g.offset⟩], gs)
    else if startsTag (g :: gs) then ([], g :: gs)
    else if isAttrStart g.char then
      ((scanAttribute g gs).1 ++ (scanBody (scanAttribute g gs).2).1,
        (scanBody (scanAttribute g gs).2).2)
    else scanBody gs := by
  rw [scanBody.eq_def]

theorem scanBody_blanks_append {blanks : List Glyph} (h : ∀ g ∈ blanks, g.isBlank = true)
    (rest : List Glyph) : scanBody (blanks ++ rest) = scanBody rest := by
  induction blanks with
  | nil => rfl
  | cons g blanks ih =>
    obtain ⟨hg, hblanks⟩ := List.forall_mem_cons.mp h
    rw [List.cons_append, scanBody_cons, if_pos hg, ih hblanks]

theorem scanBody_tagEnd {g : Glyph} (h : g.char = '>') (rest : List Glyph) :
    scanBody (g :: rest) = ([⟨.tagEnd, ">", g.offset⟩], rest) := by
  have hblank : ¬ g.isBlank = true := by
    rw [Glyph.isBlank, h]
    decide
  have hslash : ¬ (g.char = '/' ∧ headIs (· = '>') rest = true) := by
    rw [h]
    exact fun hmark ↦ absurd hmark.1 (by decide)
  rw [scanBody_cons, if_neg hblank, if_neg hslash, if_pos h]

theorem scanBody_selfClose {g a : Glyph} (hg : g.char = '/') (ha : a.char = '>')
    (rest : List Glyph) :
    scanBody (g :: a :: rest) = ([⟨.selfClose, "/>", g.offset⟩], rest) := by
  have hblank : ¬ g.isBlank = true := by
    rw [Glyph.isBlank, hg]
    decide
  have hmark : g.char = '/' ∧ headIs (· = '>') (a :: rest) = true := ⟨hg, by simp [headIs, ha]⟩
  rw [scanBody_cons, if_neg hblank, if_pos hmark]
  rfl

theorem scanBody_attrStart {g : Glyph} (h : isAttrStart g.char = true) (rest : List Glyph) :
    scanBody (g :: rest) =
      ((scanAttribute g rest).1 ++ (scanBody (scanAttribute g rest).2).1,
        (scanBody (scanAttribute g rest).2).2) := by
  have hchar := isAttrChar_of_isAttrStart h
  obtain ⟨hopen, hslash, hend, -⟩ := ne_marks_of_isAttrChar hchar
  have hblank : ¬ g.isBlank = true := by
    rw [Glyph.isBlank, not_isBlank_of_isAttrChar hchar]
    decide
  have hstart : ¬ startsTag (g :: rest) = true := by
    rw [startsTag_eq_false_of_ne hopen]
    decide
  rw [scanBody_cons, if_neg hblank, if_neg (fun hmark ↦ hslash hmark.1), if_neg hend,
    if_neg hstart, if_pos h]

/-! ### Attributes -/

theorem splitQuoted_append {value : List Glyph} {closing : Glyph}
    (hvalue : ∀ g ∈ value, g.char ≠ '"') (hclosing : closing.char = '"') (rest : List Glyph) :
    splitQuoted (value ++ closing :: rest) = some (value, closing, rest) := by
  induction value with
  | nil => rw [List.nil_append, splitQuoted, if_pos hclosing]
  | cons g value ih =>
    obtain ⟨hg, hrest⟩ := List.forall_mem_cons.mp hvalue
    rw [List.cons_append, splitQuoted, if_neg hg, ih hrest]
    rfl

/-- Where a run of a class of characters ends, `takeWhile` and `dropWhile` cut. -/
theorem takeWhile_dropWhile_append {p : Char → Bool} {run : List Glyph}
    (hrun : ∀ g ∈ run, p g.char = true) {rest : List Glyph} (hrest : headIs p rest = false) :
    (run ++ rest).takeWhile (fun g ↦ p g.char) = run ∧
      (run ++ rest).dropWhile (fun g ↦ p g.char) = rest := by
  rw [List.takeWhile_append_of_pos hrun, List.dropWhile_append_of_pos hrun]
  cases rest with
  | nil => simp
  | cons g rest =>
    have hg : p g.char = false := hrest
    simp [hg]

theorem scanAttribute_quoted {g equals opening closing : Glyph} {name value : List Glyph}
    (hname : ∀ a ∈ name, isAttrChar a.char = true) (hequals : equals.char = '=')
    (hopening : opening.char = '"') (hvalue : ∀ a ∈ value, a.char ≠ '"')
    (hclosing : closing.char = '"') (rest : List Glyph) :
    scanAttribute g (name ++ equals :: opening :: (value ++ closing :: rest)) =
      (ofAttribute (g :: name) g.offset value closing, rest) := by
  have hend : headIs isAttrChar (equals :: opening :: (value ++ closing :: rest)) = false := by
    rw [headIs, hequals]
    decide
  obtain ⟨htake, hdrop⟩ := takeWhile_dropWhile_append hname hend
  have hafter : afterEquals? (equals :: opening :: (value ++ closing :: rest)) =
      some (value ++ closing :: rest) := if_pos ⟨hequals, hopening⟩
  simp only [scanAttribute, htake, hdrop, hafter, splitQuoted_append hvalue hclosing]

/-! ### Whole tags -/

theorem scanTag_open {g : Glyph} {name rest : List Glyph}
    (hletter : headIs Char.isAlpha name = true)
    (hname : ∀ a ∈ name, isNameChar a.char = true) (hrest : headIs isNameChar rest = false) :
    scanTag g (name ++ rest) =
      (⟨.tagOpen, Glyph.spell name, g.offset⟩ :: (scanBody rest).1, (scanBody rest).2) := by
  obtain ⟨htake, hdrop⟩ := takeWhile_dropWhile_append hname hrest
  have hslash : headIs (· = '/') (name ++ rest) = false := by
    cases name with
    | nil => exact absurd hletter (by simp [headIs])
    | cons a name =>
      have hchar := isAttrChar_of_isNameChar (hname a List.mem_cons_self)
      simpa [headIs] using (ne_marks_of_isAttrChar hchar).2.1
  simp only [scanTag, hslash, Bool.false_eq_true, if_false, htake, hdrop]

theorem scanTag_close {g slash : Glyph} {name rest : List Glyph} (hslash : slash.char = '/')
    (hname : ∀ a ∈ name, isNameChar a.char = true) (hrest : headIs isNameChar rest = false) :
    scanTag g (slash :: (name ++ rest)) =
      (⟨.tagClose, Glyph.spell name, g.offset⟩ :: (scanBody rest).1, (scanBody rest).2) := by
  obtain ⟨htake, hdrop⟩ := takeWhile_dropWhile_append hname hrest
  have hcloses : headIs (· = '/') (slash :: (name ++ rest)) = true := by simp [headIs, hslash]
  simp only [scanTag, hcloses, if_true, List.tail_cons, htake, hdrop]

end AgentMarkup.Token
