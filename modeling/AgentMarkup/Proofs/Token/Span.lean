import AgentMarkup.Proofs.Token.Tag

/-!
How a text is cut into content and tags. `Inside` says what may stand in a tag after its name:
attributes, whatever is passed over, and a terminator, unless the next tag or the end comes
first. `Spans` puts the name in front, and `Splits` cuts a whole text into content runs, in
which no tag starts, and the spans of tags. The scanner reads every text so
(`inside_scanBody`, `spans_scanTag`, `exists_splits_scan`), and what its tokens are like
follows from these relations alone.
-/

set_option autoImplicit false
set_option relaxedAutoImplicit false

namespace AgentMarkup.Token

/-! ### Tags -/

/-- Whether a tag cannot go on here: its terminator stands here, or the next tag starts. -/
def endsTag (gs : List Glyph) : Bool :=
  startsTag gs || headIs (· = '>') gs || (headIs (· = '/') gs && headIs (· = '>') gs.tail)

/-- The glyphs of a tag after its name, the tokens they give, and what follows the tag. -/
inductive Inside : List Glyph → List Token → List Glyph → Prop
  | unended {rest : List Glyph} (hrest : rest = [] ∨ startsTag rest = true) : Inside [] [] rest
  | selfClose {slash close : Glyph} {rest : List Glyph} (hslash : slash.char = '/')
    (hclose : close.char = '>') :
    Inside [slash, close] [⟨.selfClose, "/>", slash.offset⟩] rest
  | tagEnd {close : Glyph} {rest : List Glyph} (hclose : close.char = '>') :
    Inside [close] [⟨.tagEnd, ">", close.offset⟩] rest
  | passed {g : Glyph} {span rest : List Glyph} {tokens : List Token}
    (hends : endsTag (g :: (span ++ rest)) = false) (h : Inside span tokens rest) :
    Inside (g :: span) tokens rest
  | valued {g equals opening closing : Glyph} {name value span rest : List Glyph}
    {tokens : List Token} (hstart : isAttrStart g.char = true)
    (hname : ∀ a ∈ name, isAttrChar a.char = true) (hequals : equals.char = '=')
    (hopening : opening.char = '"') (hvalue : ∀ a ∈ value, a.char ≠ '"')
    (hclosing : closing.char = '"') (h : Inside span tokens rest) :
    Inside (g :: (name ++ equals :: opening :: (value ++ closing :: span)))
      (ofAttribute (g :: name) g.offset value closing ++ tokens) rest

/-- The glyphs of a tag, the tokens they give, and what follows the tag. -/
inductive Spans : List Glyph → List Token → List Glyph → Prop
  | opening {mark letter : Glyph} {name span rest : List Glyph} {tokens : List Token}
    (hmark : mark.char = '<') (hletter : letter.char.isAlpha = true)
    (hname : ∀ a ∈ name, isNameChar a.char = true) (h : Inside span tokens rest) :
    Spans (mark :: letter :: (name ++ span))
      (⟨.tagOpen, Glyph.spell (letter :: name), mark.offset⟩ :: tokens) rest
  | closing {mark slash letter : Glyph} {name span rest : List Glyph} {tokens : List Token}
    (hmark : mark.char = '<') (hslash : slash.char = '/') (hletter : letter.char.isAlpha = true)
    (hname : ∀ a ∈ name, isNameChar a.char = true) (h : Inside span tokens rest) :
    Spans (mark :: slash :: letter :: (name ++ span))
      (⟨.tagClose, Glyph.spell (letter :: name), mark.offset⟩ :: tokens) rest

/-- Glyphs that do not end a tag, whatever follows them. -/
def KeepsTag (g : Glyph) : Prop :=
  g.char ≠ '<' ∧ g.char ≠ '/' ∧ g.char ≠ '>'

theorem keepsTag_of_isAttrChar {g : Glyph} (h : isAttrChar g.char = true) : KeepsTag g := by
  obtain ⟨hopen, hslash, hclose, -⟩ := ne_marks_of_isAttrChar h
  exact ⟨hopen, hslash, hclose⟩

theorem KeepsTag.endsTag_eq_false {g : Glyph} (h : KeepsTag g) (gs : List Glyph) :
    endsTag (g :: gs) = false := by
  obtain ⟨hopen, hslash, hclose⟩ := h
  simp [endsTag, startsTag_eq_false_of_ne hopen, headIs, hslash, hclose]

theorem Inside.passed_append {run span rest : List Glyph} {tokens : List Token}
    (hrun : ∀ g ∈ run, KeepsTag g) (h : Inside span tokens rest) :
    Inside (run ++ span) tokens rest := by
  induction run with
  | nil => exact h
  | cons g run ih =>
    obtain ⟨hg, hrun⟩ := List.forall_mem_cons.mp hrun
    exact .passed (hg.endsTag_eq_false _) (ih hrun)

theorem eq_of_afterEquals? {gs rest : List Glyph} (h : afterEquals? gs = some rest) :
    ∃ equals opening, gs = equals :: opening :: rest ∧ equals.char = '=' ∧ opening.char = '"' := by
  unfold afterEquals? at h
  split at h
  · split at h
    · rename_i hchars
      rw [Option.some.injEq] at h
      exact ⟨_, _, by rw [h], hchars.1, hchars.2⟩
    · exact absurd h (by simp)
  · exact absurd h (by simp)

theorem eq_of_splitQuoted {gs value rest : List Glyph} {closing : Glyph}
    (h : splitQuoted gs = some (value, closing, rest)) :
    gs = value ++ closing :: rest ∧ (∀ a ∈ value, a.char ≠ '"') ∧ closing.char = '"' := by
  induction gs generalizing value with
  | nil => simp [splitQuoted] at h
  | cons g gs ih =>
    rw [splitQuoted] at h
    split at h
    · rename_i hquote
      simp only [Option.some.injEq, Prod.mk.injEq] at h
      obtain ⟨rfl, rfl, rfl⟩ := h
      exact ⟨rfl, fun _ ha ↦ absurd ha List.not_mem_nil, hquote⟩
    · rename_i hquote
      obtain ⟨⟨inner, close, after⟩, hsplit, heq⟩ := Option.map_eq_some_iff.mp h
      simp only [Prod.mk.injEq] at heq
      obtain ⟨rfl, rfl, rfl⟩ := heq
      obtain ⟨rfl, hvalue, hclosing⟩ := ih hsplit
      exact ⟨rfl, List.forall_mem_cons.mpr ⟨hquote, hvalue⟩, hclosing⟩

theorem of_mem_takeWhile {p : Char → Bool} {gs : List Glyph} {a : Glyph}
    (h : a ∈ gs.takeWhile (fun g ↦ p g.char)) : p a.char = true := by
  have ha := List.mem_takeWhile_imp h
  exact ha

/-- Where an attribute starts, the scanner takes a whole attribute or passes over glyphs none of
which can end the tag. -/
theorem scanAttribute_cases (g : Glyph) (gs : List Glyph) :
    (∃ run, gs = run ++ (scanAttribute g gs).2 ∧ (scanAttribute g gs).1 = [] ∧
      ∀ a ∈ run, KeepsTag a) ∨
    ∃ name value equals opening closing,
      gs = name ++ equals :: opening :: (value ++ closing :: (scanAttribute g gs).2) ∧
      (scanAttribute g gs).1 = ofAttribute (g :: name) g.offset value closing ∧
      (∀ a ∈ name, isAttrChar a.char = true) ∧ equals.char = '=' ∧ opening.char = '"' ∧
      (∀ a ∈ value, a.char ≠ '"') ∧ closing.char = '"' := by
  have hcut : gs.takeWhile (isAttrChar ·.char) ++ gs.dropWhile (isAttrChar ·.char) = gs :=
    List.takeWhile_append_dropWhile
  have hname : ∀ a ∈ gs.takeWhile (isAttrChar ·.char), isAttrChar a.char = true :=
    fun _ ha ↦ of_mem_takeWhile ha
  have hkeeps : ∀ a ∈ gs.takeWhile (isAttrChar ·.char), KeepsTag a :=
    fun a ha ↦ keepsTag_of_isAttrChar (hname a ha)
  unfold scanAttribute
  split
  · exact Or.inl ⟨_, hcut.symm, rfl, hkeeps⟩
  · rename_i quoted hquoted
    obtain ⟨equals, opening, hdrop, hequals, hopening⟩ := eq_of_afterEquals? hquoted
    rw [hdrop] at hcut
    split
    · refine Or.inl ⟨gs.takeWhile (isAttrChar ·.char) ++ [equals, opening], ?_, rfl, ?_⟩
      · rw [List.append_assoc]
        exact hcut.symm
      · intro a ha
        rcases List.mem_append.mp ha with ha | ha
        · exact hkeeps a ha
        · simp only [List.mem_cons, List.not_mem_nil, or_false] at ha
          rcases ha with rfl | rfl
          · rw [KeepsTag, hequals]
            decide
          · rw [KeepsTag, hopening]
            decide
    · rename_i value closing rest hsplit
      obtain ⟨rfl, hvalue, hclosing⟩ := eq_of_splitQuoted hsplit
      exact Or.inr ⟨_, value, equals, opening, closing, hcut.symm, rfl, hname, hequals, hopening,
        hvalue, hclosing⟩

/-- The scanner reads a tag after its name as such a tag. -/
theorem inside_scanBody (gs : List Glyph) :
    ∃ span, gs = span ++ (scanBody gs).2 ∧ Inside span (scanBody gs).1 (scanBody gs).2 := by
  fun_induction scanBody gs with
  | case1 => exact ⟨[], rfl, .unended (Or.inl rfl)⟩
  | case2 g gs hblank ih =>
    obtain ⟨span, hspan, hinside⟩ := ih
    obtain ⟨hopen, hslash, hclose, -⟩ := ne_marks_of_isBlank hblank
    have hkeeps : KeepsTag g := ⟨hopen, hslash, hclose⟩
    exact ⟨g :: span, congrArg (g :: ·) hspan, .passed (hkeeps.endsTag_eq_false _) hinside⟩
  | case3 g gs _ hmark =>
    obtain ⟨hslash, hclose⟩ := hmark
    cases gs with
    | nil => exact absurd hclose (by simp [headIs])
    | cons a gs => exact ⟨[g, a], rfl, .selfClose hslash (by simpa [headIs] using hclose)⟩
  | case4 g gs _ _ hclose => exact ⟨[g], rfl, .tagEnd hclose⟩
  | case5 g gs _ _ _ hstart => exact ⟨[], rfl, .unended (Or.inr hstart)⟩
  | case6 g gs _ _ _ _ hattr _ ih =>
    obtain ⟨span, hspan, hinside⟩ := ih
    rcases scanAttribute_cases g gs with ⟨run, hgs, htokens, hrun⟩ |
      ⟨name, value, equals, opening, closing, hgs, htokens, hname, hequals, hopening, hvalue,
        hclosing⟩
    · have hkeeps : ∀ a ∈ g :: run, KeepsTag a := List.forall_mem_cons.mpr
        ⟨keepsTag_of_isAttrChar (isAttrChar_of_isAttrStart hattr), hrun⟩
      refine ⟨g :: run ++ span, ?_, ?_⟩
      · rw [List.append_assoc, ← hspan, List.cons_append, ← hgs]
      · rw [htokens]
        exact hinside.passed_append hkeeps
    · refine ⟨g :: (name ++ equals :: opening :: (value ++ closing :: span)), ?_, ?_⟩
      · simp only [List.cons_append, List.append_assoc]
        rw [← hspan, ← hgs]
      · rw [htokens]
        exact .valued hattr hname hequals hopening hvalue hclosing hinside
  | case7 g gs _ hmark hclose hstart _ ih =>
    obtain ⟨span, hspan, hinside⟩ := ih
    refine ⟨g :: span, congrArg (g :: ·) hspan, .passed ?_ hinside⟩
    rw [← hspan, endsTag, Bool.or_eq_false_iff, Bool.or_eq_false_iff]
    refine ⟨⟨by simpa using hstart, by simpa [headIs] using hclose⟩, ?_⟩
    simpa [headIs] using hmark

/-- Where a tag starts the scanner reads a tag. -/
theorem spans_scanTag {g : Glyph} {gs : List Glyph} (h : startsTag (g :: gs) = true) :
    ∃ span, g :: gs = span ++ (scanTag g gs).2 ∧ Spans span (scanTag g gs).1 (scanTag g gs).2 := by
  have hname (letter : Glyph) (named : List Glyph) (hletter : letter.char.isAlpha = true) :
      (letter :: named).takeWhile (isNameChar ·.char) =
          letter :: named.takeWhile (isNameChar ·.char) ∧
        (letter :: named).dropWhile (isNameChar ·.char) = named.dropWhile (isNameChar ·.char) :=
    ⟨List.takeWhile_cons_of_pos (isNameChar_of_isAlpha hletter),
      List.dropWhile_cons_of_pos (isNameChar_of_isAlpha hletter)⟩
  have hchars (named : List Glyph) :
      ∀ a ∈ named.takeWhile (isNameChar ·.char), isNameChar a.char = true :=
    fun _ ha ↦ of_mem_takeWhile ha
  obtain ⟨hmark, hletter | ⟨hslash, hletter⟩⟩ := (startsTag_cons g gs).mp h
  · cases gs with
    | nil => exact absurd hletter (by simp [headIs])
    | cons letter named =>
      have hopens : headIs (· = '/') (letter :: named) = false := by
        have hattr := isAttrChar_of_isNameChar (isNameChar_of_isAlpha hletter)
        simpa [headIs] using (ne_marks_of_isAttrChar hattr).2.1
      obtain ⟨htake, hdrop⟩ := hname letter named hletter
      obtain ⟨span, hspan, hinside⟩ := inside_scanBody (named.dropWhile (isNameChar ·.char))
      simp only [scanTag, hopens, Bool.false_eq_true, if_false, htake, hdrop]
      refine ⟨_, ?_, .opening hmark hletter (hchars named) hinside⟩
      simp only [List.cons_append, List.append_assoc]
      rw [← hspan, List.takeWhile_append_dropWhile]
  · cases gs with
    | nil => exact absurd hletter (by simp [headIs])
    | cons slash gs =>
      cases gs with
      | nil => exact absurd hletter (by simp [headIs])
      | cons letter named =>
        obtain ⟨htake, hdrop⟩ := hname letter named hletter
        obtain ⟨span, hspan, hinside⟩ := inside_scanBody (named.dropWhile (isNameChar ·.char))
        simp only [scanTag, hslash, if_true, List.tail_cons, htake, hdrop]
        refine ⟨_, ?_, .closing hmark (by simpa [headIs] using hslash) hletter (hchars named)
          hinside⟩
        simp only [List.cons_append, List.append_assoc]
        rw [← hspan, List.takeWhile_append_dropWhile]

/-! ### Content and tags -/

/-- Whether no tag starts in a run, which these glyphs follow. -/
def TagFree (run rest : List Glyph) : Prop :=
  ∀ tail, tail ≠ [] → tail <:+ run → startsTag (tail ++ rest) = false

/-- The content runs of a text, in their order, and the tokens of its content and of its
tags. -/
inductive Splits : List Glyph → List (List Glyph) → List Token → Prop
  | content {run : List Glyph} (hfree : TagFree run []) : Splits run [run] (ofContent run)
  | tag {run span rest : List Glyph} {runs : List (List Glyph)} {tag tokens : List Token}
    (hfree : TagFree run (span ++ rest)) (htag : Spans span tag rest)
    (h : Splits rest runs tokens) :
    Splits (run ++ (span ++ rest)) (run :: runs) (ofContent run ++ (tag ++ tokens))

/-- Content goes on to the first tag start. -/
theorem splitContent_cases (gs : List Glyph) :
    gs = (splitContent gs).1 ++ (splitContent gs).2 ∧
      TagFree (splitContent gs).1 (splitContent gs).2 ∧
      ((splitContent gs).2 = [] ∨ startsTag (splitContent gs).2 = true) := by
  induction gs with
  | nil => exact ⟨rfl, fun tail hne htail ↦ absurd (List.suffix_nil.mp htail) hne, Or.inl rfl⟩
  | cons g gs ih =>
    cases hstart : startsTag (g :: gs) with
    | true =>
      rw [splitContent_of_startsTag hstart]
      exact ⟨rfl, fun tail hne htail ↦ absurd (List.suffix_nil.mp htail) hne, Or.inr hstart⟩
    | false =>
      obtain ⟨hgs, hfree, hrest⟩ := ih
      rw [splitContent_cons_of_not_startsTag hstart]
      refine ⟨congrArg (g :: ·) hgs, fun tail hne htail ↦ ?_, hrest⟩
      rcases List.suffix_cons_iff.mp htail with rfl | htail
      · rw [List.cons_append, ← hgs]
        exact hstart
      · exact hfree tail hne htail

theorem exists_splits_scan (gs : List Glyph) : ∃ runs, Splits gs runs (scan gs) := by
  obtain ⟨hgs, hfree, hrest⟩ := splitContent_cases gs
  fun_induction scan gs with
  | case1 gs run hsplit =>
    rw [hsplit] at hgs hfree
    rw [hgs, List.append_nil]
    exact ⟨[run], .content hfree⟩
  | case2 gs run g rest hsplit _ _ ih =>
    rw [hsplit] at hgs hfree hrest
    obtain ⟨span, hspan, htag⟩ := spans_scanTag (hrest.resolve_left (List.cons_ne_nil g rest))
    obtain ⟨hnext, hnextFree, hnextRest⟩ := splitContent_cases (scanTag g rest).2
    obtain ⟨runs, hruns⟩ := ih hnext hnextFree hnextRest
    rw [hspan] at hgs hfree
    refine ⟨run :: runs, ?_⟩
    rw [hgs]
    exact .tag hfree htag hruns

end AgentMarkup.Token
