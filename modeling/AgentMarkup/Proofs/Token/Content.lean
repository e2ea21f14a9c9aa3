import AgentMarkup.Proofs.Text.Blank
import AgentMarkup.Proofs.Token.Letters
import Mathlib.Data.List.Infix

/-!
Reading content. A run of glyphs in which no tag starts, whatever follows it, goes into the
content whole (`splitContent_plain_append`), and blanks before a text or after it leave no trace
in the tokens (`scan_blanks_append`, `scan_text_append`). Where a tag starts the scanner
goes on with that tag (`scan_of_startsTag`).
-/

set_option autoImplicit false
set_option relaxedAutoImplicit false

namespace AgentMarkup.Token

/-! ### Tag starts -/

theorem startsTag_cons (g : Glyph) (gs : List Glyph) : startsTag (g :: gs) = true ↔
    g.char = '<' ∧ (headIs Char.isAlpha gs = true ∨
      (headIs (· = '/') gs = true ∧ headIs Char.isAlpha gs.tail = true)) := by
  simp [startsTag]

theorem startsTag_eq_false_of_ne {g : Glyph} (h : g.char ≠ '<') (gs : List Glyph) :
    startsTag (g :: gs) = false := by
  rw [Bool.eq_false_iff, ne_eq, startsTag_cons]
  exact fun hstart ↦ h hstart.1

/-- Whether what follows a text cannot complete a tag start that the text leaves open. -/
def EndsContent (gs : List Glyph) : Prop :=
  headIs Char.isAlpha gs = false ∧ headIs (· = '/') gs = false

theorem endsContent_nil : EndsContent [] := ⟨rfl, rfl⟩

theorem endsContent_of_blank {g : Glyph} (h : g.isBlank = true) (gs : List Glyph) :
    EndsContent (g :: gs) := by
  obtain ⟨-, hslash, -, halpha⟩ := ne_marks_of_isBlank h
  exact ⟨halpha, by simpa [headIs] using hslash⟩

theorem endsContent_of_startsTag {gs : List Glyph} (h : startsTag gs = true) :
    EndsContent gs := by
  cases gs with
  | nil => exact endsContent_nil
  | cons g gs =>
    have hchar := ((startsTag_cons g gs).mp h).1
    simp only [EndsContent, headIs, hchar]
    decide

/-- A text in which no tag starts: no `<` before a letter or before `/` and a letter. -/
def Plain (cs : List Char) : Prop :=
  ∀ c, c.isAlpha = true → ¬ ['<', c] <:+: cs ∧ ¬ ['<', '/', c] <:+: cs

theorem plain_iff_forall_mem (cs : List Char) : Plain cs ↔
    ∀ c ∈ cs, c.isAlpha = true → ¬ ['<', c] <:+: cs ∧ ¬ ['<', '/', c] <:+: cs := by
  constructor
  · exact fun h c _ hc ↦ h c hc
  · intro h c hc
    by_cases hmem : c ∈ cs
    · exact h c hmem hc
    · exact ⟨fun hin ↦ hmem (hin.subset (by simp)), fun hin ↦ hmem (hin.subset (by simp))⟩

-- With all characters to choose from the search for an instance would go through each.
instance (cs : List Char) : Decidable (Plain cs) :=
  @decidable_of_iff _ _ (plain_iff_forall_mem cs).symm (List.decidableBAll _ cs)

theorem Plain.of_cons {c : Char} {cs : List Char} (h : Plain (c :: cs)) : Plain cs :=
  fun d hd ↦ ⟨fun hin ↦ (h d hd).1 (hin.trans (List.suffix_cons c cs).isInfix),
    fun hin ↦ (h d hd).2 (hin.trans (List.suffix_cons c cs).isInfix)⟩

/-- No tag starts in a plain text, also not with what follows it. -/
theorem startsTag_eq_false_of_plain {g : Glyph} {gs rest : List Glyph}
    (h : Plain ((g :: gs).map Glyph.char)) (hrest : EndsContent rest) :
    startsTag (g :: (gs ++ rest)) = false := by
  rw [Bool.eq_false_iff, ne_eq, startsTag_cons]
  rintro ⟨hopen, hletter | ⟨hslash, hletter⟩⟩
  · cases gs with
    | nil => exact absurd hletter (by simp [hrest.1])
    | cons a gs =>
      refine (h a.char hletter).1 ⟨[], gs.map Glyph.char, ?_⟩
      simp [hopen]
  · cases gs with
    | nil => exact absurd hslash (by simp [hrest.2])
    | cons a gs =>
      have hchar : a.char = '/' := by simpa [headIs] using hslash
      cases gs with
      | nil => exact absurd hletter (by simp [hrest.1])
      | cons b gs =>
        refine (h b.char hletter).2 ⟨[], gs.map Glyph.char, ?_⟩
        simp [hopen, hchar]

/-! ### Content runs -/

theorem splitContent_cons_of_not_startsTag {g : Glyph} {gs : List Glyph}
    (h : startsTag (g :: gs) = false) :
    splitContent (g :: gs) = (g :: (splitContent gs).1, (splitContent gs).2) := by
  rw [splitContent, if_neg (by simp [h])]

theorem splitContent_of_startsTag {gs : List Glyph} (h : startsTag gs = true) :
    splitContent gs = ([], gs) := by
  cases gs with
  | nil => rfl
  | cons g gs => rw [splitContent, if_pos h]

theorem splitContent_blanks_append {blanks : List Glyph} (h : ∀ g ∈ blanks, g.isBlank = true)
    (rest : List Glyph) :
    splitContent (blanks ++ rest) =
      (blanks ++ (splitContent rest).1, (splitContent rest).2) := by
  induction blanks with
  | nil => rfl
  | cons g blanks ih =>
    obtain ⟨hg, hblanks⟩ := List.forall_mem_cons.mp h
    have hstart := startsTag_eq_false_of_ne (ne_marks_of_isBlank hg).1 (blanks ++ rest)
    rw [List.cons_append, splitContent_cons_of_not_startsTag hstart, ih hblanks]
    rfl

theorem splitContent_plain_append {text rest : List Glyph} (h : Plain (text.map Glyph.char))
    (hrest : EndsContent rest) :
    splitContent (text ++ rest) = (text ++ (splitContent rest).1, (splitContent rest).2) := by
  induction text with
  | nil => rfl
  | cons g text ih =>
    have hstart := startsTag_eq_false_of_plain h hrest
    rw [List.cons_append, splitContent_cons_of_not_startsTag hstart, ih h.of_cons]
    rfl

/-! ### Tokens of content -/

/-- The tokens from a tag on. -/
def scanFromTag : List Glyph → List Token
  | [] => []
  | g :: rest => (scanTag g rest).1 ++ scan (scanTag g rest).2

theorem scan_eq (gs : List Glyph) :
    scan gs = ofContent (splitContent gs).1 ++ scanFromTag (splitContent gs).2 := by
  rw [scan]
  split
  · rename_i run h
    rw [h, scanFromTag, List.append_nil]
  · rename_i run g rest h
    simp only [h, scanFromTag]

theorem ofContent_of_blank {run : List Glyph} (h : ∀ g ∈ run, g.isBlank = true) :
    ofContent run = [] := by
  rw [ofContent, Text.trimBy_eq_nil_iff.mpr h]

theorem scan_of_startsTag {g : Glyph} {gs : List Glyph} (h : startsTag (g :: gs) = true) :
    scan (g :: gs) = (scanTag g gs).1 ++ scan (scanTag g gs).2 := by
  rw [scan_eq, splitContent_of_startsTag h]
  rfl

theorem scan_nil : scan [] = [] := by
  rw [scan_eq]
  rfl

/-- Glyphs whose content run is blank: a text before them takes nothing from them. -/
def BlankLed (gs : List Glyph) : Prop :=
  ∀ g ∈ (splitContent gs).1, g.isBlank = true

theorem blankLed_of_startsTag {gs : List Glyph} (h : startsTag gs = true) : BlankLed gs := by
  rw [BlankLed, splitContent_of_startsTag h]
  exact fun _ hg ↦ absurd hg List.not_mem_nil

theorem blankLed_nil : BlankLed [] := fun _ hg ↦ absurd hg List.not_mem_nil

theorem BlankLed.blanks_append {blanks rest : List Glyph} (hrest : BlankLed rest)
    (h : ∀ g ∈ blanks, g.isBlank = true) : BlankLed (blanks ++ rest) := by
  rw [BlankLed, splitContent_blanks_append h]
  intro g hg
  exact (List.mem_append.mp hg).elim (h g) (hrest g)

theorem BlankLed.endsContent {gs : List Glyph} (h : BlankLed gs) : EndsContent gs := by
  cases gs with
  | nil => exact endsContent_nil
  | cons g gs =>
    cases hstart : startsTag (g :: gs) with
    | true => exact endsContent_of_startsTag hstart
    | false =>
      rw [BlankLed, splitContent_cons_of_not_startsTag hstart] at h
      exact endsContent_of_blank (h g List.mem_cons_self) gs

/-- Blanks leave no token, whether a tag or blanks and a tag follow. -/
theorem scan_blanks_append {blanks rest : List Glyph} (h : ∀ g ∈ blanks, g.isBlank = true)
    (hrest : BlankLed rest) : scan (blanks ++ rest) = scan rest := by
  rw [scan_eq, scan_eq rest, splitContent_blanks_append h, ofContent_of_blank hrest,
    ofContent_of_blank]
  intro g hg
  exact (List.mem_append.mp hg).elim (h g) (hrest g)

theorem trimBy_isBlank_of_map {gs : List Glyph}
    (h : Text.trimBy Text.isBlank (gs.map Glyph.char) = gs.map Glyph.char) :
    Text.trimBy Glyph.isBlank gs = gs := by
  have hmap : (Text.trimBy Glyph.isBlank gs).map Glyph.char = gs.map Glyph.char :=
    (Text.map_trimBy Glyph.char Text.isBlank gs).trans h
  refine (Text.trimBy_sublist _ gs).eq_of_length ?_
  simpa using congrArg List.length hmap

/-- A plain trimmed text between blanks gives its own token. -/
theorem scan_text_append {blanks text rest : List Glyph}
    (h : ∀ g ∈ blanks, g.isBlank = true) (hne : text ≠ [])
    (htrim : Text.trimBy Text.isBlank (text.map Glyph.char) = text.map Glyph.char)
    (hplain : Plain (text.map Glyph.char)) (hrest : BlankLed rest) :
    ∃ position, scan (blanks ++ (text ++ rest)) =
      ⟨.text, Glyph.spell text, position⟩ :: scan rest := by
  have hrun : Text.trimBy Glyph.isBlank (blanks ++ (text ++ (splitContent rest).1)) = text :=
    Text.trimBy_append_append h hrest (trimBy_isBlank_of_map htrim)
  rw [scan_eq, scan_eq rest, splitContent_blanks_append h,
    splitContent_plain_append hplain hrest.endsContent, ofContent_of_blank hrest, ofContent, hrun]
  cases text with
  | nil => exact absurd rfl hne
  | cons g text => exact ⟨g.offset, rfl⟩

end AgentMarkup.Token
