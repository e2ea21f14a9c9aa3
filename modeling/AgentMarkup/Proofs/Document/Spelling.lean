import AgentMarkup.Proofs.Document.Linear
import AgentMarkup.Proofs.Token.Tag

/-!
The spellings of trees. A well-formed tree may be written in many ways: its attributes come
in any order, blanks of any kind and number stand between them and around elements and
texts, and an element without children may close itself. `Spells` is the relation between
siblings and the texts that write them so. What the scanner makes of each part of a spelling
is said here: attributes (`scanBody_of_spellsAttributes`), an opening tag with either of its
ends (`scan_opening`, `scan_single`) and a closing tag (`scan_closing`).
-/

set_option autoImplicit false
set_option relaxedAutoImplicit false

namespace AgentMarkup

namespace Document

open Token

/-! ### Well-formed trees -/

/-- Texts that stand for themselves: trimmed, not empty and without a tag start. -/
structure IsContentText (text : String) : Prop where
  ne_empty : text ≠ ""
  trim_eq : Text.trim text = text
  plain : Plain text.toList

/-- A letter and then letters, digits and hyphens. -/
def IsKind (kind : String) : Prop :=
  ∃ c cs, kind.toList = c :: cs ∧ c.isAlpha = true ∧ cs.all isNameChar = true

/-- A letter, underscore or colon and then these, digits and hyphens. -/
def IsAttributeName (name : String) : Prop :=
  ∃ c cs, name.toList = c :: cs ∧ isAttrStart c = true ∧ cs.all isAttrChar = true

/-- A name with a value that a pair of quotes can hold. -/
def IsAttribute (entry : String × String) : Prop :=
  IsAttributeName entry.1 ∧ '"' ∉ entry.2.toList

/-- Siblings that have a spelling. No text directly follows a text. -/
inductive WellFormed : List Node → Prop
  | nil : WellFormed []
  | text {text : String} {position : Nat} {nodes : List Node} (htext : IsContentText text)
    (hnext : ∀ n ∈ nodes.head?, n.text = none) (h : WellFormed nodes) :
    WellFormed (.leaf text position :: nodes)
  | element {kind : String} {attributes : Table String} {children nodes : List Node}
    {position : Nat} (hkind : IsKind kind)
    (hattributes : ∀ entry ∈ attributes.entries, IsAttribute entry)
    (hchildren : WellFormed children) (h : WellFormed nodes) :
    WellFormed (.element kind attributes children position :: nodes)

theorem WellFormed.of_leaf {text : String} {position : Nat} {nodes : List Node}
    (h : WellFormed (.leaf text position :: nodes)) :
    IsContentText text ∧ (∀ n ∈ nodes.head?, n.text = none) ∧ WellFormed nodes := by
  generalize heq : Node.leaf text position :: nodes = siblings at h
  cases h with
  | nil => exact absurd heq (List.cons_ne_nil _ _)
  | text htext hnext h =>
    simp only [Node.leaf, List.cons.injEq, Node.mk.injEq, Option.some.injEq, true_and] at heq
    obtain ⟨⟨rfl, rfl⟩, rfl⟩ := heq
    exact ⟨htext, hnext, h⟩
  | element => simp [Node.leaf, Node.element] at heq

theorem WellFormed.of_element {kind : String} {attributes : Table String}
    {children nodes : List Node} {position : Nat}
    (h : WellFormed (.element kind attributes children position :: nodes)) :
    IsKind kind ∧ (∀ entry ∈ attributes.entries, IsAttribute entry) ∧ WellFormed children ∧
      WellFormed nodes := by
  generalize heq : Node.element kind attributes children position :: nodes = siblings at h
  cases h with
  | nil => exact absurd heq (List.cons_ne_nil _ _)
  | text => simp [Node.leaf, Node.element] at heq
  | element hkind hattributes hchildren h =>
    simp only [Node.element, List.cons.injEq, Node.mk.injEq, true_and] at heq
    obtain ⟨⟨rfl, rfl, rfl, rfl⟩, rfl⟩ := heq
    exact ⟨hkind, hattributes, hchildren, h⟩

/-! ### Spellings -/

def Blanks (cs : List Char) : Prop :=
  ∀ c ∈ cs, Text.isBlank c = true

instance (cs : List Char) : Decidable (Blanks cs) :=
  List.decidableBAll _ cs

/-- The attributes one after the other, each after at least one blank. -/
inductive SpellsAttributes : List (String × String) → List Char → Prop
  | nil : SpellsAttributes [] []
  | cons {name value : String} {entries : List (String × String)} {gap cs : List Char}
    (hne : gap ≠ []) (hgap : Blanks gap) (h : SpellsAttributes entries cs) :
    SpellsAttributes ((name, value) :: entries)
      (gap ++ (name.toList ++ '=' :: '"' :: (value.toList ++ '"' :: cs)))

/-- An opening tag up to its terminator: the attributes in some order, then blanks. -/
def SpellsStart (kind : String) (attributes : Table String) (cs : List Char) : Prop :=
  ∃ entries spelled pad, entries.Perm attributes.entries ∧ SpellsAttributes entries spelled ∧
    Blanks pad ∧ cs = '<' :: (kind.toList ++ (spelled ++ pad))

/-- The texts that write siblings. -/
inductive Spells : List Node → List Char → Prop
  | nil {blanks : List Char} (hblanks : Blanks blanks) : Spells [] blanks
  | text {text : String} {position : Nat} {nodes : List Node} {blanks cs : List Char}
    (hblanks : Blanks blanks) (h : Spells nodes cs) :
    Spells (.leaf text position :: nodes) (blanks ++ (text.toList ++ cs))
  | paired {kind : String} {attributes : Table String} {children nodes : List Node}
    {position : Nat} {blanks start inner pad cs : List Char} (hblanks : Blanks blanks)
    (hstart : SpellsStart kind attributes start) (hinner : Spells children inner)
    (hpad : Blanks pad) (h : Spells nodes cs) :
    Spells (.element kind attributes children position :: nodes)
      (blanks ++ (start ++ '>' :: (inner ++ '<' :: '/' :: (kind.toList ++ (pad ++ '>' :: cs)))))
  | single {kind : String} {attributes : Table String} {nodes : List Node} {position : Nat}
    {blanks start cs : List Char} (hblanks : Blanks blanks)
    (hstart : SpellsStart kind attributes start) (h : Spells nodes cs) :
    Spells (.element kind attributes [] position :: nodes)
      (blanks ++ (start ++ '/' :: '>' :: cs))

/-! ### Glyphs of a spelling -/

theorem spell_of_map {gs : List Glyph} {s : String} (h : gs.map Glyph.char = s.toList) :
    Glyph.spell gs = s := by
  rw [Glyph.spell, h, String.ofList_toList]

theorem forall_mem_of_map {p : Char → Prop} {gs : List Glyph} {cs : List Char}
    (h : gs.map Glyph.char = cs) (hp : ∀ c ∈ cs, p c) : ∀ g ∈ gs, p g.char := by
  intro g hg
  apply hp
  rw [← h]
  exact List.mem_map_of_mem hg

theorem IsKind.isNameChar {kind : String} (h : IsKind kind) :
    ∀ c ∈ kind.toList, isNameChar c = true := by
  obtain ⟨c, cs, heq, hletter, hrest⟩ := h
  rw [heq]
  exact List.forall_mem_cons.mpr ⟨isNameChar_of_isAlpha hletter, List.all_eq_true.mp hrest⟩

/-- Glyphs of a kind begin with a letter. -/
theorem IsKind.headIs_isAlpha {kind : String} (h : IsKind kind) {gs : List Glyph}
    (hgs : gs.map Glyph.char = kind.toList) (rest : List Glyph) :
    headIs Char.isAlpha (gs ++ rest) = true := by
  obtain ⟨c, cs, heq, hletter, -⟩ := h
  rw [heq] at hgs
  obtain ⟨g, tail, rfl, hg, -⟩ := List.map_eq_cons_iff.mp hgs
  rw [List.cons_append, headIs, hg]
  exact hletter

/-- Blanks keep the name before them apart from what follows them. -/
theorem headIs_blanks_append {gs rest : List Glyph} (h : ∀ g ∈ gs, g.isBlank = true)
    (hrest : headIs isNameChar rest = false) : headIs isNameChar (gs ++ rest) = false := by
  cases gs with
  | nil => exact hrest
  | cons g gs => exact not_isNameChar_of_isBlank (h g List.mem_cons_self)

/-- Attributes keep the name before them apart from what follows, as the first of them
comes after a blank. -/
theorem headIs_spelled_append {entries : List (String × String)} {cs : List Char}
    (h : SpellsAttributes entries cs) {gs rest : List Glyph} (hgs : gs.map Glyph.char = cs)
    (hrest : headIs isNameChar rest = false) : headIs isNameChar (gs ++ rest) = false := by
  cases h with
  | nil =>
    rw [List.map_eq_nil_iff] at hgs
    rw [hgs]
    exact hrest
  | cons hne hgap h =>
    obtain ⟨gapGlyphs, gs, rfl, hgapGlyphs, -⟩ := List.map_eq_append_iff.mp hgs
    have hblank := forall_mem_of_map hgapGlyphs hgap
    cases gapGlyphs with
    | nil => exact absurd hgapGlyphs.symm hne
    | cons g gapGlyphs => exact not_isNameChar_of_isBlank (hblank g List.mem_cons_self)

/-! ### Scanning the parts of an element -/

/-- The scanner reads the attributes of a tag, in their order, up to whatever follows. -/
theorem scanBody_of_spellsAttributes {entries : List (String × String)} {cs : List Char}
    (h : SpellsAttributes entries cs) (hentries : ∀ entry ∈ entries, IsAttribute entry)
    {gs : List Glyph} (hgs : gs.map Glyph.char = cs) (rest : List Glyph) :
    ∃ run, AttributeTokens entries run ∧
      scanBody (gs ++ rest) = (run ++ (scanBody rest).1, (scanBody rest).2) := by
  induction h generalizing gs with
  | nil =>
    rw [List.map_eq_nil_iff] at hgs
    subst hgs
    exact ⟨[], .nil, rfl⟩
  | @cons name value entries gap cs hne hgap h ih =>
    obtain ⟨⟨⟨c, letters, hname, hstart, hletters⟩, hvalue⟩, hothers⟩ :=
      List.forall_mem_cons.mp hentries
    obtain ⟨gapGlyphs, gs, rfl, hgapGlyphs, hgs⟩ := List.map_eq_append_iff.mp hgs
    obtain ⟨nameGlyphs, gs, rfl, hnameGlyphs, hgs⟩ := List.map_eq_append_iff.mp hgs
    obtain ⟨equals, gs, rfl, hequals, hgs⟩ := List.map_eq_cons_iff.mp hgs
    obtain ⟨opening, gs, rfl, hopening, hgs⟩ := List.map_eq_cons_iff.mp hgs
    obtain ⟨valueGlyphs, gs, rfl, hvalueGlyphs, hgs⟩ := List.map_eq_append_iff.mp hgs
    obtain ⟨closing, gs, rfl, hclosing, hgs⟩ := List.map_eq_cons_iff.mp hgs
    obtain ⟨run, hrun, hscan⟩ := ih hothers hgs
    have hspellName := spell_of_map hnameGlyphs
    have hspellValue := spell_of_map hvalueGlyphs
    have htailChars := List.all_eq_true.mp hletters
    have hquotes := forall_mem_of_map hvalueGlyphs fun d hd ↦ ne_of_mem_of_not_mem hd hvalue
    rw [hname] at hnameGlyphs
    obtain ⟨g, tail, rfl, hg, htail⟩ := List.map_eq_cons_iff.mp hnameGlyphs
    let valuePosition := ((valueGlyphs ++ [closing]).headD closing).offset
    refine ⟨_, .cons (p := g.offset) (q := valuePosition) hrun, ?_⟩
    simp only [List.append_assoc, List.cons_append]
    rw [scanBody_blanks_append (forall_mem_of_map hgapGlyphs hgap),
      scanBody_attrStart (by rw [hg]; exact hstart),
      scanAttribute_quoted (forall_mem_of_map htail htailChars) hequals hopening hquotes
        hclosing,
      hscan, ofAttribute, hspellName, hspellValue]
    rfl

theorem startsTag_of_spellsStart {kind : String} {attributes : Table String} {cs : List Char}
    (h : SpellsStart kind attributes cs) (hkind : IsKind kind) {gs : List Glyph}
    (hgs : gs.map Glyph.char = cs) (rest : List Glyph) : startsTag (gs ++ rest) = true := by
  obtain ⟨entries, spelled, pad, -, -, -, rfl⟩ := h
  obtain ⟨mark, gs, rfl, hmark, hgs⟩ := List.map_eq_cons_iff.mp hgs
  obtain ⟨kindGlyphs, gs, rfl, hkindGlyphs, -⟩ := List.map_eq_append_iff.mp hgs
  rw [List.cons_append, startsTag_cons, List.append_assoc]
  exact ⟨hmark, Or.inl (hkind.headIs_isAlpha hkindGlyphs _)⟩

/-- Where an element starts the scanner reads its kind and its attributes, and goes on with
the terminator of the tag. -/
theorem scan_of_spellsStart {kind : String} {attributes : Table String} {cs : List Char}
    (h : SpellsStart kind attributes cs) (hkind : IsKind kind)
    (hattributes : ∀ entry ∈ attributes.entries, IsAttribute entry) {blanks gs : List Glyph}
    (hblanks : ∀ g ∈ blanks, g.isBlank = true) (hgs : gs.map Glyph.char = cs)
    {rest : List Glyph} (hrest : headIs isNameChar rest = false) :
    ∃ entries run position, entries.Perm attributes.entries ∧ AttributeTokens entries run ∧
      scan (blanks ++ (gs ++ rest)) = ⟨.tagOpen, kind, position⟩ ::
        (run ++ ((scanBody rest).1 ++ scan (scanBody rest).2)) := by
  have hstart := startsTag_of_spellsStart h hkind hgs rest
  rw [scan_blanks_append hblanks (blankLed_of_startsTag hstart)]
  obtain ⟨entries, spelled, pad, hperm, hspelled, hpad, rfl⟩ := h
  obtain ⟨mark, gs, rfl, -, hgs⟩ := List.map_eq_cons_iff.mp hgs
  obtain ⟨kindGlyphs, gs, rfl, hkindGlyphs, hgs⟩ := List.map_eq_append_iff.mp hgs
  obtain ⟨spelledGlyphs, padGlyphs, rfl, hspelledGlyphs, hpadGlyphs⟩ :=
    List.map_eq_append_iff.mp hgs
  have hpadBlank := forall_mem_of_map hpadGlyphs hpad
  have hnames := forall_mem_of_map hkindGlyphs hkind.isNameChar
  have hletter : headIs Char.isAlpha kindGlyphs = true := by
    simpa using hkind.headIs_isAlpha hkindGlyphs []
  have hafter := headIs_spelled_append hspelled hspelledGlyphs
    (headIs_blanks_append hpadBlank hrest)
  obtain ⟨run, hrun, hbody⟩ := scanBody_of_spellsAttributes hspelled
    (fun entry hentry ↦ hattributes entry (hperm.mem_iff.mp hentry)) hspelledGlyphs
    (padGlyphs ++ rest)
  rw [scanBody_blanks_append hpadBlank] at hbody
  refine ⟨entries, run, mark.offset, hperm, hrun, ?_⟩
  simp only [List.cons_append, List.append_assoc] at hstart ⊢
  rw [scan_of_startsTag hstart, scanTag_open hletter hnames hafter, hbody,
    spell_of_map hkindGlyphs, List.cons_append, List.append_assoc]

/-- An element that has a closing tag begins with its opening tag and the end of that. -/
theorem scan_opening {kind : String} {attributes : Table String} {blanks start cs : List Char}
    (hblanks : Blanks blanks) (hstart : SpellsStart kind attributes start) (hkind : IsKind kind)
    (hattributes : ∀ entry ∈ attributes.entries, IsAttribute entry) {gs : List Glyph}
    (hgs : gs.map Glyph.char = blanks ++ (start ++ '>' :: cs)) (rest : List Glyph) :
    ∃ entries run p q after, entries.Perm attributes.entries ∧ AttributeTokens entries run ∧
      after.map Glyph.char = cs ∧ scan (gs ++ rest) =
        ⟨.tagOpen, kind, p⟩ :: (run ++ ⟨.tagEnd, ">", q⟩ :: scan (after ++ rest)) := by
  obtain ⟨blankGlyphs, gs, rfl, hblankGlyphs, hgs⟩ := List.map_eq_append_iff.mp hgs
  obtain ⟨startGlyphs, gs, rfl, hstartGlyphs, hgs⟩ := List.map_eq_append_iff.mp hgs
  obtain ⟨tagEnd, after, rfl, htagEnd, hafter⟩ := List.map_eq_cons_iff.mp hgs
  have hend : headIs isNameChar (tagEnd :: (after ++ rest)) = false := by
    rw [headIs, htagEnd]
    decide
  obtain ⟨entries, run, p, hperm, hrun, hscan⟩ := scan_of_spellsStart hstart hkind hattributes
    (forall_mem_of_map hblankGlyphs hblanks) hstartGlyphs hend
  refine ⟨entries, run, p, tagEnd.offset, after, hperm, hrun, hafter, ?_⟩
  rw [scanBody_tagEnd htagEnd] at hscan
  simp only [List.append_assoc, List.cons_append, List.nil_append] at hscan ⊢
  exact hscan

/-- An element that closes itself is its opening tag and the mark. -/
theorem scan_single {kind : String} {attributes : Table String} {blanks start cs : List Char}
    (hblanks : Blanks blanks) (hstart : SpellsStart kind attributes start) (hkind : IsKind kind)
    (hattributes : ∀ entry ∈ attributes.entries, IsAttribute entry) {gs : List Glyph}
    (hgs : gs.map Glyph.char = blanks ++ (start ++ '/' :: '>' :: cs)) (rest : List Glyph) :
    ∃ entries run p q after, entries.Perm attributes.entries ∧ AttributeTokens entries run ∧
      after.map Glyph.char = cs ∧ scan (gs ++ rest) =
        ⟨.tagOpen, kind, p⟩ :: (run ++ ⟨.selfClose, "/>", q⟩ :: scan (after ++ rest)) := by
  obtain ⟨blankGlyphs, gs, rfl, hblankGlyphs, hgs⟩ := List.map_eq_append_iff.mp hgs
  obtain ⟨startGlyphs, gs, rfl, hstartGlyphs, hgs⟩ := List.map_eq_append_iff.mp hgs
  obtain ⟨slash, gs, rfl, hslash, hgs⟩ := List.map_eq_cons_iff.mp hgs
  obtain ⟨close, after, rfl, hclose, hafter⟩ := List.map_eq_cons_iff.mp hgs
  have hend : headIs isNameChar (slash :: close :: (after ++ rest)) = false := by
    rw [headIs, hslash]
    decide
  obtain ⟨entries, run, p, hperm, hrun, hscan⟩ := scan_of_spellsStart hstart hkind hattributes
    (forall_mem_of_map hblankGlyphs hblanks) hstartGlyphs hend
  refine ⟨entries, run, p, slash.offset, after, hperm, hrun, hafter, ?_⟩
  rw [scanBody_selfClose hslash hclose] at hscan
  simp only [List.append_assoc, List.cons_append, List.nil_append] at hscan ⊢
  exact hscan

/-- A closing tag gives its kind and its end, and no text before it takes anything from it. -/
theorem scan_closing {kind : String} (hkind : IsKind kind) {pad cs : List Char}
    (hpad : Blanks pad) {gs : List Glyph}
    (hgs : gs.map Glyph.char = '<' :: '/' :: (kind.toList ++ (pad ++ '>' :: cs)))
    (rest : List Glyph) :
    startsTag (gs ++ rest) = true ∧ ∃ p q after, after.map Glyph.char = cs ∧
      scan (gs ++ rest) =
        ⟨.tagClose, kind, p⟩ :: ⟨.tagEnd, ">", q⟩ :: scan (after ++ rest) := by
  obtain ⟨mark, gs, rfl, hmark, hgs⟩ := List.map_eq_cons_iff.mp hgs
  obtain ⟨slash, gs, rfl, hslash, hgs⟩ := List.map_eq_cons_iff.mp hgs
  obtain ⟨kindGlyphs, gs, rfl, hkindGlyphs, hgs⟩ := List.map_eq_append_iff.mp hgs
  obtain ⟨padGlyphs, gs, rfl, hpadGlyphs, hgs⟩ := List.map_eq_append_iff.mp hgs
  obtain ⟨tagEnd, after, rfl, htagEnd, hafter⟩ := List.map_eq_cons_iff.mp hgs
  have hpadBlank := forall_mem_of_map hpadGlyphs hpad
  have hend : headIs isNameChar (tagEnd :: (after ++ rest)) = false := by
    rw [headIs, htagEnd]
    decide
  simp only [List.append_assoc, List.cons_append]
  have hstart :
      startsTag (mark :: slash :: (kindGlyphs ++ (padGlyphs ++ tagEnd :: (after ++ rest)))) =
        true := by
    refine (startsTag_cons _ _).mpr ⟨hmark, Or.inr ⟨?_, hkind.headIs_isAlpha hkindGlyphs _⟩⟩
    simp [headIs, hslash]
  refine ⟨hstart, mark.offset, tagEnd.offset, after, hafter, ?_⟩
  rw [scan_of_startsTag hstart,
    scanTag_close hslash (forall_mem_of_map hkindGlyphs hkind.isNameChar)
      (headIs_blanks_append hpadBlank hend),
    scanBody_blanks_append hpadBlank, scanBody_tagEnd htagEnd, spell_of_map hkindGlyphs]
  rfl

end Document

end AgentMarkup
