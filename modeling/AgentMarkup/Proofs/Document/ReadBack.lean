import AgentMarkup.Proofs.Comment.Stripped
import AgentMarkup.Proofs.Document.Spelling

/-!
Every spelling of a well-formed tree is read back as that tree. The scanner turns a spelling
into the tokens of the same siblings, placed where they stand (`readsAs_of_spells`), form by
form of the spelling; the builder turns these tokens into the siblings
(`build_of_linear`); and a text without the start of a comment reaches the scanner whole
(`Comment.map_char_strip`).
-/

set_option autoImplicit false
set_option relaxedAutoImplicit false

namespace AgentMarkup

namespace Document

open Token

/-- A spelling that does not begin with a text takes nothing into a text before it. -/
theorem blankLed_of_spells {nodes : List Node} {cs : List Char} (h : Spells nodes cs)
    (hform : WellFormed nodes) (hfirst : ∀ n ∈ nodes.head?, n.text = none) {gs : List Glyph}
    (hgs : gs.map Glyph.char = cs) {rest : List Glyph} (hrest : BlankLed rest) :
    BlankLed (gs ++ rest) := by
  cases h with
  | nil hblanks => exact hrest.blanks_append (forall_mem_of_map hgs hblanks)
  | text => exact absurd (hfirst _ rfl) (by simp [Node.leaf])
  | paired hblanks hstart =>
    obtain ⟨blanks, gs, rfl, hblankGlyphs, hgs⟩ := List.map_eq_append_iff.mp hgs
    obtain ⟨start, gs, rfl, hstartGlyphs, -⟩ := List.map_eq_append_iff.mp hgs
    rw [List.append_assoc, List.append_assoc]
    have hbegin := startsTag_of_spellsStart hstart hform.of_element.1 hstartGlyphs
    exact (blankLed_of_startsTag (hbegin _)).blanks_append
      (forall_mem_of_map hblankGlyphs hblanks)
  | single hblanks hstart =>
    obtain ⟨blanks, gs, rfl, hblankGlyphs, hgs⟩ := List.map_eq_append_iff.mp hgs
    obtain ⟨start, gs, rfl, hstartGlyphs, -⟩ := List.map_eq_append_iff.mp hgs
    rw [List.append_assoc, List.append_assoc]
    have hbegin := startsTag_of_spellsStart hstart hform.of_element.1 hstartGlyphs
    exact (blankLed_of_startsTag (hbegin _)).blanks_append
      (forall_mem_of_map hblankGlyphs hblanks)

/-- Whether the scanner reads these characters, up to positions, as tokens of these siblings
wherever no text directly follows them, and goes on after them. -/
def ReadsAs (cs : List Char) (nodes : List Node) : Prop :=
  ∀ gs rest, gs.map Glyph.char = cs → BlankLed rest → ∃ placed tokens,
    Node.unplacedAll placed = Node.unplacedAll nodes ∧ Linear placed tokens ∧
      scan (gs ++ rest) = tokens ++ scan rest

theorem readsAs_nil {blanks : List Char} (hblanks : Blanks blanks) : ReadsAs blanks [] := by
  intro gs rest hgs hrest
  exact ⟨[], [], rfl, .nil, scan_blanks_append (forall_mem_of_map hgs hblanks) hrest⟩

/-- A text is read up to the siblings after it, none of which is a text at their head. -/
theorem ReadsAs.text {nodes : List Node} {cs : List Char} (h : ReadsAs cs nodes)
    (hspells : Spells nodes cs) (hform : WellFormed nodes)
    (hnext : ∀ n ∈ nodes.head?, n.text = none) {text : String} (htext : IsContentText text)
    {blanks : List Char} (hblanks : Blanks blanks) (position : Nat) :
    ReadsAs (blanks ++ (text.toList ++ cs)) (.leaf text position :: nodes) := by
  intro gs rest hgs hrest
  obtain ⟨blankGlyphs, gs, rfl, hblankGlyphs, hgs⟩ := List.map_eq_append_iff.mp hgs
  obtain ⟨textGlyphs, gs, rfl, htextGlyphs, hgs⟩ := List.map_eq_append_iff.mp hgs
  obtain ⟨placed, tokens, hplaced, hlinear, hscan⟩ := h gs rest hgs hrest
  have hne : textGlyphs ≠ [] := by
    rintro rfl
    exact htext.ne_empty (spell_of_map htextGlyphs).symm
  have htrim := Text.trimBy_toList_of_trim htext.trim_eq
  have hplain := htext.plain
  rw [← htextGlyphs] at htrim hplain
  obtain ⟨p, hfirst⟩ := scan_text_append (forall_mem_of_map hblankGlyphs hblanks) hne htrim
    hplain (blankLed_of_spells hspells hform hnext hgs hrest)
  rw [spell_of_map htextGlyphs, hscan] at hfirst
  refine ⟨.leaf text p :: placed, _, ?_, .text hlinear, ?_⟩
  · rw [Node.unplacedAll, Node.unplacedAll, hplaced]
    rfl
  · rw [List.append_assoc, List.append_assoc]
    exact hfirst

/-- An element with a closing tag is read with its children, which end where that tag
starts. -/
theorem ReadsAs.paired {children nodes : List Node} {inner cs : List Char}
    (hinner : ReadsAs inner children) (h : ReadsAs cs nodes) {kind : String}
    {attributes : Table String} (hkind : IsKind kind)
    (hattributes : ∀ entry ∈ attributes.entries, IsAttribute entry)
    {blanks start pad : List Char} (hblanks : Blanks blanks)
    (hstart : SpellsStart kind attributes start) (hpad : Blanks pad) (position : Nat) :
    ReadsAs (blanks ++ (start ++ '>' ::
        (inner ++ '<' :: '/' :: (kind.toList ++ (pad ++ '>' :: cs)))))
      (.element kind attributes children position :: nodes) := by
  intro gs rest hgs hrest
  obtain ⟨entries, run, p, q, gs, hperm, hrun, hgs, hopening⟩ :=
    scan_opening hblanks hstart hkind hattributes hgs rest
  obtain ⟨innerGlyphs, gs, rfl, hinnerGlyphs, hgs⟩ := List.map_eq_append_iff.mp hgs
  obtain ⟨hcloses, r, t, gs, hgs, hclosing⟩ := scan_closing hkind hpad hgs rest
  obtain ⟨placedChildren, innerTokens, hplacedChildren, hlinearChildren, hscanChildren⟩ :=
    hinner innerGlyphs _ hinnerGlyphs (blankLed_of_startsTag hcloses)
  obtain ⟨placed, tokens, hplaced, hlinear, hscan⟩ := h gs rest hgs hrest
  refine ⟨.element kind attributes placedChildren p :: placed, _, ?_,
    .paired (p := q) (q := r) (r := t) hperm hrun hlinearChildren hlinear, ?_⟩
  · simp only [Node.unplacedAll, Node.element, Node.unplaced, hplaced, hplacedChildren]
  · rw [hopening, List.append_assoc, hscanChildren, hclosing, hscan]
    simp only [List.append_assoc, List.cons_append]

theorem ReadsAs.single {nodes : List Node} {cs : List Char} (h : ReadsAs cs nodes)
    {kind : String} {attributes : Table String} (hkind : IsKind kind)
    (hattributes : ∀ entry ∈ attributes.entries, IsAttribute entry) {blanks start : List Char}
    (hblanks : Blanks blanks) (hstart : SpellsStart kind attributes start) (position : Nat) :
    ReadsAs (blanks ++ (start ++ '/' :: '>' :: cs))
      (.element kind attributes [] position :: nodes) := by
  intro gs rest hgs hrest
  obtain ⟨entries, run, p, q, gs, hperm, hrun, hgs, hsingle⟩ :=
    scan_single hblanks hstart hkind hattributes hgs rest
  obtain ⟨placed, tokens, hplaced, hlinear, hscan⟩ := h gs rest hgs hrest
  refine ⟨.element kind attributes [] p :: placed, _, ?_,
    .single (p := q) hperm hrun hlinear, ?_⟩
  · simp only [Node.unplacedAll, Node.element, Node.unplaced, hplaced]
  · rw [hsingle, hscan]
    simp only [List.append_assoc, List.cons_append]

/-- The scanner reads every spelling of well-formed siblings as these siblings. -/
theorem readsAs_of_spells {nodes : List Node} {cs : List Char} (h : Spells nodes cs)
    (hform : WellFormed nodes) : ReadsAs cs nodes := by
  induction h with
  | nil hblanks => exact readsAs_nil hblanks
  | text hblanks h ih =>
    obtain ⟨htext, hnext, hnodes⟩ := hform.of_leaf
    exact (ih hnodes).text h hnodes hnext htext hblanks _
  | paired hblanks hstart hinner hpad h ihinner ih =>
    obtain ⟨hkind, hattributes, hchildren, hnodes⟩ := hform.of_element
    exact (ihinner hchildren).paired (ih hnodes) hkind hattributes hblanks hstart hpad _
  | single hblanks hstart h ih =>
    obtain ⟨hkind, hattributes, -, hnodes⟩ := hform.of_element
    exact (ih hnodes).single hkind hattributes hblanks hstart _

/-- Whoever writes a well-formed tree that is nested no deeper than the limit, in any of its
spellings and without the start of a comment in it, reads this tree back, and nothing had to
be repaired. -/
theorem build_tokenize_of_spells {maxDepth : Nat} {children : List Node} {input : String}
    (hform : WellFormed children) (hdepth : Node.nestingAll children ≤ max maxDepth 1)
    (hspells : Spells children input.toList) (hcomment : ¬ Comment.opening <:+: input.toList) :
    ∃ built, build maxDepth (tokenize input) = .ok built ∧
      built.root.unplaced = (Node.document children).unplaced ∧ built.issues = [] := by
  have hchars := Comment.map_char_strip hcomment 0
  obtain ⟨placed, tokens, hplaced, hlinear, hscan⟩ :=
    readsAs_of_spells hspells hform _ [] hchars blankLed_nil
  rw [List.append_nil, scan_nil, List.append_nil] at hscan
  have hnesting : Node.nestingAll placed ≤ max maxDepth 1 := by
    rw [← Node.nestingAll_unplacedAll, hplaced, Node.nestingAll_unplacedAll]
    exact hdepth
  refine ⟨⟨.document placed, []⟩, ?_, ?_, rfl⟩
  · rw [tokenize, hscan]
    exact build_of_linear hlinear hnesting
  · rw [Node.unplaced_document, Node.unplaced_document, hplaced]

/-- Marks in texts and values that only look like tags, attributes out of order, both forms
of an element without children, and blanks beyond ASCII. -/
theorem build_tokenize_of_spells_marks :
    let attributes := Table.ofList [("_x", "<b> > </p-1>"), ("a", "")]
    let children : List Node := [.leaf "1 <" 7,
      .element "p-1" attributes [.leaf "x </" 0, .element "b" .empty [] 0] 0,
      .element "b" .empty [] 0, .leaf "</ 2 <" 0]
    let input :=
      "\u2003 1 <<p-1 a=\"\"\n _x=\"<b> > </p-1>\" >x </<b ></b\t></p-1>\u00a0<b/></ 2 <"
    (WellFormed children ∧ Node.nestingAll children ≤ max 2 1 ∧ Spells children input.toList ∧
      ¬ Comment.opening <:+: input.toList) ∧
    ∃ built, build 2 (tokenize input) = .ok built ∧
      built.root.unplaced = (Node.document children).unplaced ∧ built.issues = [] := by
  intro attributes children input
  have hentries : attributes.entries = [("_x", "<b> > </p-1>"), ("a", "")] := by decide +kernel
  have hform : WellFormed children := by
    have hcontent : IsContentText "1 <" ∧ IsContentText "x </" ∧ IsContentText "</ 2 <" := by
      refine ⟨⟨?_, ?_, ?_⟩, ⟨?_, ?_, ?_⟩, ⟨?_, ?_, ?_⟩⟩ <;> decide +kernel
    have hb : IsKind "b" := ⟨'b', [], by decide, by decide, by decide⟩
    have hp : IsKind "p-1" := ⟨'p', ['-', '1'], by decide, by decide, by decide⟩
    have hattributes : ∀ entry ∈ attributes.entries, IsAttribute entry := by
      rw [hentries, List.forall_mem_cons, List.forall_mem_singleton]
      exact ⟨⟨⟨'_', ['x'], by decide, by decide, by decide⟩, by decide⟩,
        ⟨⟨'a', [], by decide, by decide, by decide⟩, by decide⟩⟩
    have hnone : ∀ entry ∈ (Table.empty : Table String).entries, IsAttribute entry :=
      fun _ hentry ↦ absurd hentry List.not_mem_nil
    exact .text hcontent.1 (by simp [Node.element])
      (.element hp hattributes
        (.text hcontent.2.1 (by simp [Node.element]) (.element hb hnone .nil .nil))
        (.element hb hnone .nil (.text hcontent.2.2 (by simp) .nil)))
  have hlast : Spells [.leaf "</ 2 <" 0] ([] ++ ("</ 2 <".toList ++ [])) :=
    .text (by decide) (.nil (by decide))
  have hsingle : Spells [.element "b" .empty [] 0, .leaf "</ 2 <" 0]
      (['\u00a0'] ++ ('<' :: ("b".toList ++ ([] ++ [])) ++ '/' :: '>' :: _)) :=
    .single (by decide) ⟨[], [], [], .nil, .nil, by decide, rfl⟩ hlast
  have hpaired : Spells [.element "b" .empty [] 0] ([] ++ ('<' :: ("b".toList ++ ([] ++ [' '])) ++
      '>' :: ([] ++ '<' :: '/' :: ("b".toList ++ (['\t'] ++ '>' :: []))))) :=
    .paired (by decide) ⟨[], [], [' '], .nil, .nil, by decide, rfl⟩ (.nil (by decide)) (by decide)
      (.nil (by decide))
  have hinner : Spells [.leaf "x </" 0, .element "b" .empty [] 0] ([] ++ ("x </".toList ++ _)) :=
    .text (by decide) hpaired
  have hspelled : SpellsAttributes [("a", ""), ("_x", "<b> > </p-1>")]
      ([' '] ++ ("a".toList ++ '=' :: '"' :: ("".toList ++ '"' ::
        (['\n', ' '] ++ ("_x".toList ++ '=' :: '"' :: ("<b> > </p-1>".toList ++ '"' :: [])))))) :=
    .cons (by decide) (by decide) (.cons (by decide) (by decide) .nil)
  have hstart : SpellsStart "p-1" attributes ('<' :: ("p-1".toList ++ (_ ++ [' ']))) :=
    ⟨_, _, _, hentries ▸ List.Perm.swap _ _ _, hspelled, by decide, rfl⟩
  have helement : Spells [.element "p-1" attributes [.leaf "x </" 0, .element "b" .empty [] 0] 0,
      .element "b" .empty [] 0, .leaf "</ 2 <" 0]
      ([] ++ (_ ++ '>' :: (_ ++ '<' :: '/' :: ("p-1".toList ++ ([] ++ '>' :: _))))) :=
    .paired (by decide) hstart hinner (by decide) hsingle
  have hchildren : Spells children (['\u2003', ' '] ++ ("1 <".toList ++ _)) :=
    .text (by decide) helement
  have hspells : Spells children input.toList := by
    refine (congrArg (Spells children) ?_).mpr hchildren
    subst input
    decide +kernel
  have hdepth : Node.nestingAll children ≤ max 2 1 := by decide
  have hcomment : ¬ Comment.opening <:+: input.toList := by
    subst input
    decide +kernel
  exact ⟨⟨hform, hdepth, hspells, hcomment⟩,
    build_tokenize_of_spells hform hdepth hspells hcomment⟩

end Document

end AgentMarkup
