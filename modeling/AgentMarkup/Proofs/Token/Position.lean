import AgentMarkup.Proofs.Comment.Stripped
import AgentMarkup.Proofs.Token.Span

/-!
Where tokens stand. Each token stands at a glyph of its own, later tokens at later glyphs, and
the glyphs from there on spell it (`Placed`). Glyphs are characters of the input outside its
comments, each with its own byte offset, so the position of a token is the place of its
first character in the input. Main statement: `tokenize_positions`.
-/

set_option autoImplicit false
set_option relaxedAutoImplicit false

namespace AgentMarkup.Token

/-- The character at the position of a token. A value that is empty stands at the quote that
closes it. -/
def firstChar? (t : Token) : Option Char :=
  match t.kind with
  | .tagOpen | .tagClose => some '<'
  | .selfClose => some '/'
  | .tagEnd => some '>'
  | .attrValue => (t.value.toList ++ ['"']).head?
  | .attrName | .text => t.value.toList.head?

/-- What a token reads from its position on. -/
def spelling (t : Token) : List Char :=
  match t.kind with
  | .tagOpen => '<' :: t.value.toList
  | .tagClose => '<' :: '/' :: t.value.toList
  | .attrName | .attrValue | .selfClose | .tagEnd | .text => t.value.toList

/-- Whether a token stands at the first of these glyphs. -/
structure StandsAt (t : Token) (g : Glyph) (gs : List Glyph) : Prop where
  position_eq : t.position = g.offset
  first_eq : t.firstChar? = some g.char
  spells : t.spelling <+: (g :: gs).map Glyph.char

/-- Tokens that stand at glyphs of their own, in the order of these glyphs. -/
inductive Placed : List Glyph → List Token → Prop
  | ended {gs : List Glyph} : Placed gs []
  | passed {g : Glyph} {gs : List Glyph} {tokens : List Token} (h : Placed gs tokens) :
    Placed (g :: gs) tokens
  | token {t : Token} {g : Glyph} {gs : List Glyph} {tokens : List Token} (ht : StandsAt t g gs)
    (h : Placed gs tokens) : Placed (g :: gs) (t :: tokens)

theorem StandsAt.append {t : Token} {g : Glyph} {gs : List Glyph} (h : StandsAt t g gs)
    (rest : List Glyph) : StandsAt t g (gs ++ rest) := by
  refine ⟨h.position_eq, h.first_eq, h.spells.trans ?_⟩
  rw [← List.cons_append, List.map_append]
  exact List.prefix_append _ _

theorem Placed.passed_append {gs : List Glyph} {tokens : List Token} (h : Placed gs tokens)
    (run : List Glyph) : Placed (run ++ gs) tokens := by
  induction run with
  | nil => exact h
  | cons g run ih => exact .passed ih

theorem Placed.append {gs rest : List Glyph} {tokens more : List Token} (h : Placed gs tokens)
    (hrest : Placed rest more) : Placed (gs ++ rest) (tokens ++ more) := by
  induction h with
  | ended => exact hrest.passed_append _
  | passed _ ih => exact .passed ih
  | token ht _ ih => exact .token (ht.append rest) ih

/-! ### Tokens in a text -/

theorem placed_ofContent (run : List Glyph) : Placed run (ofContent run) := by
  obtain ⟨before, after, -, -, hrun⟩ := Text.exists_eq_append_trimBy Glyph.isBlank run
  rw [ofContent]
  cases htrim : Text.trimBy Glyph.isBlank run with
  | nil => exact .ended
  | cons g gs =>
    rw [htrim] at hrun
    rw [hrun]
    have ht : StandsAt ⟨.text, Glyph.spell (g :: gs), g.offset⟩ g gs :=
      ⟨rfl, by simp [firstChar?, Glyph.spell], by simp [spelling, Glyph.spell]⟩
    exact (Placed.token (ht.append after) .ended).passed_append before

theorem placed_ofAttribute {g equals opening closing : Glyph} {name value span : List Glyph}
    {tokens : List Token} (hclosing : closing.char = '"') (h : Placed span tokens) :
    Placed (g :: (name ++ equals :: opening :: (value ++ closing :: span)))
      (ofAttribute (g :: name) g.offset value closing ++ tokens) := by
  have hname : StandsAt ⟨.attrName, Glyph.spell (g :: name), g.offset⟩ g name :=
    ⟨rfl, by simp [firstChar?, Glyph.spell], by simp [spelling, Glyph.spell]⟩
  refine .token (hname.append _) (Placed.passed_append (.passed (.passed ?_)) name)
  cases value with
  | nil =>
    exact .token
      ⟨rfl, by simp [firstChar?, Glyph.spell, hclosing], by simp [spelling, Glyph.spell]⟩ h
  | cons v value =>
    have hvalue : StandsAt ⟨.attrValue, Glyph.spell (v :: value), v.offset⟩ v value :=
      ⟨rfl, by simp [firstChar?, Glyph.spell], by simp [spelling, Glyph.spell]⟩
    exact .token (hvalue.append _) (Placed.passed_append (.passed h) value)

theorem Inside.placed {span rest : List Glyph} {tokens : List Token}
    (h : Inside span tokens rest) : Placed span tokens := by
  induction h with
  | unended => exact .ended
  | selfClose hslash hclose =>
    exact .token ⟨rfl, by simp [firstChar?, hslash], by simp [spelling, hslash, hclose]⟩ .ended
  | tagEnd hclose =>
    exact .token ⟨rfl, by simp [firstChar?, hclose], by simp [spelling, hclose]⟩ .ended
  | passed _ _ ih => exact .passed ih
  | valued _ _ _ _ _ hclosing _ ih => exact placed_ofAttribute hclosing ih

theorem Spans.placed {span rest : List Glyph} {tokens : List Token}
    (h : Spans span tokens rest) : Placed span tokens := by
  cases h with
  | @opening mark letter name span rest tokens hmark _ _ h =>
    have ht : StandsAt ⟨.tagOpen, Glyph.spell (letter :: name), mark.offset⟩ mark
        (letter :: name) :=
      ⟨rfl, by simp [firstChar?, hmark], by simp [spelling, Glyph.spell, hmark]⟩
    exact .token (ht.append span) (h.placed.passed_append (letter :: name))
  | @closing mark slash letter name span rest tokens hmark hslash _ _ h =>
    have ht : StandsAt ⟨.tagClose, Glyph.spell (letter :: name), mark.offset⟩ mark
        (slash :: letter :: name) :=
      ⟨rfl, by simp [firstChar?, hmark], by simp [spelling, Glyph.spell, hmark, hslash]⟩
    exact .token (ht.append span) (h.placed.passed_append (slash :: letter :: name))

theorem Splits.placed {gs : List Glyph} {runs : List (List Glyph)} {tokens : List Token}
    (h : Splits gs runs tokens) : Placed gs tokens := by
  induction h with
  | content => exact placed_ofContent _
  | tag _ htag _ ih => exact (placed_ofContent _).append (htag.placed.append ih)

theorem placed_scan (gs : List Glyph) : Placed gs (scan gs) := by
  obtain ⟨runs, hsplits⟩ := exists_splits_scan gs
  exact hsplits.placed

/-! ### Positions -/

theorem Placed.positions_sublist {gs : List Glyph} {tokens : List Token} (h : Placed gs tokens) :
    (tokens.map Token.position).Sublist (gs.map Glyph.offset) := by
  induction h with
  | ended => exact List.nil_sublist _
  | passed _ ih => exact ih.cons _
  | token ht _ ih =>
    rw [List.map_cons, List.map_cons, ht.position_eq]
    exact ih.cons_cons _

theorem Placed.exists_glyph {gs : List Glyph} {tokens : List Token} (h : Placed gs tokens)
    {t : Token} (ht : t ∈ tokens) : ∃ before g after, gs = before ++ g :: after ∧
      StandsAt t g after := by
  induction h with
  | ended => exact absurd ht List.not_mem_nil
  | @passed g gs tokens _ ih =>
    obtain ⟨before, a, after, rfl, ha⟩ := ih ht
    exact ⟨g :: before, a, after, rfl, ha⟩
  | @token u g gs tokens hu _ ih =>
    rcases List.mem_cons.mp ht with rfl | ht
    · exact ⟨[], g, gs, rfl, hu⟩
    · obtain ⟨before, a, after, rfl, ha⟩ := ih ht
      exact ⟨g :: before, a, after, rfl, ha⟩

/-- A character outside comments stands in the input where the text of the parts before it
ends. -/
theorem get?_of_cut {input : String} {front back : List Comment.Part} {c : Char}
    (h : Comment.Cut input.toList (front ++ .kept c :: back)) :
    String.utf8Len (Comment.text front) < input.utf8ByteSize ∧
      (⟨String.utf8Len (Comment.text front)⟩ : String.Pos.Raw).IsValid input ∧
      String.Pos.Raw.get? input ⟨String.utf8Len (Comment.text front)⟩ = some c := by
  have htext : input = String.ofList (Comment.text front ++ c :: Comment.text back) := by
    rw [← String.toList_inj, String.toList_ofList, ← h.text_eq, Comment.text_append]
    rfl
  rw [htext]
  refine ⟨?_, ?_, ?_⟩
  · rw [String.utf8ByteSize_ofList, String.utf8Len_append, String.utf8Len_cons]
    have := c.utf8Size_pos
    omega
  · rw [String.Pos.Raw.isValid_iff_exists_append]
    exact ⟨String.ofList (Comment.text front), String.ofList (c :: Comment.text back),
      String.ofList_append, by simp⟩
  · rw [String.get?_of_valid]
    rfl

theorem exists_cut_placed (input : String) : ∃ parts, Comment.Cut input.toList parts ∧
    Placed (Comment.place 0 parts) (tokenize input) := by
  obtain ⟨parts, hparts⟩ := Comment.exists_cut input.toList
  rw [tokenize, Comment.strip_of_cut hparts]
  exact ⟨parts, hparts, placed_scan _⟩

/-- No two tokens of an input stand at the same place. -/
theorem pairwise_position_tokenize (input : String) :
    ((tokenize input).map Token.position).Pairwise (· < ·) := by
  obtain ⟨parts, -, hplaced⟩ := exists_cut_placed input
  have hoffsets := List.pairwise_map.mpr (Comment.pairwise_offset_place 0 parts)
  exact hoffsets.sublist hplaced.positions_sublist

/-- A token begins with a character outside comments, and what is outside comments from there on
spells the token. -/
theorem exists_cut_of_mem_tokenize {input : String} {t : Token} (ht : t ∈ tokenize input) :
    ∃ front c back, Comment.Cut input.toList (front ++ .kept c :: back) ∧
      t.position = String.utf8Len (Comment.text front) ∧ t.firstChar? = some c ∧
      t.spelling <+: c :: Comment.kept back := by
  obtain ⟨parts, hparts, hplaced⟩ := exists_cut_placed input
  obtain ⟨before, g, after, hgs, hg⟩ := hplaced.exists_glyph ht
  obtain ⟨front, back, rfl, hoffset, hback⟩ := Comment.exists_parts_of_place hgs
  refine ⟨front, g.char, back, hparts, ?_, hg.first_eq, ?_⟩
  · rw [hg.position_eq, hoffset, Nat.zero_add]
  · rw [hback]
    exact hg.spells

/-- For every input, cut into its comments and the characters outside them: positions increase
from token to token, each is the byte offset of a character outside comments, which is the
one that the token begins with, and from there on the characters outside comments spell the
token. -/
theorem tokenize_positions (input : String) :
    ∃ parts, (Comment.Cut input.toList parts ∧
        ∀ others, Comment.Cut input.toList others → others = parts) ∧
      (tokenize input).Pairwise (fun t u ↦ t.position < u.position) ∧
      ∀ t ∈ tokenize input,
        t.position < input.utf8ByteSize ∧ (⟨t.position⟩ : String.Pos.Raw).IsValid input ∧
        ∃ front c back, parts = front ++ .kept c :: back ∧
          t.position = String.utf8Len (Comment.text front) ∧
          String.Pos.Raw.get? input ⟨t.position⟩ = some c ∧ t.firstChar? = some c ∧
          t.spelling <+: c :: Comment.kept back := by
  obtain ⟨parts, hparts⟩ := Comment.exists_cut input.toList
  have hplaced : Placed (Comment.place 0 parts) (tokenize input) := by
    rw [tokenize, Comment.strip_of_cut hparts]
    exact placed_scan _
  refine ⟨parts, ⟨hparts, fun _ hothers ↦ hparts.unique hothers⟩, ?_, fun t ht ↦ ?_⟩
  · have hoffsets := List.pairwise_map.mpr (Comment.pairwise_offset_place 0 parts)
    exact List.pairwise_map.mp (hoffsets.sublist hplaced.positions_sublist)
  · obtain ⟨before, g, after, hgs, hg⟩ := hplaced.exists_glyph ht
    obtain ⟨front, back, hfront, hoffset, hback⟩ := Comment.exists_parts_of_place hgs
    have hposition : t.position = String.utf8Len (Comment.text front) := by
      rw [hg.position_eq, hoffset, Nat.zero_add]
    obtain ⟨hlt, hvalid, hget⟩ := get?_of_cut (hfront ▸ hparts)
    rw [← hposition] at hlt hvalid hget
    refine ⟨hlt, hvalid, front, g.char, back, hfront, hposition, hget, hg.first_eq, ?_⟩
    rw [hback]
    exact hg.spells

end AgentMarkup.Token
