import AgentMarkup.Proofs.Comment.Stripped
import AgentMarkup.Proofs.Document.Spelling
import AgentMarkup.Proofs.Token.Span
import Mathlib.Data.List.Chain

/-!
The grammar of tokens. They come as content and tags in turn (`Arranged`), each with a value
that its kind allows (`IsLexeme`), and the text without comments is cut into content runs and
the spans of tags so that the texts are what the runs trim to. All of it is read off the cut
(`Splits`), whatever the text is. Main statement: `tokenize_grammar`.
-/

set_option autoImplicit false
set_option relaxedAutoImplicit false

namespace AgentMarkup.Token

open Document

/-! ### Order and values -/

/-- What the tokens before have left: content that may still have a text, content that had it,
or a tag without its terminator. -/
inductive Stage where
  | content
  | afterText
  | inTag

/-- Tokens in the order of a document, from this stage on. A tag may start at any stage, and ends
a tag that has no terminator; texts stand in content only, one at most before the next tag. -/
inductive Arranged : Stage → List Token → Prop
  | ended {stage : Stage} : Arranged stage []
  | text {t : Token} {rest : List Token} (hkind : t.kind = .text)
    (h : Arranged .afterText rest) : Arranged .content (t :: rest)
  | tag {stage : Stage} {t : Token} {rest : List Token}
    (hkind : t.kind = .tagOpen ∨ t.kind = .tagClose) (h : Arranged .inTag rest) :
    Arranged stage (t :: rest)
  | valued {name value : Token} {rest : List Token} (hname : name.kind = .attrName)
    (hvalue : value.kind = .attrValue) (h : Arranged .inTag rest) :
    Arranged .inTag (name :: value :: rest)
  | terminator {t : Token} {rest : List Token} (hkind : t.kind = .selfClose ∨ t.kind = .tagEnd)
    (h : Arranged .content rest) : Arranged .inTag (t :: rest)

/-- Whether a token has a value that its kind allows. -/
def IsLexeme (t : Token) : Prop :=
  match t.kind with
  | .tagOpen | .tagClose => IsKind t.value
  | .attrName => IsAttributeName t.value
  | .attrValue => '"' ∉ t.value.toList
  | .selfClose => t.value = "/>"
  | .tagEnd => t.value = ">"
  | .text => IsContentText t.value

theorem Arranged.of_afterText {tokens : List Token} (h : Arranged .afterText tokens)
    (stage : Stage) : Arranged stage tokens := by
  cases h with
  | ended => exact .ended
  | tag hkind h => exact .tag hkind h

theorem Arranged.head_kind_ne {stage : Stage} {tokens : List Token} (h : Arranged stage tokens)
    (hstage : stage ≠ .content) : ∀ t ∈ tokens.head?, t.kind ≠ .text := by
  cases h with
  | ended => exact fun _ ht ↦ absurd ht (by simp)
  | text => exact absurd rfl hstage
  | tag hkind => rcases hkind with hkind | hkind <;> simp [hkind]
  | valued hname => simp [hname]
  | terminator hkind => rcases hkind with hkind | hkind <;> simp [hkind]

/-- Whether a token may stand directly before another: a text follows a terminator only. -/
def Precedes (t u : Token) : Prop :=
  u.kind = .text → t.kind = .selfClose ∨ t.kind = .tagEnd

theorem Arranged.isChain {stage : Stage} {tokens : List Token} (h : Arranged stage tokens) :
    tokens.IsChain Precedes := by
  have hcons {t : Token} {stage : Stage} {rest : List Token} (hrest : Arranged stage rest)
      (hstage : stage ≠ .content) (hchain : rest.IsChain Precedes) :
      (t :: rest).IsChain Precedes :=
    List.isChain_cons.mpr
      ⟨fun u hu hkind ↦ absurd hkind (hrest.head_kind_ne hstage u hu), hchain⟩
  induction h with
  | ended => exact .nil
  | text _ h ih => exact hcons h (by simp) ih
  | tag _ h ih => exact hcons h (by simp) ih
  | @valued name value rest _ hvalue h ih =>
    refine List.isChain_cons_cons.mpr ⟨fun hkind ↦ ?_, hcons h (by simp) ih⟩
    rw [hvalue] at hkind
    exact absurd hkind (by simp)
  | terminator hkind _ ih => exact List.isChain_cons.mpr ⟨fun _ _ _ ↦ hkind, ih⟩

/-! ### Content -/

theorem TagFree.eq_nil {run rest : List Glyph} (h : TagFree run rest)
    (hstart : startsTag (run ++ rest) = true) : run = [] := by
  by_contra hne
  rw [h run hne (List.suffix_refl run)] at hstart
  exact absurd hstart (by decide)

theorem startsTag_of_prefix {c : Char} (hc : c.isAlpha = true) {gs : List Glyph}
    (h : ['<', c] <+: gs.map Glyph.char ∨ ['<', '/', c] <+: gs.map Glyph.char) :
    startsTag gs = true := by
  match gs with
  | [] => simp at h
  | [_] => simp at h
  | mark :: next :: gs =>
    simp only [List.map_cons, List.cons_prefix_cons] at h
    rcases h with ⟨hmark, rfl, -⟩ | ⟨hmark, hslash, hletter⟩
    · exact (startsTag_cons _ _).mpr ⟨hmark.symm, .inl hc⟩
    · cases gs with
      | nil => simp at hletter
      | cons letter gs =>
        obtain ⟨rfl, -⟩ := List.cons_prefix_cons.mp hletter
        exact (startsTag_cons _ _).mpr ⟨hmark.symm, .inr ⟨by simp [headIs, ← hslash], hc⟩⟩

/-- Content in which no tag starts is plain. -/
theorem TagFree.plain {run rest : List Glyph} (h : TagFree run rest) :
    Plain (run.map Glyph.char) := by
  have habsent {mark : List Char} (hne : mark ≠ [])
      (hmark : ∀ gs : List Glyph, mark <+: gs.map Glyph.char → startsTag gs = true) :
      ¬ mark <:+: run.map Glyph.char := by
    rintro ⟨before, after, heq⟩
    rw [List.append_assoc, eq_comm] at heq
    obtain ⟨front, tail, rfl, -, htail⟩ := List.map_eq_append_iff.mp heq
    have hprefix : mark <+: (tail ++ rest).map Glyph.char := by
      rw [List.map_append, htail, List.append_assoc]
      exact List.prefix_append _ _
    have htailNe : tail ≠ [] := by
      rintro rfl
      exact hne (List.append_eq_nil_iff.mp htail.symm).1
    have hstart := hmark _ hprefix
    rw [h tail htailNe (List.suffix_append front tail)] at hstart
    exact absurd hstart (by decide)
  intro c hc
  exact ⟨habsent (List.cons_ne_nil _ _) fun gs hgs ↦ startsTag_of_prefix hc (.inl hgs),
    habsent (List.cons_ne_nil _ _) fun gs hgs ↦ startsTag_of_prefix hc (.inr hgs)⟩

theorem trim_spell (run : List Glyph) :
    Text.trim (Glyph.spell run) = Glyph.spell (Text.trimBy Glyph.isBlank run) := by
  rw [Text.trim, Glyph.spell, Glyph.spell, String.toList_ofList, ← Text.map_trimBy]
  rfl

/-- A run trims to nothing and gives no token, or gives its trimmed text. -/
theorem ofContent_cases (run : List Glyph) :
    (Text.trim (Glyph.spell run) = "" ∧ ofContent run = []) ∨
      (Text.trim (Glyph.spell run) ≠ "" ∧
        ∃ position, ofContent run = [⟨.text, Text.trim (Glyph.spell run), position⟩]) := by
  rw [trim_spell, ofContent]
  cases Text.trimBy Glyph.isBlank run with
  | nil => exact Or.inl ⟨rfl, rfl⟩
  | cons g gs =>
    refine Or.inr ⟨?_, g.offset, rfl⟩
    rw [ne_eq, ← String.toList_inj, Glyph.spell, String.toList_ofList]
    exact List.cons_ne_nil _ _

theorem TagFree.isContentText {run rest : List Glyph} (h : TagFree run rest)
    (hne : Text.trim (Glyph.spell run) ≠ "") : IsContentText (Text.trim (Glyph.spell run)) := by
  obtain ⟨before, after, -, -, hrun⟩ := Text.exists_eq_append_trimBy Glyph.isBlank run
  refine ⟨hne, ?_, ?_⟩
  · rw [trim_spell, trim_spell, Text.trimBy_trimBy]
  · have hinfix : (Text.trimBy Glyph.isBlank run).map Glyph.char <:+: run.map Glyph.char :=
      List.IsInfix.map _ ⟨before, after, by rw [List.append_assoc, ← hrun]⟩
    rw [trim_spell, Glyph.spell, String.toList_ofList]
    exact fun c hc ↦ ⟨fun hin ↦ (h.plain c hc).1 (hin.trans hinfix),
      fun hin ↦ (h.plain c hc).2 (hin.trans hinfix)⟩

/-! ### What the relations say of tokens -/

theorem Inside.kind_ne_text {span rest : List Glyph} {tokens : List Token}
    (h : Inside span tokens rest) : ∀ t ∈ tokens, t.kind ≠ .text := by
  induction h with
  | unended => exact fun _ ht ↦ absurd ht List.not_mem_nil
  | selfClose | tagEnd => simp
  | passed _ _ ih => exact ih
  | valued _ _ _ _ _ _ _ ih =>
    simp only [ofAttribute, List.cons_append, List.nil_append, List.forall_mem_cons]
    exact ⟨by simp, by simp, ih⟩

theorem Inside.isLexeme {span rest : List Glyph} {tokens : List Token}
    (h : Inside span tokens rest) : ∀ t ∈ tokens, t.IsLexeme := by
  induction h with
  | unended => exact fun _ ht ↦ absurd ht List.not_mem_nil
  | selfClose | tagEnd => simp [IsLexeme]
  | passed _ _ ih => exact ih
  | @valued g equals opening closing name value span rest tokens hstart hname _ _ hvalue _ _ ih =>
    simp only [ofAttribute, List.cons_append, List.nil_append, List.forall_mem_cons]
    refine ⟨⟨g.char, name.map Glyph.char, ?_, hstart, ?_⟩, ?_, ih⟩
    · rw [Glyph.spell, String.toList_ofList, List.map_cons]
    · rw [List.all_map]
      exact List.all_eq_true.mpr hname
    · change '"' ∉ (Glyph.spell value).toList
      rw [Glyph.spell, String.toList_ofList]
      intro hquote
      obtain ⟨a, ha, heq⟩ := List.mem_map.mp hquote
      exact hvalue a ha heq

theorem isKind_spell {letter : Glyph} {name : List Glyph} (hletter : letter.char.isAlpha = true)
    (hname : ∀ a ∈ name, isNameChar a.char = true) : IsKind (Glyph.spell (letter :: name)) := by
  refine ⟨letter.char, name.map Glyph.char, ?_, hletter, ?_⟩
  · rw [Glyph.spell, String.toList_ofList, List.map_cons]
  · rw [List.all_map]
    exact List.all_eq_true.mpr hname

theorem Spans.isLexeme {span rest : List Glyph} {tokens : List Token}
    (h : Spans span tokens rest) : ∀ t ∈ tokens, t.IsLexeme ∧ t.kind ≠ .text := by
  cases h with
  | opening _ hletter hname h =>
    refine List.forall_mem_cons.mpr ⟨⟨isKind_spell hletter hname, by simp⟩, fun t ht ↦ ?_⟩
    exact ⟨h.isLexeme t ht, h.kind_ne_text t ht⟩
  | closing _ _ hletter hname h =>
    refine List.forall_mem_cons.mpr ⟨⟨isKind_spell hletter hname, by simp⟩, fun t ht ↦ ?_⟩
    exact ⟨h.isLexeme t ht, h.kind_ne_text t ht⟩

/-- A tag goes on to its terminator, after which there may be content, or to where `more` begins
with a tag. -/
theorem Inside.arranged {span rest : List Glyph} {tokens more : List Token}
    (h : Inside span tokens rest) (hmore : Arranged .content more)
    (hnext : rest = [] ∨ startsTag rest = true → Arranged .afterText more) :
    Arranged .inTag (tokens ++ more) := by
  induction h with
  | unended hrest => exact (hnext hrest).of_afterText _
  | selfClose => exact .terminator (Or.inl rfl) hmore
  | tagEnd => exact .terminator (Or.inr rfl) hmore
  | passed _ _ ih => exact ih hnext
  | valued _ _ _ _ _ _ _ ih => exact .valued rfl rfl (ih hnext)

theorem Spans.arranged {span rest : List Glyph} {tokens more : List Token}
    (h : Spans span tokens rest) (hmore : Arranged .content more)
    (hnext : rest = [] ∨ startsTag rest = true → Arranged .afterText more) (stage : Stage) :
    Arranged stage (tokens ++ more) := by
  cases h with
  | opening _ _ _ h => exact .tag (Or.inl rfl) (h.arranged hmore hnext)
  | closing _ _ _ _ h => exact .tag (Or.inr rfl) (h.arranged hmore hnext)

theorem arranged_ofContent_append (run : List Glyph) {tokens : List Token}
    (h : Arranged .afterText tokens) : Arranged .content (ofContent run ++ tokens) := by
  rcases ofContent_cases run with ⟨-, hnone⟩ | ⟨-, position, hone⟩
  · rw [hnone]
    exact h.of_afterText _
  · rw [hone]
    exact .text rfl h

theorem Splits.arranged {gs : List Glyph} {runs : List (List Glyph)} {tokens : List Token}
    (h : Splits gs runs tokens) : Arranged .content tokens ∧
      (gs = [] ∨ startsTag gs = true → Arranged .afterText tokens) := by
  induction h with
  | @content run hfree =>
    refine ⟨?_, fun hstart ↦ ?_⟩
    · have hended : Arranged .afterText [] := .ended
      have hcontent := arranged_ofContent_append run hended
      rwa [List.append_nil] at hcontent
    · have hnil : run = [] := hstart.elim id fun h ↦ hfree.eq_nil (by rwa [List.append_nil])
      rw [hnil]
      exact .ended
  | @tag run span rest runs tag tokens hfree htag h ih =>
    obtain ⟨hmore, hnext⟩ := ih
    refine ⟨arranged_ofContent_append run (htag.arranged hmore hnext _), fun hstart ↦ ?_⟩
    have hnil : run = [] := by
      refine hstart.elim (fun h ↦ ?_) hfree.eq_nil
      exact (List.append_eq_nil_iff.mp h).1
    rw [hnil]
    exact htag.arranged hmore hnext _

theorem Splits.isLexeme {gs : List Glyph} {runs : List (List Glyph)} {tokens : List Token}
    (h : Splits gs runs tokens) : ∀ t ∈ tokens, t.IsLexeme := by
  have hcontent {run rest : List Glyph} (hfree : TagFree run rest) :
      ∀ t ∈ ofContent run, t.IsLexeme := by
    rcases ofContent_cases run with ⟨-, hnone⟩ | ⟨hne, position, hone⟩
    · rw [hnone]
      exact fun _ ht ↦ absurd ht List.not_mem_nil
    · rw [hone, List.forall_mem_singleton]
      exact hfree.isContentText hne
  induction h with
  | content hfree => exact hcontent hfree
  | tag hfree htag h ih =>
    intro t ht
    rcases List.mem_append.mp ht with ht | ht
    · exact hcontent hfree t ht
    · exact (List.mem_append.mp ht).elim (fun ht ↦ (htag.isLexeme t ht).1) (ih t)

/-- The texts are what the content runs trim to, blank runs left out. -/
theorem Splits.texts {gs : List Glyph} {runs : List (List Glyph)} {tokens : List Token}
    (h : Splits gs runs tokens) :
    (tokens.filter (·.kind = .text)).map Token.value =
      (runs.map fun run ↦ Text.trim (Glyph.spell run)).filter (· ≠ "") := by
  have hcontent (run : List Glyph) : ((ofContent run).filter (·.kind = .text)).map Token.value =
      [Text.trim (Glyph.spell run)].filter (· ≠ "") := by
    rcases ofContent_cases run with ⟨hblank, hnone⟩ | ⟨hne, position, hone⟩
    · rw [hnone, hblank]
      rfl
    · simp [hone, hne]
  induction h with
  | content => exact hcontent _
  | @tag run span rest runs tag tokens hfree htag h ih =>
    have htags : tag.filter (·.kind = .text) = [] :=
      List.filter_eq_nil_iff.mpr fun t ht ↦ by simp [(htag.isLexeme t ht).2]
    rw [List.filter_append, List.filter_append, htags, List.nil_append, List.map_append, ih,
      hcontent, List.map_cons]
    exact (List.filter_append [_] _).symm

/-! ### Documents -/

/-- For every input, tokens come in order and with values of their kinds, a text is the first
token or directly follows a terminator, and the input without its comments is cut into content
runs and the spans of tags so that the texts are the runs, trimmed, that are not blank. -/
theorem tokenize_grammar (input : String) :
    Arranged .content (tokenize input) ∧
    (tokenize input).IsChain Precedes ∧
    (∀ t ∈ tokenize input, t.IsLexeme) ∧
    ∃ parts runs, Comment.Cut input.toList parts ∧
      Splits (Comment.place 0 parts) runs (tokenize input) ∧
      ((tokenize input).filter (·.kind = .text)).map Token.value =
        (runs.map fun run ↦ Text.trim (Glyph.spell run)).filter (· ≠ "") := by
  obtain ⟨parts, hparts⟩ := Comment.exists_cut input.toList
  obtain ⟨runs, hsplits⟩ := exists_splits_scan (Comment.place 0 parts)
  rw [← Comment.strip_of_cut hparts 0] at hsplits
  have harranged := hsplits.arranged.1
  refine ⟨harranged, harranged.isChain, hsplits.isLexeme, parts, runs, hparts, ?_, hsplits.texts⟩
  rw [← Comment.strip_of_cut hparts 0]
  exact hsplits

end AgentMarkup.Token
