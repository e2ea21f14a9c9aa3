import AgentMarkup.Comment
import Mathlib.Data.String.Basic

/-!
A text cut into its comments and the characters outside them. `Cut` reads from left to right: a
comment begins where its opening mark stands, ends with the first closing mark after that, and
without one runs to the end. Each text has exactly one cut (`exists_cut`, `Cut.unique`).
-/

set_option autoImplicit false
set_option relaxedAutoImplicit false

namespace AgentMarkup.Comment

/-- A character outside comments, or a comment with its marks. -/
inductive Part where
  | kept (c : Char)
  | comment (cs : List Char)

def Part.chars : Part → List Char
  | .kept c => [c]
  | .comment cs => cs

def Part.kept? : Part → Option Char
  | .kept c => some c
  | .comment _ => none

/-- The text that parts make up. -/
def text (parts : List Part) : List Char :=
  parts.flatMap Part.chars

/-- The characters outside comments. -/
def kept (parts : List Part) : List Char :=
  parts.filterMap Part.kept?

inductive Cut : List Char → List Part → Prop
  | nil : Cut [] []
  | kept {c : Char} {cs : List Char} {parts : List Part} (hmark : ¬ opening <+: c :: cs)
    (h : Cut cs parts) : Cut (c :: cs) (.kept c :: parts)
  | closed {body rest : List Char} {parts : List Part} (hbody : ¬ closing <:+: body)
    (h : Cut rest parts) :
    Cut (opening ++ (body ++ (closing ++ rest))) (.comment (opening ++ (body ++ closing)) :: parts)
  | unclosed {body : List Char} (hbody : ¬ closing <:+: body) :
    Cut (opening ++ body) [.comment (opening ++ body)]

/-- The characters outside comments, each with its place, if the parts begin at this offset. -/
def place (offset : Nat) : List Part → List Glyph
  | [] => []
  | .kept c :: parts => ⟨c, offset⟩ :: place (offset + c.utf8Size) parts
  | .comment cs :: parts => place (offset + String.utf8Len cs) parts

/-- The places of the bytes outside comments, if the parts begin at this offset. -/
def bytePlaces (offset : Nat) : List Part → List Nat
  | [] => []
  | .kept c :: parts => List.range' offset c.utf8Size ++ bytePlaces (offset + c.utf8Size) parts
  | .comment cs :: parts => bytePlaces (offset + String.utf8Len cs) parts

theorem text_cons (part : Part) (parts : List Part) :
    text (part :: parts) = part.chars ++ text parts := rfl

theorem text_append (parts more : List Part) : text (parts ++ more) = text parts ++ text more :=
  List.flatMap_append

theorem text_map_kept (cs : List Char) : text (cs.map Part.kept) = cs := by
  induction cs with
  | nil => rfl
  | cons c cs ih => rw [List.map_cons, text_cons, ih, Part.chars, List.singleton_append]

theorem kept_map_kept (cs : List Char) : kept (cs.map Part.kept) = cs := by
  rw [kept, List.filterMap_map]
  exact List.filterMap_some

theorem utf8Len_singleton (c : Char) : String.utf8Len [c] = c.utf8Size := by
  rw [String.utf8Len_cons, String.utf8Len_nil, Nat.zero_add]

theorem utf8Len_chars_kept (c : Char) : String.utf8Len (Part.kept c).chars = c.utf8Size :=
  utf8Len_singleton c

theorem kept_append (parts more : List Part) : kept (parts ++ more) = kept parts ++ kept more :=
  List.filterMap_append

theorem Cut.text_eq {cs : List Char} {parts : List Part} (h : Cut cs parts) : text parts = cs := by
  induction h with
  | nil => rfl
  | kept hmark h ih => rw [text_cons, ih]; rfl
  | closed hbody h ih => rw [text_cons, ih, Part.chars]; simp only [List.append_assoc]
  | unclosed hbody => rw [text_cons]; exact List.append_nil _

/-! ### Places -/

theorem map_char_place (offset : Nat) (parts : List Part) :
    (place offset parts).map Glyph.char = kept parts := by
  induction parts generalizing offset with
  | nil => rfl
  | cons part parts ih =>
    cases part with
    | kept c => rw [place, List.map_cons, ih]; rfl
    | comment cs => rw [place, ih]; rfl

theorem le_offset_of_mem_place {offset : Nat} {parts : List Part} {g : Glyph}
    (h : g ∈ place offset parts) : offset ≤ g.offset := by
  induction parts generalizing offset with
  | nil => exact absurd h List.not_mem_nil
  | cons part parts ih =>
    cases part with
    | kept c =>
      rcases List.mem_cons.mp h with rfl | h
      · exact Nat.le_refl _
      · exact Nat.le_trans (Nat.le_add_right _ _) (ih h)
    | comment cs => exact Nat.le_trans (Nat.le_add_right _ _) (ih h)

/-- Characters stand at places that increase. -/
theorem pairwise_offset_place (offset : Nat) (parts : List Part) :
    (place offset parts).Pairwise fun g a ↦ g.offset < a.offset := by
  induction parts generalizing offset with
  | nil => exact .nil
  | cons part parts ih =>
    cases part with
    | kept c =>
      refine List.pairwise_cons.mpr ⟨fun a ha ↦ ?_, ih _⟩
      exact Nat.lt_of_lt_of_le (Nat.lt_add_of_pos_right c.utf8Size_pos) (le_offset_of_mem_place ha)
    | comment cs => exact ih _

theorem place_append (offset : Nat) (parts more : List Part) :
    place offset (parts ++ more) =
      place offset parts ++ place (offset + String.utf8Len (text parts)) more := by
  induction parts generalizing offset with
  | nil => rfl
  | cons part parts ih =>
    rw [text_cons, String.utf8Len_append, ← Nat.add_assoc]
    cases part with
    | kept c =>
      rw [List.cons_append, place, place, ih, List.cons_append, utf8Len_chars_kept]
    | comment cs => exact ih _

theorem bytePlaces_append (offset : Nat) (parts more : List Part) :
    bytePlaces offset (parts ++ more) =
      bytePlaces offset parts ++ bytePlaces (offset + String.utf8Len (text parts)) more := by
  induction parts generalizing offset with
  | nil => rfl
  | cons part parts ih =>
    rw [text_cons, String.utf8Len_append, ← Nat.add_assoc]
    cases part with
    | kept c =>
      rw [List.cons_append, bytePlaces, bytePlaces, ih, List.append_assoc, utf8Len_chars_kept]
    | comment cs => exact ih _

theorem bytePlaces_map_kept (offset : Nat) (cs : List Char) :
    bytePlaces offset (cs.map Part.kept) = List.range' offset (String.utf8Len cs) := by
  induction cs generalizing offset with
  | nil => rfl
  | cons c cs ih =>
    rw [List.map_cons, bytePlaces, ih, String.utf8Len_cons, Nat.add_comm (String.utf8Len cs),
      ← List.range'_append_1]

/-- Each placed character is a part of its own and stands after the text of the parts before
it. -/
theorem exists_parts_of_place {offset : Nat} {parts : List Part} {before after : List Glyph}
    {g : Glyph} (h : place offset parts = before ++ g :: after) :
    ∃ front back, parts = front ++ .kept g.char :: back ∧
      g.offset = offset + String.utf8Len (text front) ∧ kept back = after.map Glyph.char := by
  induction parts generalizing offset before with
  | nil => simp [place] at h
  | cons part parts ih =>
    cases part with
    | kept c =>
      rw [place] at h
      cases before with
      | nil =>
        obtain ⟨rfl, rfl⟩ := List.cons.inj h
        exact ⟨[], parts, rfl, rfl, (map_char_place _ _).symm⟩
      | cons a before =>
        obtain ⟨front, back, rfl, hoffset, hback⟩ := ih (List.cons.inj h).2
        refine ⟨.kept c :: front, back, rfl, ?_, hback⟩
        rw [hoffset, text_cons, String.utf8Len_append, utf8Len_chars_kept, Nat.add_assoc]
    | comment cs =>
      obtain ⟨front, back, rfl, hoffset, hback⟩ := ih h
      refine ⟨.comment cs :: front, back, rfl, ?_, hback⟩
      rw [hoffset, text_cons, Part.chars, String.utf8Len_append, Nat.add_assoc]

theorem offset_lt_of_mem_place {offset : Nat} {parts : List Part} {g : Glyph}
    (h : g ∈ place offset parts) : g.offset < offset + String.utf8Len (text parts) := by
  obtain ⟨before, after, hplace⟩ := List.mem_iff_append.mp h
  obtain ⟨front, back, rfl, hoffset, -⟩ := exists_parts_of_place hplace
  rw [hoffset, text_append, text_cons, String.utf8Len_append, String.utf8Len_append,
    utf8Len_chars_kept]
  have := g.char.utf8Size_pos
  omega

/-! ### Marks -/

/-- No end of the mark, short of all of it, is also a beginning of it. -/
def Unbordered (mark : List Char) : Prop :=
  ∀ n < mark.length, 0 < n → ¬ mark.drop n <+: mark

theorem unbordered_opening : Unbordered opening := by
  unfold Unbordered
  decide

theorem unbordered_closing : Unbordered closing := by
  unfold Unbordered
  decide

/-- A mark that follows a text does not begin within this text. -/
theorem Unbordered.not_prefix {mark body : List Char} (hmark : Unbordered mark)
    (hbody : ¬ mark <+: body) (hne : body ≠ []) (rest : List Char) :
    ¬ mark <+: body ++ (mark ++ rest) := by
  intro hprefix
  have hlonger : body.length < mark.length := by
    refine Nat.lt_of_not_le fun hle ↦ hbody ?_
    exact List.prefix_of_prefix_length_le hprefix (List.prefix_append _ _) hle
  obtain ⟨back, rfl⟩ :=
    List.prefix_of_prefix_length_le (List.prefix_append body _) hprefix hlonger.le
  -- What the mark has beyond the text would have to begin the mark that follows.
  refine hmark body.length hlonger (List.length_pos_iff.mpr hne) ?_
  rw [List.drop_left]
  refine List.prefix_of_prefix_length_le ((List.prefix_append_right_inj body).mp hprefix)
    (List.prefix_append _ rest) ?_
  simp

/-! ### The closing mark -/

theorem afterClosing_closed {body : List Char} (h : ¬ closing <:+: body) (offset : Nat)
    (rest : List Char) :
    afterClosing offset (body ++ (closing ++ rest)) =
      (offset + String.utf8Len (body ++ closing), rest) := by
  induction body generalizing offset with
  | nil => rfl
  | cons c body ih =>
    have hhere : ¬ closing.isPrefixOf (c :: (body ++ (closing ++ rest))) = true := fun hmark ↦
      unbordered_closing.not_prefix (fun hprefix ↦ h hprefix.isInfix) (List.cons_ne_nil c body)
        rest (List.isPrefixOf_iff_prefix.mp hmark)
    have hbody : ¬ closing <:+: body := fun hmark ↦
      h (hmark.trans (List.suffix_cons c body).isInfix)
    rw [List.cons_append, afterClosing, if_neg hhere, ih hbody, List.cons_append,
      String.utf8Len_cons, Nat.add_assoc, Nat.add_comm c.utf8Size]

theorem afterClosing_unclosed {body : List Char} (h : ¬ closing <:+: body) (offset : Nat) :
    afterClosing offset body = (offset + String.utf8Len body, []) := by
  induction body generalizing offset with
  | nil => rfl
  | cons c body ih =>
    have hhere : ¬ closing.isPrefixOf (c :: body) = true := fun hmark ↦
      h (List.isPrefixOf_iff_prefix.mp hmark).isInfix
    have hbody : ¬ closing <:+: body := fun hmark ↦
      h (hmark.trans (List.suffix_cons c body).isInfix)
    rw [afterClosing, if_neg hhere, ih hbody, String.utf8Len_cons, Nat.add_assoc,
      Nat.add_comm c.utf8Size]

/-- Where a text holds a closing mark, there is a first one. -/
theorem exists_first_closing {cs : List Char} (h : closing <:+: cs) :
    ∃ body rest, cs = body ++ (closing ++ rest) ∧ ¬ closing <:+: body := by
  induction cs with
  | nil => exact absurd (List.infix_nil.mp h) (by decide)
  | cons c cs ih =>
    by_cases hhere : closing <+: c :: cs
    · obtain ⟨rest, hrest⟩ := hhere
      exact ⟨[], rest, hrest.symm, by decide⟩
    · obtain ⟨body, rest, rfl, hbody⟩ := ih ((List.infix_cons_iff.mp h).resolve_left hhere)
      refine ⟨c :: body, rest, rfl, fun hmark ↦ ?_⟩
      rcases List.infix_cons_iff.mp hmark with hmark | hmark
      · exact hhere (hmark.trans (List.prefix_append (c :: body) _))
      · exact hbody hmark

/-! ### The cut of a text -/

/-- A text without an opening mark is kept, if a comment or nothing follows it. -/
theorem Cut.append_kept {cs rest : List Char} {parts : List Part} (hcs : ¬ opening <:+: cs)
    (hrest : rest = [] ∨ opening <+: rest) (h : Cut rest parts) :
    Cut (cs ++ rest) (cs.map Part.kept ++ parts) := by
  induction cs with
  | nil => exact h
  | cons c cs ih =>
    have hhere : ¬ opening <+: c :: cs := fun hmark ↦ hcs hmark.isInfix
    have hfollowed : ¬ opening <+: (c :: cs) ++ rest := by
      rcases hrest with rfl | ⟨inside, rfl⟩
      · rwa [List.append_nil]
      · exact unbordered_opening.not_prefix hhere (List.cons_ne_nil c cs) inside
    exact .kept hfollowed (ih fun hmark ↦ hcs (hmark.trans (List.suffix_cons c cs).isInfix))

/-- A text without an opening mark is kept. -/
theorem Cut.of_free {cs : List Char} (h : ¬ opening <:+: cs) : Cut cs (cs.map Part.kept) := by
  have hcut := Cut.nil.append_kept h (.inl rfl)
  rwa [List.append_nil, List.append_nil] at hcut

theorem exists_cut (cs : List Char) : ∃ parts, Cut cs parts := by
  induction hlength : cs.length using Nat.strong_induction_on generalizing cs with
  | _ n ih =>
    subst hlength
    cases cs with
    | nil => exact ⟨[], .nil⟩
    | cons c cs =>
      by_cases hmark : opening <+: c :: cs
      · obtain ⟨inside, hinside⟩ := hmark
        rw [← hinside] at ih ⊢
        by_cases hclosing : closing <:+: inside
        · obtain ⟨body, rest, rfl, hbody⟩ := exists_first_closing hclosing
          have hshorter : rest.length < (opening ++ (body ++ (closing ++ rest))).length := by
            simp only [List.length_append, opening, closing, List.length_cons]
            omega
          obtain ⟨parts, hparts⟩ := ih _ hshorter rest rfl
          exact ⟨_, .closed hbody hparts⟩
        · exact ⟨_, .unclosed hclosing⟩
      · obtain ⟨parts, hparts⟩ := ih _ (Nat.lt_succ_self _) cs rfl
        exact ⟨_, .kept hmark hparts⟩

/-- Where an opening mark stands, a comment begins. -/
theorem Cut.of_opening {inside : List Char} {parts : List Part}
    (h : Cut (opening ++ inside) parts) :
    (∃ body rest others, inside = body ++ (closing ++ rest) ∧ ¬ closing <:+: body ∧
      Cut rest others ∧ parts = .comment (opening ++ (body ++ closing)) :: others) ∨
    (¬ closing <:+: inside ∧ parts = [.comment (opening ++ inside)]) := by
  generalize hcs : opening ++ inside = cs at h
  cases h with
  | nil => simp [opening] at hcs
  | kept hmark => exact absurd (hcs ▸ List.prefix_append _ _) hmark
  | closed hbody hrest =>
    exact .inl ⟨_, _, _, List.append_cancel_left hcs, hbody, hrest, rfl⟩
  | unclosed hbody =>
    obtain rfl := List.append_cancel_left hcs
    exact .inr ⟨hbody, rfl⟩

theorem Cut.unique {cs : List Char} {parts others : List Part} (h : Cut cs parts)
    (hothers : Cut cs others) : others = parts := by
  induction h generalizing others with
  | nil =>
    generalize hnil : ([] : List Char) = cs at hothers
    cases hothers with
    | nil => rfl
    | kept => exact absurd hnil (List.cons_ne_nil _ _).symm
    | closed => simp [opening] at hnil
    | unclosed => simp [opening] at hnil
  | @kept c cs parts hmark h ih =>
    generalize hcs : c :: cs = cs at hothers
    cases hothers with
    | nil => exact absurd hcs (List.cons_ne_nil _ _)
    | kept _ hrest =>
      obtain ⟨rfl, rfl⟩ := List.cons.inj hcs
      rw [ih hrest]
    | closed => exact absurd (hcs ▸ List.prefix_append _ _) hmark
    | unclosed => exact absurd (hcs ▸ List.prefix_append _ _) hmark
  | @closed body rest parts hbody h ih =>
    obtain ⟨body', rest', others, hinside, hbody', hrest, rfl⟩ | ⟨hfree, -⟩ := hothers.of_opening
    · have hafter := congrArg (afterClosing 0) hinside
      rw [afterClosing_closed hbody, afterClosing_closed hbody', Prod.mk.injEq] at hafter
      obtain ⟨-, rfl⟩ := hafter
      rw [List.append_cancel_right hinside, ih hrest]
    · exact absurd ⟨body, rest, by rw [List.append_assoc]⟩ hfree
  | @unclosed body hbody =>
    obtain ⟨body', rest', others, rfl, -, -, -⟩ | ⟨-, rfl⟩ := hothers.of_opening
    · exact absurd ⟨body', rest', by rw [List.append_assoc]⟩ hbody
    · rfl

end AgentMarkup.Comment
