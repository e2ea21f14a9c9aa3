import AgentMarkup.Proofs.Comment.Stripped
import AgentMarkup.Proofs.Document.Moved
import Mathlib.Data.String.Basic

/-!
Comments are transparent wherever they stand. A plain text and the same text with comments put
into it, at any offsets and inside any token, have the same tokens, trees and issues, each
moved on by the comments in front of it (`Commented.tokenize_build_source`).
-/

set_option autoImplicit false
set_option relaxedAutoImplicit false

namespace AgentMarkup

/-- A comment, without its marks, and the plain text after it. -/
structure Insertion where
  comment : String
  after : String

/-- A plain text with comments put into it, and at its end perhaps one that is not closed. -/
structure Commented where
  first : String
  insertions : List Insertion
  unclosed : Option String

namespace Insertion

def marked (i : Insertion) : String :=
  "<!--" ++ i.comment ++ "-->"

/-- The plain text after the first of these comments. -/
def plain (insertions : List Insertion) : String :=
  .join (insertions.map after)

/-- The comments that stand at or before an offset of a plain text, in bytes, if the first of
them stands at offset `start` of it. -/
def bytesUpTo (start : Nat) : List Insertion → Nat → Nat
  | [], _ => 0
  | i :: rest, offset =>
    (if start ≤ offset then i.marked.utf8ByteSize else 0) +
      bytesUpTo (start + i.after.utf8ByteSize) rest offset

end Insertion

namespace Commented

def plain (c : Commented) : String :=
  c.first ++ Insertion.plain c.insertions

def ending (c : Commented) : String :=
  match c.unclosed with
  | none => ""
  | some comment => "<!--" ++ comment

def source (c : Commented) : String :=
  c.first ++ .join (c.insertions.map fun i ↦ i.marked ++ i.after) ++ c.ending

/-- Where a character of the plain text stands in the source. -/
def moves (c : Commented) (offset : Nat) : Nat :=
  offset + Insertion.bytesUpTo c.first.utf8ByteSize c.insertions offset

/-- The plain text begins no comment, and no comment closes before its end. -/
structure Proper (c : Commented) : Prop where
  plain_free : ¬ Comment.opening <:+: c.plain.toList
  comment_free : ∀ i ∈ c.insertions, ¬ Comment.closing <:+: i.comment.toList
  unclosed_free : ∀ comment ∈ c.unclosed, ¬ Comment.closing <:+: comment.toList

end Commented

open Comment (Part Cut place text opening closing)

namespace Insertion

def part (i : Insertion) : Part :=
  .comment (opening ++ (i.comment.toList ++ closing))

theorem toList_marked (i : Insertion) :
    i.marked.toList = opening ++ (i.comment.toList ++ closing) := by
  rw [marked, String.toList_append, String.toList_append, List.append_assoc]
  rfl

theorem utf8Len_part (i : Insertion) :
    String.utf8Len i.part.chars = i.marked.utf8ByteSize := by
  rw [← String.utf8Len_toList, toList_marked]
  rfl

/-- The parts of comments and the texts after them, with these parts at the end. -/
def parts (tail : List Part) : List Insertion → List Part
  | [] => tail
  | i :: rest => i.part :: (i.after.toList.map .kept ++ parts tail rest)

/-- The characters of comments and the texts after them, with these characters at the end. -/
def chars (tail : List Char) : List Insertion → List Char
  | [] => tail
  | i :: rest => opening ++ (i.comment.toList ++ (closing ++ (i.after.toList ++ chars tail rest)))

theorem toList_join_append (tail : List Char) (insertions : List Insertion) :
    (String.join (insertions.map fun i ↦ i.marked ++ i.after)).toList ++ tail =
      chars tail insertions := by
  induction insertions with
  | nil => rfl
  | cons i rest ih =>
    rw [List.map_cons, String.join_cons, String.toList_append, String.toList_append,
      toList_marked, chars, ← ih]
    simp only [List.append_assoc]

theorem plain_cons (i : Insertion) (rest : List Insertion) :
    plain (i :: rest) = i.after ++ plain rest := by
  rw [plain, List.map_cons, String.join_cons]
  rfl

/-- If the first comment stands past an offset, all do. -/
theorem bytesUpTo_eq_zero {start offset : Nat} (insertions : List Insertion)
    (h : offset < start) : bytesUpTo start insertions offset = 0 := by
  induction insertions generalizing start with
  | nil => rfl
  | cons i rest ih =>
    rw [bytesUpTo, if_neg (Nat.not_le.mpr h), ih (Nat.lt_of_lt_of_le h (Nat.le_add_right _ _))]

theorem cut_chars {tail : List Char} {tailParts : List Part} {insertions : List Insertion}
    {cs : List Char} (htail : tail = [] ∨ opening <+: tail) (htailCut : Cut tail tailParts)
    (hplain : ¬ opening <:+: cs ++ (plain insertions).toList)
    (hcomment : ∀ i ∈ insertions, ¬ closing <:+: i.comment.toList) :
    Cut (cs ++ chars tail insertions) (cs.map .kept ++ parts tailParts insertions) := by
  induction insertions generalizing cs with
  | nil =>
    have hcs : ¬ opening <:+: cs := fun h ↦ hplain (h.trans (List.prefix_append _ _).isInfix)
    exact htailCut.append_kept hcs htail
  | cons i rest ih =>
    have hcs : ¬ opening <:+: cs := fun h ↦ hplain (h.trans (List.prefix_append _ _).isInfix)
    have hrest : ¬ opening <:+: i.after.toList ++ (plain rest).toList := by
      rw [plain_cons, String.toList_append] at hplain
      exact fun h ↦ hplain (h.trans (List.suffix_append _ _).isInfix)
    have hcut := ih hrest fun j hj ↦ hcomment j (List.mem_cons_of_mem i hj)
    have hclosed := Cut.closed (hcomment i List.mem_cons_self) hcut
    exact hclosed.append_kept hcs (.inr (List.prefix_append _ _))

theorem place_add (start d : Nat) (parts : List Part) :
    place (start + d) parts = (place start parts).map (Glyph.moved (· + d)) := by
  induction parts generalizing start with
  | nil => rfl
  | cons part parts ih =>
    cases part with
    | kept c =>
      rw [place, place, Nat.add_right_comm, ih]
      rfl
    | comment cs =>
      rw [place, place, Nat.add_right_comm, ih]

/-- A text in front of comments is moved on by none of them. -/
theorem place_before (insertions : List Insertion) (start d : Nat) (cs : List Char) :
    place (start + d) (cs.map .kept) = (place start (cs.map .kept)).map
      (Glyph.moved fun offset ↦
        offset + (d + bytesUpTo (start + String.utf8Len cs) insertions offset)) := by
  rw [place_add]
  refine List.map_congr_left fun g hg ↦ ?_
  have hlt := Comment.offset_lt_of_mem_place hg
  rw [Comment.text_map_kept] at hlt
  rw [Glyph.moved, Glyph.moved, bytesUpTo_eq_zero insertions hlt, Nat.add_zero]

/-- Characters stand where they stand in the plain text, moved on by the comments in front of
them: `d` bytes before all of this text, and those in it. -/
theorem place_parts {tail : List Part} (htail : ∀ offset, place offset tail = [])
    (insertions : List Insertion) (start d : Nat) (cs : List Char) :
    place (start + d) (cs.map .kept ++ parts tail insertions) =
      (place start ((cs ++ (plain insertions).toList).map .kept)).map
        (Glyph.moved fun offset ↦
          offset + (d + bytesUpTo (start + String.utf8Len cs) insertions offset)) := by
  induction insertions generalizing start d cs with
  | nil =>
    rw [Comment.place_append, parts, htail, List.append_nil, place_before [] start d cs, plain,
      List.map_nil, String.join_nil, String.toList_empty, List.append_nil]
  | cons i rest ih =>
    have hlater := ih (start + String.utf8Len cs) (d + i.marked.utf8ByteSize) i.after.toList
    have hoffset : start + d + String.utf8Len cs + String.utf8Len i.part.chars =
        start + String.utf8Len cs + (d + i.marked.utf8ByteSize) := by
      rw [utf8Len_part]
      omega
    rw [parts, Comment.place_append, Comment.text_map_kept, place_before (i :: rest),
      plain_cons, String.toList_append, List.map_append, Comment.place_append,
      Comment.text_map_kept, List.map_append]
    refine (List.append_right_inj _).mpr ?_
    change place (_ + String.utf8Len i.part.chars) _ = _
    rw [hoffset, hlater]
    -- The first comment stands in front of all that follows it.
    refine List.map_congr_left fun g hg ↦ ?_
    have hle := Comment.le_offset_of_mem_place hg
    simp only [Glyph.moved, bytesUpTo, if_pos hle, String.utf8Len_toList]
    rw [Nat.add_assoc d]

end Insertion

namespace Commented

theorem toList_source (c : Commented) :
    c.source.toList = c.first.toList ++ Insertion.chars c.ending.toList c.insertions := by
  rw [source, String.toList_append, String.toList_append, List.append_assoc,
    Insertion.toList_join_append]

/-- A comment that is not closed is a part of its own, and one without characters to keep. -/
theorem Proper.cut_ending {c : Commented} (h : c.Proper) :
    (c.ending.toList = [] ∨ opening <+: c.ending.toList) ∧
      ∃ tail, Cut c.ending.toList tail ∧ ∀ offset, place offset tail = [] := by
  obtain ⟨first, insertions, unclosed⟩ := c
  cases unclosed with
  | none => exact ⟨.inl rfl, [], .nil, fun _ ↦ rfl⟩
  | some comment =>
    have hending : (Commented.ending ⟨first, insertions, some comment⟩).toList =
        opening ++ comment.toList := by
      rw [ending, String.toList_append]
      rfl
    rw [hending]
    exact ⟨.inr (List.prefix_append _ _), _, .unclosed (h.unclosed_free comment rfl),
      fun _ ↦ rfl⟩

theorem Proper.strip_source {c : Commented} (h : c.Proper) :
    Comment.strip 0 c.source.toList =
      (Comment.strip 0 c.plain.toList).map (Glyph.moved c.moves) := by
  obtain ⟨hstart, tail, htail, hnone⟩ := h.cut_ending
  have hplain := h.plain_free
  have hkept := Cut.of_free hplain
  rw [plain, String.toList_append] at hplain
  have hsource := Insertion.cut_chars hstart htail hplain h.comment_free
  rw [← toList_source] at hsource
  have hplace := Insertion.place_parts hnone c.insertions 0 0 c.first.toList
  rw [Nat.zero_add, Nat.zero_add, String.utf8Len_toList] at hplace
  rw [Comment.strip_of_cut hsource, Comment.strip_of_cut hkept, hplace, plain,
    String.toList_append]
  simp only [Nat.zero_add]
  rfl

/-- For a plain text that begins no comment, and comments that do not close before their
ends: with the comments put in, the tokens are those of the plain text, each moved on by the
comments at or before its place, and so are the trees, issues and faults of nesting. -/
theorem tokenize_build_source (c : Commented) (h : c.Proper) :
    tokenize c.source = (tokenize c.plain).map (Token.moved c.moves) ∧
    ∀ maxDepth, Document.build maxDepth (tokenize c.source) =
      Document.movedOutcome Built.moved c.moves
        (Document.build maxDepth (tokenize c.plain)) := by
  have htokens : tokenize c.source =
      (tokenize c.plain).map (Token.moved c.moves) := by
    rw [tokenize, tokenize, h.strip_source, Token.scan_map_moved]
  refine ⟨htokens, fun maxDepth ↦ ?_⟩
  rw [htokens, Document.build_map_moved]

/-- Comments next to parts of marks, in a name, in a value, in the marks of a tag, side by side
and not closed at the end. -/
theorem tokenize_build_source_garbled :
    let c : Commented := ⟨"<!-", [⟨"-", "<te"⟩, ⟨"", ""⟩, ⟨"<!--", "xt a=\"é"⟩, ⟨">", ">\"/"⟩,
      ⟨"--", ">-</"⟩, ⟨"x", "b>->"⟩], some "-- >"⟩
    c.source =
      "<!-<!-----><te<!----><!--<!---->xt a=\"é<!-->-->>\"/<!------>>-</<!--x-->b>-><!---- >" ∧
    c.Proper ∧
    tokenize c.source = [⟨.text, "<!-", 0⟩, ⟨.tagOpen, "text", 11⟩, ⟨.attrName, "a", 35⟩,
      ⟨.attrValue, "é>", 38⟩, ⟨.selfClose, "/>", 50⟩, ⟨.text, "-", 61⟩, ⟨.tagClose, "b", 62⟩,
      ⟨.tagEnd, ">", 73⟩, ⟨.text, "->", 74⟩] ∧
    (Document.build 1 (tokenize c.source)).toOption.map Built.issues =
      some [.unexpectedClose "b" 62] := by
  intro c
  have hproper : c.Proper := ⟨by decide +kernel, by decide +kernel, by decide +kernel⟩
  obtain ⟨htokens, hbuild⟩ := tokenize_build_source c hproper
  refine ⟨by decide +kernel, hproper, ?_, ?_⟩
  · rw [htokens]
    decide +kernel
  · rw [hbuild]
    decide +kernel

end Commented

end AgentMarkup
