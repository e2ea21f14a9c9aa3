/-!
Comments run from `<!--` to the first `-->` after it, or to the end of the document.
Stripping them leaves the other text in runs, each with the byte where it began in the
document, so whatever is read afterwards knows where it stands. What is left is not searched
for comments again.
-/

set_option autoImplicit false
set_option relaxedAutoImplicit false

namespace AgentMarkup

/-- A character of a document and the number of bytes before it. -/
structure Glyph where
  char : Char
  offset : Nat
deriving DecidableEq

namespace Comment

def opening : List Char := ['<', '!', '-', '-']

def closing : List Char := ['-', '-', '>']

/-- The text before the first opening mark, and the text from this mark on. -/
def splitOpening : List Char → List Char × List Char
  | [] => ([], [])
  | c :: cs =>
    if opening.isPrefixOf (c :: cs) then ([], c :: cs)
    else (c :: (splitOpening cs).1, (splitOpening cs).2)

/-- The text after the first closing mark and its offset; nothing without such a mark. -/
def afterClosing (offset : Nat) : List Char → Nat × List Char
  | [] => (offset, [])
  | c :: cs =>
    if closing.isPrefixOf (c :: cs) then (offset + 3, cs.drop 2)
    else afterClosing (offset + c.utf8Size) cs

theorem length_afterClosing_le (offset : Nat) (cs : List Char) :
    (afterClosing offset cs).2.length ≤ cs.length := by
  induction cs generalizing offset with
  | nil => simp [afterClosing]
  | cons c cs ih =>
    simp only [afterClosing]
    split
    · simp only [List.length_drop, List.length_cons]
      omega
    · exact Nat.le_succ_of_le (ih _)

theorem append_splitOpening (cs : List Char) :
    (splitOpening cs).1 ++ (splitOpening cs).2 = cs := by
  induction cs with
  | nil => rfl
  | cons c cs ih =>
    rw [splitOpening]
    split
    · rfl
    · rw [List.cons_append, ih]

/-! ### Text without comments -/

/-- A run of text outside comments: the byte of the stripped text where it starts, and the
byte of the document where it did. -/
structure Run where
  start : Nat
  origin : Nat

/-- A text without its comments and the runs that make it up, ascending. -/
structure Stripped where
  text : String
  runs : Array Run
  ascending : runs.toList.Pairwise fun r s ↦ r.start < s.start
  within : ∀ r ∈ runs, r.start < text.utf8ByteSize

namespace Stripped

def empty : Stripped where
  text := ""
  runs := #[]
  ascending := .nil
  within r h := absurd h (Array.not_mem_empty r)

/-- Another run, from this offset of the document. No run is empty. -/
def keep (s : Stripped) (offset : Nat) (run : List Char) : Stripped :=
  if h : run = [] then s else
    { text := s.text ++ String.ofList run
      runs := s.runs.push ⟨s.text.utf8ByteSize, offset⟩
      ascending := by
        rw [Array.toList_push, List.pairwise_append]
        refine ⟨s.ascending, List.pairwise_singleton _ _, fun r hr t ht ↦ ?_⟩
        obtain rfl := List.mem_singleton.mp ht
        exact s.within r (Array.mem_toList_iff.mp hr)
      within := by
        intro r hr
        have hpos : 0 < (String.ofList run).utf8ByteSize := by
          refine Nat.pos_of_ne_zero fun hzero ↦ h ?_
          rwa [String.utf8ByteSize_eq_zero_iff, String.ofList_eq_empty_iff] at hzero
        rw [String.utf8ByteSize_append]
        rcases Array.mem_push.mp hr with hr | rfl
        · exact Nat.lt_add_right _ (s.within r hr)
        · exact Nat.lt_add_of_pos_right hpos }

/-- The number of runs that start at this byte or before it, searched for in a window by
halving. -/
def startedBy (runs : Array Run) (q lo hi : Nat) (h : hi ≤ runs.size) : Nat :=
  if hlt : lo < hi then
    have hmid : (lo + hi) / 2 < runs.size := by omega
    if runs[(lo + hi) / 2].start ≤ q then startedBy runs q ((lo + hi) / 2 + 1) hi h
    else startedBy runs q lo ((lo + hi) / 2) (Nat.le_of_lt hmid)
  else lo
termination_by hi - lo

/-- The byte of the document that this byte was, if it is in the last of so many runs. -/
def offsetAfter (s : Stripped) (q : Nat) : Nat → Nat
  | 0 => q
  | i + 1 =>
    match s.runs[i]? with
    | some run => run.origin + (q - run.start)
    | none => q

/-- The byte of the document that this byte of the stripped text was. -/
def originalOffset (s : Stripped) (q : Nat) : Nat :=
  s.offsetAfter q (startedBy s.runs q 0 s.runs.size (Nat.le_refl _))

/-- These characters, which begin at this byte of the stripped text, with their offsets in the
document. -/
def glyphsFrom (s : Stripped) (start : Nat) : List Char → List Glyph
  | [] => []
  | c :: cs => ⟨c, s.originalOffset start⟩ :: s.glyphsFrom (start + c.utf8Size) cs

end Stripped

/-! ### Stripping -/

/-- What has been kept so far, and the rest of the document with its offset. -/
structure Stripping where
  done : Stripped
  offset : Nat
  rest : List Char

namespace Stripping

/-- Keeps the text before the next comment and passes over the comment. -/
def round (s : Stripping) : Stripping :=
  let done := s.done.keep s.offset (splitOpening s.rest).1
  let offset := s.offset + (String.ofList (splitOpening s.rest).1).utf8ByteSize
  match (splitOpening s.rest).2 with
  | [] => ⟨done, offset, []⟩
  | c :: cs =>
    let after := afterClosing (offset + 4) ((c :: cs).drop 4)
    ⟨done, after.1, after.2⟩

theorem length_round_lt {s : Stripping} (h : s.rest ≠ []) :
    s.round.rest.length < s.rest.length := by
  have hlength := congrArg List.length (append_splitOpening s.rest)
  rw [List.length_append] at hlength
  rw [round]
  split
  · exact List.length_pos_iff.mpr h
  next c cs hsplit =>
    rw [hsplit] at hlength
    refine Nat.lt_of_le_of_lt (length_afterClosing_le _ _) ?_
    simp only [List.length_drop, List.length_cons] at hlength ⊢
    omega

/-- What is kept once nothing remains. -/
def finish (s : Stripping) : Stripped :=
  if h : s.rest = [] then s.done else
    have := length_round_lt h
    s.round.finish
termination_by s.rest.length
decreasing_by assumption

end Stripping

/-- A text that begins at this offset, without its comments. -/
def stripped (offset : Nat) (cs : List Char) : Stripped :=
  Stripping.finish ⟨.empty, offset, cs⟩

/-- The characters outside comments of a text that begins at this offset. -/
def strip (offset : Nat) (cs : List Char) : List Glyph :=
  let s := stripped offset cs
  s.glyphsFrom 0 s.text.toList

end Comment

end AgentMarkup
