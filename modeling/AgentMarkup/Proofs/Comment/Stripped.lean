import AgentMarkup.Proofs.Comment.Cut
import Mathlib.Logic.Function.Iterate

/-!
Stripping a text by runs, and the search for the run of a byte. The search by halving counts the
runs that start at this byte or before it (`startedBy_eq_countP`): the window it searches has only
such runs before it and none behind it. `Holds` says what characters a stripped text has and
which byte of the document each of its bytes was; another run moves none of those before it
(`Holds.keep`). A round takes the next parts off what is left of the cut (`Reads.round`), so in
the end the characters outside comments are kept (`stripped_of_cut`) and stand where they stood
in the document (`strip_of_cut`).
-/

set_option autoImplicit false
set_option relaxedAutoImplicit false

namespace AgentMarkup.Comment

namespace Stripped

/-! ### The search -/

theorem countP_eq_of_split {α : Type} {p : α → Bool} {as : Array α} {n : Nat}
    (hle : n ≤ as.size) (hbefore : ∀ i (hsize : i < as.size), i < n → p as[i] = true)
    (hbehind : ∀ i (hsize : i < as.size), n ≤ i → ¬ p as[i] = true) : as.countP p = n := by
  have htake : (as.toList.take n).countP p = n := by
    rw [List.countP_eq_length.mpr, List.length_take, Array.length_toList, Nat.min_eq_left hle]
    intro a ha
    obtain ⟨i, hi, rfl⟩ := List.mem_take_iff_getElem.mp ha
    exact hbefore i (Nat.lt_of_lt_of_le hi (Nat.min_le_right _ _))
      (Nat.lt_of_lt_of_le hi (Nat.min_le_left _ _))
  have hdrop : (as.toList.drop n).countP p = 0 := by
    refine List.countP_eq_zero.mpr fun a ha ↦ ?_
    obtain ⟨i, hi, rfl⟩ := List.mem_drop_iff_getElem.mp ha
    rw [Nat.add_comm, Array.length_toList] at hi
    exact hbehind (n + i) hi (Nat.le_add_right n i)
  rw [← Array.countP_toList, ← List.take_append_drop n as.toList, List.countP_append, htake, hdrop,
    Nat.add_zero]

theorem startedBy_eq_countP {runs : Array Run}
    (hascending : runs.toList.Pairwise fun r s ↦ r.start < s.start) (q : Nat) {lo hi : Nat}
    (h : hi ≤ runs.size) (hle : lo ≤ hi)
    (hbefore : ∀ i (hsize : i < runs.size), i < lo → runs[i].start ≤ q)
    (hbehind : ∀ i (hsize : i < runs.size), hi ≤ i → q < runs[i].start) :
    startedBy runs q lo hi h = runs.countP fun r ↦ r.start ≤ q := by
  have hstart : ∀ i j (hi : i < runs.size) (hj : j < runs.size), i ≤ j →
      runs[i].start ≤ runs[j].start := by
    intro i j hi hj hij
    rcases Nat.lt_or_eq_of_le hij with hij | rfl
    · exact Nat.le_of_lt (List.pairwise_iff_getElem.mp hascending i j hi hj hij)
    · exact Nat.le_refl _
  -- The window: all before it start at the byte or before, all behind it start later.
  fun_induction startedBy runs q lo hi h with
  | case1 lo hi h hlt hmid hearly ih =>
    refine ih (by omega) (fun i hsize hi ↦ ?_) hbehind
    exact Nat.le_trans (hstart i _ hsize hmid (Nat.le_of_lt_succ hi)) hearly
  | case2 lo hi h hlt hmid hlate ih =>
    refine ih (by omega) hbefore fun i hsize hi ↦ ?_
    exact Nat.lt_of_lt_of_le (Nat.lt_of_not_le hlate) (hstart _ i hmid hsize hi)
  | case3 lo hi h hdone =>
    obtain rfl : lo = hi := Nat.le_antisymm hle (Nat.le_of_not_lt hdone)
    refine (countP_eq_of_split h (fun i hsize hi ↦ ?_) fun i hsize hi ↦ ?_).symm
    · exact decide_eq_true (hbefore i hsize hi)
    · simpa using hbehind i hsize hi

/-! ### Offsets -/

theorem originalOffset_eq (s : Stripped) (q : Nat) :
    s.originalOffset q = s.offsetAfter q (s.runs.countP fun r ↦ r.start ≤ q) := by
  rw [originalOffset, startedBy_eq_countP s.ascending q (Nat.le_refl _) (Nat.zero_le _)
    (fun i _ hi ↦ absurd hi (Nat.not_lt_zero i)) fun i hsize hi ↦ absurd hsize (Nat.not_lt.mpr hi)]

variable {s : Stripped} {offset q : Nat} {run : List Char}

theorem text_keep (s : Stripped) (offset : Nat) (run : List Char) :
    (s.keep offset run).text = s.text ++ String.ofList run := by
  rw [keep]
  split
  next h => rw [h, String.ofList_nil, String.append_empty]
  next => rfl

theorem runs_keep (h : run ≠ []) (s : Stripped) (offset : Nat) :
    (s.keep offset run).runs = s.runs.push ⟨s.text.utf8ByteSize, offset⟩ := by
  rw [keep, dif_neg h]

theorem offsetAfter_keep (hrun : run ≠ []) {n : Nat} (hn : n ≤ s.runs.size) :
    (s.keep offset run).offsetAfter q n = s.offsetAfter q n := by
  cases n with
  | zero => rfl
  | succ i => rw [offsetAfter, offsetAfter, runs_keep hrun, Array.getElem?_push, if_neg (by omega)]

theorem originalOffset_keep_of_lt (h : q < s.text.utf8ByteSize) :
    (s.keep offset run).originalOffset q = s.originalOffset q := by
  by_cases hrun : run = []
  · rw [keep, dif_pos hrun]
  · have hlater : ¬ s.text.utf8ByteSize ≤ q := Nat.not_le.mpr h
    rw [originalOffset_eq, originalOffset_eq, runs_keep hrun, Array.countP_push]
    simp only [hlater, decide_false, Bool.false_eq_true, if_false, Nat.add_zero]
    exact offsetAfter_keep hrun Array.countP_le_size

theorem originalOffset_keep_of_le (hrun : run ≠ []) (h : s.text.utf8ByteSize ≤ q) :
    (s.keep offset run).originalOffset q = offset + (q - s.text.utf8ByteSize) := by
  have hall : s.runs.countP (fun r ↦ decide (r.start ≤ q)) = s.runs.size :=
    Array.countP_eq_size.mpr fun r hr ↦
      decide_eq_true (Nat.le_trans (Nat.le_of_lt (s.within r hr)) h)
  rw [originalOffset_eq, runs_keep hrun, Array.countP_push, hall, if_pos (decide_eq_true h),
    offsetAfter, runs_keep hrun, Array.getElem?_push_size]

/-! ### What a stripped text holds -/

/-- The stripped text has these characters, and these are the bytes of the document that its
bytes were. -/
structure Holds (s : Stripped) (cs : List Char) (places : List Nat) : Prop where
  toList_text : s.text.toList = cs
  offsets : (List.range s.text.utf8ByteSize).map s.originalOffset = places

theorem Holds.utf8ByteSize_text {cs : List Char} {places : List Nat} (h : s.Holds cs places) :
    s.text.utf8ByteSize = String.utf8Len cs := by
  rw [← h.toList_text, ← String.utf8ByteSize_ofList, String.ofList_toList]

theorem holds_empty : empty.Holds [] [] where
  toList_text := rfl
  offsets := rfl

/-- Another run comes after what was there, its bytes one after the other. -/
theorem Holds.keep {cs : List Char} {places : List Nat} (h : s.Holds cs places) (offset : Nat)
    (run : List Char) : (s.keep offset run).Holds (cs ++ run)
      (places ++ List.range' offset (String.utf8Len run)) where
  toList_text := by rw [text_keep, String.toList_append, h.toList_text, String.toList_ofList]
  offsets := by
    have hbefore : (List.range s.text.utf8ByteSize).map (s.keep offset run).originalOffset =
        places := by
      rw [← h.offsets]
      exact List.map_congr_left fun q hq ↦ originalOffset_keep_of_lt (List.mem_range.mp hq)
    rw [text_keep, String.utf8ByteSize_append, String.utf8ByteSize_ofList, List.range_add,
      List.map_append, hbefore, List.map_map, List.range'_eq_map_range]
    congr 1
    refine List.map_congr_left fun q hq ↦ ?_
    have hrun : run ≠ [] := by
      rintro rfl
      exact absurd (List.mem_range.mp hq) (Nat.not_lt_zero q)
    rw [Function.comp_apply, originalOffset_keep_of_le hrun (Nat.le_add_right _ _),
      Nat.add_sub_cancel_left]

end Stripped

/-! ### Rounds -/

theorem splitOpening_snd (cs : List Char) :
    (splitOpening cs).2 = [] ∨ opening <+: (splitOpening cs).2 := by
  induction cs with
  | nil => exact .inl rfl
  | cons c cs ih =>
    rw [splitOpening]
    split
    next hmark => exact .inr (List.isPrefixOf_iff_prefix.mp hmark)
    next => exact ih

theorem splitOpening_opening (inside : List Char) :
    splitOpening (opening ++ inside) = ([], opening ++ inside) := by
  have hmark : opening.isPrefixOf ('<' :: '!' :: '-' :: '-' :: inside) = true :=
    List.isPrefixOf_iff_prefix.mpr (List.prefix_append opening inside)
  change splitOpening ('<' :: '!' :: '-' :: '-' :: inside) = _
  rw [splitOpening, if_pos hmark]
  rfl

/-- The text before the first opening mark is outside comments. -/
theorem Cut.exists_of_splitOpening {cs : List Char} {parts : List Part} (h : Cut cs parts) :
    ∃ others, Cut (splitOpening cs).2 others ∧
      parts = (splitOpening cs).1.map Part.kept ++ others := by
  induction h with
  | nil => exact ⟨[], .nil, rfl⟩
  | @kept c cs parts hmark h ih =>
    obtain ⟨others, hothers, hparts⟩ := ih
    have hhere : ¬ opening.isPrefixOf (c :: cs) = true := fun h ↦
      hmark (List.isPrefixOf_iff_prefix.mp h)
    rw [splitOpening, if_neg hhere]
    exact ⟨others, hothers, by rw [hparts, List.map_cons, List.cons_append]⟩
  | closed hbody h ih =>
    rw [splitOpening_opening]
    exact ⟨_, .closed hbody h, rfl⟩
  | unclosed hbody =>
    rw [splitOpening_opening]
    exact ⟨_, .unclosed hbody, rfl⟩

namespace Stripping

theorem utf8Len_opening_append (cs : List Char) :
    String.utf8Len (opening ++ cs) = 4 + String.utf8Len cs :=
  String.utf8Len_append opening cs

theorem round_of_nil {s : Stripping} (h : (splitOpening s.rest).2 = []) :
    s.round = ⟨s.done.keep s.offset (splitOpening s.rest).1,
      s.offset + String.utf8Len (splitOpening s.rest).1, []⟩ := by
  rw [round, h, String.utf8ByteSize_ofList]

theorem round_of_opening {s : Stripping} {inside : List Char}
    (h : (splitOpening s.rest).2 = opening ++ inside) :
    s.round = ⟨s.done.keep s.offset (splitOpening s.rest).1,
      (afterClosing (s.offset + String.utf8Len (splitOpening s.rest).1 + 4) inside).1,
      (afterClosing (s.offset + String.utf8Len (splitOpening s.rest).1 + 4) inside).2⟩ := by
  rw [round, h, String.utf8ByteSize_ofList]
  rfl

/-- The parts that have been read, and those that are left to read. -/
structure Reads (s : Stripping) (base : Nat) (read left : List Part) : Prop where
  holds : s.done.Holds (kept read) (bytePlaces base read)
  offset_eq : s.offset = base + String.utf8Len (text read)
  cut : Cut s.rest left

variable {s : Stripping} {base : Nat} {read left : List Part}

theorem Reads.comment {done : Stripped} {offset : Nat} {rest : List Char}
    (hholds : done.Holds (kept read) (bytePlaces base read))
    (hoffset : offset = base + String.utf8Len (text read)) (hcut : Cut rest left)
    (cs : List Char) :
    Reads ⟨done, offset + String.utf8Len cs, rest⟩ base (read ++ [.comment cs]) left where
  holds := by
    rw [kept_append, bytePlaces_append]
    change done.Holds (kept read ++ []) (bytePlaces base read ++ [])
    rwa [List.append_nil, List.append_nil]
  offset_eq := by
    have htext : text [.comment cs] = cs := List.append_nil cs
    rw [text_append, htext, String.utf8Len_append, ← Nat.add_assoc, ← hoffset]
  cut := hcut

/-- A round reads the text before the next comment, and the comment. -/
theorem Reads.round (h : s.Reads base read left) : ∃ front back, left = front ++ back ∧
    s.round.Reads base (read ++ front) back := by
  obtain ⟨others, hothers, rfl⟩ := h.cut.exists_of_splitOpening
  have hoffset : s.offset + String.utf8Len (splitOpening s.rest).1 =
      base + String.utf8Len (text (read ++ (splitOpening s.rest).1.map Part.kept)) := by
    rw [h.offset_eq, text_append, text_map_kept, String.utf8Len_append, Nat.add_assoc]
  have hholds : (s.done.keep s.offset (splitOpening s.rest).1).Holds
      (kept (read ++ (splitOpening s.rest).1.map Part.kept))
      (bytePlaces base (read ++ (splitOpening s.rest).1.map Part.kept)) := by
    rw [kept_append, kept_map_kept, bytePlaces_append, bytePlaces_map_kept, ← h.offset_eq]
    exact h.holds.keep _ _
  rcases splitOpening_snd s.rest with hnil | ⟨inside, hinside⟩
  · rw [hnil] at hothers
    rw [round_of_nil hnil]
    exact ⟨_, others, rfl, hholds, hoffset, hothers⟩
  · rw [← hinside] at hothers
    rw [round_of_opening hinside.symm]
    obtain ⟨body, rest, back, rfl, hbody, hback, rfl⟩ | ⟨hbody, rfl⟩ := hothers.of_opening
    · rw [afterClosing_closed hbody]
      refine ⟨_, back, List.append_cons _ _ _, ?_⟩
      rw [← List.append_assoc, Nat.add_assoc _ 4, ← utf8Len_opening_append]
      exact .comment hholds hoffset hback _
    · rw [afterClosing_unclosed hbody]
      refine ⟨_, [], (List.append_nil _).symm, ?_⟩
      rw [← List.append_assoc, Nat.add_assoc _ 4, ← utf8Len_opening_append]
      exact .comment hholds hoffset .nil _

theorem Reads.finish (h : s.Reads base read left) :
    s.finish.Holds (kept (read ++ left)) (bytePlaces base (read ++ left)) := by
  fun_induction Stripping.finish s generalizing read left with
  | case1 s hrest =>
    have hcut := h.cut
    rw [hrest] at hcut
    rw [Cut.nil.unique hcut, List.append_nil]
    exact h.holds
  | case2 s hrest hlt ih =>
    obtain ⟨front, back, rfl, hround⟩ := h.round
    rw [← List.append_assoc]
    exact ih hround

/-- The rounds come to an end, after no more of them than there are characters left, and what has
been kept by then is the result. -/
theorem exists_iterate_round (s : Stripping) : ∃ n ≤ s.rest.length,
    (Stripping.round^[n] s).rest = [] ∧ (∀ m < n, (Stripping.round^[m] s).rest ≠ []) ∧
      s.finish = (Stripping.round^[n] s).done := by
  fun_induction Stripping.finish s with
  | case1 s hrest =>
    exact ⟨0, Nat.zero_le _, hrest, fun m hm ↦ absurd hm (Nat.not_lt_zero m), rfl⟩
  | case2 s hrest hlt ih =>
    obtain ⟨n, hn, hend, hbefore, hfinish⟩ := ih
    refine ⟨n + 1, Nat.lt_of_le_of_lt hn hlt, hend, fun m hm ↦ ?_, hfinish⟩
    cases m with
    | zero => exact hrest
    | succ m => exact hbefore m (Nat.lt_of_succ_lt_succ hm)

end Stripping

/-! ### The stripped text -/

variable {cs : List Char} {parts : List Part}

/-- What is stripped has the characters outside comments, and each of its bytes stood where they
stand. -/
theorem stripped_of_cut (h : Cut cs parts) (offset : Nat) :
    (stripped offset cs).Holds (kept parts) (bytePlaces offset parts) := by
  have hstart : Stripping.Reads ⟨.empty, offset, cs⟩ offset [] parts :=
    ⟨Stripped.holds_empty, rfl, h⟩
  exact hstart.finish

theorem glyphsFrom_kept {s : Stripped} {start offset : Nat}
    (h : (List.range' start (String.utf8Len (kept parts))).map s.originalOffset =
      bytePlaces offset parts) : s.glyphsFrom start (kept parts) = place offset parts := by
  induction parts generalizing start offset with
  | nil => rfl
  | cons part parts ih =>
    cases part with
    | kept c =>
      change (List.range' start (String.utf8Len (c :: kept parts))).map _ =
        List.range' offset c.utf8Size ++ bytePlaces (offset + c.utf8Size) parts at h
      rw [String.utf8Len_cons, Nat.add_comm, ← List.range'_append_1, List.map_append] at h
      obtain ⟨hchar, hrest⟩ := List.append_inj h (by simp)
      have hfirst : s.originalOffset start = offset := by
        have hhead := congrArg List.head? hchar
        simp only [List.head?_map, List.head?_range', if_neg c.utf8Size_pos.ne'] at hhead
        exact Option.some.inj hhead
      change ⟨c, s.originalOffset start⟩ :: s.glyphsFrom (start + c.utf8Size) (kept parts) = _
      rw [hfirst, ih hrest, place]
    | comment cs => exact ih h

/-- Stripping takes out the comments of the cut and leaves the other characters in their
places. -/
theorem strip_of_cut (h : Cut cs parts) (offset : Nat) : strip offset cs = place offset parts := by
  have hholds := stripped_of_cut h offset
  rw [strip, hholds.toList_text]
  refine glyphsFrom_kept ?_
  rw [← hholds.utf8ByteSize_text, ← List.range_eq_range', hholds.offsets]

/-- Stripping takes nothing from a text without an opening mark. -/
theorem map_char_strip (h : ¬ opening <:+: cs) (offset : Nat) :
    (strip offset cs).map Glyph.char = cs := by
  rw [strip_of_cut (.of_free h), map_char_place, kept_map_kept]

end AgentMarkup.Comment
