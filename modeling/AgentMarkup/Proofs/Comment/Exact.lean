import AgentMarkup.Proofs.Comment.Stripped

/-!
The bytes that stripping keeps. `Comments` reads the bytes of a document from left to right: a
comment begins with the first `<!--` not read yet and ends past the first `-->` behind these four
bytes, or with the document. The characters of the two marks stand nowhere but at the beginning of
a character (`not_standsAt_within`), so the cut of the characters gives the same comments
(`Cut.comments`). What is kept are the bytes outside them, each with its place
(`keptBytes_of_cut`), and all that offsets are used for follows from that alone
(`exact_of_keptBytes`).
-/

set_option autoImplicit false
set_option relaxedAutoImplicit false

namespace AgentMarkup.Comment

/-- The bytes of a text. -/
def bytes (s : String) : List UInt8 :=
  s.toUTF8.data.toList

/-- The mark stands at this byte. -/
def StandsAt (mark text : List UInt8) (i : Nat) : Prop :=
  mark <+: text.drop i

/-- The first byte from `start` on where the mark stands. -/
structure FirstFrom (mark text : List UInt8) (start i : Nat) : Prop where
  le : start ≤ i
  stands : StandsAt mark text i
  first : ∀ j, start ≤ j → j < i → ¬ StandsAt mark text j

/-- The first byte of a comment, and the first byte past it. -/
structure Span where
  first : Nat
  past : Nat

/-- The comments from this byte on. -/
inductive Comments (text : List UInt8) : Nat → List Span → Prop
  | none {pos : Nat} (h : ∀ i, pos ≤ i → ¬ StandsAt (bytes "<!--") text i) : Comments text pos []
  | closed {pos first stop : Nat} {spans : List Span}
    (hfirst : FirstFrom (bytes "<!--") text pos first)
    (hstop : FirstFrom (bytes "-->") text (first + 4) stop)
    (h : Comments text (stop + 3) spans) : Comments text pos (⟨first, stop + 3⟩ :: spans)
  | unclosed {pos first : Nat} (hfirst : FirstFrom (bytes "<!--") text pos first)
    (hstop : ∀ i, first + 4 ≤ i → ¬ StandsAt (bytes "-->") text i) :
    Comments text pos [⟨first, text.length⟩]

/-- The byte is in no comment. -/
def Outside (spans : List Span) (i : Nat) : Prop :=
  ∀ span ∈ spans, ¬ (span.first ≤ i ∧ i < span.past)

instance (spans : List Span) : DecidablePred (Outside spans) := fun i ↦
  inferInstanceAs (Decidable (∀ span ∈ spans, ¬ (span.first ≤ i ∧ i < span.past)))

/-- The bytes outside comments, each with its place. -/
def keptBytes (text : List UInt8) (spans : List Span) : List (UInt8 × Nat) :=
  text.zipIdx.filter fun b ↦ Outside spans b.2

/-! ### Characters as bytes -/

def encode (cs : List Char) : List UInt8 :=
  cs.flatMap String.utf8EncodeChar

theorem bytes_eq_encode (s : String) : bytes s = encode s.toList := by
  rw [bytes, String.toUTF8_eq_toByteArray, ← String.utf8Encode_toList, List.utf8Encode,
    List.toList_data_toByteArray, encode]

theorem encode_cons (c : Char) (cs : List Char) :
    encode (c :: cs) = String.utf8EncodeChar c ++ encode cs :=
  List.flatMap_cons

theorem encode_append (cs more : List Char) : encode (cs ++ more) = encode cs ++ encode more :=
  List.flatMap_append

theorem length_encode (cs : List Char) : (encode cs).length = String.utf8Len cs := by
  induction cs with
  | nil => rfl
  | cons c cs ih =>
    rw [encode_cons, List.length_append, ih, String.length_utf8EncodeChar, String.utf8Len_cons,
      Nat.add_comm]

theorem drop_encode (front cs : List Char) (k : Nat) :
    (encode (front ++ cs)).drop (String.utf8Len front + k) = (encode cs).drop k := by
  rw [encode_append, ← length_encode, List.drop_append]
  simp

/-- Bytes that begin with a character begin with no other one. -/
theorem char_eq_of_append_eq {a c : Char} {as cs : List UInt8}
    (h : String.utf8EncodeChar a ++ as = String.utf8EncodeChar c ++ cs) : a = c := by
  have hdecode := congrArg (fun l : List UInt8 ↦ l.toByteArray.utf8DecodeChar? 0) h
  simpa only [List.toByteArray_append, ByteArray.utf8DecodeChar?_utf8EncodeChar_append,
    Option.some.injEq] using hdecode

theorem encode_prefix_iff {mark cs : List Char} : encode mark <+: encode cs ↔ mark <+: cs := by
  constructor
  · intro h
    induction mark generalizing cs with
    | nil => exact List.nil_prefix
    | cons a mark ih =>
      obtain ⟨after, hafter⟩ := h
      cases cs with
      | nil =>
        rw [encode_cons, List.append_assoc] at hafter
        exact absurd (List.append_eq_nil_iff.mp hafter).1 String.utf8EncodeChar_ne_nil
      | cons c cs =>
        rw [encode_cons, encode_cons, List.append_assoc] at hafter
        obtain rfl := char_eq_of_append_eq hafter
        exact List.cons_prefix_cons.mpr ⟨rfl, ih ⟨after, List.append_cancel_left hafter⟩⟩
  · rintro ⟨after, rfl⟩
    rw [encode_append]
    exact List.prefix_append _ _

/-- A mark does not stand within a character. -/
theorem not_standsAt_inside {mark : List Char} (hmark : mark ≠ []) {c : Char} (cs : List Char)
    {k : Nat} (hpos : 0 < k) (hlt : k < c.utf8Size) :
    ¬ StandsAt (encode mark) (encode (c :: cs)) k := by
  obtain ⟨a, mark, rfl⟩ := List.exists_cons_of_ne_nil hmark
  intro hstands
  have hsize : k < (String.utf8EncodeChar c).length := by rwa [String.length_utf8EncodeChar]
  have hfirst : 0 < (String.utf8EncodeChar a).length := by
    rw [String.length_utf8EncodeChar]
    exact a.utf8Size_pos
  have hbyte : (String.utf8EncodeChar a)[0] = (String.utf8EncodeChar c)[k] := by
    have hhead := List.prefix_iff_getElem?.mp hstands 0 (by
      rw [encode_cons, List.length_append]
      exact Nat.add_pos_left hfirst _)
    rw [List.getElem?_drop, Nat.add_zero] at hhead
    simp only [encode_cons, List.getElem?_append_left hsize, List.getElem_append_left hfirst,
      List.getElem?_eq_getElem hsize, Option.some.injEq] at hhead
    exact hhead.symm
  -- Its first byte begins a character, and this one is inside of one.
  have hbegins : (String.utf8EncodeChar a)[0].IsUTF8FirstByte :=
    UInt8.isUTF8FirstByte_getElem_utf8EncodeChar.mpr rfl
  rw [hbyte] at hbegins
  exact hpos.ne' (UInt8.isUTF8FirstByte_getElem_utf8EncodeChar.mp hbegins)

/-- A mark that begins at no character of a text begins at none of its bytes. -/
theorem not_standsAt_within {mark body rest : List Char} (hmark : mark ≠ [])
    (h : ∀ front back, body = front ++ back → back ≠ [] → ¬ mark <+: back ++ rest) {k : Nat}
    (hk : k < String.utf8Len body) : ¬ StandsAt (encode mark) (encode (body ++ rest)) k := by
  induction body generalizing k with
  | nil => exact absurd hk (Nat.not_lt_zero k)
  | cons c body ih =>
    by_cases hlt : k < c.utf8Size
    · rcases Nat.eq_zero_or_pos k with rfl | hpos
      · rw [StandsAt, List.drop_zero, encode_prefix_iff]
        exact h [] (c :: body) rfl (List.cons_ne_nil _ _)
      · exact not_standsAt_inside hmark _ hpos hlt
    · obtain ⟨k, rfl⟩ := Nat.exists_eq_add_of_le (Nat.le_of_not_lt hlt)
      rw [String.utf8Len_cons, Nat.add_comm, Nat.add_lt_add_iff_right] at hk
      have hdrop := drop_encode [c] (body ++ rest) k
      rw [utf8Len_singleton, List.singleton_append] at hdrop
      rw [StandsAt, List.cons_append, hdrop]
      refine ih (fun front back hbody ↦ h (c :: front) back ?_) hk
      rw [hbody, List.cons_append]

/-- A mark behind a text in which it does not begin. -/
theorem firstFrom_encode {mark : List Char} (hmark : mark ≠ []) (front : List Char)
    {body : List Char} (rest : List Char)
    (h : ∀ start back, body = start ++ back → back ≠ [] → ¬ mark <+: back ++ (mark ++ rest)) :
    FirstFrom (encode mark) (encode (front ++ (body ++ (mark ++ rest)))) (String.utf8Len front)
      (String.utf8Len front + String.utf8Len body) where
  le := Nat.le_add_right _ _
  stands := by
    have hdrop := drop_encode body (mark ++ rest) 0
    rw [Nat.add_zero] at hdrop
    rw [StandsAt, drop_encode, hdrop, List.drop_zero, encode_prefix_iff]
    exact List.prefix_append _ _
  first j hj hlt := by
    obtain ⟨k, rfl⟩ := Nat.exists_eq_add_of_le hj
    rw [StandsAt, drop_encode]
    exact not_standsAt_within hmark h (Nat.lt_of_add_lt_add_left hlt)

/-- A mark that begins nowhere in the rest of a text. -/
theorem not_standsAt_of_free {mark front body : List Char} (hmark : mark ≠ [])
    (h : ∀ start back, body = start ++ back → ¬ mark <+: back) {i : Nat}
    (hi : String.utf8Len front ≤ i) : ¬ StandsAt (encode mark) (encode (front ++ body)) i := by
  obtain ⟨k, rfl⟩ := Nat.exists_eq_add_of_le hi
  rw [StandsAt, drop_encode]
  by_cases hk : k < String.utf8Len body
  · rw [← List.append_nil body]
    refine not_standsAt_within hmark (fun start back hbody _ ↦ ?_) hk
    rw [List.append_nil]
    exact h start back hbody
  · rw [List.drop_eq_nil_of_le (by rw [length_encode]; exact Nat.le_of_not_lt hk)]
    change ¬ encode mark <+: encode []
    rw [encode_prefix_iff, List.prefix_nil]
    exact hmark

/-! ### The comments of a cut -/

/-- The comments among the parts, if these begin at this byte. -/
def spans (offset : Nat) : List Part → List Span
  | [] => []
  | .kept c :: parts => spans (offset + c.utf8Size) parts
  | .comment cs :: parts =>
    ⟨offset, offset + String.utf8Len cs⟩ :: spans (offset + String.utf8Len cs) parts

theorem FirstFrom.unique {mark text : List UInt8} {start i j : Nat}
    (hi : FirstFrom mark text start i) (hj : FirstFrom mark text start j) : i = j := by
  rcases Nat.lt_trichotomy i j with hlt | heq | hlt
  · exact absurd hi.stands (hj.first i hi.le hlt)
  · exact heq
  · exact absurd hj.stands (hi.first j hj.le hlt)

theorem Comments.unique {text : List UInt8} {pos : Nat} {spans others : List Span}
    (h : Comments text pos spans) (hothers : Comments text pos others) : others = spans := by
  induction h generalizing others with
  | none hnone =>
    cases hothers with
    | none => rfl
    | closed hfirst => exact absurd hfirst.stands (hnone _ hfirst.le)
    | unclosed hfirst => exact absurd hfirst.stands (hnone _ hfirst.le)
  | closed hfirst hstop h ih =>
    cases hothers with
    | none hnone => exact absurd hfirst.stands (hnone _ hfirst.le)
    | closed hfirst' hstop' h' =>
      obtain rfl := hfirst.unique hfirst'
      obtain rfl := hstop.unique hstop'
      rw [ih h']
    | unclosed hfirst' hstop' =>
      obtain rfl := hfirst.unique hfirst'
      exact absurd hstop.stands (hstop' _ hstop.le)
  | unclosed hfirst hstop =>
    cases hothers with
    | none hnone => exact absurd hfirst.stands (hnone _ hfirst.le)
    | closed hfirst' hstop' h' =>
      obtain rfl := hfirst.unique hfirst'
      exact absurd hstop'.stands (hstop _ hstop'.le)
    | unclosed hfirst' =>
      obtain rfl := hfirst.unique hfirst'
      rfl

/-- Bytes at which the mark does not stand may come before. -/
theorem FirstFrom.of_later {mark text : List UInt8} {start later i : Nat} (hle : start ≤ later)
    (hfree : ∀ j, start ≤ j → j < later → ¬ StandsAt mark text j)
    (h : FirstFrom mark text later i) : FirstFrom mark text start i where
  le := Nat.le_trans hle h.le
  stands := h.stands
  first j hj hlt := by
    rcases Nat.lt_or_ge j later with hbefore | hbehind
    · exact hfree j hj hbefore
    · exact h.first j hbehind hlt

theorem Comments.of_later {text : List UInt8} {pos later : Nat} {spans : List Span}
    (hle : pos ≤ later) (hfree : ∀ i, pos ≤ i → i < later → ¬ StandsAt (bytes "<!--") text i)
    (h : Comments text later spans) : Comments text pos spans := by
  cases h with
  | none hnone =>
    refine .none fun i hi ↦ ?_
    rcases Nat.lt_or_ge i later with hbefore | hbehind
    · exact hfree i hi hbefore
    · exact hnone i hbehind
  | closed hfirst hstop h => exact .closed (hfirst.of_later hle hfree) hstop h
  | unclosed hfirst hstop => exact .unclosed (hfirst.of_later hle hfree) hstop

theorem bytes_opening : bytes "<!--" = encode opening :=
  bytes_eq_encode "<!--"

theorem bytes_closing : bytes "-->" = encode closing :=
  bytes_eq_encode "-->"

theorem firstFrom_opening (front inside : List Char) :
    FirstFrom (bytes "<!--") (encode (front ++ (opening ++ inside))) (String.utf8Len front)
      (String.utf8Len front) := by
  rw [bytes_opening]
  exact firstFrom_encode (List.cons_ne_nil _ _) front inside fun start back hnil hne ↦
    absurd (List.append_eq_nil_iff.mp hnil.symm).2 hne

theorem utf8Len_append_opening (front : List Char) :
    String.utf8Len (front ++ opening) = String.utf8Len front + 4 :=
  String.utf8Len_append front opening

theorem firstFrom_closing (front : List Char) {body : List Char} (rest : List Char)
    (h : ¬ closing <:+: body) :
    FirstFrom (bytes "-->") (encode (front ++ (opening ++ (body ++ (closing ++ rest)))))
      (String.utf8Len front + 4) (String.utf8Len front + 4 + String.utf8Len body) := by
  rw [bytes_closing, ← List.append_assoc, ← utf8Len_append_opening]
  refine firstFrom_encode (List.cons_ne_nil _ _) _ rest fun start back hbody hne ↦ ?_
  refine unbordered_closing.not_prefix (fun hmark ↦ h ?_) hne rest
  rw [hbody]
  exact hmark.isInfix.trans (List.suffix_append start back).isInfix

/-- The comments of the cut are the comments of the bytes. -/
theorem Cut.comments {cs : List Char} {parts : List Part} (h : Cut cs parts)
    (front : List Char) :
    Comments (encode (front ++ cs)) (String.utf8Len front)
      (spans (String.utf8Len front) parts) := by
  have hopening : opening ≠ [] := List.cons_ne_nil _ _
  induction h generalizing front with
  | nil =>
    refine .none fun i hi ↦ ?_
    rw [bytes_opening]
    refine not_standsAt_of_free hopening (fun start back hnil hmark ↦ ?_) hi
    rw [(List.append_eq_nil_iff.mp hnil.symm).2] at hmark
    exact hopening (List.prefix_nil.mp hmark)
  | @kept c cs parts hmark h ih =>
    have hrest := ih (front ++ [c])
    rw [String.utf8Len_append, utf8Len_singleton, List.append_assoc] at hrest
    refine hrest.of_later (Nat.le_add_right _ _) fun i hi hlt ↦ ?_
    have hfree : ∀ start back, [c] = start ++ back → back ≠ [] → ¬ opening <+: back ++ cs := by
      intro start back hc hne
      rcases List.singleton_eq_append_iff.mp hc with ⟨-, rfl⟩ | ⟨-, rfl⟩
      · exact hmark
      · exact absurd rfl hne
    obtain ⟨k, rfl⟩ := Nat.exists_eq_add_of_le hi
    rw [bytes_opening, StandsAt, drop_encode]
    rw [← utf8Len_singleton] at hlt
    exact not_standsAt_within hopening hfree (Nat.lt_of_add_lt_add_left hlt)
  | @closed body rest parts hbody h ih =>
    have hpast : String.utf8Len front + String.utf8Len (opening ++ (body ++ closing)) =
        String.utf8Len front + 4 + String.utf8Len body + 3 := by
      rw [← String.utf8Len_append, ← List.append_assoc, String.utf8Len_append,
        utf8Len_append_opening, String.utf8Len_append body, ← Nat.add_assoc]
      rfl
    have hrest := ih (front ++ (opening ++ (body ++ closing)))
    rw [String.utf8Len_append] at hrest
    simp only [List.append_assoc] at hrest
    rw [spans, hpast]
    exact .closed (firstFrom_opening _ _) (firstFrom_closing front rest hbody) (hpast ▸ hrest)
  | @unclosed body hbody =>
    have hstop : ∀ i, String.utf8Len front + 4 ≤ i →
        ¬ StandsAt (bytes "-->") (encode (front ++ (opening ++ body))) i := by
      intro i hi
      rw [bytes_closing, ← List.append_assoc]
      rw [← utf8Len_append_opening] at hi
      refine not_standsAt_of_free (List.cons_ne_nil _ _) (fun start back hparts hmark ↦ hbody ?_) hi
      rw [hparts]
      exact hmark.isInfix.trans (List.suffix_append start back).isInfix
    have hunclosed := Comments.unclosed (firstFrom_opening front body) hstop
    rw [length_encode, String.utf8Len_append] at hunclosed
    exact hunclosed

/-! ### The bytes outside comments -/

theorem outside_cons {span : Span} {others : List Span} {i : Nat} :
    Outside (span :: others) i ↔ ¬ (span.first ≤ i ∧ i < span.past) ∧ Outside others i :=
  List.forall_mem_cons

theorem le_first_of_mem_spans {offset : Nat} {parts : List Part} {span : Span}
    (h : span ∈ spans offset parts) : offset ≤ span.first := by
  induction parts generalizing offset with
  | nil => exact absurd h List.not_mem_nil
  | cons part parts ih =>
    cases part with
    | kept c => exact Nat.le_trans (Nat.le_add_right _ _) (ih h)
    | comment cs =>
      rcases List.mem_cons.mp h with rfl | h
      · exact Nat.le_refl _
      · exact Nat.le_trans (Nat.le_add_right _ _) (ih h)

/-- The bytes of the parts that no comment holds are those of the kept characters, in their
places. -/
theorem filter_zipIdx_parts (offset : Nat) (parts : List Part) :
    ((encode (text parts)).zipIdx offset).filter (fun b ↦ Outside (spans offset parts) b.2) =
      (encode (kept parts)).zip (bytePlaces offset parts) := by
  induction parts generalizing offset with
  | nil => rfl
  | cons part parts ih =>
    rw [text_cons, encode_append, List.zipIdx_append, List.filter_append, length_encode]
    cases part with
    | kept c =>
      have hchar : encode (Part.kept c).chars = String.utf8EncodeChar c := List.append_nil _
      have hbefore : ((String.utf8EncodeChar c).zipIdx offset).filter
          (fun b ↦ Outside (spans offset (.kept c :: parts)) b.2) =
            (String.utf8EncodeChar c).zipIdx offset := by
        refine List.filter_eq_self.mpr fun b hb ↦ decide_eq_true fun span hspan hin ↦ ?_
        have hlt := (List.mem_zipIdx hb).2.1
        rw [String.length_utf8EncodeChar] at hlt
        have hle : offset + c.utf8Size ≤ span.first := le_first_of_mem_spans hspan
        omega
      rw [hchar, hbefore, utf8Len_chars_kept]
      change _ ++ ((encode (text parts)).zipIdx (offset + c.utf8Size)).filter
        (fun b ↦ Outside (spans (offset + c.utf8Size) parts) b.2) =
          (encode (c :: kept parts)).zip (bytePlaces offset (.kept c :: parts))
      rw [ih, encode_cons, bytePlaces, List.zip_append (by simp [String.length_utf8EncodeChar]),
        List.zipIdx_eq_zip_range', String.length_utf8EncodeChar]
    | comment cs =>
      have hinside : ((encode cs).zipIdx offset).filter
          (fun b ↦ Outside (spans offset (.comment cs :: parts)) b.2) = [] := by
        refine List.filter_eq_nil_iff.mpr fun b hb houtside ↦ ?_
        obtain ⟨hle, hlt, -⟩ := List.mem_zipIdx hb
        rw [length_encode] at hlt
        exact of_decide_eq_true houtside _ List.mem_cons_self ⟨hle, hlt⟩
      have hbehind : ((encode (text parts)).zipIdx (offset + String.utf8Len cs)).filter
          (fun b ↦ Outside (spans offset (.comment cs :: parts)) b.2) =
            ((encode (text parts)).zipIdx (offset + String.utf8Len cs)).filter
              (fun b ↦ Outside (spans (offset + String.utf8Len cs) parts) b.2) := by
        refine List.filter_congr fun b hb ↦ decide_eq_decide.mpr ?_
        have hle := (List.mem_zipIdx hb).1
        rw [spans, outside_cons]
        exact and_iff_right fun hin ↦ Nat.not_lt.mpr hle hin.2
      change ((encode cs).zipIdx offset).filter _ ++
        ((encode (text parts)).zipIdx (offset + String.utf8Len cs)).filter _ =
          (encode (kept parts)).zip (bytePlaces (offset + String.utf8Len cs) parts)
      rw [hinside, hbehind, ih, List.nil_append]

/-! ### Stripping -/

theorem length_bytes (s : String) : (bytes s).length = s.utf8ByteSize := by
  rw [bytes_eq_encode, length_encode, ← String.utf8ByteSize_ofList, String.ofList_toList]

/-- The bytes outside comments are those of the stripped text, each with the place that the
search finds for it. -/
theorem keptBytes_of_cut {input : String} {parts : List Part} (h : Cut input.toList parts) :
    keptBytes (bytes input) (spans 0 parts) =
      (bytes (stripped 0 input.toList).text).zip
        ((List.range (stripped 0 input.toList).text.utf8ByteSize).map
          (stripped 0 input.toList).originalOffset) := by
  have hholds := stripped_of_cut h 0
  rw [hholds.offsets, bytes_eq_encode (stripped 0 input.toList).text, hholds.toList_text,
    ← filter_zipIdx_parts, h.text_eq, ← bytes_eq_encode, keptBytes]

theorem mem_map_snd_keptBytes {text : List UInt8} {spans : List Span} {i : Nat} :
    i ∈ (keptBytes text spans).map Prod.snd ↔ i < text.length ∧ Outside spans i := by
  constructor
  · intro hi
    obtain ⟨b, hb, rfl⟩ := List.mem_map.mp hi
    obtain ⟨hmem, houtside⟩ := List.mem_filter.mp hb
    have hget := List.mem_zipIdx_iff_getElem?.mp hmem
    exact ⟨(List.getElem?_eq_some_iff.mp hget).1, of_decide_eq_true houtside⟩
  · rintro ⟨hlt, houtside⟩
    refine List.mem_map.mpr ⟨(text[i], i), List.mem_filter.mpr ⟨?_, decide_eq_true houtside⟩, rfl⟩
    exact List.mem_zipIdx_iff_getElem?.mpr (List.getElem?_eq_getElem hlt)

theorem pairwise_map_snd_keptBytes (text : List UInt8) (spans : List Span) :
    ((keptBytes text spans).map Prod.snd).Pairwise (· < ·) := by
  have hsublist : (keptBytes text spans).Sublist text.zipIdx := List.filter_sublist
  refine List.Pairwise.sublist (hsublist.map Prod.snd) ?_
  rw [List.zipIdx_map_snd]
  exact List.pairwise_lt_range'

/-- A byte of a text is at the beginning of a character as its value tells. -/
theorem isValid_iff_bytes {s : String} {q : Nat} (h : q < s.utf8ByteSize) :
    (⟨q⟩ : String.Pos.Raw).IsValid s ↔ ∃ b, (bytes s)[q]? = some b ∧ b.IsUTF8FirstByte := by
  have hsize : q < (bytes s).length := by rwa [length_bytes]
  have hbyte : (bytes s)[q] = s.getUTF8Byte ⟨q⟩ h := rfl
  have hend : (⟨q⟩ : String.Pos.Raw) ≠ s.rawEndPos := fun heq ↦
    absurd (congrArg String.Pos.Raw.byteIdx heq) (Nat.ne_of_lt h)
  rw [String.Pos.Raw.isValid_iff_isUTF8FirstByte, List.getElem?_eq_getElem hsize, hbyte]
  constructor
  · rintro (heq | ⟨_, hfirst⟩)
    · exact absurd heq hend
    · exact ⟨_, rfl, hfirst⟩
  · rintro ⟨b, hb, hfirst⟩
    exact .inr ⟨h, Option.some.inj hb ▸ hfirst⟩

/-- The text has the bytes outside these comments, and its offsets are their places. -/
structure Exact (input : String) (s : Stripped) (spans : List Span) : Prop where
  text : bytes s.text = (keptBytes (bytes input) spans).map Prod.fst
  offset : ∀ q < s.text.utf8ByteSize,
    (keptBytes (bytes input) spans)[q]?.map Prod.snd = some (s.originalOffset q)
  increasing : ∀ q r, q < r → r < s.text.utf8ByteSize →
    s.originalOffset q < s.originalOffset r
  hits : ∀ i, (∃ q < s.text.utf8ByteSize, s.originalOffset q = i) ↔
    i < input.utf8ByteSize ∧ Outside spans i
  boundary : ∀ q < s.text.utf8ByteSize, (⟨q⟩ : String.Pos.Raw).IsValid s.text ↔
    (⟨s.originalOffset q⟩ : String.Pos.Raw).IsValid input

theorem exact_of_keptBytes {input : String} {s : Stripped} {spans : List Span}
    (h : keptBytes (bytes input) spans =
      (bytes s.text).zip ((List.range s.text.utf8ByteSize).map s.originalOffset)) :
    Exact input s spans := by
  have hlength : (bytes s.text).length =
      ((List.range s.text.utf8ByteSize).map s.originalOffset).length := by
    rw [length_bytes, List.length_map, List.length_range]
  have htext : bytes s.text = (keptBytes (bytes input) spans).map Prod.fst := by
    rw [h, List.map_fst_zip hlength.le]
  have hplaces : (keptBytes (bytes input) spans).map Prod.snd =
      (List.range s.text.utf8ByteSize).map s.originalOffset := by
    rw [h, List.map_snd_zip hlength.ge]
  have hoffset : ∀ q < s.text.utf8ByteSize,
      (keptBytes (bytes input) spans)[q]?.map Prod.snd = some (s.originalOffset q) := by
    intro q hq
    rw [← List.getElem?_map, hplaces, List.getElem?_map, List.getElem?_range hq, Option.map_some]
  constructor
  case text => exact htext
  case offset => exact hoffset
  case increasing =>
    intro q r hlt hr
    have hpairwise := pairwise_map_snd_keptBytes (bytes input) spans
    rw [hplaces, List.pairwise_map] at hpairwise
    have hsorted := List.pairwise_iff_getElem.mp hpairwise q r
    simp only [List.length_range, List.getElem_range] at hsorted
    exact hsorted (Nat.lt_trans hlt hr) hr hlt
  case hits =>
    intro i
    rw [← length_bytes input, ← mem_map_snd_keptBytes, hplaces, List.mem_map]
    simp only [List.mem_range]
  case boundary =>
    -- Both bytes are the same one, and it alone tells whether a character begins there.
    intro q hq
    obtain ⟨⟨b, i⟩, hb, hi⟩ := Option.map_eq_some_iff.mp (hoffset q hq)
    have hto : (bytes s.text)[q]? = some b := by rw [htext, List.getElem?_map, hb, Option.map_some]
    have hfrom : (bytes input)[s.originalOffset q]? = some b := by
      rw [← hi]
      exact List.mem_zipIdx_iff_getElem?.mp (List.mem_filter.mp (List.mem_of_getElem? hb)).1
    have hlt := (List.getElem?_eq_some_iff.mp hfrom).1
    rw [length_bytes] at hlt
    rw [isValid_iff_bytes hq, isValid_iff_bytes hlt, hto, hfrom]

/-- A document has its comments read in one way, and stripping it keeps the bytes outside
them and knows where each stood. Its rounds end: some round is the first to leave nothing, and what
has been kept by then is the stripped text. -/
theorem stripped_exact (input : String) :
    ∃ spans, Comments (bytes input) 0 spans ∧
      (∀ others, Comments (bytes input) 0 others → others = spans) ∧
      Exact input (stripped 0 input.toList) spans ∧
      ∃ n ≤ input.length,
        (Stripping.round^[n] ⟨.empty, 0, input.toList⟩).rest = [] ∧
        (∀ m < n, (Stripping.round^[m] ⟨.empty, 0, input.toList⟩).rest ≠ []) ∧
        stripped 0 input.toList = (Stripping.round^[n] ⟨.empty, 0, input.toList⟩).done := by
  obtain ⟨parts, hparts⟩ := exists_cut input.toList
  have hcomments := hparts.comments []
  rw [List.nil_append, ← bytes_eq_encode, String.utf8Len_nil] at hcomments
  refine ⟨spans 0 parts, hcomments, fun others hothers ↦ hcomments.unique hothers,
    exact_of_keptBytes (keptBytes_of_cut hparts), ?_⟩
  rw [← String.length_toList]
  exact Stripping.exists_iterate_round ⟨.empty, 0, input.toList⟩

-- What is left may spell an opening mark anew; it is not looked at again.
example : (stripped 0 "<!<!-->-->--a<!---->b".toList).text = "<!--ab" := by decide +kernel

end AgentMarkup.Comment
