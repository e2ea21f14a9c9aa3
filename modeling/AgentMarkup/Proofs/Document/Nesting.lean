import AgentMarkup.Proofs.Validation.Guarantee

/-!
Faults of nesting. Read as brackets, a tag that does not close itself opens its name and a
closing tag closes its name (`brackets`). The builder repairs nothing exactly if this word is
balanced with matching names, a notion without a stack (`Balanced`). In general each closing
tag is held against the innermost element open before it, and the elements still open at the end
are listed from the innermost out (`issuesOf`, `BuildState.issues_run`). Main statement:
`issues_of_build`.
-/

set_option autoImplicit false
set_option relaxedAutoImplicit false

namespace AgentMarkup

def Issue.isUnexpectedClose : Issue → Bool
  | .unexpectedClose _ _ => true
  | _ => false

def Issue.isUnclosed : Issue → Bool
  | .unclosed _ _ => true
  | _ => false

namespace Document

/-! ### Tokens as brackets -/

/-- The name on a tag and the place where the tag stands. -/
structure TagName where
  name : String
  position : Nat

inductive Bracket where
  | opens (tag : TagName)
  | closes (tag : TagName)

namespace Bracket

def isOpening : Bracket → Bool
  | .opens _ => true
  | .closes _ => false

def isClosing : Bracket → Bool
  | .opens _ => false
  | .closes _ => true

end Bracket

/-- The bracket word of tokens. Tags that close themselves have no part in it. -/
def brackets : List Token → List Bracket
  | [] => []
  | t :: rest =>
    match t.kind with
    | .tagOpen =>
      if ClosesItself rest then brackets rest
      else .opens ⟨t.value, t.position⟩ :: brackets rest
    | .tagClose => .closes ⟨t.value, t.position⟩ :: brackets rest
    | .text | .attrName | .attrValue | .selfClose | .tagEnd => brackets rest

/-- Words in which every bracket has its partner, and partners fit. -/
inductive Matched (fits : TagName → TagName → Prop) : List Bracket → Prop
  | nil : Matched fits []
  | pair {opening closing : TagName} {inner after : List Bracket} (hfits : fits opening closing)
    (hinner : Matched fits inner) (hafter : Matched fits after) :
    Matched fits (.opens opening :: (inner ++ .closes closing :: after))

/-- Words in which every bracket has its partner, of the same name. -/
abbrev Balanced (word : List Bracket) : Prop :=
  Matched (fun opening closing ↦ opening.name = closing.name) word

/-- Words in which every bracket has its partner, whatever their names. -/
abbrev Paired (word : List Bracket) : Prop :=
  Matched (fun _ _ ↦ True) word

/-- The elements open after a word, innermost first, if these are open before it. A closing
bracket closes the innermost one whatever its name; `openAfter_eq_cons_iff` says the same
without a stack. -/
def openAfter (opened : List TagName) : List Bracket → List TagName
  | [] => opened
  | .opens tag :: word => openAfter (tag :: opened) word
  | .closes _ :: word => openAfter opened.tail word

/-- The closing brackets of a word, each with the element that it closes: the innermost one
open before it, if any is open. -/
def closings (opened : List TagName) : List Bracket → List (Option TagName × TagName)
  | [] => []
  | .opens tag :: word => closings (tag :: opened) word
  | .closes tag :: word => (opened.head?, tag) :: closings opened.tail word

/-- What there is to say of a closing tag and the element that it closes. -/
def closingIssue? : Option TagName × TagName → Option Issue
  | (none, found) => some (.unexpectedClose found.name found.position)
  | (some innermost, found) =>
    if innermost.name = found.name then none
    else some (.mismatchedClose innermost.name found.name found.position)

def unclosedIssue (tag : TagName) : Issue :=
  .unclosed tag.name tag.position

/-- The faults of a word that is read while these elements are open. -/
def issuesOf (opened : List TagName) (word : List Bracket) : List Issue :=
  (closings opened word).filterMap closingIssue? ++ (openAfter opened word).map unclosedIssue

theorem issuesOf_nil (opened : List TagName) : issuesOf opened [] = opened.map unclosedIssue := rfl

theorem issuesOf_opens (opened : List TagName) (tag : TagName) (word : List Bracket) :
    issuesOf opened (.opens tag :: word) = issuesOf (tag :: opened) word := rfl

theorem issuesOf_closes (opened : List TagName) (tag : TagName) (word : List Bracket) :
    issuesOf opened (.closes tag :: word) =
      (closingIssue? (opened.head?, tag)).toList ++ issuesOf opened.tail word := by
  rw [issuesOf, closings, openAfter, List.filterMap_cons]
  cases closingIssue? (opened.head?, tag) <;> rfl

/-! ### Open elements -/

theorem openAfter_append (opened : List TagName) (word rest : List Bracket) :
    openAfter opened (word ++ rest) = openAfter (openAfter opened word) rest := by
  induction word generalizing opened with
  | nil => rfl
  | cons bracket word ih => cases bracket <;> exact ih _

theorem Matched.append {fits : TagName → TagName → Prop} {word rest : List Bracket}
    (h : Matched fits word) (hrest : Matched fits rest) : Matched fits (word ++ rest) := by
  induction h with
  | nil => exact hrest
  | pair hfits hinner _ _ ihafter =>
    rw [List.cons_append, List.append_assoc]
    exact .pair hfits hinner ihafter

/-- What is open before a matched word is open after it. -/
theorem Matched.openAfter_eq {fits : TagName → TagName → Prop} {word : List Bracket}
    (h : Matched fits word) (opened : List TagName) : openAfter opened word = opened := by
  induction h generalizing opened with
  | nil => rfl
  | pair _ _ _ ihinner ihafter =>
    rw [openAfter, openAfter_append, ihinner, openAfter, List.tail_cons, ihafter]

/-- An element is the innermost one open if all that was opened after it is closed, whatever the
names, and the elements around it are those that were open before it. -/
theorem openAfter_eq_cons_iff {word : List Bracket} {tag : TagName} {outer : List TagName} :
    openAfter [] word = tag :: outer ↔ ∃ before since,
      word = before ++ .opens tag :: since ∧ Paired since ∧ openAfter [] before = outer := by
  constructor
  · intro h
    induction hlength : word.length using Nat.strong_induction_on generalizing word tag outer with
    | _ n ih =>
      subst hlength
      rcases List.eq_nil_or_concat word with rfl | ⟨front, last, rfl⟩
      · simp [openAfter] at h
      rw [List.concat_eq_append, openAfter_append] at h
      cases last with
      | opens last =>
        obtain ⟨rfl, rfl⟩ := List.cons.inj h
        exact ⟨front, [], by simp, .nil, rfl⟩
      | closes last =>
        rw [openAfter, openAfter] at h
        cases hfront : openAfter [] front with
        | nil => simp [hfront] at h
        | cons closed others =>
          rw [hfront, List.tail_cons] at h
          obtain ⟨middle, inner, rfl, hinner, hmiddle⟩ := ih front.length (by simp) hfront rfl
          rw [h] at hmiddle
          obtain ⟨before, since, rfl, hsince, hbefore⟩ := ih middle.length (by simp) hmiddle rfl
          refine ⟨before, since ++ .opens closed :: (inner ++ [.closes last]), by simp, ?_, hbefore⟩
          exact hsince.append (.pair trivial hinner .nil)
  · rintro ⟨before, since, rfl, hsince, rfl⟩
    rw [openAfter_append, openAfter, hsince.openAfter_eq]

/-! ### Balanced words -/

/-- A balanced word leaves no trace, whatever is open before it and follows it. -/
theorem Matched.issuesOf_append {word : List Bracket} (h : Balanced word)
    (opened : List TagName) (rest : List Bracket) :
    issuesOf opened (word ++ rest) = issuesOf opened rest := by
  induction h generalizing opened rest with
  | nil => rfl
  | @pair opening closing inner after hname hinner hafter ihinner ihafter =>
    have hpartner : closingIssue? (some opening, closing) = none := if_pos hname
    rw [List.cons_append, List.append_assoc, List.cons_append, issuesOf_opens, ihinner,
      issuesOf_closes, List.head?_cons, hpartner, List.tail_cons, ihafter]
    rfl

/-- Words that close these elements, innermost first and by their names, and are balanced in
between. -/
inductive ClosesAll : List TagName → List Bracket → Prop
  | nil {word : List Bracket} (h : Balanced word) : ClosesAll [] word
  | cons {tag closing : TagName} {opened : List TagName} {inner after : List Bracket}
    (hname : tag.name = closing.name) (hinner : Balanced inner) (h : ClosesAll opened after) :
    ClosesAll (tag :: opened) (inner ++ .closes closing :: after)

/-- A matching pair may stand before such a word. -/
theorem ClosesAll.pair {opened : List TagName} {inner after : List Bracket}
    {opening closing : TagName} (h : ClosesAll opened after)
    (hname : opening.name = closing.name) (hinner : Balanced inner) :
    ClosesAll opened (.opens opening :: (inner ++ .closes closing :: after)) := by
  cases h with
  | nil hafter => exact .nil (.pair hname hinner hafter)
  | cons hnext hbetween hafter =>
    have hcloses := ClosesAll.cons hnext (.pair hname hinner hbetween) hafter
    rw [List.cons_append, List.append_assoc, List.cons_append] at hcloses
    exact hcloses

/-- Where nothing is at fault, all that is open gets closed by its name. -/
theorem closesAll_of_issuesOf_eq_nil {opened : List TagName} {word : List Bracket}
    (h : issuesOf opened word = []) : ClosesAll opened word := by
  induction word generalizing opened with
  | nil =>
    rw [issuesOf_nil, List.map_eq_nil_iff] at h
    rw [h]
    exact .nil .nil
  | cons bracket word ih =>
    cases bracket with
    | opens tag =>
      cases ih h with
      | cons hname hinner hafter => exact hafter.pair hname hinner
    | closes tag =>
      rw [issuesOf_closes, List.append_eq_nil_iff] at h
      obtain ⟨hclosing, hrest⟩ := h
      cases opened with
      | nil => simp [closingIssue?] at hclosing
      | cons innermost opened =>
        have hname : innermost.name = tag.name := by
          by_contra hne
          simp [closingIssue?, hne] at hclosing
        exact .cons hname .nil (ih hrest)

theorem issuesOf_eq_nil_iff_balanced (word : List Bracket) :
    issuesOf [] word = [] ↔ Balanced word := by
  constructor
  · intro h
    cases closesAll_of_issuesOf_eq_nil h with
    | nil hword => exact hword
  · intro h
    have hword := Matched.issuesOf_append h [] []
    rwa [List.append_nil] at hword

/-! ### Counting brackets -/

/-- Each element that is open at some time gets closed or is left open. -/
theorem countP_isOpening (opened : List TagName) (word : List Bracket) :
    word.countP Bracket.isOpening + opened.length =
      (closings opened word).countP (·.1.isSome) + (openAfter opened word).length := by
  induction word generalizing opened with
  | nil => simp [closings, openAfter]
  | cons bracket word ih =>
    cases bracket with
    | opens tag =>
      have := ih (tag :: opened)
      simp only [closings, openAfter, List.countP_cons, Bracket.isOpening, List.length_cons,
        if_true] at this ⊢
      omega
    | closes tag =>
      have := ih opened.tail
      cases opened <;>
      · simp [closings, openAfter, Bracket.isOpening] at this ⊢
        omega

theorem countP_isClosing (opened : List TagName) (word : List Bracket) :
    word.countP Bracket.isClosing = (closings opened word).length := by
  induction word generalizing opened with
  | nil => rfl
  | cons bracket word ih =>
    cases bracket with
    | opens tag => exact (List.countP_cons_of_neg (by simp [Bracket.isClosing])).trans (ih _)
    | closes tag =>
      rw [List.countP_cons_of_pos rfl, ih opened.tail]
      rfl

/-- The elements left open are the ones reported as unclosed. -/
theorem countP_isUnclosed (opened : List TagName) (word : List Bracket) :
    (issuesOf opened word).countP Issue.isUnclosed = (openAfter opened word).length := by
  have hclosings :
      ((closings opened word).filterMap closingIssue?).countP Issue.isUnclosed = 0 := by
    rw [List.countP_eq_zero]
    intro issue hissue
    obtain ⟨⟨innermost, found⟩, -, heq⟩ := List.mem_filterMap.mp hissue
    cases innermost with
    | none =>
      simp only [closingIssue?, Option.some.injEq] at heq
      simp [← heq, Issue.isUnclosed]
    | some innermost =>
      simp only [closingIssue?] at heq
      split_ifs at heq
      simp [← Option.some_inj.mp heq, Issue.isUnclosed]
  have hopen : ((openAfter opened word).map unclosedIssue).countP Issue.isUnclosed =
      (openAfter opened word).length := by
    rw [List.countP_map]
    exact List.countP_eq_length.mpr fun _ _ ↦ rfl
  rw [issuesOf, List.countP_append, hclosings, hopen, Nat.zero_add]

/-- The closing tags that find nothing open are the ones reported as unexpected. -/
theorem countP_isUnexpectedClose (opened : List TagName) (word : List Bracket) :
    (issuesOf opened word).countP Issue.isUnexpectedClose =
      (closings opened word).countP (·.1.isNone) := by
  have hopen : ((openAfter opened word).map unclosedIssue).countP Issue.isUnexpectedClose = 0 := by
    rw [List.countP_map]
    exact List.countP_eq_zero.mpr fun _ _ ↦ by simp [unclosedIssue, Issue.isUnexpectedClose]
  rw [issuesOf, List.countP_append, hopen, Nat.add_zero, List.countP_filterMap]
  refine List.countP_congr fun closing _ ↦ ?_
  obtain ⟨innermost, found⟩ := closing
  cases innermost with
  | none => simp [closingIssue?, Issue.isUnexpectedClose]
  | some innermost =>
    simp only [closingIssue?]
    split_ifs <;> simp [Issue.isUnexpectedClose]

/-! ### The builder -/

namespace BuildState

/-- The tags of the open elements, innermost first. -/
def openTags (s : BuildState) : List TagName :=
  s.frames.map fun f ↦ ⟨f.kind, f.position⟩

theorem openTags_append (s : BuildState) (n : Node) :
    (s.append n).openTags = s.openTags ∧ (s.append n).issues = s.issues := by
  obtain ⟨frames, finished, issues⟩ := s
  cases frames <;> exact ⟨rfl, rfl⟩

theorem openTags_openTag {limit : Nat} {s next : BuildState} {kind : String} {position : Nat}
    {rest : List Token} (h : s.openTag limit kind position rest = .ok next) :
    next.issues = s.issues ∧ next.openTags =
      if ClosesItself rest then s.openTags else ⟨kind, position⟩ :: s.openTags := by
  unfold openTag at h
  split at h
  · exact absurd h (by simp)
  · by_cases hself : isSelfClosed rest = true
    · rw [if_pos hself, Except.ok.injEq] at h
      subst h
      rw [if_pos ((isSelfClosed_iff rest).mp hself)]
      exact (openTags_append s _).symm
    · rw [if_neg hself, Except.ok.injEq] at h
      subst h
      rw [if_neg (mt (isSelfClosed_iff rest).mpr hself)]
      exact ⟨rfl, rfl⟩

theorem openTags_closeTag (s : BuildState) (found : String) (position : Nat) :
    (s.closeTag found position).openTags = s.openTags.tail ∧
      (s.closeTag found position).issues =
        (closingIssue? (s.openTags.head?, ⟨found, position⟩)).toList ++ s.issues := by
  obtain ⟨frames, finished, issues⟩ := s
  cases frames with
  | nil => exact ⟨rfl, rfl⟩
  | cons f frames =>
    obtain ⟨hopen, hissues⟩ := openTags_append ⟨frames, finished, issues⟩ f.close
    simp only [openTags, closeTag, List.map_cons, List.head?_cons, List.tail_cons, closingIssue?]
    split_ifs
    · exact ⟨hopen, hissues⟩
    · exact ⟨hopen, congrArg _ hissues⟩

/-- What a run notes is what it had noted, and then the faults of its brackets. -/
theorem issues_run {limit : Nat} {s final : BuildState} {tokens : List Token}
    (h : s.run limit tokens = .ok final) :
    final.finish.issues = s.issues.reverse ++ issuesOf s.openTags (brackets tokens) := by
  induction tokens generalizing s with
  | nil =>
    rw [run, Except.ok.injEq] at h
    subst h
    rw [brackets, issuesOf_nil, openTags, List.map_map]
    rfl
  | cons t rest ih =>
    obtain ⟨kind, value, position⟩ := t
    rw [run] at h
    cases hstep : s.step limit ⟨kind, value, position⟩ rest with
    | error e => simp [hstep] at h
    | ok next =>
      rw [hstep] at h
      have hrest := ih h
      cases kind with
      | tagOpen =>
        obtain ⟨hissues, hopen⟩ := openTags_openTag hstep
        rw [hrest, hissues, hopen, brackets]
        split_ifs <;> rfl
      | tagClose =>
        rw [step, Except.ok.injEq] at hstep
        obtain ⟨hopen, hissues⟩ := openTags_closeTag s value position
        rw [hstep] at hopen hissues
        rw [hrest, hissues, hopen, brackets, issuesOf_closes, List.reverse_append,
          List.append_assoc]
        cases closingIssue? (s.openTags.head?, ⟨value, position⟩) <;> rfl
      | text =>
        rw [step, Except.ok.injEq] at hstep
        obtain ⟨hopen, hissues⟩ := openTags_append s (.leaf value position)
        rw [hstep] at hopen hissues
        rw [hrest, hissues, hopen]
        rfl
      | attrName | attrValue | selfClose | tagEnd =>
        rw [step, Except.ok.injEq] at hstep
        subst hstep
        exact hrest

end BuildState

theorem issues_eq_issuesOf {maxDepth : Nat} {tokens : List Token} {built : Built}
    (h : build maxDepth tokens = .ok built) : built.issues = issuesOf [] (brackets tokens) := by
  rw [build] at h
  cases hrun : BuildState.start.run (max maxDepth 1) tokens with
  | error e => simp [hrun, Except.map] at h
  | ok final =>
    rw [hrun, Except.map, Except.ok.injEq] at h
    subst h
    exact BuildState.issues_run hrun

/-- The issues of a built tree are those of the bracket word of its tokens. There are none exactly
if the word is balanced, so that strict reading refuses exactly the other documents. In general
there is one for each closing tag, in their order, that does not carry the name of the innermost
element open before it, or finds nothing open, and then one for each element left open,
innermost first. Hence elements opened are elements closed or unclosed, and closing tags close
an element or are unexpected. -/
theorem issues_of_build {maxDepth : Nat} {tokens : List Token} {built : Built}
    (h : build maxDepth tokens = .ok built) :
    let word := brackets tokens
    let closed := (closings [] word).countP (·.1.isSome)
    (built.issues = [] ↔ Balanced word) ∧
    built.issues =
      (closings [] word).filterMap closingIssue? ++ (openAfter [] word).map unclosedIssue ∧
    word.countP Bracket.isOpening = closed + built.issues.countP Issue.isUnclosed ∧
    word.countP Bracket.isClosing = closed + built.issues.countP Issue.isUnexpectedClose ∧
    ∀ (input : String) (options : Parser.Options) (registry : Registry), input ≠ "" →
      tokenize input = tokens → options.maxDepth = maxDepth → options.strict = true →
      ((Parser.parse options registry input).tree = some built.root ↔
        Balanced word ∧ (options.validate = true → registry.validate built.root = [])) := by
  intro word closed
  have hissues := issues_eq_issuesOf h
  have hbalanced : built.issues = [] ↔ Balanced word := by
    rw [hissues]
    exact issuesOf_eq_nil_iff_balanced word
  have hopening := countP_isOpening [] word
  have hclosing := List.length_eq_countP_add_countP (fun c ↦ c.1.isSome) (l := closings [] word)
  have hnone : (closings [] word).countP (·.1.isNone) =
      (closings [] word).countP fun c ↦ decide ¬ c.1.isSome = true := by
    refine List.countP_congr fun closing _ ↦ ?_
    cases closing.1 <;> simp
  refine ⟨hbalanced, hissues, ?_, ?_, ?_⟩
  · rw [hissues, countP_isUnclosed]
    exact hopening
  · rw [hissues, countP_isUnexpectedClose, countP_isClosing [], hnone]
    exact hclosing
  · intro input options registry hinput htokens hdepth hstrict
    rw [Parser.tree_parse_eq_some_iff, htokens, hdepth, h]
    simp [hinput, hstrict, hbalanced]

/-- A closing tag that finds nothing open, one with another name, a tag that closes itself and
two elements left open. -/
theorem issues_of_build_mixed :
    let input := "</x><a><b></c><d/><e>"
    ∃ built, build 3 (tokenize input) = .ok built ∧
      built.issues = [.unexpectedClose "x" 0, .mismatchedClose "b" "c" 10, .unclosed "e" 18,
        .unclosed "a" 4] ∧
      ¬ Balanced (brackets (tokenize input)) ∧
      (brackets (tokenize input)).countP Bracket.isOpening = 1 + 2 ∧
      (brackets (tokenize input)).countP Bracket.isClosing = 1 + 1 ∧
      (Parser.parse ⟨false, true, 3⟩ .empty input).tree ≠ some built.root := by
  intro input
  have hread : (build 3 (tokenize input)).toOption.map Built.issues =
      some [.unexpectedClose "x" 0, .mismatchedClose "b" "c" 10, .unclosed "e" 18,
        .unclosed "a" 4] := by decide +kernel
  have hclosed : (closings [] (brackets (tokenize input))).countP (·.1.isSome) = 1 := by
    decide +kernel
  obtain ⟨built, hbuilt, hissues⟩ := Option.map_eq_some_iff.mp hread
  have hbuild : build 3 (tokenize input) = .ok built := by
    cases hresult : build 3 (tokenize input) with
    | error e => simp [hresult, Except.toOption] at hbuilt
    | ok other =>
      rw [hresult, Except.toOption, Option.some.injEq] at hbuilt
      rw [hbuilt]
  obtain ⟨hbalanced, -, hopening, hclosing, hstrict⟩ := issues_of_build hbuild
  rw [hclosed, hissues] at hopening hclosing
  have hfaulty : ¬ Balanced (brackets (tokenize input)) := by
    rw [← hbalanced, hissues]
    exact List.cons_ne_nil _ _
  refine ⟨built, hbuild, hissues, hfaulty, hopening, hclosing, ?_⟩
  rw [ne_eq, hstrict input ⟨false, true, 3⟩ .empty (by decide) rfl rfl rfl]
  exact fun hread ↦ hfaulty hread.1

end Document

end AgentMarkup
