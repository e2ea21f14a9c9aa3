import AgentMarkup.Proofs.Document.Linear
import AgentMarkup.Token.Scan

/-!
The depth limit. Without a limit the builder takes every token (`BuildState.advanceAll`), and the
depth of each node in the tree can be read off the tokens (`levels_whole`): it is one more than the
number of elements open where the tag or the text stands. A limit changes nothing but that the
builder stops at the first opening tag whose element would be deeper (`build_eq`). Main statement:
`depth_limit_exact`.
-/

set_option autoImplicit false
set_option relaxedAutoImplicit false

namespace AgentMarkup

namespace Node

/-- The token that a node is made of: an opening tag of its kind, or its text. -/
def token (n : Node) : Token :=
  match n.text with
  | none => ⟨.tagOpen, n.kind, n.position⟩
  | some text => ⟨.text, text, n.position⟩

theorem kind_token_eq_tagOpen_iff (n : Node) : n.token.kind = .tagOpen ↔ n.text = none := by
  unfold token
  cases n.text <;> simp

theorem outline_eq (depth : Nat) (n : Node) :
    n.outline depth = (depth, n) :: outlineAll (depth + 1) n.children := by
  cases n
  rw [outline]

theorem outlineAll_append (depth : Nat) (first second : List Node) :
    outlineAll depth (first ++ second) = outlineAll depth first ++ outlineAll depth second := by
  induction first with
  | nil => rfl
  | cons n rest ih => rw [List.cons_append, outlineAll, outlineAll, ih, List.append_assoc]

/-- The tokens of a forest in document order, each with the depth of its node. -/
def levels (depth : Nat) (nodes : List Node) : List (Nat × Token) :=
  (outlineAll depth nodes).map fun place ↦ (place.1, place.2.token)

theorem levels_nil (depth : Nat) : levels depth [] = [] := rfl

theorem levels_append (depth : Nat) (first second : List Node) :
    levels depth (first ++ second) = levels depth first ++ levels depth second := by
  rw [levels, outlineAll_append, List.map_append]
  rfl

theorem levels_singleton (depth : Nat) (n : Node) :
    levels depth [n] = (depth, n.token) :: levels (depth + 1) n.children := by
  rw [levels, outlineAll, outlineAll, List.append_nil, outline_eq]
  rfl

end Node

/-- The nodes below the root in document order, each with its depth below the root. -/
def Built.places (b : Built) : List (Nat × Node) :=
  Node.outlineAll 1 b.root.children

namespace Document

/-- Whether a token makes a node of its own. -/
def makesNode (t : Token) : Bool :=
  t.kind = .tagOpen ∨ t.kind = .text

/-- The elements open after a token that so many are open before and these tokens follow. -/
def openedAfter (opened : Nat) (t : Token) (rest : List Token) : Nat :=
  match t.kind with
  | .tagOpen => if ClosesItself rest then opened else opened + 1
  | .tagClose => opened - 1
  | .text | .attrName | .attrValue | .selfClose | .tagEnd => opened

/-- The opening tags and texts, each with the depth that its node has if so many elements are open
before the tokens. -/
def tokenLevels (opened : Nat) : List Token → List (Nat × Token)
  | [] => []
  | t :: rest =>
    (if makesNode t then [(opened + 1, t)] else []) ++
      tokenLevels (openedAfter opened t rest) rest

theorem map_snd_tokenLevels (opened : Nat) (tokens : List Token) :
    (tokenLevels opened tokens).map Prod.snd = tokens.filter makesNode := by
  induction tokens generalizing opened with
  | nil => rfl
  | cons t rest ih =>
    rw [tokenLevels, List.map_append, ih, List.filter_cons]
    split_ifs <;> rfl

/-- An opening tag opens at most one element, and no other token opens any. -/
theorem openedAfter_le (opened : Nat) (t : Token) (rest : List Token) :
    openedAfter opened t rest ≤ if t.kind = .tagOpen then opened + 1 else opened := by
  obtain ⟨kind, value, position⟩ := t
  cases kind with
  | tagOpen =>
    simp only [openedAfter, if_true]
    split_ifs <;> omega
  | tagClose => exact Nat.sub_le opened 1
  | text | attrName | attrValue | selfClose | tagEnd => exact Nat.le_refl opened

theorem level_le_length {opened : Nat} {tokens : List Token} {level : Nat × Token}
    (h : level ∈ tokenLevels opened tokens) : level.1 ≤ opened + tokens.length := by
  induction tokens generalizing opened with
  | nil => exact absurd h List.not_mem_nil
  | cons t rest ih =>
    rw [tokenLevels, List.mem_append] at h
    rw [List.length_cons]
    rcases h with h | h
    · split_ifs at h
      · rw [List.mem_singleton.mp h]
        omega
      · exact absurd h List.not_mem_nil
    · have hopened := openedAfter_le opened t rest
      have hrest := ih h
      split_ifs at hopened <;> omega

/-- Whether an opening tag stands where its element would be too deep. -/
def isBeyond (limit : Nat) (level : Nat × Token) : Bool :=
  level.2.kind = .tagOpen ∧ limit < level.1

/-- If no element is too deep, texts are at most one level deeper than the limit. -/
theorem level_le_of_not_isBeyond {limit opened : Nat} (hopened : opened ≤ limit)
    {tokens : List Token}
    (h : ∀ level ∈ tokenLevels opened tokens, ¬isBeyond limit level = true)
    {level : Nat × Token} (hlevel : level ∈ tokenLevels opened tokens) : level.1 ≤ limit + 1 := by
  induction tokens generalizing opened with
  | nil => exact absurd hlevel List.not_mem_nil
  | cons t rest ih =>
    have hnext : openedAfter opened t rest ≤ limit := by
      refine Nat.le_trans (openedAfter_le opened t rest) ?_
      split_ifs with hkind
      · have hmakes : makesNode t = true := by simp [makesNode, hkind]
        have hbeyond := h (opened + 1, t) (by simp [tokenLevels, hmakes])
        simpa [isBeyond, hkind] using hbeyond
      · exact hopened
    rw [tokenLevels, List.mem_append] at hlevel
    rcases hlevel with hlevel | hlevel
    · split_ifs at hlevel
      · rw [List.mem_singleton.mp hlevel]
        exact Nat.succ_le_succ hopened
      · exact absurd hlevel List.not_mem_nil
    · refine ih hnext (fun other hother ↦ h other ?_) hlevel
      rw [tokenLevels]
      exact List.mem_append_right _ hother

/-! ### Building without a limit -/

namespace BuildState

/-- What one token does where there is room for its element. -/
def advance (s : BuildState) (t : Token) (rest : List Token) : BuildState :=
  match t.kind with
  | .tagOpen =>
    if isSelfClosed rest then
      s.append (.element t.value (takeAttributes .empty rest).1 [] t.position)
    else s.opened t.value (takeAttributes .empty rest).1 t.position
  | .tagClose => s.closeTag t.value t.position
  | .text => s.append (.leaf t.value t.position)
  | .attrName | .attrValue | .selfClose | .tagEnd => s

def advanceAll (s : BuildState) : List Token → BuildState
  | [] => s
  | t :: rest => (s.advance t rest).advanceAll rest

/-- The limit is looked at by opening tags only, before they do anything. -/
theorem step_eq_advance (limit : Nat) (s : BuildState) (t : Token) (rest : List Token) :
    s.step limit t rest =
      if t.kind = .tagOpen ∧ limit ≤ s.frames.length then .error ⟨t.value, limit, t.position⟩
      else .ok (s.advance t rest) := by
  obtain ⟨kind, value, position⟩ := t
  cases kind with
  | tagOpen =>
    simp only [step, openTag, advance, true_and]
    split_ifs <;> rfl
  | tagClose | text | attrName | attrValue | selfClose | tagEnd => simp [step, advance]

theorem length_frames_closeTag (s : BuildState) (found : String) (position : Nat) :
    (s.closeTag found position).frames.length = s.frames.length - 1 := by
  obtain ⟨frames, finished, issues⟩ := s
  cases frames with
  | nil => rfl
  | cons f frames =>
    have happend := length_frames_append ⟨frames, finished, issues⟩ f.close
    simp only [closeTag]
    split_ifs <;> exact happend

theorem length_frames_advance (s : BuildState) (t : Token) (rest : List Token) :
    (s.advance t rest).frames.length = openedAfter s.frames.length t rest := by
  obtain ⟨kind, value, position⟩ := t
  cases kind with
  | tagOpen =>
    simp only [advance, openedAfter, ← isSelfClosed_iff]
    split_ifs
    · exact length_frames_append s _
    · rfl
  | tagClose => exact length_frames_closeTag s value position
  | text => exact length_frames_append s _
  | attrName | attrValue | selfClose | tagEnd => rfl

/-- With a limit the builder stops at the first tag whose element would be too deep, and does all
else as it does without a limit. -/
theorem run_eq_advanceAll (limit : Nat) (s : BuildState) (tokens : List Token) :
    s.run limit tokens =
      match (tokenLevels s.frames.length tokens).find? (isBeyond limit) with
      | some (_, t) => .error ⟨t.value, limit, t.position⟩
      | none => .ok (s.advanceAll tokens) := by
  induction tokens generalizing s with
  | nil => rfl
  | cons t rest ih =>
    rw [run, step_eq_advance, tokenLevels]
    by_cases hstop : t.kind = .tagOpen ∧ limit ≤ s.frames.length
    · have hmakes : makesNode t = true := by simp [makesNode, hstop.1]
      have hbeyond : isBeyond limit (s.frames.length + 1, t) = true := by
        simp only [isBeyond, hstop.1, true_and, decide_eq_true_eq]
        omega
      rw [if_pos hstop, if_pos hmakes, List.singleton_append, List.find?_cons_of_pos hbeyond]
    · have hhead : ∀ level ∈ (if makesNode t then [(s.frames.length + 1, t)] else []),
          ¬isBeyond limit level = true := by
        intro level hlevel hbeyond
        split_ifs at hlevel
        · rw [List.mem_singleton.mp hlevel, isBeyond, decide_eq_true_eq] at hbeyond
          exact hstop ⟨hbeyond.1, Nat.le_of_lt_succ hbeyond.2⟩
        · exact absurd hlevel List.not_mem_nil
      rw [if_neg hstop, List.find?_append, List.find?_eq_none.mpr hhead, Option.none_or,
        ← length_frames_advance]
      exact ih (s.advance t rest)

/-! ### Depths in a state of the builder -/

/-- The tokens of the nodes of a state in document order, each with the depth that its node has in
the tree. -/
def surveyOf (finished : List Node) : List Frame → List (Nat × Token)
  | [] => Node.levels 1 finished.reverse
  | f :: frames =>
    surveyOf finished frames ++ (frames.length + 1, ⟨.tagOpen, f.kind, f.position⟩) ::
      Node.levels (frames.length + 2) f.children.reverse

def survey (s : BuildState) : List (Nat × Token) :=
  surveyOf s.finished s.frames

/-- Closing all open elements leaves every node at its depth. -/
theorem levels_collapse (inner finished : List Node) (frames : List Frame) :
    Node.levels 1 (collapse inner finished frames).reverse =
      surveyOf finished frames ++ Node.levels (frames.length + 1) inner.reverse := by
  induction frames generalizing inner with
  | nil =>
    rw [collapse, List.reverse_append, Node.levels_append]
    rfl
  | cons f frames ih =>
    rw [collapse, ih, List.reverse_singleton, Node.levels_singleton]
    simp only [Frame.close, Node.element, Node.token, List.reverse_append, Node.levels_append,
      surveyOf, List.length_cons, List.append_assoc, List.cons_append]

theorem survey_append (s : BuildState) (n : Node) :
    (s.append n).survey = s.survey ++ Node.levels (s.frames.length + 1) [n] := by
  obtain ⟨frames, finished, issues⟩ := s
  cases frames with
  | nil =>
    rw [append, survey, surveyOf, List.reverse_cons, Node.levels_append]
    rfl
  | cons f frames =>
    simp only [append, survey, surveyOf, List.reverse_cons, Node.levels_append, List.append_assoc,
      List.cons_append, List.length_cons]

/-- Closing an element moves it to where it is counted already. -/
theorem survey_closeTag (s : BuildState) (found : String) (position : Nat) :
    (s.closeTag found position).survey = s.survey := by
  obtain ⟨frames, finished, issues⟩ := s
  cases frames with
  | nil => rfl
  | cons f frames =>
    have happend := survey_append ⟨frames, finished, issues⟩ f.close
    rw [Node.levels_singleton] at happend
    simp only [closeTag]
    split_ifs <;> exact happend

theorem survey_advance (s : BuildState) (t : Token) (rest : List Token) :
    (s.advance t rest).survey =
      s.survey ++ if makesNode t then [(s.frames.length + 1, t)] else [] := by
  obtain ⟨kind, value, position⟩ := t
  cases kind with
  | tagOpen =>
    by_cases hself : isSelfClosed rest = true
    · simp only [advance, if_pos hself, survey_append, Node.levels_singleton]
      rfl
    · simp only [advance, if_neg hself]
      rfl
  | tagClose => exact (survey_closeTag s value position).trans (List.append_nil _).symm
  | text =>
    simp only [advance, survey_append, Node.levels_singleton]
    rfl
  | attrName | attrValue | selfClose | tagEnd => exact (List.append_nil _).symm

/-- The tokens add their nodes at the depths that the tokens before them leave open. -/
theorem survey_advanceAll (s : BuildState) (tokens : List Token) :
    (s.advanceAll tokens).survey = s.survey ++ tokenLevels s.frames.length tokens := by
  induction tokens generalizing s with
  | nil => exact (List.append_nil _).symm
  | cons t rest ih =>
    rw [advanceAll, ih, survey_advance, length_frames_advance, tokenLevels, List.append_assoc]

end BuildState

/-! ### The tree of all tokens -/

/-- What is built of tokens if there is no limit. -/
def whole (tokens : List Token) : Built :=
  (BuildState.start.advanceAll tokens).finish

theorem levels_whole (tokens : List Token) :
    (whole tokens).places.map (fun place ↦ (place.1, place.2.token)) = tokenLevels 0 tokens := by
  have htree := BuildState.levels_collapse [] (BuildState.start.advanceAll tokens).finished
    (BuildState.start.advanceAll tokens).frames
  rw [List.reverse_nil, Node.levels_nil, List.append_nil] at htree
  exact htree.trans (BuildState.survey_advanceAll .start tokens)

theorem build_eq (maxDepth : Nat) (tokens : List Token) :
    build maxDepth tokens =
      match (tokenLevels 0 tokens).find? (isBeyond (max maxDepth 1)) with
      | some (_, t) => .error ⟨t.value, max maxDepth 1, t.position⟩
      | none => .ok (whole tokens) := by
  rw [build, BuildState.run_eq_advanceAll]
  change Except.map _ (match (tokenLevels 0 tokens).find? _ with | some (_, t) => _ | none => _) = _
  cases (tokenLevels 0 tokens).find? (isBeyond (max maxDepth 1)) <;> rfl

theorem eq_whole_of_build {maxDepth : Nat} {tokens : List Token} {built : Built}
    (h : build maxDepth tokens = .ok built) : built = whole tokens := by
  rw [build_eq] at h
  split at h
  · exact absurd h (by simp)
  · exact (Except.ok.inj h).symm

/-- The elements of the tree are the opening tags. -/
theorem forall_not_isBeyond_iff (limit : Nat) (tokens : List Token) :
    (∀ level ∈ tokenLevels 0 tokens, ¬isBeyond limit level = true) ↔
      ∀ place ∈ (whole tokens).places, place.2.text = none → place.1 ≤ limit := by
  simp only [← levels_whole, List.forall_mem_map, isBeyond, Node.kind_token_eq_tagOpen_iff,
    decide_eq_true_eq, not_and, Nat.not_lt]

theorem build_eq_ok_iff {maxDepth : Nat} {tokens : List Token} {built : Built} :
    build maxDepth tokens = .ok built ↔
      (∀ place ∈ (whole tokens).places, place.2.text = none → place.1 ≤ max maxDepth 1) ∧
        whole tokens = built := by
  rw [← forall_not_isBeyond_iff, ← List.find?_eq_none, build_eq]
  cases (tokenLevels 0 tokens).find? (isBeyond (max maxDepth 1)) <;> simp

/-- The tree of all tokens is built under every limit that they cannot reach. -/
theorem build_of_length_le {maxDepth : Nat} {tokens : List Token}
    (h : tokens.length ≤ maxDepth) : build maxDepth tokens = .ok (whole tokens) := by
  refine build_eq_ok_iff.mpr ⟨(forall_not_isBeyond_iff _ tokens).mp fun level hlevel ↦ ?_, rfl⟩
  have hbound := level_le_length hlevel
  simp only [isBeyond, decide_eq_true_eq, not_and, Nat.not_lt]
  omega

/-- Building under a larger limit gives the same. -/
theorem build_of_le {maxDepth larger : Nat} (hle : maxDepth ≤ larger) {tokens : List Token}
    {built : Built} (h : build maxDepth tokens = .ok built) :
    build larger tokens = .ok built := by
  obtain ⟨hdepth, hbuilt⟩ := build_eq_ok_iff.mp h
  refine build_eq_ok_iff.mpr ⟨fun place hplace helement ↦ ?_, hbuilt⟩
  have := hdepth place hplace helement
  omega

/-- Whether a fault names an opening tag as the first whose element stands deeper than the limit,
given the tokens before it, the nodes before its element and the element at its depth. -/
structure NamesFirstBeyond (limit : Nat) (before : List Token) (t : Token)
    (shallow : List (Nat × Node)) (deep : Nat × Node) (e : DepthExceeded) : Prop where
  /-- The nodes before its element are those of the tokens before it. -/
  aligned : before.filter makesNode = shallow.map (·.2.token)
  tag : t.kind = .tagOpen ∧ deep.2.token = t
  tooDeep : limit < deep.1
  first : ∀ place ∈ shallow, place.2.text = none → place.1 ≤ limit
  fault : e = ⟨t.value, limit, t.position⟩

/-- What the builder stops at is the first tag whose element is too deep. -/
theorem exists_namesFirstBeyond {maxDepth : Nat} {tokens : List Token} {e : DepthExceeded}
    (h : build maxDepth tokens = .error e) : ∃ before t after shallow deep rest,
      tokens = before ++ t :: after ∧ (whole tokens).places = shallow ++ deep :: rest ∧
        NamesFirstBeyond (max maxDepth 1) before t shallow deep e := by
  rw [build_eq] at h
  split at h
  · rename_i depth t hfound
    obtain ⟨hbeyond, first, second, hsplit, hfirst⟩ := List.find?_eq_some_iff_append.mp hfound
    rw [isBeyond, decide_eq_true_eq] at hbeyond
    have hplaces := levels_whole tokens
    rw [hsplit] at hplaces
    obtain ⟨shallow, others, hwhole, rfl, hothers⟩ := List.map_eq_append_iff.mp hplaces
    obtain ⟨deep, rest, rfl, hdeep, -⟩ := List.map_eq_cons_iff.mp hothers
    have htokens := map_snd_tokenLevels 0 tokens
    rw [hsplit, List.map_append, List.map_cons, List.map_map, eq_comm,
      List.filter_eq_append_iff] at htokens
    obtain ⟨early, late, rfl, hearly, hlate⟩ := htokens
    obtain ⟨quiet, after, rfl, hquiet, -, -⟩ := List.filter_eq_cons_iff.mp hlate
    obtain ⟨rfl, htoken⟩ := Prod.mk.inj hdeep
    refine ⟨early ++ quiet, t, after, shallow, deep, rest, (List.append_assoc _ _ _).symm, hwhole,
      ?_, ⟨hbeyond.1, htoken⟩, hbeyond.2, ?_, (Except.error.inj h).symm⟩
    · rw [List.filter_append, hearly, List.filter_eq_nil_iff.mpr hquiet, List.append_nil]
      rfl
    · intro place hplace helement
      have hnot := hfirst _ (List.mem_map_of_mem hplace)
      simpa [isBeyond, Node.kind_token_eq_tagOpen_iff, helement] using hnot
  · exact absurd h (by simp)

/-- The depth limit is exact. For any tokens there is the tree that is built under all limits
they cannot reach. Under another limit the building succeeds exactly if no element of this tree is
nested deeper than the limit, which is never less than one, and then it gives the same tree and
issues, in which no text is more than one level deeper. Otherwise it fails at the first opening
tag whose element is deeper. -/
theorem depth_limit_exact (tokens : List Token) : ∃ unlimited : Built,
    (∀ maxDepth, tokens.length ≤ maxDepth → build maxDepth tokens = .ok unlimited) ∧
    ∀ maxDepth,
      ((∃ built, build maxDepth tokens = .ok built) ↔
        ∀ place ∈ unlimited.places, place.2.text = none → place.1 ≤ max maxDepth 1) ∧
      (∀ built, build maxDepth tokens = .ok built → built = unlimited ∧
        ∀ place ∈ built.places, place.1 ≤ max maxDepth 1 + 1) ∧
      ∀ e, build maxDepth tokens = .error e → ∃ before t after shallow deep rest,
        tokens = before ++ t :: after ∧ unlimited.places = shallow ++ deep :: rest ∧
          NamesFirstBeyond (max maxDepth 1) before t shallow deep e := by
  refine ⟨whole tokens, fun _ h ↦ build_of_length_le h, fun maxDepth ↦ ⟨?_, ?_, ?_⟩⟩
  · simp only [build_eq_ok_iff, exists_and_left, exists_eq', and_true]
  · intro built h
    obtain ⟨hdepth, rfl⟩ := build_eq_ok_iff.mp h
    refine ⟨rfl, fun place hplace ↦ ?_⟩
    have hlevel : (place.1, place.2.token) ∈ tokenLevels 0 tokens :=
      levels_whole tokens ▸ List.mem_map_of_mem hplace
    exact level_le_of_not_isBeyond (Nat.zero_le _)
      ((forall_not_isBeyond_iff _ tokens).mpr hdepth) hlevel
  · intro e h
    exact exists_namesFirstBeyond h

/-- A tag that closes itself one level too deep, where a closing tag of another name makes room for
the elements after it. -/
theorem depth_limit_exact_crossed :
    let tokens := tokenize "<a>x<b/></c><d><e>y</d>"
    ∃ unlimited : Built, unlimited.places.map Prod.fst = [1, 2, 2, 1, 2, 3] ∧
      (∃ built, build 2 tokens = .ok built) ∧
      (∀ built, build 2 tokens = .ok built → built = unlimited) ∧
      ∃ before t after shallow deep rest, tokens = before ++ t :: after ∧
        unlimited.places = shallow ++ deep :: rest ∧
          NamesFirstBeyond 1 before t shallow deep ⟨"b", 1, 4⟩ := by
  intro tokens
  have hread : (build tokens.length tokens).toOption.map (·.places.map Prod.fst) =
      some [1, 2, 2, 1, 2, 3] := by decide +kernel
  have htwo : (build 2 tokens).toOption.isSome = true := by decide +kernel
  have hzero : build 0 tokens = .error ⟨"b", 1, 4⟩ := by
    have herror : (match build 0 tokens with | .error e => some e | .ok _ => none) =
        some ⟨"b", 1, 4⟩ := by decide +kernel
    cases hbuild : build 0 tokens with
    | error e => simpa [hbuild] using herror
    | ok built => simp [hbuild] at herror
  obtain ⟨unlimited, hunlimited, hexact⟩ := depth_limit_exact tokens
  rw [hunlimited _ (Nat.le_refl _)] at hread
  refine ⟨unlimited, Option.some.inj hread, ?_, fun built h ↦ ((hexact 2).2.1 built h).1,
    (hexact 0).2.2 _ hzero⟩
  cases hbuild : build 2 tokens with
  | error e => simp [hbuild, Except.toOption] at htwo
  | ok built => exact ⟨built, rfl⟩

end Document

end AgentMarkup
