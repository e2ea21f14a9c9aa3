import AgentMarkup.Proofs.Document.AttributeRun
import Mathlib.Data.List.Forall2

/-!
The nodes of a built tree in document order, each with its parent. The builder holds part of
the tree in its open elements; `BuildState.roster` reads the nodes and their parents off a
state as if the input ended there (`rosterOf_collapse`), and each token adds to its end what
it adds to the tree (`roster_openTag`, `roster_append`) or leaves it alone
(`roster_closeTag`). Hence `build_keeps_tokens`: the nodes of the tree are the opening tags
and texts of the input, in their order, each in the innermost element still open before it.
-/

set_option autoImplicit false
set_option relaxedAutoImplicit false

namespace AgentMarkup

/-! ### Nodes with their parents -/

namespace Node

mutual

/-- A node, which has this number and this parent, and its descendants, all in document
order with the numbers of their parents. Numbers go up by one from node to node. -/
def family (parent : Option Nat) (number : Nat) : Node → List (Option Nat × Node)
  | ⟨kind, attributes, children, text, position⟩ =>
    (parent, ⟨kind, attributes, children, text, position⟩) ::
      familyAll (some number) (number + 1) children

def familyAll (parent : Option Nat) (number : Nat) : List Node → List (Option Nat × Node)
  | [] => []
  | n :: rest =>
    n.family parent number ++ familyAll parent (number + (n.family parent number).length) rest

end

/-- A node without the children of an element. -/
def shell : Node → Node
  | ⟨kind, attributes, _, none, position⟩ => ⟨kind, attributes, [], none, position⟩
  | ⟨kind, attributes, children, some text, position⟩ =>
    ⟨kind, attributes, children, some text, position⟩

theorem family_eq (parent : Option Nat) (number : Nat) (n : Node) :
    n.family parent number = (parent, n) :: familyAll (some number) (number + 1) n.children := by
  cases n
  rw [family]

theorem familyAll_append (parent : Option Nat) (number : Nat) (first second : List Node) :
    familyAll parent number (first ++ second) =
      familyAll parent number first ++
        familyAll parent (number + (familyAll parent number first).length) second := by
  induction first generalizing number with
  | nil => simp [familyAll]
  | cons n rest ih =>
    rw [List.cons_append, familyAll, familyAll, ih, List.append_assoc, List.length_append,
      Nat.add_assoc]

/-- Shells of the nodes of a forest, with their parents. -/
def shells (parent : Option Nat) (number : Nat) (nodes : List Node) : List (Option Nat × Node) :=
  (familyAll parent number nodes).map fun member ↦ (member.1, member.2.shell)

theorem shells_nil (parent : Option Nat) (number : Nat) : shells parent number [] = [] := by
  rw [shells, familyAll.eq_def]
  rfl

theorem shells_append (parent : Option Nat) (number : Nat) (first second : List Node) :
    shells parent number (first ++ second) =
      shells parent number first ++
        shells parent (number + (shells parent number first).length) second := by
  simp only [shells, familyAll_append, List.map_append, List.length_map]

theorem shells_singleton (parent : Option Nat) (number : Nat) (n : Node) :
    shells parent number [n] =
      (parent, n.shell) :: shells (some number) (number + 1) n.children := by
  rw [shells, familyAll, familyAll, List.append_nil, family_eq]
  rfl

end Node

namespace Document

/-! ### The tokens that make nodes -/

/-- The node that a token puts into the tree when these tokens follow it. -/
inductive Yields : Token → List Token → Node → Prop
  | element {kind : String} {position : Nat} {rest after : List Token}
    {run : List (String × String)} {attributes : Table String} {children : List Node}
    (hrun : AttributeRun rest run after)
    (hlast : ∀ name, attributes.get? name = run.reverse.lookup name) :
    Yields ⟨.tagOpen, kind, position⟩ rest (.element kind attributes children position)
  | text {value : String} {position : Nat} {rest : List Token} :
    Yields ⟨.text, value, position⟩ rest (.leaf value position)

/-- The opening tags and texts, each with the tokens after it. -/
def nodeTokens : List Token → List (Token × List Token)
  | [] => []
  | t :: rest =>
    match t.kind with
    | .tagOpen | .text => (t, rest) :: nodeTokens rest
    | .tagClose | .attrName | .attrValue | .selfClose | .tagEnd => nodeTokens rest

/-- The element that each opening tag and text stands in, by number, if these elements are
open, innermost first, and the next node has this number. A tag that does not close itself
opens an element, and a closing tag ends the innermost one whatever its name. -/
def parents (opened : List Nat) (number : Nat) : List Token → List (Option Nat)
  | [] => []
  | t :: rest =>
    match t.kind with
    | .tagOpen =>
      opened.head? ::
        parents (if ClosesItself rest then opened else number :: opened) (number + 1) rest
    | .text => opened.head? :: parents opened (number + 1) rest
    | .tagClose => parents opened.tail number rest
    | .attrName | .attrValue | .selfClose | .tagEnd => parents opened number rest

/-- The shell of the node that a token makes. -/
def shellOf (source : Token × List Token) : Node :=
  match source.1.kind with
  | .tagOpen =>
    .element source.1.value (takeAttributes .empty source.2).1 [] source.1.position
  | _ => .leaf source.1.value source.1.position

/-! ### Reading a state of the builder -/

/-- The nodes of a state in document order with their parents, and the numbers of the open
elements, innermost first. -/
def rosterOf (finished : List Node) : List Frame → List (Option Nat × Node) × List Nat
  | [] => (Node.shells none 0 finished.reverse, [])
  | f :: frames =>
    let outer := rosterOf finished frames
    let number := outer.1.length
    (outer.1 ++ (outer.2.head?, f.close.shell) ::
      Node.shells (some number) (number + 1) f.children.reverse, number :: outer.2)

/-- Closing all open elements yields the nodes of the state, and what was left for the
innermost one after them. -/
theorem rosterOf_collapse (inner finished : List Node) (frames : List Frame) :
    Node.shells none 0 (BuildState.collapse inner finished frames).reverse =
      (rosterOf finished frames).1 ++
        Node.shells (rosterOf finished frames).2.head? (rosterOf finished frames).1.length
          inner.reverse := by
  induction frames generalizing inner with
  | nil =>
    rw [BuildState.collapse, List.reverse_append, Node.shells_append, Nat.zero_add]
    rfl
  | cons f frames ih =>
    rw [BuildState.collapse, ih, List.reverse_singleton, Node.shells_singleton]
    simp only [Frame.close, Node.element, List.reverse_append, Node.shells_append, Node.shell,
      rosterOf, List.length_append, List.length_cons, List.head?_cons, List.append_assoc,
      List.cons_append]
    congr 4
    omega

namespace BuildState

def roster (s : BuildState) : List (Option Nat × Node) :=
  (rosterOf s.finished s.frames).1

/-- The numbers of the open elements, innermost first. -/
def openNumbers (s : BuildState) : List Nat :=
  (rosterOf s.finished s.frames).2

theorem roster_append (s : BuildState) (n : Node) :
    (s.append n).roster = s.roster ++ Node.shells s.openNumbers.head? s.roster.length [n] ∧
      (s.append n).openNumbers = s.openNumbers := by
  obtain ⟨frames, finished, issues⟩ := s
  cases frames with
  | nil =>
    simp only [append, roster, openNumbers, rosterOf, List.reverse_cons, Node.shells_append,
      Nat.zero_add, List.head?_nil, and_self]
  | cons f frames =>
    simp only [append, roster, openNumbers, rosterOf, List.reverse_cons, Node.shells_append,
      Frame.close, Node.element, Node.shell, List.append_assoc, List.cons_append,
      List.length_append, List.length_cons, List.head?_cons, and_true]
    congr 4
    omega

/-- Closing an element only moves it to where it is counted already. -/
theorem roster_closeTag (s : BuildState) (found : String) (position : Nat) :
    (s.closeTag found position).roster = s.roster ∧
      (s.closeTag found position).openNumbers = s.openNumbers.tail := by
  obtain ⟨frames, finished, issues⟩ := s
  cases frames with
  | nil => exact ⟨rfl, rfl⟩
  | cons f frames =>
    have happend := roster_append ⟨frames, finished, issues⟩ f.close
    rw [Node.shells_singleton] at happend
    simp only [closeTag]
    split <;> exact happend

theorem roster_openTag {limit : Nat} {s next : BuildState} {kind : String} {position : Nat}
    {rest : List Token} (h : s.openTag limit kind position rest = .ok next) :
    next.roster = s.roster ++ [(s.openNumbers.head?,
        .element kind (takeAttributes .empty rest).1 [] position)] ∧
      next.openNumbers =
        if ClosesItself rest then s.openNumbers else s.roster.length :: s.openNumbers := by
  unfold openTag at h
  split at h
  · exact absurd h (by simp)
  · by_cases hself : isSelfClosed rest = true
    · rw [if_pos hself, Except.ok.injEq] at h
      subst h
      rw [if_pos ((isSelfClosed_iff rest).mp hself)]
      exact roster_append s _
    · rw [if_neg hself, Except.ok.injEq] at h
      subst h
      rw [if_neg (mt (isSelfClosed_iff rest).mpr hself)]
      exact ⟨rfl, rfl⟩

/-- A run adds the nodes of its tokens, each under the parent that the tokens before it
leave open. -/
theorem roster_run {limit : Nat} {s final : BuildState} {tokens : List Token}
    (h : s.run limit tokens = .ok final) :
    final.roster.map Prod.snd = s.roster.map Prod.snd ++ (nodeTokens tokens).map shellOf ∧
      final.roster.map Prod.fst =
        s.roster.map Prod.fst ++ parents s.openNumbers s.roster.length tokens := by
  induction tokens generalizing s with
  | nil =>
    rw [run, Except.ok.injEq] at h
    subst h
    simp [nodeTokens, parents]
  | cons t rest ih =>
    obtain ⟨kind, value, position⟩ := t
    rw [run] at h
    cases hstep : s.step limit ⟨kind, value, position⟩ rest with
    | error e => simp [hstep] at h
    | ok next =>
      rw [hstep] at h
      have hrest := ih h
      cases kind with
      | tagOpen =>
        obtain ⟨hroster, hopen⟩ := roster_openTag hstep
        simpa [hroster, hopen, nodeTokens, parents, shellOf] using hrest
      | tagClose =>
        rw [step, Except.ok.injEq] at hstep
        obtain ⟨hroster, hopen⟩ := roster_closeTag s value position
        rw [hstep] at hroster hopen
        simpa [hroster, hopen, nodeTokens, parents] using hrest
      | text =>
        rw [step, Except.ok.injEq] at hstep
        obtain ⟨hroster, hopen⟩ := roster_append s (.leaf value position)
        rw [hstep] at hroster hopen
        rw [Node.shells_singleton] at hroster
        simpa [hroster, hopen, nodeTokens, parents, shellOf, Node.leaf, Node.shell, Node.shells,
          Node.familyAll] using hrest
      | attrName | attrValue | selfClose | tagEnd =>
        rw [step, Except.ok.injEq] at hstep
        subst hstep
        simpa [nodeTokens, parents] using hrest

end BuildState

/-! ### The tree -/

theorem yields_of_shell {source : Token × List Token} {n : Node}
    (hkind : source.1.kind = .tagOpen ∨ source.1.kind = .text) (h : n.shell = shellOf source) :
    Yields source.1 source.2 n := by
  obtain ⟨⟨kind, value, position⟩, rest⟩ := source
  obtain ⟨kind', attributes, children, text, position'⟩ := n
  rcases hkind with rfl | rfl
  · cases text with
    | none =>
      simp only [Node.shell, shellOf, Node.element, Node.mk.injEq, true_and] at h
      obtain ⟨rfl, rfl, rfl⟩ := h
      obtain ⟨run, after, hrun⟩ := exists_attributeRun rest
      refine .element hrun fun name ↦ ?_
      rw [takeAttributes_of_attributeRun hrun]
      exact Table.get?_ofList run name
    | some text => simp [Node.shell, shellOf, Node.element] at h
  · cases text with
    | none => simp [Node.shell, shellOf, Node.leaf] at h
    | some text =>
      simp only [Node.shell, shellOf, Node.leaf, Node.mk.injEq, Option.some.injEq] at h
      obtain ⟨rfl, rfl, rfl, rfl, rfl⟩ := h
      exact .text

theorem kind_of_mem_nodeTokens {tokens : List Token} {source : Token × List Token}
    (h : source ∈ nodeTokens tokens) : source.1.kind = .tagOpen ∨ source.1.kind = .text := by
  induction tokens with
  | nil => exact absurd h List.not_mem_nil
  | cons t rest ih =>
    obtain ⟨kind, value, position⟩ := t
    cases kind with
    | tagOpen =>
      rcases List.mem_cons.mp h with rfl | hrest
      · exact Or.inl rfl
      · exact ih hrest
    | text =>
      rcases List.mem_cons.mp h with rfl | hrest
      · exact Or.inr rfl
      · exact ih hrest
    | tagClose | attrName | attrValue | selfClose | tagEnd => exact ih h

theorem forall₂_of_map_eq {α β γ : Type} {f : α → γ} {g : β → γ} {r : α → β → Prop}
    {xs : List α} {ys : List β} (hr : ∀ x ∈ xs, ∀ y, f x = g y → r x y)
    (h : xs.map f = ys.map g) : List.Forall₂ r xs ys := by
  induction xs generalizing ys with
  | nil =>
    rw [List.map_nil, eq_comm, List.map_eq_nil_iff] at h
    rw [h]
    exact .nil
  | cons x xs ih =>
    cases ys with
    | nil => simp at h
    | cons y ys =>
      rw [List.map_cons, List.map_cons, List.cons.injEq] at h
      exact .cons (hr x List.mem_cons_self y h.1)
        (ih (fun x hx ↦ hr x (List.mem_cons_of_mem _ hx)) h.2)

/-- The nodes below the root of a built tree, up to their children, and the parents of these
nodes are read off the tokens. -/
theorem shells_of_build {maxDepth : Nat} {tokens : List Token} {built : Built}
    (h : build maxDepth tokens = .ok built) :
    ∃ children, built.root = .document children ∧
      (Node.shells none 0 children).map Prod.snd = (nodeTokens tokens).map shellOf ∧
      (Node.shells none 0 children).map Prod.fst = parents [] 0 tokens := by
  rw [build] at h
  cases hrun : BuildState.start.run (max maxDepth 1) tokens with
  | error e => simp [hrun, Except.map] at h
  | ok final =>
    rw [hrun, Except.map, Except.ok.injEq] at h
    subst h
    obtain ⟨hnodes, hparents⟩ := BuildState.roster_run hrun
    have htree := rosterOf_collapse [] final.finished final.frames
    rw [List.reverse_nil, Node.shells_nil, List.append_nil] at htree
    change _ = final.roster at htree
    rw [← htree] at hnodes hparents
    exact ⟨_, rfl, hnodes, hparents⟩

/-- Building loses, doubles and reorders nothing. In document order the nodes below the root
are those that the opening tags and texts yield, one each, and each stands in the innermost
element that was opened before it, not by a tag that closes itself, and that no closing tag
has ended. -/
theorem build_keeps_tokens {maxDepth : Nat} {tokens : List Token} {built : Built}
    (h : build maxDepth tokens = .ok built) :
    ∃ children, built.root = .document children ∧
      List.Forall₂ (fun source member ↦ Yields source.1 source.2 member.2)
        (nodeTokens tokens) (Node.familyAll none 0 children) ∧
      (Node.familyAll none 0 children).map Prod.fst = parents [] 0 tokens := by
  obtain ⟨children, hroot, hnodes, hparents⟩ := shells_of_build h
  rw [Node.shells, List.map_map] at hnodes hparents
  refine ⟨children, hroot, ?_, hparents⟩
  exact forall₂_of_map_eq
    (fun source hsource member heq ↦ yields_of_shell (kind_of_mem_nodeTokens hsource) heq.symm)
    hnodes.symm

/-- Tokens in no sensible order: a stray value and closing tag, a repeated name, an element
inside another that closes itself, and a closing tag of another name. -/
theorem build_keeps_tokens_disordered :
    let tokens : List Token := [⟨.attrValue, "v", 0⟩, ⟨.tagClose, "x", 1⟩, ⟨.tagOpen, "a", 2⟩,
      ⟨.attrName, "k", 3⟩, ⟨.attrName, "k", 4⟩, ⟨.attrValue, "w", 5⟩, ⟨.text, "t", 6⟩,
      ⟨.tagOpen, "b", 7⟩, ⟨.selfClose, "/>", 8⟩, ⟨.tagClose, "z", 9⟩, ⟨.text, "u", 10⟩]
    ∃ built, build 2 tokens = .ok built ∧ ∃ children, built.root = .document children ∧
      List.Forall₂ (fun source member ↦ Yields source.1 source.2 member.2)
        (nodeTokens tokens) (Node.familyAll none 0 children) ∧
      (Node.familyAll none 0 children).map Prod.fst = [none, some 0, some 0, none] := by
  intro tokens
  have hbuild : ∃ built, build 2 tokens = .ok built := ⟨_, rfl⟩
  obtain ⟨built, hbuild⟩ := hbuild
  obtain ⟨children, hroot, hnodes, hparents⟩ := build_keeps_tokens hbuild
  refine ⟨built, hbuild, children, hroot, hnodes, hparents.trans ?_⟩
  decide

end Document

end AgentMarkup
