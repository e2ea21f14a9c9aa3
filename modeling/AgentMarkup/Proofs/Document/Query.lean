import AgentMarkup.Proofs.Document.Depth
import AgentMarkup.Proofs.Document.Family
import AgentMarkup.Proofs.Token.Position

/-!
What a tree answers when it is asked for elements of a kind or for its text. Both questions read
the nodes in document order, a node before its children: the elements of a kind are picked from the
descendants (`findAll_eq_filter`), the texts from the node and its descendants
(`texts_eq_filterMap`). A built tree keeps its tokens in document order, so the answers for its
root can be read off the tokens (`map_token_findAll_of_build`, `texts_of_build`). Main statement:
`queries_of_build`.
-/

set_option autoImplicit false
set_option relaxedAutoImplicit false

namespace AgentMarkup

namespace Node

/-! ### Document order -/

mutual

/-- A node and its descendants, each before its children. -/
def preorder : Node → List Node
  | ⟨kind, attributes, children, text, position⟩ =>
    ⟨kind, attributes, children, text, position⟩ :: preorderAll children

def preorderAll : List Node → List Node
  | [] => []
  | n :: rest => n.preorder ++ preorderAll rest

end

/-- The nodes below a node in document order. -/
def descendants (n : Node) : List Node :=
  preorderAll n.children

theorem preorder_eq (n : Node) : n.preorder = n :: n.descendants := by
  cases n
  rw [preorder, descendants]

mutual

theorem ofKind_eq_filter (kind : String) : ∀ n : Node,
    n.ofKind kind = n.preorder.filter (·.kind = kind)
  | ⟨k, attributes, children, text, position⟩ => by
    rw [ofKind, preorder, List.filter_cons, allOfKind_eq_filter kind children]
    simp only [decide_eq_true_eq]

theorem allOfKind_eq_filter (kind : String) : ∀ nodes : List Node,
    allOfKind kind nodes = (preorderAll nodes).filter (·.kind = kind)
  | [] => by
    rw [allOfKind, preorderAll, List.filter_nil]
  | n :: rest => by
    rw [allOfKind, preorderAll, List.filter_append, ofKind_eq_filter kind n,
      allOfKind_eq_filter kind rest]

end

theorem findAll_eq_filter (kind : String) (n : Node) :
    n.findAll kind = n.descendants.filter (·.kind = kind) :=
  allOfKind_eq_filter kind n.children

mutual

theorem texts_eq_filterMap : ∀ n : Node, n.texts = n.preorder.filterMap Node.text
  | ⟨_, _, children, text, _⟩ => by
    rw [texts, preorder, List.filterMap_cons, allTexts_eq_filterMap children]
    cases text <;> rfl

theorem allTexts_eq_filterMap : ∀ nodes : List Node,
    allTexts nodes = (preorderAll nodes).filterMap Node.text
  | [] => by
    rw [allTexts, preorderAll, List.filterMap_nil]
  | n :: rest => by
    rw [allTexts, preorderAll, List.filterMap_append, texts_eq_filterMap n,
      allTexts_eq_filterMap rest]

end

mutual

theorem map_snd_family (parent : Option Nat) (number : Nat) : ∀ n : Node,
    (n.family parent number).map Prod.snd = n.preorder
  | ⟨kind, attributes, children, text, position⟩ => by
    rw [family, preorder, List.map_cons, map_snd_familyAll (some number) (number + 1) children]

theorem map_snd_familyAll (parent : Option Nat) (number : Nat) : ∀ nodes : List Node,
    (familyAll parent number nodes).map Prod.snd = preorderAll nodes
  | [] => by
    rw [familyAll, preorderAll, List.map_nil]
  | n :: rest => by
    rw [familyAll, preorderAll, List.map_append, map_snd_family parent number n,
      map_snd_familyAll parent _ rest]

end

mutual

theorem sizeOf_le_of_mem_preorder {m : Node} : ∀ n : Node, m ∈ n.preorder → sizeOf m ≤ sizeOf n
  | ⟨kind, attributes, children, text, position⟩, h => by
    rw [preorder, List.mem_cons] at h
    rcases h with rfl | h
    · exact Nat.le_refl _
    · have hlt := sizeOf_lt_of_mem_preorderAll children h
      rw [Node.mk.sizeOf_spec]
      omega

theorem sizeOf_lt_of_mem_preorderAll {m : Node} : ∀ nodes : List Node,
    m ∈ preorderAll nodes → sizeOf m < sizeOf nodes
  | [], h => by
    rw [preorderAll] at h
    exact absurd h List.not_mem_nil
  | n :: rest, h => by
    rw [preorderAll, List.mem_append] at h
    rw [List.cons.sizeOf_spec]
    rcases h with h | h
    · have hle := sizeOf_le_of_mem_preorder n h
      omega
    · have hlt := sizeOf_lt_of_mem_preorderAll rest h
      omega

end

theorem sizeOf_lt_of_mem_descendants {m : Node} : ∀ {n : Node},
    m ∈ n.descendants → sizeOf m < sizeOf n
  | ⟨kind, attributes, children, text, position⟩, h => by
    have hlt := sizeOf_lt_of_mem_preorderAll children h
    rw [Node.mk.sizeOf_spec]
    omega

theorem notMem_descendants (n : Node) : n ∉ n.descendants :=
  fun h ↦ Nat.lt_irrefl _ (sizeOf_lt_of_mem_descendants h)

theorem preorderAll_eq_flatMap (nodes : List Node) :
    preorderAll nodes = nodes.flatMap preorder := by
  induction nodes with
  | nil => rw [preorderAll, List.flatMap_nil]
  | cons n rest ih => rw [preorderAll, List.flatMap_cons, ih]

theorem mem_descendants_iff_exists {m n : Node} :
    m ∈ n.descendants ↔ ∃ child ∈ n.children, m = child ∨ m ∈ child.descendants := by
  rw [descendants, preorderAll_eq_flatMap, List.mem_flatMap]
  simp only [preorder_eq, List.mem_cons]

/-- The step from a node to one of its children. -/
def ParentOf (parent child : Node) : Prop :=
  child ∈ parent.children

theorem mem_descendants_of_parentOf {m n : Node} (h : ParentOf n m) : m ∈ n.descendants :=
  mem_descendants_iff_exists.mpr ⟨m, h, Or.inl rfl⟩

theorem transGen_of_mem_descendants {m n : Node} (h : m ∈ n.descendants) :
    Relation.TransGen ParentOf n m := by
  obtain ⟨child, hchild, rfl | hbelow⟩ := mem_descendants_iff_exists.mp h
  · exact .single hchild
  · exact .head hchild (transGen_of_mem_descendants hbelow)
termination_by sizeOf n
decreasing_by exact sizeOf_lt_of_mem_descendants (mem_descendants_of_parentOf hchild)

/-- The descendants are what is reached from a node by steps to children. -/
theorem mem_descendants_iff {m n : Node} :
    m ∈ n.descendants ↔ Relation.TransGen ParentOf n m := by
  refine ⟨transGen_of_mem_descendants, fun h ↦ ?_⟩
  induction h using Relation.TransGen.head_induction_on with
  | single h => exact mem_descendants_of_parentOf h
  | head h _ ih => exact mem_descendants_iff_exists.mpr ⟨_, h, Or.inr ih⟩

/-! ### Shells -/

theorem kind_shell (n : Node) : n.shell.kind = n.kind := by
  obtain ⟨kind, attributes, children, text, position⟩ := n
  cases text <;> rfl

theorem text_shell (n : Node) : n.shell.text = n.text := by
  obtain ⟨kind, attributes, children, text, position⟩ := n
  cases text <;> rfl

theorem token_shell (n : Node) : n.shell.token = n.token := by
  obtain ⟨kind, attributes, children, text, position⟩ := n
  cases text <;> rfl

theorem position_token (n : Node) : n.token.position = n.position := by
  obtain ⟨kind, attributes, children, text, position⟩ := n
  cases text <;> rfl

end Node

namespace Document

/-! ### Answers read off the tokens -/

theorem descendants_of_build {maxDepth : Nat} {tokens : List Token} {built : Built}
    (h : build maxDepth tokens = .ok built) :
    built.root.descendants.map Node.shell = (nodeTokens tokens).map shellOf ∧
      built.root.text = none := by
  obtain ⟨children, hroot, hnodes, -⟩ := shells_of_build h
  rw [Node.shells, List.map_map] at hnodes
  rw [hroot, Node.descendants]
  refine ⟨?_, rfl⟩
  rw [← hnodes, Node.document, Node.element, ← Node.map_snd_familyAll none 0, List.map_map]
  rfl

/-- Of the nodes that tokens make, those of a kind that no text has are made of the opening tags
of this name. -/
theorem map_token_filter_shellOf {kind : String} (hkind : kind ≠ Node.textKind)
    (tokens : List Token) :
    (((nodeTokens tokens).map shellOf).filter (·.kind = kind)).map Node.token =
      tokens.filter fun t ↦ t.kind = .tagOpen ∧ t.value = kind := by
  induction tokens with
  | nil => rfl
  | cons t rest ih =>
    obtain ⟨tokenKind, value, position⟩ := t
    cases tokenKind with
    | tagOpen =>
      by_cases hvalue : value = kind
      · simp [nodeTokens, shellOf, Node.element, hvalue, ih, Node.token]
      · simp [nodeTokens, shellOf, Node.element, hvalue, ih]
    | text => simp [nodeTokens, shellOf, Node.leaf, hkind.symm, ih]
    | tagClose | attrName | attrValue | selfClose | tagEnd => simp [nodeTokens, ih]

theorem filterMap_text_shellOf (tokens : List Token) :
    ((nodeTokens tokens).map shellOf).filterMap Node.text =
      (tokens.filter (·.kind = .text)).map Token.value := by
  induction tokens with
  | nil => rfl
  | cons t rest ih =>
    obtain ⟨tokenKind, value, position⟩ := t
    cases tokenKind with
    | tagOpen => simpa [nodeTokens, shellOf, Node.element] using ih
    | text => simpa [nodeTokens, shellOf, Node.leaf] using ih
    | tagClose | attrName | attrValue | selfClose | tagEnd => simpa [nodeTokens] using ih

variable {maxDepth : Nat} {tokens : List Token} {built : Built}

theorem map_token_findAll_of_build (h : build maxDepth tokens = .ok built) {kind : String}
    (hkind : kind ≠ Node.textKind) :
    (built.root.findAll kind).map Node.token =
      tokens.filter fun t ↦ t.kind = .tagOpen ∧ t.value = kind := by
  rw [Node.findAll_eq_filter, ← map_token_filter_shellOf hkind, ← (descendants_of_build h).1,
    List.filter_map, List.map_map]
  simp only [Function.comp_def, Node.kind_shell, Node.token_shell]

theorem texts_of_build (h : build maxDepth tokens = .ok built) :
    built.root.texts = (tokens.filter (·.kind = .text)).map Token.value := by
  obtain ⟨hnodes, htext⟩ := descendants_of_build h
  rw [Node.texts_eq_filterMap, Node.preorder_eq, List.filterMap_cons_none htext,
    ← filterMap_text_shellOf, ← hnodes, List.filterMap_map]
  simp only [Function.comp_def, Node.text_shell]

/-- What is found in the tree of an input is found in the order of its positions. -/
theorem pairwise_position_findAll_of_build {input : String}
    (h : build maxDepth (tokenize input) = .ok built) {kind : String}
    (hkind : kind ≠ Node.textKind) :
    (built.root.findAll kind).Pairwise (·.position < ·.position) := by
  have hpositions : (built.root.findAll kind).map Node.position =
      ((built.root.findAll kind).map Node.token).map Token.position := by
    rw [List.map_map]
    simp only [Function.comp_def, Node.position_token]
  have hsublist : ((built.root.findAll kind).map Node.position).Sublist
      ((tokenize input).map Token.position) := by
    rw [hpositions, map_token_findAll_of_build h hkind]
    exact List.filter_sublist.map Token.position
  exact List.pairwise_map.mp ((Token.pairwise_position_tokenize input).sublist hsublist)

/-- The tree of an input answers with the tokens of the input: its text is the values of the texts
in their order, and its elements of a kind that no text has are the opening tags of that name, one
each and in their order. In any tree the descendants of a node are what is reached by steps to
children, in document order; the elements of a kind are picked from them, never the node itself,
and the text is made of the texts of the node and of these, in this order too. -/
theorem queries_of_build :
    (∀ input maxDepth built, build maxDepth (tokenize input) = .ok built →
      built.root.textContent = String.intercalate " "
        (((tokenize input).filter (·.kind = .text)).map Token.value) ∧
      ∀ kind, kind ≠ "text" →
        (built.root.findAll kind).map Node.token = ((tokenize input).filter
          fun t ↦ t.kind = .tagOpen ∧ t.value = kind) ∧
        (built.root.findAll kind).Pairwise (·.position < ·.position)) ∧
    ∀ n : Node, n.preorder = n :: n.descendants ∧
      n.descendants = n.children.flatMap Node.preorder ∧
      (∀ m, m ∈ n.descendants ↔ Relation.TransGen Node.ParentOf n m) ∧
      (∀ kind, n.findAll kind = n.descendants.filter (·.kind = kind) ∧ n ∉ n.findAll kind) ∧
      n.texts = n.preorder.filterMap Node.text ∧
      n.textContent = String.intercalate " " n.texts := by
  refine ⟨fun input maxDepth built h ↦ ⟨?_, fun kind hkind ↦ ?_⟩,
    fun n ↦ ⟨n.preorder_eq, Node.preorderAll_eq_flatMap n.children,
      fun m ↦ Node.mem_descendants_iff, fun kind ↦ ?_, n.texts_eq_filterMap, rfl⟩⟩
  · rw [Node.textContent, texts_of_build h]
  · exact ⟨map_token_findAll_of_build h hkind, pairwise_position_findAll_of_build h hkind⟩
  · rw [Node.findAll_eq_filter]
    exact ⟨rfl, fun h ↦ n.notMem_descendants (List.mem_of_mem_filter h)⟩

/-- An element inside another of its kind, closed under a wrong name, an element that is called as
the root is, and one that is called as the texts are. -/
theorem queries_of_build_crossed :
    let input := "<a>x<b>y</c><a/><document/></a>z<text/>"
    ∃ built, build 3 (tokenize input) = .ok built ∧ built.root.textContent = "x y z" ∧
      (built.root.findAll "a").map Node.token = [⟨.tagOpen, "a", 0⟩, ⟨.tagOpen, "a", 12⟩] ∧
      (built.root.findAll "a").Pairwise (·.position < ·.position) ∧
      (built.root.findAll "document").map Node.token = [⟨.tagOpen, "document", 16⟩] ∧
      built.root ∉ built.root.findAll "document" := by
  intro input
  obtain ⟨built, h⟩ : ∃ built, build 3 (tokenize input) = .ok built := by
    have hbuilt : (build 3 (tokenize input)).toOption.isSome = true := by decide +kernel
    cases h : build 3 (tokenize input) with
    | error e => simp [h, Except.toOption] at hbuilt
    | ok built => exact ⟨built, rfl⟩
  obtain ⟨hanswers, hqueries⟩ := queries_of_build
  obtain ⟨htext, hfind⟩ := hanswers input 3 built h
  obtain ⟨ha, hrising⟩ := hfind "a" (by decide)
  obtain ⟨hdocument, -⟩ := hfind "document" (by decide)
  have hjoined : String.intercalate " "
      (((tokenize input).filter (·.kind = .text)).map Token.value) = "x y z" := by decide +kernel
  have hopened : ((tokenize input).filter fun t ↦ t.kind = .tagOpen ∧ t.value = "a") =
      [⟨.tagOpen, "a", 0⟩, ⟨.tagOpen, "a", 12⟩] := by decide +kernel
  have hnamed : ((tokenize input).filter fun t ↦ t.kind = .tagOpen ∧ t.value = "document") =
      [⟨.tagOpen, "document", 16⟩] := by decide +kernel
  exact ⟨built, h, htext.trans hjoined, ha.trans hopened, hrising, hdocument.trans hnamed,
    ((hqueries built.root).2.2.2.1 "document").2⟩

end Document

end AgentMarkup
