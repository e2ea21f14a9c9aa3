import AgentMarkup.Parser
import AgentMarkup.Proofs.Document.Family
import AgentMarkup.Proofs.Validation.Conformance

/-!
What a document that was read with validation guarantees. Every opening tag of the input has
its element in the tree (`exists_element_of_tagOpen`), and every node conforms to the
primitives in force that is not of kind `text` and has no node of that kind around it
(`conforms_of_parse`). The exception cannot be left out: an element may be called `text`, and
then neither it nor what it contains is checked (`not_conforms_inside_text`).
-/

set_option autoImplicit false
set_option relaxedAutoImplicit false

namespace AgentMarkup

/-! ### The elements of a built tree -/

namespace Node

mutual

theorem standsIn_of_mem_family (parent : Option Nat) (number : Nat) (member : Option Nat × Node) :
    ∀ n : Node, member ∈ n.family parent number → ∃ kinds, StandsIn [n] kinds member.2
  | ⟨kind, attributes, children, text, position⟩, h => by
    rw [family, List.mem_cons] at h
    rcases h with rfl | h
    · exact ⟨[], .here List.mem_cons_self⟩
    · obtain ⟨kinds, hkinds⟩ :=
        standsIn_of_mem_familyAll (some number) (number + 1) member children h
      exact ⟨kind :: kinds, standsIn_singleton_iff.mpr (Or.inr ⟨kinds, rfl, hkinds⟩)⟩

/-- The nodes listed in document order are those that stand somewhere in the forest. -/
theorem standsIn_of_mem_familyAll (parent : Option Nat) (number : Nat)
    (member : Option Nat × Node) :
    ∀ nodes : List Node, member ∈ familyAll parent number nodes →
      ∃ kinds, StandsIn nodes kinds member.2
  | [], h => by
    rw [familyAll] at h
    exact absurd h List.not_mem_nil
  | n :: rest, h => by
    rw [familyAll, List.mem_append] at h
    rcases h with h | h
    · obtain ⟨kinds, hkinds⟩ := standsIn_of_mem_family parent number member n h
      exact ⟨kinds, standsIn_cons_iff.mpr (Or.inl hkinds)⟩
    · obtain ⟨kinds, hkinds⟩ := standsIn_of_mem_familyAll parent _ member rest h
      exact ⟨kinds, standsIn_cons_iff.mpr (Or.inr hkinds)⟩

end

/-- The nodes one level down in a forest: the kind of the node around each, its own kind and
its text. -/
def nested (nodes : List Node) : List (String × String × Option String) :=
  nodes.flatMap fun around ↦ around.children.map fun n ↦ (around.kind, n.kind, n.text)

theorem exists_standsIn_of_mem_nested {nodes : List Node} {outer kind : String}
    {text : Option String} (h : (outer, kind, text) ∈ nested nodes) :
    ∃ n, StandsIn nodes [outer] n ∧ n.kind = kind ∧ n.text = text := by
  obtain ⟨around, haround, hmem⟩ := List.mem_flatMap.mp h
  obtain ⟨n, hn, heq⟩ := List.mem_map.mp hmem
  simp only [Prod.mk.injEq] at heq
  obtain ⟨rfl, rfl, rfl⟩ := heq
  exact ⟨n, .inside haround (.here hn), rfl, rfl⟩

end Node

namespace Document

theorem exists_mem_nodeTokens {tokens : List Token} {t : Token} (h : t ∈ tokens)
    (hkind : t.kind = .tagOpen) : ∃ rest, (t, rest) ∈ nodeTokens tokens := by
  induction tokens with
  | nil => exact absurd h List.not_mem_nil
  | cons other others ih =>
    rcases List.mem_cons.mp h with rfl | h
    · exact ⟨others, by simp [nodeTokens, hkind]⟩
    · obtain ⟨rest, hrest⟩ := ih h
      refine ⟨rest, ?_⟩
      rw [nodeTokens]
      split
      all_goals first | exact List.mem_cons_of_mem _ hrest | exact hrest

/-- Each opening tag of the input has its element somewhere in the tree. -/
theorem exists_element_of_tagOpen {maxDepth : Nat} {tokens : List Token} {built : Built}
    (h : build maxDepth tokens = .ok built) {t : Token} (ht : t ∈ tokens)
    (hkind : t.kind = .tagOpen) :
    ∃ kinds n, Node.StandsIn built.root.children kinds n ∧
      n.text = none ∧ n.kind = t.value ∧ n.position = t.position := by
  obtain ⟨children, hroot, hnodes, -⟩ := shells_of_build h
  obtain ⟨rest, hrest⟩ := exists_mem_nodeTokens ht hkind
  have hshell : shellOf (t, rest) ∈ (Node.shells none 0 children).map Prod.snd :=
    hnodes ▸ List.mem_map_of_mem hrest
  obtain ⟨_, hmember, heq⟩ := List.mem_map.mp hshell
  obtain ⟨⟨parent, n⟩, hn, rfl⟩ := List.mem_map.mp hmember
  obtain ⟨kinds, hkinds⟩ := Node.standsIn_of_mem_familyAll none 0 (parent, n) children hn
  refine ⟨kinds, n, by rw [hroot]; exact hkinds, ?_⟩
  obtain ⟨kind, attributes, inner, text, position⟩ := n
  simp only [shellOf, hkind] at heq
  cases text with
  | some text => simp [Node.shell, Node.element] at heq
  | none =>
    simp only [Node.shell, Node.element, Node.mk.injEq, true_and] at heq
    exact ⟨rfl, heq.1, heq.2.2⟩

end Document

/-! ### Documents read with validation -/

namespace Parser

theorem tree_judge_eq_some_iff {options : Options} {r : Registry} {built : Built}
    {tree : Node} : (judge options r built).tree = some tree ↔
      (options.strict = true → built.issues = []) ∧
      (options.validate = true → r.validate built.root = []) ∧ built.root = tree := by
  unfold judge
  by_cases hstrict : options.strict = true ∧ built.issues ≠ []
  · rw [if_pos hstrict]
    simp [Outcome.failure, hstrict]
  · rw [if_neg hstrict]
    have hissues : options.strict = true → built.issues = [] := by
      simpa only [not_and, not_not] using hstrict
    have hsuccess : (Outcome.success built.root).tree = some tree ↔ built.root = tree :=
      Option.some_inj
    by_cases hvalidate : options.validate = true
    · rw [if_pos hvalidate]
      cases hproblems : r.validate built.root with
      | nil => exact hsuccess.trans ⟨fun h ↦ ⟨hissues, fun _ ↦ rfl, h⟩, fun h ↦ h.2.2⟩
      | cons problem rest => simp [Outcome.failure, hvalidate]
    · rw [if_neg hvalidate]
      exact hsuccess.trans ⟨fun h ↦ ⟨hissues, fun h ↦ absurd h hvalidate, h⟩, fun h ↦ h.2.2⟩

/-- A reading gives a tree if there is some input, the nesting is within the limit, and what
the options ask for finds nothing; the tree is the one that was built. -/
theorem tree_parse_eq_some_iff {options : Options} {r : Registry} {input : String}
    {tree : Node} : (parse options r input).tree = some tree ↔
      input ≠ "" ∧ ∃ built, Document.build options.maxDepth (tokenize input) = .ok built ∧
        (options.strict = true → built.issues = []) ∧
        (options.validate = true → r.validate built.root = []) ∧ built.root = tree := by
  unfold parse
  split_ifs with hinput
  · simp [Outcome.failure, hinput]
  · cases hbuild : Document.build options.maxDepth (tokenize input) with
    | error e => simp [Outcome.failure]
    | ok built =>
      simp only [tree_judge_eq_some_iff, ne_eq, hinput, not_false_eq_true, true_and,
        Except.ok.injEq, exists_eq_left']

end Parser

/-- A document that was read with validation conforms to the primitives in force, each of its
elements on its own, but for elements of kind `text` and what stands inside them. -/
theorem conforms_of_parse {options : Parser.Options} {r : Registry} {input : String}
    {tree : Node} (hvalidate : options.validate = true)
    (h : (Parser.parse options r input).tree = some tree) :
    (∀ t ∈ tokenize input, t.kind = .tagOpen →
      ∃ kinds n, Node.StandsIn tree.children kinds n ∧
        n.text = none ∧ n.kind = t.value ∧ n.position = t.position) ∧
    ∀ kinds n, Node.StandsIn tree.children kinds n → Node.textKind ∉ n.kind :: kinds →
      r.Conforms n := by
  obtain ⟨-, built, hbuild, -, hvalid, rfl⟩ := Parser.tree_parse_eq_some_iff.mp h
  refine ⟨fun t ht hkind ↦ Document.exists_element_of_tagOpen hbuild ht hkind, ?_⟩
  obtain ⟨children, hroot, -⟩ := Document.shells_of_build hbuild
  have hnone := hvalid hvalidate
  rw [hroot] at hnone ⊢
  intro kinds n hn hplain
  rw [List.mem_cons, not_or] at hplain
  exact Registry.validate_document_eq_nil_iff.mp hnone kinds n hn ⟨Ne.symm hplain.1, hplain.2⟩

/-- A checked element inside one with a free kind. -/
theorem conforms_of_parse_card :
    let input := "<my-card>note<tool name=\"x\"/></my-card>"
    ∃ tree, (Parser.parse .standard .empty input).tree = some tree ∧
      ∃ n, Node.StandsIn tree.children ["my-card"] n ∧ n.kind = "tool" ∧
        Registry.empty.Conforms n := by
  intro input
  have hread : ((Parser.parse .standard .empty input).tree.map (Node.nested ·.children)) =
      some [("my-card", "text", some "note"), ("my-card", "tool", none)] := by decide +kernel
  obtain ⟨tree, htree, hnested⟩ := Option.map_eq_some_iff.mp hread
  have hmem : ("my-card", "tool", none) ∈ Node.nested tree.children := by simp [hnested]
  obtain ⟨n, hn, hkind, -⟩ := Node.exists_standsIn_of_mem_nested hmem
  refine ⟨tree, htree, n, hn, hkind, (conforms_of_parse rfl htree).2 _ n hn ?_⟩
  rw [hkind]
  decide

/-- An element called `text` is passed over, so an element of an unknown kind inside it is
not found. -/
theorem not_conforms_inside_text :
    let input := "<text a=\"b\"><widget/></text>"
    ∃ tree, (Parser.parse .standard .empty input).tree = some tree ∧
      ∃ n, Node.StandsIn tree.children ["text"] n ∧ n.text = none ∧ n.kind = "widget" ∧
        ¬ Registry.empty.Conforms n := by
  intro input
  have hread : ((Parser.parse .standard .empty input).tree.map (Node.nested ·.children)) =
      some [("text", "widget", none)] := by decide +kernel
  obtain ⟨tree, htree, hnested⟩ := Option.map_eq_some_iff.mp hread
  have hmem : ("text", "widget", none) ∈ Node.nested tree.children := by simp [hnested]
  obtain ⟨n, hn, hkind, htext⟩ := Node.exists_standsIn_of_mem_nested hmem
  refine ⟨tree, htree, n, hn, htext, hkind, fun hconforms ↦ ?_⟩
  have hknown := hconforms.known
  rw [hkind] at hknown
  have hunknown : (Registry.empty.primitive? "widget").isNone = true := by decide +kernel
  rcases hknown with ⟨schema, hschema⟩ | hyphen
  · rw [hschema] at hunknown
    exact absurd hunknown Bool.false_ne_true
  · exact absurd hyphen (by decide)

end AgentMarkup
