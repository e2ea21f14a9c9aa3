import AgentMarkup.Proofs.Validation.Conformance

/-!
Where the findings of a tree are. A path of a node is walked from the root, from child to child
by the indices, and each step names the kind of the node that it leaves (`NodePath.node?`). The
checked nodes with their paths, as the checker comes by them, are those that such a path leads
to without passing a node of kind `text` (`mem_checkedAmong_iff`), in document order: their
indices increase (`pairwise_checkedAmong`). Findings are the violations of these nodes, one node
after the other (`childFindings_eq_flatMap`).
-/

set_option autoImplicit false
set_option relaxedAutoImplicit false

namespace AgentMarkup

/-! ### Walking down a tree -/

/-- Walks down from a node, by the kind of each node that is left and an index among its
children. -/
def Node.descend (n : Node) : List (String × Nat) → Option Node
  | [] => some n
  | (kind, index) :: rest =>
    if n.kind = kind then n.children[index]?.bind (·.descend rest) else none

namespace NodePath

/-- The node of a tree that a path leads to. -/
def node? (p : NodePath) (root : Node) : Option Node :=
  root.children[p.first]?.bind (·.descend p.steps)

/-- The kinds of the nodes passed, outermost first. -/
def kinds (p : NodePath) : List String :=
  p.steps.map Prod.fst

/-- The indices of a path. Nodes are in document order as their indices are in the order of
lists, in which a list comes before those that it begins. -/
def indices (p : NodePath) : List Nat :=
  p.first :: p.steps.map Prod.snd

def extend (p : NodePath) (steps : List (String × Nat)) : NodePath :=
  { p with steps := p.steps ++ steps }

theorem extend_nil (p : NodePath) : p.extend [] = p := by
  rw [extend, List.append_nil]

theorem extend_child (p : NodePath) (kind : String) (index : Nat)
    (steps : List (String × Nat)) :
    (p.child kind index).extend steps = p.extend ((kind, index) :: steps) := by
  rw [extend, child, extend, List.append_assoc]
  rfl

theorem indices_extend (p : NodePath) (steps : List (String × Nat)) :
    (p.extend steps).indices = p.indices ++ steps.map Prod.snd := by
  rw [indices, extend, List.map_append]
  rfl

end NodePath

namespace Validation

variable {schemas : Table Schema}

/-! ### The nodes that are checked -/

mutual

/-- The checked nodes at a node and below it, with their paths. -/
def checkedFrom (place : NodePath) : Node → List (NodePath × Node)
  | ⟨kind, attributes, children, text, position⟩ =>
    if kind = Node.textKind then []
    else (place, ⟨kind, attributes, children, text, position⟩) ::
      checkedAmong (place.child kind) 0 children

def checkedAmong (place : Nat → NodePath) (index : Nat) : List Node → List (NodePath × Node)
  | [] => []
  | n :: rest => checkedFrom (place index) n ++ checkedAmong place (index + 1) rest

end

/-- The findings at a node alone. -/
def findingsAt (schemas : Table Schema) (x : NodePath × Node) : List Finding :=
  (ownViolations schemas x.2.kind x.2.attributes).map (⟨some x.1, ·⟩)

mutual

theorem findings_eq_flatMap (place : NodePath) : ∀ n : Node,
    findings schemas place n = (checkedFrom place n).flatMap (findingsAt schemas)
  | ⟨kind, attributes, children, text, position⟩ => by
    rw [findings, checkedFrom]
    split
    · rfl
    · rw [List.flatMap_cons, childFindings_eq_flatMap (place.child kind) 0 children]
      rfl

/-- Findings are those of the checked nodes, one node after the other. -/
theorem childFindings_eq_flatMap (place : Nat → NodePath) (index : Nat) : ∀ nodes : List Node,
    childFindings schemas place index nodes =
      (checkedAmong place index nodes).flatMap (findingsAt schemas)
  | [] => by
    rw [childFindings, checkedAmong]
    rfl
  | n :: rest => by
    rw [childFindings, checkedAmong, List.flatMap_append, findings_eq_flatMap (place index) n,
      childFindings_eq_flatMap place (index + 1) rest]

end

theorem checked_cons_iff {kind : String} {kinds : List String} {n : Node}
    (hkind : kind ≠ Node.textKind) : Checked (kind :: kinds) n ↔ Checked kinds n := by
  unfold Checked
  rw [List.mem_cons, not_or]
  exact and_congr_right fun _ ↦ and_iff_right (Ne.symm hkind)

mutual

theorem mem_checkedFrom_iff {p : NodePath} {m : Node} (place : NodePath) : ∀ n : Node,
    (p, m) ∈ checkedFrom place n ↔ ∃ steps, p = place.extend steps ∧
      n.descend steps = some m ∧ Checked (steps.map Prod.fst) m
  | ⟨kind, attributes, children, text, position⟩ => by
    have hbelow := mem_checkedAmong_iff (p := p) (m := m) (place.child kind) 0 children
    rw [checkedFrom]
    split
    · rename_i htext
      refine iff_of_false List.not_mem_nil ?_
      rintro ⟨steps, -, hdescend, hchecked⟩
      cases steps with
      | nil => exact hchecked.1 (Option.some.inj hdescend ▸ htext)
      | cons step rest =>
        obtain ⟨name, index⟩ := step
        simp only [Node.descend, Option.ite_none_right_eq_some] at hdescend
        exact hchecked.2 (List.mem_cons.mpr (Or.inl (htext.symm.trans hdescend.1)))
    · rename_i hkind
      rw [List.mem_cons, Prod.mk.injEq, hbelow]
      constructor
      · rintro (⟨rfl, rfl⟩ | ⟨i, steps, n, rfl, hn, hdescend, hchecked⟩)
        · exact ⟨[], (NodePath.extend_nil p).symm, rfl, hkind, List.not_mem_nil⟩
        · refine ⟨(kind, i) :: steps, ?_, ?_, (checked_cons_iff hkind).mpr hchecked⟩
          · rw [NodePath.extend_child, Nat.zero_add]
          · simp only [Node.descend, if_true, hn, Option.bind_some, hdescend]
      · rintro ⟨steps, rfl, hdescend, hchecked⟩
        cases steps with
        | nil => exact Or.inl ⟨place.extend_nil, (Option.some.inj hdescend).symm⟩
        | cons step rest =>
          obtain ⟨name, index⟩ := step
          simp only [Node.descend, Option.ite_none_right_eq_some] at hdescend
          obtain ⟨rfl, hdescend⟩ := hdescend
          obtain ⟨n, hn, hdescend⟩ := Option.bind_eq_some_iff.mp hdescend
          refine Or.inr ⟨index, rest, n, ?_, hn, hdescend, (checked_cons_iff hkind).mp hchecked⟩
          rw [NodePath.extend_child, Nat.zero_add]

/-- The checked nodes among the children are those that steps lead to from one of them, without
passing a node of kind `text`. -/
theorem mem_checkedAmong_iff {p : NodePath} {m : Node} (place : Nat → NodePath) (index : Nat) :
    ∀ nodes : List Node, (p, m) ∈ checkedAmong place index nodes ↔
      ∃ i steps n, p = (place (index + i)).extend steps ∧ nodes[i]? = some n ∧
        n.descend steps = some m ∧ Checked (steps.map Prod.fst) m
  | [] => by
    rw [checkedAmong]
    refine iff_of_false List.not_mem_nil ?_
    rintro ⟨i, steps, n, -, hn, -⟩
    simp at hn
  | first :: rest => by
    rw [checkedAmong, List.mem_append, mem_checkedFrom_iff (place index) first,
      mem_checkedAmong_iff place (index + 1) rest]
    constructor
    · rintro (⟨steps, hp, h⟩ | ⟨i, steps, n, hp, hn, h⟩)
      · exact ⟨0, steps, first, hp, rfl, h⟩
      · refine ⟨i + 1, steps, n, ?_, hn, h⟩
        rwa [Nat.add_comm i 1, ← Nat.add_assoc]
    · rintro ⟨i, steps, n, hp, hn, h⟩
      cases i with
      | zero =>
        obtain rfl := Option.some.inj hn
        exact Or.inl ⟨steps, hp, h⟩
      | succ i =>
        refine Or.inr ⟨i, steps, n, ?_, hn, h⟩
        rwa [Nat.add_assoc, Nat.add_comm 1 i]

end

/-- The checked nodes of a tree are those that a path leads to without passing a node of kind
`text`. -/
theorem mem_checked_iff {root m : Node} {p : NodePath} :
    (p, m) ∈ checkedAmong (⟨·, []⟩) 0 root.children ↔
      p.node? root = some m ∧ Checked p.kinds m := by
  rw [mem_checkedAmong_iff]
  constructor
  · rintro ⟨i, steps, n, rfl, hn, hdescend, hchecked⟩
    refine ⟨?_, hchecked⟩
    rw [NodePath.node?, NodePath.extend, List.nil_append, Nat.zero_add, hn]
    exact hdescend
  · rintro ⟨hnode, hchecked⟩
    obtain ⟨n, hn, hdescend⟩ := Option.bind_eq_some_iff.mp hnode
    refine ⟨p.first, p.steps, n, ?_, hn, hdescend, hchecked⟩
    rw [NodePath.extend, List.nil_append, Nat.zero_add]

/-! ### Document order -/

theorem append_lt_append_cons {base rest others : List Nat} {i j : Nat} (h : i < j) :
    base ++ i :: rest < base ++ j :: others :=
  List.append_left_lt (List.cons_lt_cons_iff.mpr (Or.inl h))

mutual

theorem pairwise_checkedFrom (place : NodePath) : ∀ n : Node,
    (checkedFrom place n).Pairwise (·.1.indices < ·.1.indices)
  | ⟨kind, attributes, children, text, position⟩ => by
    have hplace (i : Nat) : (place.child kind i).indices = place.indices ++ [i] := by
      rw [← NodePath.extend_nil (place.child kind i), NodePath.extend_child,
        NodePath.indices_extend]
      rfl
    rw [checkedFrom]
    split
    · exact List.Pairwise.nil
    · refine List.pairwise_cons.mpr ⟨?_, pairwise_checkedAmong hplace 0 children⟩
      rintro ⟨q, m⟩ hq
      obtain ⟨i, steps, n, rfl, -⟩ := (mem_checkedAmong_iff _ 0 children).mp hq
      rw [NodePath.extend_child, NodePath.indices_extend]
      nth_rewrite 1 [← List.append_nil place.indices]
      exact List.append_left_lt (List.nil_lt_cons _ _)

/-- The checker comes by the nodes in document order. -/
theorem pairwise_checkedAmong {place : Nat → NodePath} {base : List Nat}
    (hplace : ∀ i, (place i).indices = base ++ [i]) (index : Nat) : ∀ nodes : List Node,
    (checkedAmong place index nodes).Pairwise (·.1.indices < ·.1.indices)
  | [] => by
    rw [checkedAmong]
    exact List.Pairwise.nil
  | first :: rest => by
    rw [checkedAmong]
    refine List.pairwise_append.mpr ⟨pairwise_checkedFrom (place index) first,
      pairwise_checkedAmong hplace (index + 1) rest, ?_⟩
    rintro ⟨p, m⟩ hp ⟨q, n⟩ hq
    obtain ⟨steps, rfl, -⟩ := (mem_checkedFrom_iff _ first).mp hp
    obtain ⟨i, others, _, rfl, -⟩ := (mem_checkedAmong_iff _ _ rest).mp hq
    rw [NodePath.indices_extend, NodePath.indices_extend, hplace, hplace, List.append_assoc,
      List.append_assoc]
    exact append_lt_append_cons (by omega)

end

end Validation

end AgentMarkup
