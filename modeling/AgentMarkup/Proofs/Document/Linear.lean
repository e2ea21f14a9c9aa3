import AgentMarkup.Proofs.Document.AttributeRun
import AgentMarkup.Proofs.Document.Shape

/-!
The tokens of trees, and what the builder makes of them. `Linear` lays siblings out as
tokens: an element is its opening tag, its attributes in any order and either the mark that
closes it at once or its children between the end of its tag and a closing tag of its kind.
Where the builder meets such tokens, at whatever depth leaves room for the elements, it puts
exactly these siblings into the innermost open element and notes nothing
(`run_of_linear`).
-/

set_option autoImplicit false
set_option relaxedAutoImplicit false

namespace AgentMarkup

namespace Document

/-! ### Tokens of attributes -/

/-- A name and a value token for each entry. -/
inductive AttributeTokens : List (String × String) → List Token → Prop
  | nil : AttributeTokens [] []
  | cons {name value : String} {p q : Nat} {entries : List (String × String)}
    {tokens : List Token} (h : AttributeTokens entries tokens) :
    AttributeTokens ((name, value) :: entries)
      (⟨.attrName, name, p⟩ :: ⟨.attrValue, value, q⟩ :: tokens)

theorem AttributeTokens.attributeRun {entries : List (String × String)} {tokens rest : List Token}
    (h : AttributeTokens entries tokens) (hrest : ∀ t ∈ rest.head?, t.kind ≠ .attrName) :
    AttributeRun (tokens ++ rest) entries rest := by
  induction h with
  | nil => exact .ended hrest
  | cons h ih => exact .valued ih

theorem AttributeTokens.takeAttributes {entries : List (String × String)}
    {attributes : Table String} {tokens rest : List Token} (h : AttributeTokens entries tokens)
    (hperm : entries.Perm attributes.entries) (hrest : ∀ t ∈ rest.head?, t.kind ≠ .attrName) :
    (takeAttributes .empty (tokens ++ rest)).1 = attributes := by
  rw [takeAttributes_of_attributeRun (h.attributeRun hrest)]
  exact Table.ofList_eq_of_perm hperm

/-! ### Tokens of trees -/

/-- The tokens of siblings, at whatever positions their ends and closing tags are. -/
inductive Linear : List Node → List Token → Prop
  | nil : Linear [] []
  | text {text : String} {position : Nat} {nodes : List Node} {tokens : List Token}
    (h : Linear nodes tokens) :
    Linear (.leaf text position :: nodes) (⟨.text, text, position⟩ :: tokens)
  | paired {kind : String} {attributes : Table String} {children nodes : List Node}
    {position p q r : Nat} {entries : List (String × String)} {run inner tokens : List Token}
    (hperm : entries.Perm attributes.entries) (hrun : AttributeTokens entries run)
    (hinner : Linear children inner) (h : Linear nodes tokens) :
    Linear (.element kind attributes children position :: nodes)
      (⟨.tagOpen, kind, position⟩ :: (run ++ ⟨.tagEnd, ">", p⟩ ::
        (inner ++ ⟨.tagClose, kind, q⟩ :: ⟨.tagEnd, ">", r⟩ :: tokens)))
  | single {kind : String} {attributes : Table String} {nodes : List Node}
    {position p : Nat} {entries : List (String × String)} {run tokens : List Token}
    (hperm : entries.Perm attributes.entries) (hrun : AttributeTokens entries run)
    (h : Linear nodes tokens) :
    Linear (.element kind attributes [] position :: nodes)
      (⟨.tagOpen, kind, position⟩ :: (run ++ ⟨.selfClose, "/>", p⟩ :: tokens))

namespace BuildState

/-- A state with one more open element, which has no children yet. -/
def opened (s : BuildState) (kind : String) (attributes : Table String) (position : Nat) :
    BuildState :=
  { s with frames := ⟨kind, attributes, position, []⟩ :: s.frames }

theorem length_frames_append (s : BuildState) (n : Node) :
    (s.append n).frames.length = s.frames.length := by
  obtain ⟨frames, finished, issues⟩ := s
  cases frames <;> rfl

/-- Siblings that are put into an open element become its newest children. -/
theorem foldl_append_frame (f : Frame) (frames : List Frame) (finished : List Node)
    (issues : List Issue) (nodes : List Node) :
    nodes.foldl append ⟨f :: frames, finished, issues⟩ =
      ⟨{ f with children := nodes.reverse ++ f.children } :: frames, finished, issues⟩ := by
  induction nodes generalizing f with
  | nil => rfl
  | cons n nodes ih =>
    rw [List.foldl_cons, append, ih, List.reverse_cons, List.append_assoc]
    rfl

theorem foldl_append_start (nodes : List Node) :
    nodes.foldl append start = ⟨[], nodes.reverse, []⟩ := by
  have hgrow (finished : List Node) :
      nodes.foldl append ⟨[], finished, []⟩ = ⟨[], nodes.reverse ++ finished, []⟩ := by
    induction nodes generalizing finished with
    | nil => rfl
    | cons n nodes ih =>
      rw [List.foldl_cons, append, ih, List.reverse_cons, List.append_assoc]
      rfl
  rw [start, hgrow, List.append_nil]

theorem run_attributes (limit : Nat) (s : BuildState) {entries : List (String × String)}
    {tokens : List Token} (h : AttributeTokens entries tokens) (rest : List Token) :
    s.run limit (tokens ++ rest) = s.run limit rest := by
  induction h with
  | nil => rfl
  | cons h ih => exact ih

/-- With room for one more element, an opening tag whose attributes end in the mark adds
its element whole. -/
theorem openTag_selfClosed {limit : Nat} {s : BuildState} (hroom : s.frames.length < limit)
    (kind : String) (position : Nat) {attributes : Table String}
    {entries : List (String × String)} {tokens rest : List Token}
    (hperm : entries.Perm attributes.entries) (h : AttributeTokens entries tokens)
    (hrest : ∃ t ∈ rest.head?, t.kind = .selfClose) :
    s.openTag limit kind position (tokens ++ rest) =
      .ok (s.append (.element kind attributes [] position)) := by
  have hhead : ∀ t ∈ rest.head?, t.kind ≠ .attrName := by
    obtain ⟨mark, hmark, hkind⟩ := hrest
    intro t ht
    rw [Option.mem_unique ht hmark, hkind]
    decide
  have hself := (isSelfClosed_of_attributeRun (h.attributeRun hhead)).mpr hrest
  rw [openTag, if_neg (Nat.not_le.mpr hroom), if_pos hself, h.takeAttributes hperm hhead]

/-- With room for one more element, an opening tag whose attributes end in anything else
opens its element. -/
theorem openTag_opened {limit : Nat} {s : BuildState} (hroom : s.frames.length < limit)
    (kind : String) (position : Nat) {attributes : Table String}
    {entries : List (String × String)} {tokens rest : List Token}
    (hperm : entries.Perm attributes.entries) (h : AttributeTokens entries tokens)
    (hrest : ∀ t ∈ rest.head?, t.kind ≠ .attrName ∧ t.kind ≠ .selfClose) :
    s.openTag limit kind position (tokens ++ rest) =
      .ok (s.opened kind attributes position) := by
  have hhead : ∀ t ∈ rest.head?, t.kind ≠ .attrName := fun t ht ↦ (hrest t ht).1
  have hself : ¬ isSelfClosed (tokens ++ rest) = true := by
    rw [isSelfClosed_of_attributeRun (h.attributeRun hhead)]
    rintro ⟨t, ht, hkind⟩
    exact (hrest t ht).2 hkind
  rw [openTag, if_neg (Nat.not_le.mpr hroom), if_neg hself, h.takeAttributes hperm hhead, opened]

/-- A closing tag of the right kind moves the innermost element, now complete, into the one
around it. -/
theorem closeTag_of_kind (s : BuildState) (kind : String) (attributes : Table String)
    (position : Nat) (children : List Node) (q : Nat) :
    closeTag { s with frames := ⟨kind, attributes, position, children.reverse⟩ :: s.frames }
      kind q = s.append (.element kind attributes children position) := by
  simp only [closeTag, Frame.close, List.reverse_reverse, if_true]

/-- The tokens of an element whose children the builder reads right inside it put the element
into the innermost open one. -/
theorem run_paired {limit : Nat} {s : BuildState} (hroom : s.frames.length < limit)
    {kind : String} {attributes : Table String} {children : List Node} {position p q r : Nat}
    {entries : List (String × String)} {run inner : List Token}
    (hperm : entries.Perm attributes.entries) (hrun : AttributeTokens entries run)
    (hinner : ∀ rest, (s.opened kind attributes position).run limit (inner ++ rest) =
      (children.foldl append (s.opened kind attributes position)).run limit rest)
    (rest : List Token) :
    s.run limit (⟨.tagOpen, kind, position⟩ :: (run ++ ⟨.tagEnd, ">", p⟩ ::
        (inner ++ ⟨.tagClose, kind, q⟩ :: ⟨.tagEnd, ">", r⟩ :: rest))) =
      (s.append (.element kind attributes children position)).run limit rest := by
  rw [BuildState.run, step]
  simp only
  rw [openTag_opened hroom kind position hperm hrun (by simp)]
  simp only
  rw [run_attributes limit _ hrun, BuildState.run, step]
  simp only
  rw [hinner, opened, foldl_append_frame]
  simp only [BuildState.run, step, List.append_nil]
  rw [closeTag_of_kind]

theorem run_single {limit : Nat} {s : BuildState} (hroom : s.frames.length < limit)
    {kind : String} {attributes : Table String} {position p : Nat}
    {entries : List (String × String)} {run : List Token}
    (hperm : entries.Perm attributes.entries) (hrun : AttributeTokens entries run)
    (rest : List Token) :
    s.run limit (⟨.tagOpen, kind, position⟩ :: (run ++ ⟨.selfClose, "/>", p⟩ :: rest)) =
      (s.append (.element kind attributes [] position)).run limit rest := by
  rw [BuildState.run, step]
  simp only
  rw [openTag_selfClosed hroom kind position hperm hrun (by simp)]
  simp only
  rw [run_attributes limit _ hrun, BuildState.run, step]

/-- The builder reads the tokens of siblings as these siblings, wherever they stand with room
for their elements. -/
theorem run_of_linear {limit : Nat} {nodes : List Node} {tokens : List Token}
    (h : Linear nodes tokens) {s : BuildState}
    (hroom : s.frames.length + Node.nestingAll nodes ≤ limit) (rest : List Token) :
    s.run limit (tokens ++ rest) = (nodes.foldl append s).run limit rest := by
  induction h generalizing s rest with
  | nil => rfl
  | @text text position nodes tokens h ih =>
    have hafter : (s.append (.leaf text position)).frames.length + Node.nestingAll nodes ≤
        limit := by
      rw [length_frames_append]
      exact Nat.le_trans (Nat.add_le_add_left (Nat.le_max_right _ _) _) hroom
    exact ih hafter rest
  | @paired kind attributes children nodes position p q r entries run inner tokens hperm hrun
      hinner h ihinner ih =>
    rw [Node.nestingAll, Node.element, Node.nesting] at hroom
    have hopen : s.frames.length < limit := by omega
    have hinside : (s.opened kind attributes position).frames.length +
        Node.nestingAll children ≤ limit := by
      rw [opened, List.length_cons]
      omega
    have hafter : (s.append (.element kind attributes children position)).frames.length +
        Node.nestingAll nodes ≤ limit := by
      rw [length_frames_append]
      omega
    simp only [List.cons_append, List.append_assoc]
    rw [run_paired hopen hperm hrun (ihinner hinside)]
    exact ih hafter rest
  | @single kind attributes nodes position p entries run tokens hperm hrun h ih =>
    rw [Node.nestingAll, Node.element, Node.nesting] at hroom
    have hopen : s.frames.length < limit := by omega
    have hafter : (s.append (.element kind attributes [] position)).frames.length +
        Node.nestingAll nodes ≤ limit := by
      rw [length_frames_append]
      omega
    simp only [List.cons_append, List.append_assoc]
    rw [run_single hopen hperm hrun]
    exact ih hafter rest

end BuildState

/-- Siblings whose elements are not nested too deep are what is built from their tokens. -/
theorem build_of_linear {maxDepth : Nat} {nodes : List Node} {tokens : List Token}
    (h : Linear nodes tokens) (hdepth : Node.nestingAll nodes ≤ max maxDepth 1) :
    build maxDepth tokens = .ok ⟨.document nodes, []⟩ := by
  have hroom : BuildState.start.frames.length + Node.nestingAll nodes ≤ max maxDepth 1 := by
    rw [BuildState.start, List.length_nil, Nat.zero_add]
    exact hdepth
  have hrun := BuildState.run_of_linear h hroom []
  rw [List.append_nil, BuildState.foldl_append_start, BuildState.run] at hrun
  rw [build, hrun]
  simp [Except.map, BuildState.finish, BuildState.collapse]

end Document

end AgentMarkup
