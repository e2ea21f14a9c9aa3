import AgentMarkup.Proofs.Document.AttributeRun
import AgentMarkup.Proofs.Token.Moved

/-!
The builder does not read positions. If each token is moved to another place, the tree, the
issues and the fault of nesting are the same and move with the tokens that they come from
(`build_map_moved`). Only the root keeps its place, the beginning of the document.
-/

set_option autoImplicit false
set_option relaxedAutoImplicit false

namespace AgentMarkup

namespace Node

mutual

def moved (f : Nat → Nat) : Node → Node
  | ⟨kind, attributes, children, text, position⟩ =>
    ⟨kind, attributes, movedAll f children, text, f position⟩

def movedAll (f : Nat → Nat) : List Node → List Node
  | [] => []
  | n :: rest => n.moved f :: movedAll f rest

end

theorem movedAll_eq_map (f : Nat → Nat) (nodes : List Node) :
    movedAll f nodes = nodes.map (moved f) := by
  induction nodes with
  | nil => rfl
  | cons n rest ih => rw [movedAll, ih, List.map_cons]

theorem moved_element (f : Nat → Nat) (kind : String) (attributes : Table String)
    (children : List Node) (position : Nat) :
    (element kind attributes children position).moved f =
      element kind attributes (children.map (moved f)) (f position) := by
  rw [element, element, moved, movedAll_eq_map]

end Node

def Issue.moved (f : Nat → Nat) : Issue → Issue
  | .mismatchedClose expected found position => .mismatchedClose expected found (f position)
  | .unexpectedClose found position => .unexpectedClose found (f position)
  | .unclosed kind position => .unclosed kind (f position)

def DepthExceeded.moved (f : Nat → Nat) (e : DepthExceeded) : DepthExceeded :=
  { e with position := f e.position }

/-- The root is no element of the input: its position is not moved. -/
def Built.moved (f : Nat → Nat) (b : Built) : Built :=
  ⟨{ b.root with children := b.root.children.map (Node.moved f) }, b.issues.map (Issue.moved f)⟩

namespace Document

/-- What comes of moved tokens, if this comes of the tokens themselves. -/
def movedOutcome {α : Type} (move : (Nat → Nat) → α → α) (f : Nat → Nat) :
    Except DepthExceeded α → Except DepthExceeded α
  | .ok a => .ok (move f a)
  | .error e => .error (e.moved f)

variable (f : Nat → Nat)

theorem head_kind_ne_map_moved {rest : List Token} {kind : Token.Kind}
    (h : ∀ t ∈ rest.head?, t.kind ≠ kind) :
    ∀ t ∈ (rest.map (Token.moved f)).head?, t.kind ≠ kind := by
  cases rest with
  | nil => exact h
  | cons t rest =>
    rintro _ ⟨⟩
    exact h t rfl

theorem AttributeRun.map_moved {rest after : List Token} {run : List (String × String)}
    (h : AttributeRun rest run after) :
    AttributeRun (rest.map (Token.moved f)) run (after.map (Token.moved f)) := by
  induction h with
  | ended h => exact .ended (head_kind_ne_map_moved f h)
  | valued _ ih => exact .valued ih
  | bare hvalue _ ih => exact .bare (head_kind_ne_map_moved f hvalue) ih

theorem takeAttributes_map_moved (found : Table String) (tokens : List Token) :
    takeAttributes found (tokens.map (Token.moved f)) =
      ((takeAttributes found tokens).1, (takeAttributes found tokens).2.map (Token.moved f)) := by
  obtain ⟨run, after, hrun⟩ := exists_attributeRun tokens
  rw [takeAttributes_of_attributeRun hrun, takeAttributes_of_attributeRun (hrun.map_moved f)]

theorem isSelfClosed_map_moved (tokens : List Token) :
    isSelfClosed (tokens.map (Token.moved f)) = isSelfClosed tokens := by
  rw [isSelfClosed, isSelfClosed, takeAttributes_map_moved]
  cases (takeAttributes .empty tokens).2 with
  | nil => rfl
  | cons t rest =>
    obtain ⟨kind, value, position⟩ := t
    cases kind <;> rfl

namespace Frame

def moved (frame : Frame) : Frame :=
  ⟨frame.kind, frame.attributes, f frame.position, frame.children.map (Node.moved f)⟩

theorem close_moved (frame : Frame) : (frame.moved f).close = frame.close.moved f := by
  rw [close, close, Node.moved_element, List.map_reverse]
  rfl

end Frame

namespace BuildState

def moved (s : BuildState) : BuildState :=
  ⟨s.frames.map (Frame.moved f), s.finished.map (Node.moved f), s.issues.map (Issue.moved f)⟩

theorem append_moved (s : BuildState) (n : Node) :
    (s.moved f).append (n.moved f) = (s.append n).moved f := by
  obtain ⟨frames, finished, issues⟩ := s
  cases frames <;> rfl

theorem note_moved (s : BuildState) (i : Issue) :
    (s.moved f).note (i.moved f) = (s.note i).moved f := rfl

theorem openTag_moved (limit : Nat) (s : BuildState) (kind : String) (position : Nat)
    (rest : List Token) :
    (s.moved f).openTag limit kind (f position) (rest.map (Token.moved f)) =
      movedOutcome moved f (s.openTag limit kind position rest) := by
  have hlength : (s.moved f).frames.length = s.frames.length := List.length_map _
  rw [openTag, openTag, hlength, isSelfClosed_map_moved, takeAttributes_map_moved]
  split_ifs with hlimit hself
  · rfl
  · have happend := append_moved f s (.element kind (takeAttributes .empty rest).1 [] position)
    rw [Node.moved_element] at happend
    exact congrArg Except.ok happend
  · rfl

theorem closeTag_moved (s : BuildState) (found : String) (position : Nat) :
    (s.moved f).closeTag found (f position) = (s.closeTag found position).moved f := by
  obtain ⟨frames, finished, issues⟩ := s
  cases frames with
  | nil => rfl
  | cons frame frames =>
    have hclosed := append_moved f ⟨frames, finished, issues⟩ frame.close
    rw [← Frame.close_moved] at hclosed
    rw [closeTag, closeTag]
    simp only [moved, List.map_cons] at hclosed ⊢
    rw [hclosed]
    split_ifs with hmoved hfits hfits
    · rfl
    · exact absurd hmoved hfits
    · exact absurd hfits hmoved
    · exact note_moved f _ (.mismatchedClose frame.kind found position)

theorem step_moved (limit : Nat) (s : BuildState) (t : Token) (rest : List Token) :
    (s.moved f).step limit (t.moved f) (rest.map (Token.moved f)) =
      movedOutcome moved f (s.step limit t rest) := by
  obtain ⟨kind, value, position⟩ := t
  cases kind with
  | tagOpen => exact openTag_moved f limit s value position rest
  | tagClose => exact congrArg Except.ok (closeTag_moved f s value position)
  | text => exact congrArg Except.ok (append_moved f s (.leaf value position))
  | attrName | attrValue | selfClose | tagEnd => rfl

theorem run_moved (limit : Nat) (s : BuildState) (tokens : List Token) :
    (s.moved f).run limit (tokens.map (Token.moved f)) =
      movedOutcome moved f (s.run limit tokens) := by
  induction tokens generalizing s with
  | nil => rfl
  | cons t rest ih =>
    rw [List.map_cons, run, run, step_moved]
    cases s.step limit t rest with
    | error e => rfl
    | ok next => exact ih next

theorem collapse_moved (inner finished : List Node) (frames : List Frame) :
    collapse (inner.map (Node.moved f)) (finished.map (Node.moved f))
        (frames.map (Frame.moved f)) = (collapse inner finished frames).map (Node.moved f) := by
  induction frames generalizing inner with
  | nil => exact List.map_append.symm
  | cons frame frames ih =>
    have hframe : { frame.moved f with
        children := inner.map (Node.moved f) ++ (frame.moved f).children } =
        Frame.moved f { frame with children := inner ++ frame.children } := by
      simp only [Frame.moved, List.map_append]
    rw [List.map_cons, collapse, collapse, hframe, Frame.close_moved]
    exact ih [_]

theorem finish_moved (s : BuildState) : (s.moved f).finish = s.finish.moved f := by
  rw [finish, finish, Built.moved]
  have htree := collapse_moved f [] s.finished s.frames
  have hissues : (s.moved f).issues = s.issues.map (Issue.moved f) := rfl
  have hframes : (s.moved f).frames = s.frames.map (Frame.moved f) := rfl
  have hfinished : (s.moved f).finished = s.finished.map (Node.moved f) := rfl
  rw [List.map_nil] at htree
  simp only [hissues, hframes, hfinished, htree, Node.document, Node.element, List.map_append,
    List.map_reverse, List.map_map]
  rfl

end BuildState

/-- Trees, issues and faults of nesting move with the tokens that they are built from. -/
theorem build_map_moved (maxDepth : Nat) (tokens : List Token) :
    build maxDepth (tokens.map (Token.moved f)) =
      movedOutcome Built.moved f (build maxDepth tokens) := by
  have hrun := BuildState.run_moved f (max maxDepth 1) .start tokens
  have hstart : BuildState.start.moved f = BuildState.start := rfl
  rw [hstart] at hrun
  rw [build, build, hrun]
  cases BuildState.start.run (max maxDepth 1) tokens with
  | error e => rfl
  | ok s => exact congrArg Except.ok (BuildState.finish_moved f s)

end Document

end AgentMarkup
