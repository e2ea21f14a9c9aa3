import AgentMarkup.Document.Build
import AgentMarkup.Proofs.Table

/-!
The attributes that directly follow a tag. `AttributeRun` says which tokens they are: names,
each with the value right after it or with the empty one, for as long as there are names.
Every list of tokens begins with exactly one such run, it is the one that the builder takes
(`takeAttributes_of_attributeRun`), and whether a tag closes itself hangs on the token after
it (`isSelfClosed_iff`).
-/

set_option autoImplicit false
set_option relaxedAutoImplicit false

namespace AgentMarkup

namespace Document

/-- The names and values at the head of a list of tokens, and the tokens after them. -/
inductive AttributeRun : List Token → List (String × String) → List Token → Prop
  | ended {rest : List Token} (h : ∀ t ∈ rest.head?, t.kind ≠ .attrName) :
    AttributeRun rest [] rest
  | valued {name value : String} {p q : Nat} {rest after : List Token}
    {run : List (String × String)} (h : AttributeRun rest run after) :
    AttributeRun (⟨.attrName, name, p⟩ :: ⟨.attrValue, value, q⟩ :: rest) ((name, value) :: run)
      after
  | bare {name : String} {p : Nat} {rest after : List Token} {run : List (String × String)}
    (hvalue : ∀ t ∈ rest.head?, t.kind ≠ .attrValue) (h : AttributeRun rest run after) :
    AttributeRun (⟨.attrName, name, p⟩ :: rest) ((name, "") :: run) after

/-- Whether a tag followed by these tokens closes itself: its attributes end in the mark. -/
def ClosesItself (rest : List Token) : Prop :=
  ∃ run after, AttributeRun rest run after ∧ ∃ t ∈ after.head?, t.kind = .selfClose

theorem takeAttributes_of_head (found : Table String) {rest : List Token}
    (h : ∀ t ∈ rest.head?, t.kind ≠ .attrName) : takeAttributes found rest = (found, rest) := by
  cases rest with
  | nil => rfl
  | cons t rest =>
    obtain ⟨kind, value, position⟩ := t
    have hkind : kind ≠ .attrName := h _ rfl
    cases kind <;> first | exact absurd rfl hkind | rfl

theorem takeAttributes_bare (found : Table String) (name : String) (p : Nat)
    {rest : List Token} (h : ∀ t ∈ rest.head?, t.kind ≠ .attrValue) :
    takeAttributes found (⟨.attrName, name, p⟩ :: rest) =
      takeAttributes (found.insert name "") rest := by
  cases rest with
  | nil => rfl
  | cons t rest =>
    obtain ⟨kind, value, position⟩ := t
    have hkind : kind ≠ .attrValue := h _ rfl
    cases kind <;> first | exact absurd rfl hkind | rfl

/-- The builder takes the whole run, a later value of a name in place of an earlier one. -/
theorem takeAttributes_of_attributeRun {rest after : List Token} {run : List (String × String)}
    (h : AttributeRun rest run after) (found : Table String) :
    takeAttributes found rest =
      (run.foldl (fun t entry ↦ t.insert entry.1 entry.2) found, after) := by
  induction h generalizing found with
  | ended h => exact takeAttributes_of_head found h
  | valued h ih => exact ih _
  | bare hvalue h ih =>
    rw [takeAttributes_bare found _ _ hvalue]
    exact ih _

theorem head_kind_ne {rest : List Token} {kind : Token.Kind}
    (h : ∀ value position others, rest = ⟨kind, value, position⟩ :: others → False) :
    ∀ t ∈ rest.head?, t.kind ≠ kind := by
  rintro ⟨other, value, position⟩ ht rfl
  exact h value position rest.tail (List.eq_cons_of_mem_head? ht)

theorem exists_attributeRun (tokens : List Token) : ∃ run after, AttributeRun tokens run after := by
  fun_induction takeAttributes .empty tokens with
  | case1 found name p value q rest ih =>
    obtain ⟨run, after, hrun⟩ := ih
    exact ⟨_, _, .valued hrun⟩
  | case2 found name p rest hvalue ih =>
    obtain ⟨run, after, hrun⟩ := ih
    exact ⟨_, _, .bare (head_kind_ne hvalue) hrun⟩
  | case3 found rest _ hname => exact ⟨_, _, .ended (head_kind_ne hname)⟩

theorem isSelfClosed_of_attributeRun {rest after : List Token} {run : List (String × String)}
    (h : AttributeRun rest run after) :
    isSelfClosed rest = true ↔ ∃ t ∈ after.head?, t.kind = .selfClose := by
  rw [isSelfClosed, takeAttributes_of_attributeRun h]
  cases after with
  | nil => simp
  | cons t after =>
    obtain ⟨kind, value, position⟩ := t
    cases kind <;> simp

theorem isSelfClosed_iff (rest : List Token) : isSelfClosed rest = true ↔ ClosesItself rest := by
  constructor
  · intro h
    obtain ⟨run, after, hrun⟩ := exists_attributeRun rest
    exact ⟨run, after, hrun, (isSelfClosed_of_attributeRun hrun).mp h⟩
  · rintro ⟨run, after, hrun, hmark⟩
    exact (isSelfClosed_of_attributeRun hrun).mpr hmark

instance (rest : List Token) : Decidable (ClosesItself rest) :=
  decidable_of_iff _ (isSelfClosed_iff rest)

end Document

end AgentMarkup
