import AgentMarkup.Proofs.Document.Family
import AgentMarkup.Proofs.Token.Content

/-!
The kinds in a tree that was read. The scanner cuts the name of an opening tag to letters,
digits and hyphens (`named_tokenize`), and the other token that makes a node makes a text, so
every node below the root of a built tree has a kind of such characters
(`named_kind_of_build`).
-/

set_option autoImplicit false
set_option relaxedAutoImplicit false

namespace AgentMarkup

namespace Token

/-- Names as the scanner cuts them. -/
def Named (name : String) : Prop :=
  ∀ c ∈ name.toList, isNameChar c = true

theorem kind_of_mem_ofContent {run : List Glyph} {t : Token} (h : t ∈ ofContent run) :
    t.kind = .text := by
  unfold ofContent at h
  split at h
  · exact absurd h List.not_mem_nil
  · rw [List.mem_singleton.mp h]

theorem kind_ne_of_mem_scanAttribute {g : Glyph} {gs : List Glyph} {t : Token}
    (h : t ∈ (scanAttribute g gs).1) : t.kind ≠ .tagOpen := by
  unfold scanAttribute at h
  split at h
  · exact absurd h List.not_mem_nil
  · split at h
    · exact absurd h List.not_mem_nil
    · simp only [ofAttribute, List.mem_cons, List.not_mem_nil, or_false] at h
      rcases h with rfl | rfl <;> simp

/-- After its name a tag gives no token that opens one. -/
theorem kind_ne_of_mem_scanBody {gs : List Glyph} {t : Token} (h : t ∈ (scanBody gs).1) :
    t.kind ≠ .tagOpen := by
  fun_induction scanBody gs with
  | case1 => exact absurd h List.not_mem_nil
  | case2 g gs _ ih => exact ih h
  | case3 g gs => simp [List.mem_singleton.mp h]
  | case4 g gs => simp [List.mem_singleton.mp h]
  | case5 => exact absurd h List.not_mem_nil
  | case6 g gs _ _ _ _ _ _ ih =>
    rcases List.mem_append.mp h with hattribute | hrest
    · exact kind_ne_of_mem_scanAttribute hattribute
    · exact ih hrest
  | case7 g gs _ _ _ _ _ ih => exact ih h

theorem named_of_mem_scanTag {g : Glyph} {gs : List Glyph} {t : Token}
    (h : t ∈ (scanTag g gs).1) (hkind : t.kind = .tagOpen) : Named t.value := by
  rcases List.mem_cons.mp h with rfl | hbody
  · intro c hc
    rw [Glyph.spell, String.toList_ofList] at hc
    obtain ⟨glyph, hglyph, rfl⟩ := List.mem_map.mp hc
    have hname := List.mem_takeWhile_imp hglyph
    exact hname
  · exact absurd hkind (kind_ne_of_mem_scanBody hbody)

theorem named_of_mem_scan {gs : List Glyph} {t : Token} (h : t ∈ scan gs)
    (hkind : t.kind = .tagOpen) : Named t.value := by
  have hcontent (run : List Glyph) (hrun : t ∈ ofContent run) : Named t.value := by
    rw [kind_of_mem_ofContent hrun] at hkind
    exact absurd hkind (by simp)
  fun_induction scan gs with
  | case1 gs run hsplit => exact hcontent run h
  | case2 gs run g rest hsplit _ _ ih =>
    rcases List.mem_append.mp h with hrun | hrest
    · exact hcontent run hrun
    · rcases List.mem_append.mp hrest with htag | hrest
      · exact named_of_mem_scanTag htag hkind
      · exact ih hrest

/-- The name of an opening tag holds letters, digits and hyphens only. -/
theorem named_tokenize {input : String} {t : Token} (h : t ∈ tokenize input)
    (hkind : t.kind = .tagOpen) : Named t.value :=
  named_of_mem_scan h hkind

end Token

namespace Document

theorem mem_of_mem_nodeTokens {tokens : List Token} {source : Token × List Token}
    (h : source ∈ nodeTokens tokens) : source.1 ∈ tokens := by
  induction tokens with
  | nil => exact absurd h List.not_mem_nil
  | cons t rest ih =>
    obtain ⟨kind, value, position⟩ := t
    cases kind with
    | tagOpen | text =>
      rcases List.mem_cons.mp h with rfl | hrest
      · exact List.mem_cons_self
      · exact List.mem_cons_of_mem _ (ih hrest)
    | tagClose | attrName | attrValue | selfClose | tagEnd => exact List.mem_cons_of_mem _ (ih h)

/-- Below the root of a tree that was read stand texts, and elements with the names of their
tags. -/
theorem named_kind_of_build {maxDepth : Nat} {input : String} {built : Built}
    (h : build maxDepth (tokenize input) = .ok built) {parent : Option Nat} {n : Node}
    (hn : (parent, n) ∈ Node.familyAll none 0 built.root.children) :
    Token.Named n.kind := by
  obtain ⟨children, hroot, hnodes, -⟩ := shells_of_build h
  rw [hroot] at hn
  have hshell : n.shell ∈ (Node.shells none 0 children).map Prod.snd :=
    List.mem_map_of_mem (List.mem_map_of_mem hn)
  rw [hnodes] at hshell
  obtain ⟨source, hsource, heq⟩ := List.mem_map.mp hshell
  have hyields := yields_of_shell (kind_of_mem_nodeTokens hsource) heq.symm
  have hmem := mem_of_mem_nodeTokens hsource
  obtain ⟨t, rest⟩ := source
  cases hyields with
  | element => exact Token.named_tokenize hmem rfl
  | text =>
    have hletters : Node.textKind.toList.all Token.isNameChar = true := by decide
    exact List.all_eq_true.mp hletters

end Document

end AgentMarkup
