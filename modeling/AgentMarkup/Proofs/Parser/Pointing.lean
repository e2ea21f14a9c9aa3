import AgentMarkup.Proofs.Document.Nesting
import AgentMarkup.Proofs.Parser.Options
import AgentMarkup.Proofs.Token.Position
import Mathlib.Data.List.Perm.Subperm

/-!
Where diagnostics point. Only faults of nesting and of depth have a position, and each of them is
the fault of one tag: a closing tag that is mismatched or unexpected, an opening tag that is left
unclosed or leads too deep. Reading the brackets of a document charges no tag twice
(`tags_issuesOf_subperm`), tags are tokens, and tokens stand in the input where they say. So a
position is the place of the tag that the message quotes, and no other diagnostic of the report has
it. Main statement: `errors_point_at_tags`.
-/

set_option autoImplicit false
set_option relaxedAutoImplicit false

namespace AgentMarkup

/-! ### Tags at fault -/

/-- The tag that an issue is about. -/
def Issue.tag : Issue → Token
  | .mismatchedClose _ found position => ⟨.tagClose, found, position⟩
  | .unexpectedClose found position => ⟨.tagClose, found, position⟩
  | .unclosed kind position => ⟨.tagOpen, kind, position⟩

namespace Document

def Bracket.token : Bracket → Token
  | .opens tag => ⟨.tagOpen, tag.name, tag.position⟩
  | .closes tag => ⟨.tagClose, tag.name, tag.position⟩

theorem tag_closingIssue? {opened : Option TagName} {tag : TagName} {issue : Issue}
    (h : closingIssue? (opened, tag) = some issue) : issue.tag = (Bracket.closes tag).token := by
  cases opened with
  | none =>
    obtain rfl := Option.some.inj h
    rfl
  | some innermost =>
    rw [closingIssue?, Option.ite_none_left_eq_some] at h
    obtain rfl := Option.some.inj h.2
    rfl

/-- Each tag of a word, and of the elements open before it, is at fault once at most. -/
theorem tags_issuesOf_subperm (opened : List TagName) (word : List Bracket) :
    ((issuesOf opened word).map Issue.tag).Subperm
      ((opened.map Bracket.opens ++ word).map Bracket.token) := by
  induction word generalizing opened with
  | nil =>
    rw [issuesOf_nil, List.append_nil, List.map_map, List.map_map]
    exact List.Subperm.refl _
  | cons bracket word ih =>
    have hmiddle : ((opened.map Bracket.opens ++ bracket :: word).map Bracket.token).Perm
        ((bracket :: (opened.map Bracket.opens ++ word)).map Bracket.token) :=
      List.perm_middle.map _
    rw [hmiddle.subperm_left]
    cases bracket with
    | opens tag =>
      rw [issuesOf_opens]
      exact ih (tag :: opened)
    | closes tag =>
      rw [issuesOf_closes, List.map_append, List.map_cons]
      have htail : (opened.tail.map Bracket.opens ++ word).Sublist
          (opened.map Bracket.opens ++ word) :=
        ((List.tail_sublist opened).map _).append_right word
      have hrest := (ih opened.tail).trans (htail.map _).subperm
      cases hissue : closingIssue? (opened.head?, tag) with
      | none => exact hrest.cons_right _
      | some issue =>
        rw [Option.toList_some, List.map_singleton, tag_closingIssue? hissue]
        exact (List.subperm_cons _).mpr hrest

theorem map_token_brackets_sublist (tokens : List Token) :
    ((brackets tokens).map Bracket.token).Sublist tokens := by
  induction tokens with
  | nil => exact List.Sublist.refl _
  | cons t rest ih =>
    obtain ⟨kind, value, position⟩ := t
    cases kind with
    | tagOpen =>
      rw [brackets]
      split_ifs
      · exact ih.cons _
      · exact ih.cons_cons _
    | tagClose => exact ih.cons_cons _
    | text | attrName | attrValue | selfClose | tagEnd => exact ih.cons _

theorem tags_issues_subperm {maxDepth : Nat} {tokens : List Token} {built : Built}
    (h : build maxDepth tokens = .ok built) : (built.issues.map Issue.tag).Subperm tokens := by
  rw [issues_eq_issuesOf h]
  exact (tags_issuesOf_subperm [] (brackets tokens)).trans
    (map_token_brackets_sublist tokens).subperm

end Document

namespace Parser

open Document

variable {input : String}

/-! ### Messages -/

/-- The tag that a diagnostic with a position quotes in its message. -/
inductive Cites : Diagnostic → Token → Prop
  | mismatched (expected found : String) (position : Nat) :
    Cites ⟨"mismatched closing tag: expected </" ++ expected ++ ">, found </" ++ found ++ ">",
      none, some position⟩ ⟨.tagClose, found, position⟩
  | unexpected (found : String) (position : Nat) :
    Cites ⟨"unexpected closing tag </" ++ found ++ ">", none, some position⟩
      ⟨.tagClose, found, position⟩
  | unclosed (kind : String) (position : Nat) :
    Cites ⟨"unclosed element <" ++ kind ++ ">", none, some position⟩ ⟨.tagOpen, kind, position⟩
  | tooDeep (limit : Nat) (kind : String) (position : Nat) :
    Cites ⟨"maximum nesting depth of " ++ toString limit ++ " exceeded at <" ++ kind ++ ">",
      none, some position⟩ ⟨.tagOpen, kind, position⟩

theorem cites_tag (issue : Issue) : Cites issue.diagnostic issue.tag := by
  cases issue with
  | mismatchedClose expected found position => exact .mismatched expected found position
  | unexpectedClose found position => exact .unexpected found position
  | unclosed kind position => exact .unclosed kind position

/-- Whether a tag is written in an input: its position is the byte offset of a `<` outside comments,
and what is outside comments from there on spells the tag. -/
def Written (input : String) (t : Token) : Prop :=
  ∃ front back, Comment.Cut input.toList (front ++ .kept '<' :: back) ∧
    t.position = String.utf8Len (Comment.text front) ∧
    String.Pos.Raw.get? input ⟨t.position⟩ = some '<' ∧ t.spelling <+: '<' :: Comment.kept back

theorem Cites.firstChar? {d : Diagnostic} {t : Token} (h : Cites d t) :
    t.firstChar? = some '<' := by
  cases h <;> rfl

theorem Cites.position_eq {d : Diagnostic} {t : Token} (h : Cites d t) :
    d.position = some t.position := by
  cases h <;> rfl

/-- Tags that are tokens of an input are written in it. -/
theorem Cites.written {d : Diagnostic} {t : Token} (h : Cites d t) (ht : t ∈ tokenize input) :
    Written input t := by
  obtain ⟨front, c, back, hcut, hposition, hfirst, hspells⟩ := Token.exists_cut_of_mem_tokenize ht
  obtain rfl : '<' = c := Option.some.inj (h.firstChar?.symm.trans hfirst)
  refine ⟨front, back, hcut, hposition, ?_, hspells⟩
  rw [hposition]
  exact (Token.get?_of_cut hcut).2.2

/-! ### Reports -/

/-- Whether the diagnostics of a report that have a position point at tags of the input that their
messages quote, and no two of the report at the same. -/
structure PointsAtTags (input : String) (errors : List Diagnostic) : Prop where
  cites : ∀ d ∈ errors, d.position ≠ none → ∃ t ∈ tokenize input, Cites d t ∧ Written input t
  distinct : (∃ d ∈ errors, d.position ≠ none) → (errors.map Diagnostic.position).Nodup

namespace PointsAtTags

/-- Diagnostics without a position point at nothing. -/
theorem of_unplaced {errors : List Diagnostic} (h : ∀ d ∈ errors, d.position = none) :
    PointsAtTags input errors :=
  ⟨fun d hd hplaced ↦ absurd (h d hd) hplaced,
    fun ⟨d, hd, hplaced⟩ ↦ absurd (h d hd) hplaced⟩

theorem nil : PointsAtTags input [] :=
  of_unplaced fun _ hd ↦ absurd hd List.not_mem_nil

theorem validate (r : Registry) (root : Node) : PointsAtTags input (r.validate root) :=
  of_unplaced (List.forall_mem_map.mpr fun _ _ ↦ rfl)

theorem depthExceeded {maxDepth : Nat} {e : DepthExceeded}
    (h : build maxDepth (tokenize input) = .error e) : PointsAtTags input [e.diagnostic] := by
  obtain ⟨before, t, after, shallow, deep, rest, htokens, -, hnames⟩ := exists_namesFirstBeyond h
  have ht : t ∈ tokenize input := by simp [htokens]
  have hcites : Cites e.diagnostic t := by
    obtain ⟨kind, value, position⟩ := t
    obtain rfl : kind = .tagOpen := hnames.tag.1
    rw [hnames.fault]
    exact .tooDeep _ value position
  refine ⟨fun d hd _ ↦ ?_, fun _ ↦ List.nodup_singleton _⟩
  rw [List.mem_singleton.mp hd]
  exact ⟨t, ht, hcites, hcites.written ht⟩

theorem issues {maxDepth : Nat} {built : Built}
    (h : build maxDepth (tokenize input) = .ok built) :
    PointsAtTags input (built.issues.map Issue.diagnostic) := by
  obtain ⟨tags, hperm, hsublist⟩ := tags_issues_subperm h
  refine ⟨List.forall_mem_map.mpr fun issue hissue _ ↦ ?_, fun _ ↦ ?_⟩
  · have ht : issue.tag ∈ tokenize input :=
      hsublist.subset (hperm.mem_iff.mpr (List.mem_map_of_mem hissue))
    exact ⟨issue.tag, ht, cites_tag issue, (cites_tag issue).written ht⟩
  · have htokens : ((tokenize input).map Token.position).Nodup :=
      (Token.pairwise_position_tokenize input).imp Nat.ne_of_lt
    have htags : ((built.issues.map Issue.tag).map Token.position).Nodup :=
      ((hperm.map Token.position).nodup_iff).mp (htokens.sublist (hsublist.map _))
    have hpositions : (built.issues.map Issue.diagnostic).map Diagnostic.position =
        ((built.issues.map Issue.tag).map Token.position).map some := by
      simp only [List.map_map, Function.comp_def, (cites_tag _).position_eq]
    rw [hpositions]
    exact htags.map fun _ _ ↦ Option.some.inj

end PointsAtTags

/-- Each stage of a reading points at tags. -/
theorem pointsAtTags_of_mem_reports {options : Options} {r : Registry} {report : List Diagnostic}
    (h : report ∈ reports options r input) : PointsAtTags input report := by
  simp only [reports, List.mem_cons, List.not_mem_nil, or_false] at h
  rcases h with rfl | rfl | rfl | rfl
  · split_ifs
    · exact .of_unplaced (List.forall_mem_singleton.mpr rfl)
    · exact .nil
  · cases hbuild : build options.maxDepth (tokenize input) with
    | error e => exact .depthExceeded hbuild
    | ok built => exact .nil
  · split_ifs
    · exact .issues (build_of_length_le (Nat.le_refl _))
    · exact .nil
  · split_ifs
    · exact .validate r _
    · exact .nil

theorem firstReport_eq_nil_or_mem (reports : List (List Diagnostic)) :
    firstReport reports = [] ∨ firstReport reports ∈ reports := by
  rw [firstReport]
  cases hfound : reports.find? (!·.isEmpty) with
  | none => exact Or.inl rfl
  | some report => exact Or.inr (List.mem_of_find?_eq_some hfound)

theorem pointsAtTags_parse (options : Options) (r : Registry) (input : String) :
    PointsAtTags input (parse options r input).errors := by
  rw [(parse_reports options r input).1]
  rcases firstReport_eq_nil_or_mem (reports options r input) with hnil | hmem
  · rw [hnil]
    exact .nil
  · exact pointsAtTags_of_mem_reports hmem

/-- Whatever the options, reading and validating a text report nothing with a position but faults of
tags of the text. The position is the byte offset of the `<` that the tag begins with, outside
comments, and from there on, comments skipped, the text spells the tag with the name that the
message quotes. No two diagnostics of such a report have the same position. -/
theorem errors_point_at_tags (options : Options) (r : Registry) (input : String) :
    PointsAtTags input (parse options r input).errors ∧
      PointsAtTags input (r.validateText input) := by
  refine ⟨pointsAtTags_parse options r input, ?_⟩
  rw [validateText_eq]
  exact pointsAtTags_parse _ r input

/-- Comments inside of names, and a character of two bytes before all tags. -/
example : (parse ⟨false, true, 8⟩ .empty "é<!--<x>--><a><b<!-- -->c>t</<!---->d>").errors =
    [.atPosition "mismatched closing tag: expected </bc>, found </d>" 28,
      .atPosition "unclosed element <a>" 12] := by decide +kernel

end Parser

end AgentMarkup
