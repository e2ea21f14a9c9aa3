import AgentMarkup.Json.Reader
import AgentMarkup.Proofs.Datum.Explicit
import Mathlib.Logic.Basic

/-!
What a JSON text states is explicit. The reader keeps explicit data on its stack: one mark
preserves this (`ReaderState.explicit_step`) and so does a row of marks
(`ReaderState.explicit_run`), if the dialect lets nothing be left out. The marks of a JSON text
have texts, numbers and words for leaves (`Json.explicit_readMarks`).
-/

set_option autoImplicit false
set_option relaxedAutoImplicit false

namespace AgentMarkup

/-- No value of a record may be left out, and no key may stand in a list. -/
structure Dialect.Strict (dialect : Dialect) : Prop where
  values : dialect.omittedValues = false
  keys : dialect.pairsInLists = false

/-- A leaf of explicit data, or any other mark. -/
def Mark.Explicit : Mark → Prop
  | .leaf d => d.Explicit
  | _ => True

namespace Datum

/-! ### Collections of explicit data -/

theorem mem_replacedMembers {members : List (String × Datum)} {member : String × Datum}
    (h : member ∈ replacedMembers members) : member ∈ members := by
  induction members with
  | nil => exact absurd h List.not_mem_nil
  | cons first rest ih =>
    rw [replacedMembers] at h
    split_ifs at h
    · rcases List.mem_cons.mp h with rfl | h
      · exact List.mem_cons_self
      · exact List.mem_cons_of_mem first (ih h)
    · exact List.mem_cons_of_mem first (ih h)

theorem exists_of_mem_named {members : List (Option String × Datum)}
    {named : List (String × Datum)}
    (h : (members.mapM fun member ↦ member.1.map (·, member.2)) = some named)
    {entry : String × Datum} (hentry : entry ∈ named) : ∃ member ∈ members, member.2 = entry.2 := by
  induction members generalizing named with
  | nil =>
    cases h
    exact absurd hentry List.not_mem_nil
  | cons member rest ih =>
    rw [List.mapM_cons] at h
    obtain ⟨first, hfirst, h⟩ := Option.bind_eq_some_iff.mp h
    obtain ⟨others, hothers, h⟩ := Option.bind_eq_some_iff.mp h
    cases h
    rcases List.mem_cons.mp hentry with rfl | hother
    · obtain ⟨key, -, rfl⟩ := Option.map_eq_some_iff.mp hfirst
      exact ⟨member, List.mem_cons_self, rfl⟩
    · obtain ⟨found, hfound, hvalue⟩ := ih hothers hother
      exact ⟨found, List.mem_cons_of_mem member hfound, hvalue⟩

theorem explicit_ofMembers {members : List (Option String × Datum)}
    (h : ∀ member ∈ members, member.2.Explicit) : (ofMembers members).Explicit := by
  rw [ofMembers]
  split
  · exact .void
  · rename_i named hnamed
    have hexplicit : ∀ member ∈ named, member.2.Explicit := by
      intro entry hentry
      obtain ⟨member, hmember, hvalue⟩ := exists_of_mem_named hnamed hentry
      exact hvalue ▸ h member hmember
    exact .record (fun member hmember ↦ hexplicit member (Table.mem_of_mem_ofList hmember))
      fun member hmember ↦ hexplicit member (mem_replacedMembers hmember)

/-! ### Reading marks -/

/-- A frame that holds explicit data. A pair in a list is none, as strict dialects have none. -/
def Frame.Explicit : Frame → Prop
  | .list items => ∀ item ∈ items, item.Explicit
  | .record members | .entry members _ => ∀ member ∈ members, member.2.Explicit
  | .pair _ => False

namespace ReaderState

variable {dialect : Dialect} {stack : List Frame} {s next : ReaderState} {mark : Mark} {d : Datum}

structure Explicit (s : ReaderState) : Prop where
  frames : ∀ frame ∈ s.stack, frame.Explicit
  value : ∀ d, s.phase = .finished d → d.Explicit

theorem explicit_within (h : d.Explicit) : (within dialect d stack).Explicit := by
  rw [within]
  split_ifs
  · exact h
  · exact .void

theorem explicit_complete (hd : d.Explicit) (hstack : ∀ frame ∈ stack, frame.Explicit)
    (h : complete dialect d stack = .ok next) : next.Explicit := by
  cases stack with
  | nil =>
    cases h
    exact ⟨hstack, fun _ hvalue ↦ by cases hvalue; exact hd⟩
  | cons frame outer =>
    rw [List.forall_mem_cons] at hstack
    cases frame with
    | list items =>
      cases h
      refine ⟨List.forall_mem_cons.mpr ⟨?_, hstack.2⟩, nofun⟩
      exact List.forall_mem_cons.mpr ⟨hd, hstack.1⟩
    | entry members key =>
      cases h
      refine ⟨List.forall_mem_cons.mpr ⟨?_, hstack.2⟩, nofun⟩
      exact List.forall_mem_cons.mpr ⟨hd, hstack.1⟩
    | record members => cases h
    | pair key => exact hstack.1.elim

theorem explicit_close (hstack : ∀ frame ∈ stack, frame.Explicit)
    (h : close dialect mark stack = .ok next) : next.Explicit := by
  cases stack with
  | nil => cases h
  | cons frame outer =>
    rw [List.forall_mem_cons] at hstack
    cases frame with
    | list items =>
      cases mark with
      | closeList =>
        refine explicit_complete (explicit_within (.list fun item hitem ↦ ?_)) hstack.2 h
        exact hstack.1 item (List.mem_reverse.mp hitem)
      | _ => cases h
    | record members =>
      cases mark with
      | closeRecord =>
        refine explicit_complete (explicit_within (explicit_ofMembers fun member hmember ↦ ?_))
          hstack.2 h
        exact hstack.1 member (List.mem_reverse.mp hmember)
      | _ => cases h
    | entry members key => cases h
    | pair key => exact hstack.1.elim

theorem explicit_beginValue (hstack : ∀ frame ∈ stack, frame.Explicit) (hmark : mark.Explicit)
    (h : beginValue dialect stack mark = .ok next) : next.Explicit := by
  cases mark with
  | leaf d => exact explicit_complete hmark hstack h
  | openList =>
    cases h
    exact ⟨List.forall_mem_cons.mpr ⟨fun _ hitem ↦ absurd hitem List.not_mem_nil, hstack⟩, nofun⟩
  | openRecord =>
    cases h
    exact ⟨List.forall_mem_cons.mpr ⟨fun _ hitem ↦ absurd hitem List.not_mem_nil, hstack⟩, nofun⟩
  | _ => cases h

theorem explicit_beginEntry (hstack : ∀ frame ∈ stack, frame.Explicit)
    (h : beginEntry stack mark = .ok next) : next.Explicit := by
  cases mark with
  | leaf d =>
    obtain ⟨key, -, rfl⟩ := map_eq_ok_iff.mp h
    exact ⟨hstack, nofun⟩
  | _ => cases h

theorem explicit_endMember (hstack : ∀ frame ∈ stack, frame.Explicit)
    (h : endMember dialect stack mark = .ok next) : next.Explicit := by
  rw [endMember.eq_def] at h
  split at h
  · cases h
    exact ⟨hstack, fun _ hvalue ↦ by split_ifs at hvalue⟩
  · cases h
    exact ⟨hstack, fun _ hvalue ↦ by split_ifs at hvalue⟩
  · exact explicit_close hstack h

theorem endBareKey_ne_ok (hdialect : dialect.Strict) {members : List (Option String × Datum)}
    {key : Option String} : endBareKey dialect members key stack mark ≠ .ok next := by
  rw [endBareKey, hdialect.values]
  nofun

/-- What one mark does, one case for each line of `step`. -/
theorem explicit_step (hdialect : dialect.Strict) (hs : s.Explicit) (hmark : mark.Explicit)
    (h : step dialect s mark = .ok next) : next.Explicit := by
  obtain ⟨stack, phase⟩ := s
  obtain ⟨hstack, -⟩ := hs
  dsimp only at hstack
  rw [step.eq_def] at h
  dsimp only at h
  split at h
  · exact absurd h (endBareKey_ne_ok hdialect)
  · exact absurd h (endBareKey_ne_ok hdialect)
  · exact (hstack _ List.mem_cons_self).elim
  · exact (hstack _ List.mem_cons_self).elim
  · exact explicit_beginValue hstack hmark h
  · exact explicit_close hstack h
  · exact explicit_beginValue hstack hmark h
  · exact explicit_beginEntry hstack h
  · exact explicit_close hstack h
  · exact explicit_beginEntry hstack h
  · cases h
    rw [List.forall_mem_cons] at hstack
    exact ⟨List.forall_mem_cons.mpr hstack, nofun⟩
  · exact absurd h (endBareKey_ne_ok hdialect)
  · cases h
  · rw [beginPair, hdialect.keys] at h
    cases h
  · exact explicit_endMember hstack h
  · cases h

theorem explicit_run (hdialect : dialect.Strict) {marks : List Mark} (hs : s.Explicit)
    (hmarks : ∀ mark ∈ marks, mark.Explicit) (h : marks.foldlM (step dialect) s = .ok next) :
    next.Explicit := by
  induction marks generalizing s with
  | nil =>
    cases h
    exact hs
  | cons mark rest ih =>
    rw [List.forall_mem_cons] at hmarks
    rw [List.foldlM_cons] at h
    obtain ⟨between, hbetween, h⟩ := bind_eq_ok_iff.mp h
    exact ih (explicit_step hdialect hs hmarks.1 hbetween) hmarks.2 h

end ReaderState

theorem explicit_ofMarks {dialect : Dialect} (hdialect : dialect.Strict) {marks : List Mark}
    {d : Datum} (hmarks : ∀ mark ∈ marks, mark.Explicit) (h : ofMarks dialect marks = .ok d) :
    d.Explicit := by
  obtain ⟨final, hfinal, h⟩ := bind_eq_ok_iff.mp h
  have hstart : ReaderState.start.Explicit :=
    ⟨fun _ hframe ↦ absurd hframe List.not_mem_nil, nofun⟩
  have hexplicit := ReaderState.explicit_run hdialect hstart hmarks hfinal
  split at h
  · rename_i value hphase
    cases h
    exact hexplicit.value _ hphase
  · cases h

end Datum

/-! ### Reading JSON texts -/

namespace Json

theorem explicit_readText {cs rest : List Char} {d : Datum} (h : readText cs = .ok (d, rest)) :
    d.Explicit := by
  obtain ⟨⟨_, _⟩, -, h⟩ := bind_eq_ok_iff.mp h
  dsimp only at h
  split at h <;> cases h
  · exact .scalar _
  · exact .void

theorem explicit_readNumber {cs rest : List Char} {d : Datum}
    (h : readNumber cs = .ok (d, rest)) : d.Explicit := by
  obtain ⟨⟨_, _⟩, -, h⟩ := bind_eq_ok_iff.mp h
  dsimp only at h
  split at h <;> cases h
  · exact .scalar _
  · exact .void

theorem explicit_readMark {c : Char} {cs rest : List Char} {mark : Mark}
    (h : readMark c cs = .ok (mark, rest)) : mark.Explicit := by
  rw [readMark] at h
  iterate 6
    rcases ite_eq_iff.mp h with ⟨-, hmark⟩ | ⟨-, h⟩
    · cases hmark
      exact trivial
  rcases ite_eq_iff.mp h with ⟨-, hmark⟩ | ⟨-, h⟩
  · obtain ⟨⟨d, after⟩, hread, hmark⟩ := map_eq_ok_iff.mp hmark
    cases hmark
    exact explicit_readText hread
  iterate 3
    rcases ite_eq_iff.mp h with ⟨-, hmark⟩ | ⟨-, h⟩
    · obtain ⟨after, -, hmark⟩ := map_eq_ok_iff.mp hmark
      cases hmark
      exact .scalar _
  rcases ite_eq_iff.mp h with ⟨-, hmark⟩ | ⟨-, h⟩
  · obtain ⟨⟨d, after⟩, hread, hmark⟩ := map_eq_ok_iff.mp hmark
    cases hmark
    exact explicit_readNumber hread
  · cases h

theorem explicit_readMarks {fuel : Nat} {done marks : List Mark} {cs : List Char}
    (hdone : ∀ mark ∈ done, mark.Explicit) (h : readMarks fuel done cs = .ok marks) :
    ∀ mark ∈ marks, mark.Explicit := by
  induction fuel generalizing done cs with
  | zero =>
    cases cs with
    | nil =>
      cases h
      exact hdone
    | cons c cs => cases h
  | succ fuel ih =>
    cases cs with
    | nil =>
      cases h
      exact hdone
    | cons c cs =>
      rw [readMarks] at h
      split_ifs at h with hspace
      · exact ih hdone h
      · split at h
        · rename_i mark rest hmark
          exact ih (List.forall_mem_cons.mpr ⟨explicit_readMark hmark, hdone⟩) h
        · cases h

theorem explicit_readDatum {text : String} {d : Datum} (h : readDatum text = .ok d) :
    d.Explicit := by
  obtain ⟨marks, hmarks, h⟩ := bind_eq_ok_iff.mp h
  refine Datum.explicit_ofMarks ⟨rfl, rfl⟩ (fun mark hmark ↦ ?_) h
  exact explicit_readMarks (fun _ hnone ↦ absurd hnone List.not_mem_nil) hmarks mark
    (List.mem_reverse.mp hmark)

end Json

/-- Data of a JSON value, or of a JSON text. -/
inductive Datum.StatedInJson : Datum → Prop where
  | value (value : Json) : (ofJson value).StatedInJson
  | text {text : String} {d : Datum} (h : Json.readDatum text = .ok d) : d.StatedInJson

theorem Datum.StatedInJson.explicit {d : Datum} (h : d.StatedInJson) : d.Explicit := by
  cases h with
  | value value => exact explicit_ofJson value
  | text htext => exact Json.explicit_readDatum htext

end AgentMarkup
