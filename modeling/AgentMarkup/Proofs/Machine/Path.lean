import AgentMarkup.Proofs.Lifecycle.Table
import AgentMarkup.Proofs.Machine.Course

/-!
The history of a machine is a path through its table. `FollowsTable` says that the states
before, with the current one at the end, begin with the initial state and go on with what the
table has for the events accepted since the last reset, and that each of these events was
answered with its own step. Every call keeps this (`FollowsTable.perform`): an accepted event
adds one state and one firing, a refused one adds neither, and a reset starts both anew.
-/

set_option autoImplicit false
set_option relaxedAutoImplicit false

namespace AgentMarkup.Machine

open Bus

/-- The configurations that machines are started with: made of a definition, read from data,
or there without being defined. -/
inductive Config.Admitted : Config → Prop
  | ofDefinition {name : String} {d : Definition} {c : Config}
    (h : Config.ofDefinition name d = .ok c) : Admitted c
  | ofJson {name : String} {value : Json} {c : Config}
    (h : Config.ofJson name value = .ok c) : Admitted c
  | builtin {kind : String} {c : Config} (h : builtin? kind = .ok c) : Admitted c

/-- Every configuration is what its own definition is made into. -/
theorem Config.Admitted.remade {c : Config} (h : c.Admitted) :
    Config.ofDefinition c.name c.definition = .ok c := by
  have hmade {name : String} {d : Definition} (h : Config.ofDefinition name d = .ok c) :
      Config.ofDefinition c.name c.definition = .ok c := by
    obtain ⟨-, rfl⟩ := Config.ofDefinition_eq_ok_iff.mp h
    exact h
  cases h with
  | ofDefinition h => exact hmade h
  | ofJson h =>
    obtain ⟨d, h⟩ := Config.exists_of_ofJson h
    exact hmade h
  | builtin h => exact ofDefinition_of_builtin? h

theorem Config.Admitted.closed {c : Config} (h : c.Admitted) : c.definition.Closed :=
  (Config.ofDefinition_eq_ok_iff.mp h.remade).1

/-- An accepted event with its payload, and the transition that was given as the answer. -/
structure Firing where
  event : String
  payload : Json
  made : Transition

def keepFiring (firings : List Firing) (x : Exchange Machine String Transition) : List Firing :=
  match x.call, x.answer with
  | .fire event payload, .accepted t => firings ++ [⟨event, payload, t⟩]
  | .fire _ _, _ => firings
  | .reset, _ => []

/-- The firings since the last reset, in order. -/
def firings (log : List (Exchange Machine String Transition)) : List Firing :=
  log.foldl keepFiring []

/-- Where a machine was since the last reset, the current state last. -/
def path (m : Machine) : List String :=
  m.history ++ [m.state]

/-- What holds of a machine of this configuration after these exchanges. -/
structure FollowsTable (c : Config) (log : List (Exchange Machine String Transition))
    (m : Machine) : Prop where
  config : m.config = c
  declared : ∀ state ∈ m.path, state ∈ c.states
  length : m.history.length = (firings log).length
  starts : m.path.head? = some c.initial
  /-- The step at a place of the path is the one that the table has for the event fired there,
  and was given as the answer together with the payload. -/
  steps : ∀ k f, (firings log)[k]? = some f → ∃ source target,
    m.path[k]? = some source ∧ m.path[k + 1]? = some target ∧
      c.target? source f.event = some target ∧ f.made = ⟨source, target, f.event, f.payload⟩

theorem firings_append_singleton (log : List (Exchange Machine String Transition))
    (x : Exchange Machine String Transition) :
    firings (log ++ [x]) = keepFiring (firings log) x := by
  rw [firings, List.foldl_append]
  rfl

namespace FollowsTable

variable {c : Config} {log : List (Exchange Machine String Transition)} {m : Machine}

theorem start (hc : c.definition.Closed) : FollowsTable c [] (start c) where
  config := rfl
  declared state hstate := List.mem_singleton.mp hstate ▸ hc.initial
  length := rfl
  starts := rfl
  steps k f hf := absurd hf (by simp [firings])

theorem accepted (hc : c.definition.Closed) (h : FollowsTable c log m) {event target : String}
    (htarget : c.target? m.state event = some target) (payload : Json) :
    FollowsTable c
      (log ++ [⟨m, .fire event payload, .accepted ⟨m.state, target, event, payload⟩⟩])
      { m with state := target, history := m.history ++ [m.state] } := by
  have hpath : path { m with state := target, history := m.history ++ [m.state] } =
      m.path ++ [target] := rfl
  have hfirings : firings
      (log ++ [⟨m, .fire event payload, .accepted ⟨m.state, target, event, payload⟩⟩]) =
        firings log ++ [⟨event, payload, ⟨m.state, target, event, payload⟩⟩] :=
    firings_append_singleton log _
  have hlength : m.path.length = (firings log).length + 1 := by
    rw [path, List.length_append, List.length_singleton, h.length]
  refine ⟨h.config, ?_, ?_, ?_, ?_⟩
  · rw [hpath]
    intro state hstate
    rcases List.mem_append.mp hstate with hold | hnew
    · exact h.declared state hold
    · rw [List.mem_singleton.mp hnew]
      exact hc.target m.state event target htarget
  · rw [hfirings, List.length_append, List.length_append, h.length]
    rfl
  · rw [hpath, List.head?_append, h.starts]
    rfl
  · rw [hpath, hfirings]
    intro k f hf
    by_cases hk : k < (firings log).length
    · rw [List.getElem?_append_left hk] at hf
      obtain ⟨source, next, hsource, hnext, hstep⟩ := h.steps k f hf
      refine ⟨source, next, ?_, ?_, hstep⟩
      · rw [List.getElem?_append_left (by omega), hsource]
      · rw [List.getElem?_append_left (by omega), hnext]
    · -- the new firing goes from the last state of the old path to the target
      have hlast : k = (firings log).length := by
        have hbound := (List.getElem?_eq_some_iff.mp hf).1
        rw [List.length_append, List.length_singleton] at hbound
        omega
      subst hlast
      rw [List.getElem?_append_right (Nat.le_refl _), Nat.sub_self] at hf
      obtain rfl := Option.some.inj hf
      refine ⟨m.state, target, ?_, ?_, htarget, rfl⟩
      · rw [List.getElem?_append_left (by omega), path, ← h.length,
          List.getElem?_append_right (Nat.le_refl _), Nat.sub_self]
        rfl
      · rw [List.getElem?_append_right (by omega), hlength, Nat.sub_self]
        rfl

/-- A call keeps a machine on a path through its table. -/
theorem perform (hc : c.definition.Closed) (h : FollowsTable c log m) (call : Call String) :
    FollowsTable c (log ++ [⟨m, call, (m.perform call).1⟩]) (m.perform call).2 := by
  cases call with
  | fire event payload =>
    rw [perform_fire]
    cases htarget : m.config.target? m.state event with
    | none =>
      have hfirings : firings (log ++ [⟨m, .fire event payload, .refused ⟨m.state, event⟩⟩]) =
          firings log := firings_append_singleton log _
      refine ⟨h.config, h.declared, ?_, h.starts, ?_⟩
      · rw [hfirings]
        exact h.length
      · rw [hfirings]
        exact h.steps
    | some target => exact h.accepted hc (h.config ▸ htarget) payload
  | reset =>
    have hfirings : firings (log ++ [⟨m, .reset, .done⟩]) = [] := firings_append_singleton log _
    have hreset : (m.perform .reset).2 = Machine.start c := h.config ▸ rfl
    have hstart := FollowsTable.start hc
    rw [hreset]
    refine ⟨hstart.config, hstart.declared, ?_, hstart.starts, ?_⟩
    · change 0 = (firings (log ++ [⟨m, .reset, .done⟩])).length
      rw [hfirings]
      rfl
    · intro k f hf
      change (firings (log ++ [⟨m, .reset, .done⟩]))[k]? = some f at hf
      rw [hfirings] at hf
      exact absurd hf (by simp)

end FollowsTable

/-- After any calls, made alone or on a bus, the states of a machine are declared and lead from
the initial state along the table to the current one, one step for each event accepted since
the last reset, as the answers said. -/
theorem history_follows_table {c : Config} (hc : c.Admitted) :
    (∀ calls, FollowsTable c (exchanges perform (start c) calls)
      (afterCalls perform (start c) calls)) ∧
    ∀ {σ : Type} {schedule : Schedule σ Transition} {bus : BusId} {w w' : World σ Transition}
      {log : List (Exchange Machine String Transition)} {m : Machine},
      Course schedule (performOn schedule bus) (start c) w log m w' → FollowsTable c log m := by
  have halone (calls : List (Call String)) : FollowsTable c
      (exchanges perform (start c) calls) (afterCalls perform (start c) calls) :=
    exchanges_induction (.start hc.closed) (fun _ _ call h ↦ h.perform hc.closed call) calls
  refine ⟨halone, fun hcourse ↦ ?_⟩
  obtain ⟨hlog, hmachine⟩ := hcourse.eq_exchanges perform_of_performOn
  rw [hlog, hmachine]
  exact halone _

/-- A door, pulled before and after a reset and once too often. On a bus, a callback that fails
is told of the pull. -/
theorem history_follows_table_door :
    let d : Definition := ⟨"shut", ["shut", "open"],
      .ofList [("shut", .ofList [("pull", "open")]), ("open", .ofList [("push", "shut")])]⟩
    let c := Config.ofClosed "door" d
    let calls : List (Call String) := [.fire "pull" .null, .reset, .fire "pull" (.str "again"),
      .fire "pull" .null, .fire "push" .null]
    let observed : Bus.Script Unit Transition :=
      .create fun bus ↦ .subscribe bus "open" false (fun _ ↦ .fail .other) fun _ ↦ .done
    c.Admitted ∧ (afterCalls perform (start c) calls).history = ["shut", "open"] ∧
      FollowsTable c (exchanges perform (start c) calls) (afterCalls perform (start c) calls) ∧
      ∃ (w w' : World Unit Transition) (log : List (Exchange Machine String Transition))
        (m : Machine), observed.EndsIn .inOrder (.empty ()) w ∧
          Course .inOrder (performOn .inOrder 0) (start c) w log m w' ∧
          m.path = ["shut", "open"] ∧ FollowsTable c log m := by
  intro d c calls observed
  have hclosed : d.Closed := Definition.fault?_eq_none_iff.mp (by decide +kernel)
  have hc : c.Admitted := .ofDefinition (Config.ofDefinition_eq_ok_iff.mpr ⟨hclosed, rfl⟩)
  have hcourse : Course .inOrder (performOn .inOrder 0) (start c) _ _ _ _ :=
    .call .start (rfl : performOn .inOrder 0 1 (start c) (.fire "pull" .null)
      (World.empty () |>.create.2.subscribe 0 "open" false fun _ ↦ .fail .other).2 =
        some (_, _, _))
  exact ⟨hc, by decide +kernel, (history_follows_table hc).1 calls, _, _, _, _, ⟨0, none, rfl⟩,
    hcourse, by decide +kernel, (history_follows_table hc).2 hcourse⟩

end AgentMarkup.Machine
