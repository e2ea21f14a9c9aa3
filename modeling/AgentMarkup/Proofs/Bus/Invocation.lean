import AgentMarkup.Proofs.Bus.Move

/-!
Invocations are no mere entries of a history: each of them runs the callback of a listener that
its publication found, on the payload of the publication, from the world of the invocation to
an end that the execution passed (`World.Arises.exists_of_invoke`). As callbacks are runs of
their own, this is proved of all stretches of an execution at once (`Calls`).
-/

set_option autoImplicit false
set_option relaxedAutoImplicit false

namespace AgentMarkup.Bus

variable {σ α : Type}

/-- Whether the publication of this number has this payload and found this listener. -/
def Finds (history : List (Moment σ α)) (number : Nat) (l : Listener σ α) (payload : α) : Prop :=
  ∃ before stores bus event after, before.length = number ∧
    history = before ++ ⟨stores, .publish bus event payload⟩ :: after ∧
    l ∈ (storeOf stores bus).listenersOf event

/-- Whether an execution with this history ran the callback of a listener where a part of the
history ended, and came to the end of the callback. -/
def RunsCallback (schedule : Schedule σ α) (l : Listener σ α) (payload : α)
    (part history : List (Moment σ α)) : Prop :=
  ∃ start finish, start.history = part ∧ (l.callback payload).EndsIn schedule start finish ∧
    finish.history <+: history

variable {schedule : Schedule σ α} {l : Listener σ α} {payload : α}

theorem Finds.mono {first second : List (Moment σ α)} (h : first <+: second) {number : Nat}
    (hfirst : Finds first number l payload) : Finds second number l payload := by
  obtain ⟨before, stores, bus, event, after, hlength, rfl, hl⟩ := hfirst
  obtain ⟨rest, rfl⟩ := h
  exact ⟨before, stores, bus, event, after ++ rest, hlength, List.append_assoc _ _ _, hl⟩

theorem finds_beginPublication {w : World σ α} {bus : BusId} {event : String}
    (h : l ∈ (w.store bus).listenersOf event) (payload : α) :
    Finds (w.beginPublication bus event payload).history w.history.length l payload :=
  ⟨w.history, w.stores, bus, event, [], rfl, rfl, h⟩

theorem RunsCallback.mono {part first second : List (Moment σ α)} (h : first <+: second)
    (hfirst : RunsCallback schedule l payload part first) :
    RunsCallback schedule l payload part second := by
  obtain ⟨start, finish, hstart, hend, hfinish⟩ := hfirst
  exact ⟨start, finish, hstart, hend, hfinish.trans h⟩

/-- Whether every invocation in the stretch between two worlds runs a callback. -/
def Calls (schedule : Schedule σ α) (w w' : World σ α) : Prop :=
  w.history <+: w'.history ∧ ∀ {part m number id payload}, part ++ [m] <+: w'.history →
    w.history.length ≤ part.length → m.act = .invoke number id payload →
      ∃ l, l.id = id ∧ Finds w'.history number l payload ∧
        RunsCallback schedule l payload (part ++ [m]) w'.history

theorem Calls.refl (w : World σ α) : Calls schedule w w := by
  refine ⟨List.prefix_refl _, fun {part m _ _ _} hpart hlong _ ↦ ?_⟩
  have hlength := hpart.length_le
  rw [List.length_append, List.length_singleton] at hlength
  omega

theorem Calls.trans {u v w : World σ α} (hfirst : Calls schedule u v)
    (hsecond : Calls schedule v w) : Calls schedule u w := by
  refine ⟨hfirst.1.trans hsecond.1, fun {part m number id payload} hpart hlong hact ↦ ?_⟩
  by_cases hlate : v.history.length ≤ part.length
  · exact hsecond.2 hpart hlate hact
  · have hearly : part ++ [m] <+: v.history := by
      refine List.prefix_of_prefix_length_le hpart hsecond.1 ?_
      rw [List.length_append, List.length_singleton]
      omega
    obtain ⟨l, hid, hfound, hruns⟩ := hfirst.2 hearly hlong hact
    exact ⟨l, hid, hfound.mono hsecond.1, hruns.mono hsecond.1⟩

/-- The last of the moments after a world, if there is but one. -/
theorem append_singleton_eq {w : World σ α} {last m : Moment σ α}
    {part history : List (Moment σ α)} (hlast : w.history ++ [last] <+: history)
    (hpart : part ++ [m] <+: history) (hlength : part.length = w.history.length) :
    part = w.history ∧ m = last := by
  have heq : part ++ [m] = w.history ++ [last] := by
    refine (List.prefix_of_prefix_length_le hpart hlast ?_).eq_of_length ?_ <;>
      simp [hlength]
  obtain ⟨hinit, hend⟩ := List.append_inj heq hlength
  exact ⟨hinit, (List.cons.inj hend).1⟩

theorem calls_of_history {w w' : World σ α} {last : Moment σ α}
    (hhistory : w'.history = w.history ++ [last])
    (hlast : ∀ number id payload, last.act ≠ .invoke number id payload) :
    Calls schedule w w' := by
  refine ⟨hhistory ▸ List.prefix_append _ _, fun {part m _ _ _} hpart hlong hact ↦ ?_⟩
  have hlength := hpart.length_le
  rw [hhistory, List.length_append, List.length_append, List.length_singleton,
    List.length_singleton] at hlength
  have hwhole : w.history ++ [last] <+: w'.history := hhistory ▸ List.prefix_refl _
  obtain ⟨-, rfl⟩ := append_singleton_eq hwhole hpart (by omega)
  exact absurd hact (hlast _ _ _)

theorem calls_of_plain {w w' : World σ α} (h : Plain w w') : Calls schedule w w' := by
  cases h with
  | aside => exact Calls.refl w
  | subscribe => exact calls_of_history rfl (by simp)
  | quiet hact =>
    refine calls_of_history rfl fun number id payload heq ↦ ?_
    have hbelongs := hact.belongsTo_eq_false number
    simp only at heq
    simp [heq, Act.belongsTo] at hbelongs

theorem calls_of_deliver {call : Script σ α → World σ α → Ending σ α}
    (hcall : ∀ {script w w' failure}, call script w = some (w', failure) →
      script.EndsIn schedule w w' ∧ Calls schedule w w')
    {event : String} {number : Nat} {listeners : List (Listener σ α)}
    {w w' : World σ α} (hfound : ∀ l ∈ listeners, Finds w.history number l payload)
    (h : deliver call event payload number listeners w = some w') : Calls schedule w w' := by
  induction listeners generalizing w with
  | nil => exact Option.some.inj h ▸ Calls.refl w
  | cons l rest ih =>
    obtain ⟨called, failure, log, hcalled, hrest⟩ := exists_of_deliver_cons h
    obtain ⟨hend, hinner⟩ := hcall hcalled
    have hgrown : w.history <+: called.history := (List.prefix_append _ _).trans hinner.1
    have hfirst : Calls schedule w { called with log } := by
      refine ⟨hgrown, fun {part m k id p} hpart hlong hact ↦ ?_⟩
      by_cases hlength : part.length = w.history.length
      · -- this is the invocation of the first listener itself
        obtain ⟨rfl, rfl⟩ := append_singleton_eq hinner.1 hpart hlength
        obtain ⟨rfl, rfl, rfl⟩ := Act.invoke.inj hact
        exact ⟨l, rfl, (hfound l List.mem_cons_self).mono hgrown,
          _, called, rfl, hend, List.prefix_refl _⟩
      · refine hinner.2 hpart ?_ hact
        change (w.history ++ [_]).length ≤ part.length
        rw [List.length_append, List.length_singleton]
        omega
    exact hfirst.trans
      (ih (fun other hother ↦ (hfound other (List.mem_cons_of_mem l hother)).mono hgrown)
        hrest)

theorem composes_calls (schedule : Schedule σ α) : Composes schedule (Calls schedule) where
  refl := Calls.refl
  trans := Calls.trans
  plain := calls_of_plain
  publish hcall bus event payload w invoked w' h := by
    obtain ⟨-, delivered, hdeliver, rfl⟩ := exists_of_publish h
    have hbegin : Calls schedule w (w.beginPublication bus event payload) :=
      calls_of_history rfl (by simp)
    have hconclude :
        Calls schedule delivered (delivered.concludePublication bus w.history.length invoked) :=
      calls_of_history rfl (by simp)
    refine (hbegin.trans (calls_of_deliver hcall (fun l hl ↦ ?_) hdeliver)).trans hconclude
    exact finds_beginPublication ((schedule.perm _ _).mem_iff.mp hl) payload

/-- Every invocation runs the callback of a listener that its publication found. -/
theorem World.Arises.exists_of_invoke {w : World σ α} (h : w.Arises schedule)
    {part : List (Moment σ α)} {m : Moment σ α} (hpart : part ++ [m] <+: w.history)
    {number id : Nat} {payload : α} (hact : m.act = .invoke number id payload) :
    ∃ l, l.id = id ∧ Finds w.history number l payload ∧
      RunsCallback schedule l payload (part ++ [m]) w.history := by
  obtain ⟨memory, hcalls⟩ := (composes_calls schedule).of_arises h
  exact hcalls.2 hpart (Nat.zero_le _) hact

end AgentMarkup.Bus
