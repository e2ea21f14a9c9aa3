import AgentMarkup.Proofs.Bus.SideBySide

/-!
A callback that fails affects nobody else. Two executions are compared, of which the second differs
in callbacks that fail where those of the first come to their end. As long as the order of delivery
is the same they do the same: the same listeners are invoked with the same payloads, every
operation has the same answer, and the listeners that are left are the same. Clients and other
callbacks end as they did, so no failure gets out of the publication that it happened in. Each is
one more error in the log, and its text names the event that was published
(`failures_affect_nobody`).

Deliveries nest, so this is proved of all callbacks of some depth at once (`RunsAlike`). Within a
depth the induction is on the listeners of a publication (`rel_deliver`) and on the script
(`runsAlike_eval`), and then it is on the depth (`runsAlike_run`). That each callback ended as the
log has it is a matter of one world (`Delivers.next`).
-/

set_option autoImplicit false
set_option relaxedAutoImplicit false

namespace AgentMarkup.Bus

variable {σ α : Type} {schedule : Schedule σ α}

/-! ### Orders of delivery -/

/-- Whether the order of delivery depends on the numbers of the listeners only, so that it is the
same for listeners with other callbacks. -/
def Schedule.Fixed (schedule : Schedule σ α) : Prop :=
  ∀ number (ls ls' : List (Listener σ α)), ls'.map Listener.id = ls.map Listener.id →
    (schedule.arrange number ls').map Listener.id = (schedule.arrange number ls).map Listener.id

theorem Schedule.fixed_inOrder : (Schedule.inOrder : Schedule σ α).Fixed :=
  fun _ _ _ h ↦ h

section

variable {broken : List Bool} {ls ls' : List (Listener σ α)}

theorem map_eq_of_altered {β : Type} {f : Listener σ α → β}
    (hf : ∀ {l l' : Listener σ α}, l.Altered broken l' → f l' = f l)
    (h : List.Forall₂ (Listener.Altered broken) ls ls') : ls'.map f = ls.map f := by
  induction h with
  | nil => rfl
  | cons hl _ ih => rw [List.map_cons, List.map_cons, hf hl, ih]

/-- Listeners with distinct numbers are related by their numbers. -/
theorem altered_of_id_eq (h : List.Forall₂ (Listener.Altered broken) ls ls')
    (hnodup : (ls.map Listener.id).Nodup) {l l' : Listener σ α} (hl : l ∈ ls) (hl' : l' ∈ ls')
    (hid : l.id = l'.id) : l.Altered broken l' := by
  induction h with
  | nil => exact absurd hl List.not_mem_nil
  | cons hfirst hrest ih =>
    rw [List.map_cons, List.nodup_cons] at hnodup
    have hids := map_eq_of_altered Listener.Altered.id hrest
    rcases List.mem_cons.mp hl with rfl | hl <;> rcases List.mem_cons.mp hl' with rfl | hl'
    · exact hfirst
    · refine absurd ?_ hnodup.1
      rw [hid, ← hids]
      exact List.mem_map_of_mem hl'
    · refine absurd ?_ hnodup.1
      rw [← hfirst.id, ← hid]
      exact List.mem_map_of_mem hl
    · exact ih hnodup.2 hl hl'

/-- Altered listeners are invoked in the same order. -/
theorem altered_arrange (hfixed : schedule.Fixed)
    (h : List.Forall₂ (Listener.Altered broken) ls ls') (hnodup : (ls.map Listener.id).Nodup)
    (number : Nat) :
    List.Forall₂ (Listener.Altered broken) (schedule.arrange number ls)
      (schedule.arrange number ls') := by
  have hids := hfixed number ls ls' (map_eq_of_altered Listener.Altered.id h)
  have hsame : List.Forall₂ (fun l l' : Listener σ α ↦ l.id = l'.id)
      (schedule.arrange number ls) (schedule.arrange number ls') := by
    rw [← List.forall₂_map_right_iff, ← List.forall₂_map_left_iff, List.forall₂_eq_eq_eq]
    exact hids.symm
  rw [List.forall₂_iff_zip] at hsame ⊢
  refine ⟨hsame.1, fun {l l'} hzip ↦ ?_⟩
  obtain ⟨hl, hl'⟩ := List.of_mem_zip hzip
  exact altered_of_id_eq h hnodup ((schedule.perm _ _).mem_iff.mp hl)
    ((schedule.perm _ _).mem_iff.mp hl') (hsame.2 hzip)

end

/-! ### Deliveries -/

/-- Whether a way to run callbacks runs them as scripts, to some depth. -/
def RunsScripts (schedule : Schedule σ α) (call : Script σ α → World σ α → Ending σ α) : Prop :=
  ∀ {script w w' failure}, call script w = some (w', failure) →
    ∃ depth, script.run schedule depth w = some (w', failure)

theorem RunsScripts.endsIn_steps {call : Script σ α → World σ α → Ending σ α}
    (h : RunsScripts schedule call) {script : Script σ α} {w w' : World σ α}
    {failure : Option Failure} (hcall : call script w = some (w', failure)) :
    script.EndsIn schedule w w' ∧ Steps w w' := by
  obtain ⟨depth, hrun⟩ := h hcall
  exact ⟨⟨depth, failure, hrun⟩, steps_of_run hrun⟩

/-- Whether the publication of this number has found these listeners. -/
structure Delivers (history : List (Moment σ α)) (number : Nat) (bus : BusId) (event : String)
    (payload : α) (ls : List (Listener σ α)) : Prop where
  publishes : Publishes history number bus event payload
  finds : ∀ l ∈ ls, Finds history number l payload

theorem delivers_beginPublication (schedule : Schedule σ α) (w : World σ α) (bus : BusId)
    (event : String) (payload : α) :
    Delivers (w.beginPublication bus event payload).history w.history.length bus event payload
      (schedule.arrange w.history.length ((w.store bus).listenersOf event)) where
  publishes := publishes_beginPublication w bus event payload
  finds _ hl := finds_beginPublication ((schedule.perm _ _).mem_iff.mp hl) payload

/-- The first listener is invoked and its callback ends as it did in the run, with the others
still to come. -/
theorem Delivers.next {call : Script σ α → World σ α → Ending σ α}
    (hruns : RunsScripts schedule call)
    {w v : World σ α} {number : Nat} {bus : BusId} {event : String} {payload : α}
    {l : Listener σ α} {rest : List (Listener σ α)} {failure : Option Failure}
    (h : Delivers w.history number bus event payload (l :: rest))
    (hcall : call (l.callback payload) (w.record (.invoke number l.id payload)) =
      some (v, failure)) :
    Steps w v ∧ Return.Ended schedule v.history ⟨number, l.id, event, failure⟩ ∧
      Delivers v.history number bus event payload rest := by
  obtain ⟨depth, hrun⟩ := hruns hcall
  have hsteps : Steps w v := .trans (.single (.invoke l.id h.publishes)) (steps_of_run hrun)
  have hgrown : w.history <+: v.history := prefix_history_of_records Step.records hsteps
  have hpublishes := h.publishes.mono hgrown
  have hfinds (other : Listener σ α) (hother : other ∈ l :: rest) :
      Finds v.history number other payload := (h.finds other hother).mono hgrown
  refine ⟨hsteps, ?_, hpublishes, fun other hother ↦ hfinds other (List.mem_cons_of_mem l hother)⟩
  exact ⟨bus, l, payload, depth, w, v, hpublishes, hfinds l List.mem_cons_self, rfl, hrun,
    List.prefix_refl _⟩

/-! ### Runs side by side -/

theorem cases_of_rel {β γ : Type} {R : β → γ → Prop} {first : Option β} {second : Option γ}
    (h : Option.Rel R first second) : first = none ∧ second = none ∨
      ∃ x y, first = some x ∧ second = some y ∧ R x y := by
  cases h with
  | none => exact .inl ⟨rfl, rfl⟩
  | some h => exact .inr ⟨_, _, rfl, rfl, h⟩

theorem rel_imp {β γ : Type} {R S : β → γ → Prop} {first : Option β} {second : Option γ}
    (himp : ∀ {x y}, R x y → S x y) (h : Option.Rel R first second) :
    Option.Rel S first second := by
  cases h with
  | none => exact .none
  | some h => exact .some (himp h)

/-- Whether two worlds are altered by a list that goes on from this one. -/
def World.Keeps (schedule : Schedule σ α) (broken : List Bool) (pending : List (Nat × Nat))
    (w w' : World σ α) : Prop :=
  ∃ more returns returns', broken <+: more ∧ w.Altered schedule more pending returns returns' w'

theorem World.Keeps.of_isPrefix {broken more : List Bool} {pending : List (Nat × Nat)}
    {w w' : World σ α} (hmore : broken <+: more) (h : World.Keeps schedule more pending w w') :
    World.Keeps schedule broken pending w w' := by
  obtain ⟨most, returns, returns', hmost, hworlds⟩ := h
  exact ⟨most, returns, returns', hmore.trans hmost, hworlds⟩

/-- Whether a way to run callbacks runs altered callbacks alike: both come to an end or neither
does, and the second fails at its end exactly if it breaks. -/
def RunsAlike (schedule : Schedule σ α) (call : Script σ α → World σ α → Ending σ α) : Prop :=
  ∀ {breaking broken pending returns returns' script script' w w'},
    Script.Altered breaking script script' → Sound w →
      World.Altered schedule broken pending returns returns' w w' →
        Option.Rel (fun ending ending' : World σ α × Option Failure ↦
          EndsAs breaking ending.2 ending'.2 ∧
            World.Keeps schedule broken pending ending.1 ending'.1)
          (call script w) (call script' w')

section

variable {call : Script σ α → World σ α → Ending σ α} {broken : List Bool}
  {pending : List (Nat × Nat)} {returns returns' : List Return} {w w' : World σ α}

/-- A listener whose callback breaks costs the others nothing: the next one is invoked all the
same, in worlds that are altered as before. -/
theorem rel_deliver (halike : RunsAlike schedule call) (hruns : RunsScripts schedule call)
    {bus : BusId} {event : String} {payload : α} {number : Nat} {ls ls' : List (Listener σ α)}
    (hls : List.Forall₂ (Listener.Altered broken) ls ls') (hsound : Sound w)
    (hdelivers : Delivers w.history number bus event payload ls)
    (hdelivers' : Delivers w'.history number bus event payload ls')
    (h : w.Altered schedule broken pending returns returns' w') :
    Option.Rel (World.Keeps schedule broken pending) (deliver call event payload number ls w)
      (deliver call event payload number ls' w') := by
  induction ls generalizing ls' broken returns returns' w w' with
  | nil =>
    cases hls
    exact .some ⟨broken, returns, returns', List.prefix_refl _, h⟩
  | cons l rest ih =>
    obtain ⟨l', rest', hl, hrest, rfl⟩ := List.forall₂_cons_left_iff.mp hls
    obtain ⟨breaking, hbroken, hcallback⟩ := hl.callback
    have hmove : Move w (w.record (.invoke number l.id payload)) :=
      .invoke l.id payload hdelivers.publishes.lt_length
    have hcall := halike (hcallback payload) (hsound.move hmove) (h.invoke number l.id payload)
    rcases cases_of_rel hcall with ⟨hnone, hnone'⟩ | ⟨⟨v, failure⟩, ⟨v', failure'⟩, hv, hv', hends,
      more, returned, returned', hmore, hworlds⟩
    · rw [deliver, deliver, hl.id, hnone, hnone']
      exact .none
    · rw [← hl.id] at hv'
      obtain ⟨hsteps, hended, hnext⟩ := hdelivers.next hruns hv
      obtain ⟨-, hended', hnext'⟩ := hdelivers'.next hruns hv'
      rw [hl.id] at hended'
      have hfinish := hworlds.finish (getElem?_of_isPrefix hmore hbroken) hends hended hended'
      rw [deliver_cons_of_some hv, deliver_cons_of_some hv']
      rw [World.Altered.elim_report_eq, World.Altered.elim_report_eq] at hfinish ⊢
      have hreported : Steps w { v with log := v.log ++ (failure.map (failureLog event)).toList } :=
        hsteps.tail (.operation (.aside v.memory _))
      exact rel_imp (fun hkeeps ↦ hkeeps.of_isPrefix hmore)
        (ih (hrest.imp fun _ _ hl ↦ hl.mono hmore) (hsound.moves hreported.moves) hnext hnext'
          hfinish)

/-- A publication invokes the same listeners in the same order and has the same answer. -/
theorem rel_publish (hfixed : schedule.Fixed) (halike : RunsAlike schedule call)
    (hruns : RunsScripts schedule call) (bus : BusId) (event : String) (payload : α)
    (hsound : Sound w)
    (h : w.Altered schedule broken pending returns returns' w') :
    Option.Rel (fun answer answer' : Nat × World σ α ↦
        answer'.1 = answer.1 ∧ World.Keeps schedule broken pending answer.2 answer'.2)
      (publish schedule call bus event payload w)
      (publish schedule call bus event payload w') := by
  have hls : List.Forall₂ (Listener.Altered broken) ((w.store bus).listenersOf event)
      ((w'.store bus).listenersOf event) := (h.stores.store bus).listenersOf event
  have hdelivers' := delivers_beginPublication schedule w' bus event payload
  rw [h.length_history] at hdelivers'
  have hdelivered := rel_deliver halike hruns
    (altered_arrange hfixed hls (hsound.distinct bus event) w.history.length)
    (hsound.move (.begin bus event payload))
    (delivers_beginPublication schedule w bus event payload) hdelivers'
    (h.beginPublication bus event payload)
  rw [publish, publish, h.length_history]
  rcases cases_of_rel hdelivered with ⟨hnone, hnone'⟩ |
    ⟨v, v', hv, hv', more, returned, returned', hmore, hworlds⟩
  · simp only [hnone, hnone', Option.map_none]
    exact .none
  · simp only [hv, hv', Option.map_some, hls.length_eq]
    exact .some ⟨rfl, more, returned, returned', hmore, hworlds.concludePublication _ _ _⟩

theorem runsAlike_eval (hfixed : schedule.Fixed) (halike : RunsAlike schedule call)
    (hruns : RunsScripts schedule call) : RunsAlike schedule (Script.eval schedule call) := by
  intro breaking broken pending returns returns' script script' w w' hscript hsound h
  have hoperation {w next : World σ α} (hsound : Sound w) (hnext : Operation w next) : Sound next :=
    hsound.move (.plain hnext.plain)
  induction hscript generalizing broken returns returns' w w' with
  | done => exact .some ⟨rfl, broken, returns, returns', List.prefix_refl _, h⟩
  | breaks => exact .some ⟨rfl, broken, returns, returns', List.prefix_refl _, h⟩
  | fail => exact .some ⟨rfl, broken, returns, returns', List.prefix_refl _, h⟩
  | «recall» hnext ih =>
    rw [Script.eval, Script.eval, h.memory]
    exact ih _ hsound h
  | remember memory hnext ih =>
    exact ih (hoperation hsound (.aside memory w.log)) (h.remember memory)
  | create hnext ih =>
    rw [Script.eval, Script.eval, h.create.1]
    exact ih _ (hoperation hsound .create) h.create.2
  | clone bus hnext ih =>
    exact ih (hoperation hsound (.clone bus)) ((h.record _ rfl).update bus (·.acquire))
  | drop bus hnext ih =>
    exact ih (hoperation hsound (.drop bus)) ((h.record _ rfl).update bus (·.release))
  | subscribe bus event once breaking hcallback hnext _ ih =>
    obtain ⟨hanswer, hworlds⟩ := h.subscribe bus event once breaking hcallback
    rw [Script.eval, Script.eval, hanswer]
    refine rel_imp (fun hend ↦ ⟨hend.1, hend.2.of_isPrefix (List.prefix_append _ [breaking])⟩)
      (ih _ (hoperation hsound (.subscribe bus event once _)) hworlds)
  | unsubscribe bus s hnext ih =>
    rw [Script.eval, Script.eval, (h.unsubscribe bus s).1]
    exact ih _ (hoperation hsound (.unsubscribe bus s)) (h.unsubscribe bus s).2
  | cancel s hnext ih =>
    rw [Script.eval, Script.eval, (h.cancel s).1]
    exact ih _ (hoperation hsound (.cancel s)) (h.cancel s).2
  | publish bus event payload hnext ih =>
    have hpublish := rel_publish hfixed halike hruns bus event payload hsound h
    rw [Script.eval, Script.eval]
    rcases cases_of_rel hpublish with ⟨hnone, hnone'⟩ |
      ⟨⟨invoked, v⟩, ⟨invoked', v'⟩, hv, hv', hanswer, more, returned, returned', hmore, hworlds⟩
    · simp only [hnone, hnone']
      exact .none
    · simp only [hv, hv']
      obtain rfl : invoked' = invoked := hanswer
      have hsteps := (composesExactly_steps schedule).publish hruns.endsIn_steps hv
      exact rel_imp (fun hend ↦ ⟨hend.1, hend.2.of_isPrefix hmore⟩)
        (ih _ (hsound.moves hsteps.moves) hworlds)
  | clear bus event hnext ih =>
    exact ih (hoperation hsound (.clear bus event)) ((h.record _ rfl).update bus (·.clear event))
  | count bus event hnext ih =>
    rw [Script.eval, Script.eval, (h.count bus event).1]
    exact ih _ (hoperation hsound (.count bus event)) (h.count bus event).2
  | names bus hnext ih =>
    rw [Script.eval, Script.eval, (h.names bus).1]
    exact ih _ (hoperation hsound (.names bus)) (h.names bus).2

/-- Callbacks are runs of less depth, so the induction is on the depth. -/
theorem runsAlike_run (hfixed : schedule.Fixed) (depth : Nat) :
    RunsAlike schedule (Script.run schedule depth) := by
  induction depth with
  | zero => exact runsAlike_eval hfixed (fun _ _ _ ↦ .none) fun hnone ↦ absurd hnone (by simp)
  | succ depth ih => exact runsAlike_eval hfixed ih fun hend ↦ ⟨depth, hend⟩

end

/-! ### Executions -/

/-- Runs scripts one after the other, and tells how each of them ended; nothing if one of them has
no end. -/
def runAll (schedule : Schedule σ α) (depth : Nat) :
    List (Script σ α) → World σ α → Option (World σ α × List (Option Failure))
  | [], w => some (w, [])
  | script :: rest, w =>
    match script.run schedule depth w with
    | none => none
    | some (v, failure) =>
      (runAll schedule depth rest v).map fun (last, failures) ↦ (last, failure :: failures)

/-- What does not depend on whether callbacks fail at their end, and what does. -/
structure Unaffected (schedule : Schedule σ α) (w w' : World σ α) : Prop where
  /-- All that was done with the buses, in order, invocations with their payloads and the answers
  of publications and of the other operations among it. -/
  acts : acts w'.history = acts w.history
  memory : w'.memory = w.memory
  buses : w'.stores.length = w.stores.length
  handles : ∀ bus, (w'.store bus).handles = (w.store bus).handles
  names : ∀ bus, (w'.store bus).names = (w.store bus).names
  listeners : ∀ bus event, ((w'.store bus).listenersOf event).map (fun l ↦ (l.id, l.once)) =
    ((w.store bus).listenersOf event).map fun l ↦ (l.id, l.once)
  /-- Both logs have one error for each callback that failed, naming the event that was published.
  A callback ends as it did, unless it is one of those that were made to fail. -/
  errors : ∃ broken returns returns',
    List.Forall₂ (Moment.Altered broken) w.history w'.history ∧
    List.Forall₂ (Return.Altered broken) returns returns' ∧
    Accounts schedule [] returns w.history w.log ∧
    Accounts schedule [] returns' w'.history w'.log
  log : w.log.Sublist w'.log

/-- What the log says of a callback it still says if the callback may have been made to fail. -/
theorem Return.Altered.sublist_entry? {broken : List Bool} {r r' : Return}
    (h : r.Altered broken r') : r.entry?.toList.Sublist r'.entry?.toList := by
  obtain ⟨breaking, -, hends⟩ := h.failure
  rw [r.entry?_eq, r'.entry?_eq, h.event]
  cases hfailure : r.failure with
  | none => exact List.nil_sublist _
  | some failure =>
    rw [hfailure] at hends
    rw [show r'.failure = some failure from hends]

theorem sublist_entries {broken : List Bool} {returns returns' : List Return}
    (h : List.Forall₂ (Return.Altered broken) returns returns') :
    (returns.filterMap Return.entry?).Sublist (returns'.filterMap Return.entry?) := by
  have hsplit (r : Return) (rest : List Return) : (r :: rest).filterMap Return.entry? =
      r.entry?.toList ++ rest.filterMap Return.entry? := by
    rw [← filterMap_singleton_eq_toList, ← List.filterMap_append]
    rfl
  induction h with
  | nil => exact .refl _
  | cons hr _ ih =>
    rw [hsplit, hsplit]
    exact hr.sublist_entry?.append ih

theorem World.Altered.unaffected {broken : List Bool} {returns returns' : List Return}
    {w w' : World σ α} (h : w.Altered schedule broken [] returns returns' w') :
    Unaffected schedule w w' where
  acts := h.acts_eq
  memory := h.memory
  buses := h.stores.length
  handles bus := (h.stores.store bus).handles
  names bus := (h.stores.store bus).names_eq
  listeners bus event :=
    map_eq_of_altered (fun hl ↦ by rw [hl.id, hl.once]) ((h.stores.store bus).listenersOf event)
  errors := ⟨broken, returns, returns', h.history, h.returned, h.accounts, h.accounts'⟩
  log := by
    rw [h.accounts.log, h.accounts'.log]
    exact sublist_entries h.returned

theorem rel_runAll (hfixed : schedule.Fixed) {scripts scripts' : List (Script σ α)}
    (hscripts : List.Forall₂ (Script.Altered false) scripts scripts') (depth : Nat)
    {broken : List Bool} {returns returns' : List Return} {w w' : World σ α} (hsound : Sound w)
    (h : w.Altered schedule broken [] returns returns' w') :
    Option.Rel (fun ending ending' : World σ α × List (Option Failure) ↦
        ending'.2 = ending.2 ∧ Unaffected schedule ending.1 ending'.1)
      (runAll schedule depth scripts w) (runAll schedule depth scripts' w') := by
  induction hscripts generalizing broken returns returns' w w' with
  | nil => exact .some ⟨rfl, h.unaffected⟩
  | cons hscript _ ih =>
    have hrun := runsAlike_run hfixed depth hscript hsound h
    rw [runAll, runAll]
    rcases cases_of_rel hrun with ⟨hnone, hnone'⟩ |
      ⟨⟨v, failure⟩, ⟨v', failure'⟩, hv, hv', hends, more, returned, returned', -, hworlds⟩
    · simp only [hnone, hnone']
      exact .none
    · simp only [hv, hv']
      obtain rfl : failure' = failure := EndsAs.eq_of_false hends
      rcases cases_of_rel (ih (hsound.moves (steps_of_run hv).moves) hworlds) with
        ⟨hnone, hnone'⟩ | ⟨ending, ending', hending, hending', hsame, hworlds⟩
      · simp only [hnone, hnone', Option.map_none]
        exact .none
      · simp only [hending, hending', Option.map_some]
        exact .some ⟨congrArg (failure' :: ·) hsame, hworlds⟩

/-- Callbacks that are made to fail at their end affect nobody else: clients and other callbacks do
the same with the same answers and end in the same way, and the log tells of each failure. -/
theorem failures_affect_nobody {schedule : Schedule σ α} (hfixed : schedule.Fixed)
    {scripts scripts' : List (Script σ α)}
    (hscripts : List.Forall₂ (Script.Altered false) scripts scripts') (depth : Nat) (memory : σ) :
    Option.Rel (fun ending ending' : World σ α × List (Option Failure) ↦
        ending'.2 = ending.2 ∧ Unaffected schedule ending.1 ending'.1)
      (runAll schedule depth scripts (World.empty memory))
      (runAll schedule depth scripts' (World.empty memory)) :=
  rel_runAll hfixed hscripts depth (Sound.empty memory) (World.Altered.empty memory)

/-- A client with a listener that publishes in its turn, and another that this reaches and that
wants a single delivery. The other one ends as it is told to. -/
def relaying (ending : Script Unit Nat) : Script Unit Nat :=
  .create fun bus ↦
    .subscribe bus "outer" false (fun n ↦ .publish bus "inner" n fun _ ↦ .done) fun _ ↦
      .subscribe bus "inner" true (fun _ ↦ ending) fun _ ↦
        .publish bus "outer" 7 fun _ ↦ .done

theorem failures_affect_nobody_relaying :
    (Schedule.inOrder : Schedule Unit Nat).Fixed ∧
      List.Forall₂ (Script.Altered false) [relaying .done] [relaying (.fail (.text "inside"))] ∧
      Option.Rel (fun ending ending' : World Unit Nat × List (Option Failure) ↦
          ending'.2 = ending.2 ∧ Unaffected .inOrder ending.1 ending'.1)
        (runAll .inOrder 2 [relaying .done] (World.empty ()))
        (runAll .inOrder 2 [relaying (.fail (.text "inside"))] (World.empty ())) ∧
      ((runAll .inOrder 2 [relaying (.fail (.text "inside"))] (World.empty ())).map fun ending ↦
        (ending.2, ending.1.log)) =
          some ([none], [⟨.error, "subscriber for 'inner' panicked: inside"⟩]) := by
  have hscripts : List.Forall₂ (Script.Altered false) [relaying .done]
      [relaying (.fail (.text "inside"))] :=
    .cons (.create fun bus ↦ .subscribe bus "outer" false false
      (fun n ↦ .publish bus "inner" n fun _ ↦ .done) fun _ ↦
        .subscribe bus "inner" true true (fun _ ↦ .breaks _) fun _ ↦
          .publish bus "outer" 7 fun _ ↦ .done) .nil
  exact ⟨Schedule.fixed_inOrder, hscripts,
    failures_affect_nobody Schedule.fixed_inOrder hscripts 2 (), rfl⟩

end AgentMarkup.Bus
