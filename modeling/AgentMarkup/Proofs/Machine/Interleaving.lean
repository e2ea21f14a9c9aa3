import AgentMarkup.Proofs.Bus.Ending
import AgentMarkup.Proofs.Machine.Observer
import Mathlib.Logic.Function.Basic

/-!
Machines that are used side by side. Calls on several machines may come in any order, each
machine announces its changes on a bus of its own or on one that it shares with others, and
whoever listens may do with the buses whatever a script can do (`Interleaving`). Each machine then
runs a course of its own, in which the calls on the others are scripts like any other
(`Interleaving.course`), so nobody else has an influence on it: its answers and its end are those
of its own calls on a machine that announces to nobody (`keeps_to_itself`).
-/

set_option autoImplicit false
set_option relaxedAutoImplicit false

namespace AgentMarkup.Machine

open Bus

variable {ι σ : Type} {schedule : Schedule σ Transition} {buses : ι → BusId}
  {ms ns : ι → Machine} {log : List (ι × Exchange Machine String Transition)}
  {w w' : World σ Transition}

/-! ### One machine alone -/

/-- Calls made one after the other on a machine that announces its changes, with all their
answers; nothing if one of the calls has none. -/
def performAll (schedule : Schedule σ Transition) (bus : BusId) (depth : Nat) (m : Machine) :
    List (Call String) → World σ Transition →
      Option (List (Answer Transition) × Machine × World σ Transition)
  | [], w => some ([], m, w)
  | call :: rest, w =>
    match m.performOn schedule bus depth call w with
    | none => none
    | some (answer, next, v) =>
      (next.performAll schedule bus depth rest v).map fun (answers, last, u) ↦
        (answer :: answers, last, u)

/-- A world with one bus, which nobody listens to. -/
def solitary : World Unit Transition :=
  (World.empty ()).create.2

theorem silent_solitary : Silent 0 solitary :=
  fun _ ↦ rfl

/-- On a silent bus a call has its answer within every depth. -/
theorem exists_performOn_of_silent (schedule : Schedule σ Transition) {bus : BusId}
    (h : Silent bus w) (m : Machine) (call : Call String) : ∃ v, Silent bus v ∧ ∀ depth,
      m.performOn schedule bus depth call w =
        some ((m.perform call).1, (m.perform call).2, v) := by
  have hlogged : Silent bus (m.logged w call) := by
    rcases m.logged_eq w call with heq | ⟨entry, heq⟩
    · rwa [heq]
    · rw [heq]
      exact h
  obtain ⟨v, hv, hrun⟩ := exists_run_announcing_of_silent schedule hlogged
    (announcements m.config ⟨m, call, (m.perform call).1⟩)
  refine ⟨v, hv, fun depth ↦ ?_⟩
  rw [performOn_eq, hrun]
  rfl

theorem exists_performAll_of_silent (schedule : Schedule σ Transition) {bus : BusId}
    (h : Silent bus w) (m : Machine) (calls : List (Call String)) : ∃ v, ∀ depth,
      m.performAll schedule bus depth calls w =
        some ((exchanges perform m calls).map Exchange.answer, afterCalls perform m calls, v) := by
  induction calls generalizing m w with
  | nil => exact ⟨w, fun _ ↦ rfl⟩
  | cons call rest ih =>
    obtain ⟨v, hv, hcall⟩ := exists_performOn_of_silent schedule h m call
    obtain ⟨u, hrest⟩ := ih hv (m.perform call).2
    refine ⟨u, fun depth ↦ ?_⟩
    rw [performAll, hcall]
    simp only [hrest]
    rfl

/-! ### Many machines -/

section

variable [DecidableEq ι]

/-- Calls on machines that announce their changes, each on its bus, from one world to another.
Whatever else is done with the buses is done by scripts before, between and after the calls, or
in callbacks. -/
inductive Interleaving (schedule : Schedule σ Transition) (buses : ι → BusId)
    (ms : ι → Machine) (w : World σ Transition) :
    List (ι × Exchange Machine String Transition) → (ι → Machine) → World σ Transition → Prop
  | start : Interleaving schedule buses ms w [] ms w
  | call {ns : ι → Machine} {v v' : World σ Transition}
    {log : List (ι × Exchange Machine String Transition)} {depth : Nat} {call : Call String}
    {answer : Answer Transition} {next : Machine} (i : ι)
    (h : Interleaving schedule buses ms w log ns v)
    (hcall : (ns i).performOn schedule (buses i) depth call v = some (answer, next, v')) :
    Interleaving schedule buses ms w (log ++ [(i, ⟨ns i, call, answer⟩)])
      (Function.update ns i next) v'
  | meanwhile {ns : ι → Machine} {v v' : World σ Transition}
    {log : List (ι × Exchange Machine String Transition)} {script : Script σ Transition}
    (h : Interleaving schedule buses ms w log ns v) (hrun : script.EndsIn schedule v v') :
    Interleaving schedule buses ms w log ns v'
  | report {ns : ι → Machine} {v : World σ Transition}
    {log : List (ι × Exchange Machine String Transition)}
    (h : Interleaving schedule buses ms w log ns v) (entry : LogEntry) :
    Interleaving schedule buses ms w log ns (v.report entry)

/-- The exchanges of one machine, in order. -/
def exchangesOf (i : ι) (log : List (ι × Exchange Machine String Transition)) :
    List (Exchange Machine String Transition) :=
  (log.filter (·.1 = i)).map Prod.snd

theorem exchangesOf_append_singleton (i j : ι) (x : Exchange Machine String Transition) :
    exchangesOf i (log ++ [(j, x)]) = exchangesOf i log ++ if j = i then [x] else [] := by
  rw [exchangesOf, List.filter_append, List.map_append]
  split_ifs with h
  · rw [List.filter_cons_of_pos (by simpa using h)]
    rfl
  · rw [List.filter_cons_of_neg (by simpa using h)]
    rfl

/-- To one machine a call on another is a script that someone runs meanwhile. -/
theorem Course.other {bus : BusId} {m n : Machine}
    {own : List (Exchange Machine String Transition)} {v v' : World σ Transition}
    (h : Course schedule (performOn schedule bus) m w own n v) {other next : Machine}
    {bus' : BusId} {depth : Nat} {call : Call String} {answer : Answer Transition}
    (hcall : other.performOn schedule bus' depth call v = some (answer, next, v')) :
    Course schedule (performOn schedule bus) m w own n v' := by
  obtain ⟨failure, hrun⟩ := exists_run_of_performOn rfl hcall
  have hlogged : Course schedule (performOn schedule bus) m w own n (other.logged v call) := by
    rcases other.logged_eq v call with heq | ⟨entry, heq⟩
    · rwa [heq]
    · rw [heq]
      exact h.report entry
  exact hlogged.meanwhile ⟨depth, failure, hrun⟩

/-- Each machine of an interleaving runs a course of its own. -/
theorem Interleaving.course (h : Interleaving schedule buses ms w log ns w') (i : ι) :
    Course schedule (performOn schedule (buses i)) (ms i) w (exchangesOf i log) (ns i) w' := by
  induction h with
  | start => exact .start
  | meanwhile _ hrun ih => exact ih.meanwhile hrun
  | report _ entry ih => exact ih.report entry
  | call j _ hcall ih =>
    rw [exchangesOf_append_singleton]
    by_cases hj : j = i
    · subst hj
      rw [if_pos rfl, Function.update_self]
      exact ih.call hcall
    · rw [if_neg hj, List.append_nil, Function.update_of_ne (Ne.symm hj)]
      exact Course.other ih hcall

/-! ### Nobody has an influence -/

/-- What one machine of an interleaving did and where it came to, whatever went on around it. -/
structure KeepsToItself (schedule : Schedule σ Transition) (buses : ι → BusId)
    (configs : ι → Config) (log : List (ι × Exchange Machine String Transition)) (ms : ι → Machine)
    (w : World σ Transition) (i : ι) : Prop where
  /-- Its own calls, made on a fresh machine that announces to nobody, have the same answers and
  lead to the same state and history. -/
  alone : ∀ solo : Schedule Unit Transition, ∃ v, ∀ depth,
    (start (configs i)).performAll solo 0 depth ((exchangesOf i log).map Exchange.call) solitary =
      some ((exchangesOf i log).map Exchange.answer, ms i, v)
  /-- The next call on it has the answer that it has without a bus, unless one of its
  announcements comes to a listener whose callback has no end. -/
  answered : ∀ call,
    (∃ depth v, (ms i).performOn schedule (buses i) depth call w =
      some (((ms i).perform call).1, ((ms i).perform call).2, v)) ∨
    StallsAnnouncing schedule (buses i)
      (announcements (configs i) ⟨ms i, call, ((ms i).perform call).1⟩) ((ms i).logged w call)

/-- A call has an answer, the one that it has without a bus, if its announcements come to an
end. -/
theorem exists_performOn_or_stalls (schedule : Schedule σ Transition) (bus : BusId) (m : Machine)
    (call : Call String) (w : World σ Transition) :
    (∃ depth v, m.performOn schedule bus depth call w =
      some ((m.perform call).1, (m.perform call).2, v)) ∨
    StallsAnnouncing schedule bus (announcements m.config ⟨m, call, (m.perform call).1⟩)
      (m.logged w call) := by
  by_cases hendless : (announcing bus (announcements m.config
      ⟨m, call, (m.perform call).1⟩)).Endless schedule (m.logged w call)
  · exact Or.inr (stallsAnnouncing_of_endless hendless)
  · obtain ⟨depth, v, failure, hrun⟩ := Script.exists_of_not_endless hendless
    refine Or.inl ⟨depth, v, ?_⟩
    rw [performOn_eq, hrun]
    rfl

theorem config_afterCalls (m : Machine) (calls : List (Call String)) :
    (afterCalls perform m calls).config = m.config := by
  induction calls using List.reverseRecOn with
  | nil => rfl
  | append_singleton calls call ih => rw [afterCalls_append_singleton, config_perform, ih]

/-- Machines are influenced neither by those who listen to them nor by each other. -/
theorem keeps_to_itself {configs : ι → Config}
    (h : Interleaving schedule buses (fun i ↦ start (configs i)) w log ms w') (i : ι) :
    KeepsToItself schedule buses configs log ms w' i := by
  obtain ⟨hlog, hmachine⟩ := (h.course i).eq_exchanges perform_of_performOn
  have hconfig : (ms i).config = configs i := by
    rw [hmachine, config_afterCalls]
    rfl
  refine ⟨fun solo ↦ ?_, fun call ↦ ?_⟩
  · obtain ⟨v, halone⟩ := exists_performAll_of_silent solo silent_solitary
      (start (configs i)) ((exchangesOf i log).map Exchange.call)
    refine ⟨v, fun depth ↦ ?_⟩
    rw [halone, ← hlog, ← hmachine]
  · exact hconfig ▸ exists_performOn_or_stalls schedule (buses i) (ms i) call w'

end

/-- A lamp that is switched on and off. -/
def lamp : Definition :=
  ⟨"dark", ["dark", "bright"],
    .ofList [("dark", .ofList [("switch", "bright")]), ("bright", .ofList [("switch", "dark")])]⟩

/-- Two doors and a lamp between them. -/
def fixtures (i : Fin 3) : Config :=
  if i = 1 then .ofClosed "lamp" lamp else .ofClosed "door" door

/-- The doors share a bus and the lamp has its own. -/
def wiring (i : Fin 3) : BusId :=
  if i = 1 then 1 else 0

/-- Two buses with listeners that fail, remove each other, publish what they were told as a
reset, and clear the bus that they were told on or the other one. -/
def meddling : Script Unit Transition :=
  .create fun shared ↦ .create fun own ↦
    .subscribe shared transitionEvent true (fun _ ↦ .fail .other) fun first ↦
    .subscribe shared "open" false (fun t ↦ .unsubscribe shared first fun _ ↦
      .publish shared resetEvent t fun _ ↦ .clear shared (some "open") .done) fun _ ↦
    .subscribe shared resetEvent false (fun _ ↦ .fail (.text "not now")) fun _ ↦
    .subscribe own "bright" false (fun t ↦ .clear shared none <|
      .publish own transitionEvent t fun _ ↦ .fail .other) fun _ ↦ .done

theorem keeps_to_itself_fixtures :
    ∃ (w : World Unit Transition) (log : List (Fin 3 × Exchange Machine String Transition))
      (ms : Fin 3 → Machine),
      Interleaving .inOrder wiring (fun i ↦ start (fixtures i)) (.empty ()) log ms w ∧
        log.map (fun x ↦ (x.1, x.2.call, x.2.answer)) =
          [(0, .fire "pull" .null, .accepted ⟨"shut", "open", "pull", .null⟩),
            (2, .fire "push" .null, .refused ⟨"shut", "push"⟩),
            (1, .fire "switch" (.str "up"), .accepted ⟨"dark", "bright", "switch", .str "up"⟩),
            (2, .fire "pull" .null, .accepted ⟨"shut", "open", "pull", .null⟩),
            (0, .reset, .done)] ∧
        (publicationsOn 0 w.history = 6 ∧ publicationsOn 1 w.history = 3) ∧
        ∀ i, KeepsToItself .inOrder wiring fixtures log ms w i := by
  have hready : Interleaving .inOrder wiring (fun i ↦ start (fixtures i)) (.empty ()) _ _ _ :=
    Interleaving.meanwhile .start ⟨0, none, (rfl : meddling.run .inOrder 0 _ = some (_, none))⟩
  have hpulled := hready.call 0
    (rfl : performOn .inOrder 0 2 _ (.fire "pull" .null) _ = some (_, _, _))
  have hpushed := hpulled.call 2
    (rfl : performOn .inOrder 0 2 _ (.fire "push" .null) _ = some (_, _, _))
  have hbright := hpushed.call 1
    (rfl : performOn .inOrder 1 2 _ (.fire "switch" (.str "up")) _ = some (_, _, _))
  have hopen := hbright.call 2
    (rfl : performOn .inOrder 0 2 _ (.fire "pull" .null) _ = some (_, _, _))
  have hreset := hopen.call 0 (rfl : performOn .inOrder 0 2 _ .reset _ = some (_, _, _))
  exact ⟨_, _, _, hreset, rfl, by decide +kernel, keeps_to_itself hreset⟩

end AgentMarkup.Machine
