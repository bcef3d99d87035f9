import Mathlib.Data.List.Basic

namespace RaftStore
namespace Systems

/-!
# Systems that take steps

A system has a partial step function: an event may be impossible in a state, and
a possible one determines the next state and an output.  Its runs carry their
history, so that one can speak of every state visited and every step taken, and
of runs all of whose steps meet a condition.

The rules below reduce a property of all runs to one step, carry a run of one
system over to another, and turn an executed schedule into a run.
-/

/-- A system: where it may start, and what an event does to it. -/
structure System (σ ε ω : Type) where
  Starts : σ -> Prop
  step : σ -> ε -> Option (σ × ω)

/-- One step of a run, with the states around it. -/
structure Transition (σ ε ω : Type) where
  source : σ
  event : ε
  output : ω
  target : σ

namespace System

variable {σ ε ω : Type}

/-- The runs of a system.  The history lists the steps taken so far, the newest
first. -/
inductive Run (system : System σ ε ω) : List (Transition σ ε ω) -> σ -> Prop
  | start {state : σ} : system.Starts state -> Run system [] state
  | next {history : List (Transition σ ε ω)} {state after : σ} {event : ε} {output : ω} :
      Run system history state ->
      system.step state event = some (after, output) ->
      Run system (⟨state, event, output, after⟩ :: history) after

end System

variable {σ ε ω : Type}

/-- A step that is a call which may fail is taken when the call returns. -/
theorem toOption_eq_some {φ α : Type} {result : Except φ α} {value : α} :
    result.toOption = some value <-> result = .ok value := by
  cases result <;> simp [Except.toOption]

/-- A state reached at some moment of a run, its end included. -/
def Visits (history : List (Transition σ ε ω)) (final state : σ) : Prop :=
  state = final ∨ Exists fun transition => transition ∈ history ∧ transition.source = state

/-- Every step of a history meets a condition on the state before the step and on
the event. -/
def Meets (condition : σ -> ε -> Prop) (history : List (Transition σ ε ω)) : Prop :=
  forall transition, transition ∈ history -> condition transition.source transition.event

instance (condition : σ -> ε -> Prop)
    [decides : forall state event, Decidable (condition state event)]
    (history : List (Transition σ ε ω)) : Decidable (Meets condition history) :=
  inferInstanceAs (Decidable (forall transition, transition ∈ history ->
    condition transition.source transition.event))

/-- A condition met in a run is met in the run before its last step. -/
theorem Meets.earlier {condition : σ -> ε -> Prop} {transition : Transition σ ε ω}
    {history : List (Transition σ ε ω)} (meets : Meets condition (transition :: history)) :
    Meets condition history :=
  fun other listed => meets other (List.mem_cons_of_mem _ listed)

/-- A condition met in a run is met at its last step. -/
theorem Meets.last {condition : σ -> ε -> Prop} {transition : Transition σ ε ω}
    {history : List (Transition σ ε ω)} (meets : Meets condition (transition :: history)) :
    condition transition.source transition.event :=
  meets transition List.mem_cons_self

/-- The states visited after one more step. -/
theorem visits_next {history : List (Transition σ ε ω)} {state after visited : σ} {event : ε}
    {output : ω} (visits : Visits (⟨state, event, output, after⟩ :: history) after visited) :
    visited = after ∨ Visits history state visited := by
  rcases visits with rfl | ⟨transition, listed, rfl⟩
  · exact Or.inl rfl
  · rcases List.mem_cons.mp listed with rfl | before
    · exact Or.inr (Or.inl rfl)
    · exact Or.inr (Or.inr ⟨transition, before, rfl⟩)

/-- A state once visited has been visited at all later times. -/
theorem Visits.later {history : List (Transition σ ε ω)} {state after visited : σ} {event : ε}
    {output : ω} (visits : Visits history state visited) :
    Visits (⟨state, event, output, after⟩ :: history) after visited := by
  rcases visits with rfl | ⟨transition, listed, rfl⟩
  · exact Or.inr ⟨_, List.mem_cons_self, rfl⟩
  · exact Or.inr ⟨transition, List.mem_cons_of_mem _ listed, rfl⟩

/-- An amount for every event, added up over a history. -/
def total (amount : ε -> Nat) : List (Transition σ ε ω) -> Nat
  | [] => 0
  | transition :: older => amount transition.event + total amount older

theorem total_add (first second : ε -> Nat) (history : List (Transition σ ε ω)) :
    total (fun event => first event + second event) history =
      total first history + total second history := by
  induction history with
  | nil => rfl
  | cons transition older inductionHypothesis =>
      simp only [total, inductionHypothesis]
      omega

namespace System

variable {system : System σ ε ω}

/-- **The invariant rule.**  What holds at the start and is kept by every step
that meets a condition, holds after every run whose steps all meet it. -/
theorem Run.invariant {condition : σ -> ε -> Prop}
    (Holds : List (Transition σ ε ω) -> σ -> Prop)
    (starts : forall state, system.Starts state -> Holds [] state)
    (steps : forall history state event output after, system.Run history state ->
      Holds history state -> condition state event ->
      system.step state event = some (after, output) ->
      Holds (⟨state, event, output, after⟩ :: history) after)
    {history : List (Transition σ ε ω)} {state : σ} (run : system.Run history state)
    (meets : Meets condition history) : Holds history state := by
  induction run with
  | start begins => exact starts _ begins
  | next run stepped inductionHypothesis =>
      exact steps _ _ _ _ _ run (inductionHypothesis meets.earlier) meets.last stepped

/-- **The rule of accounts.**  Where no step spends more than it earns and than it takes
from what the state has in store, a run spends no more than it earns. -/
theorem Run.account (spent earned : ε -> Nat) (store : σ -> Nat)
    (starts : forall state, system.Starts state -> store state = 0)
    (steps : forall history state event output after, system.Run history state ->
      system.step state event = some (after, output) ->
      store after + spent event ≤ store state + earned event)
    {history : List (Transition σ ε ω)} {state : σ} (run : system.Run history state) :
    store state + total spent history ≤ total earned history := by
  induction run with
  | start begins => exact Nat.le_of_eq (starts _ begins)
  | next run stepped inductionHypothesis =>
      have once := steps _ _ _ _ _ run stepped
      simp only [total]
      omega

/-- Where only one state can start, the history of a run determines its end. -/
theorem Run.state_unique (starts : forall left right, system.Starts left -> system.Starts right ->
      left = right) {history : List (Transition σ ε ω)} {left right : σ}
    (first : system.Run history left) (second : system.Run history right) : left = right := by
  cases first with
  | start begins =>
      cases second with
      | start alsoBegins => exact starts _ _ begins alsoBegins
  | next _ _ =>
      cases second with
      | next _ _ => rfl

/-- A run up to one of its steps, and the step. -/
theorem Run.split {newer older : List (Transition σ ε ω)} {transition : Transition σ ε ω}
    {final : σ} (run : system.Run (newer ++ transition :: older) final) :
    system.Run older transition.source ∧
      system.step transition.source transition.event = some (transition.target, transition.output) := by
  induction newer generalizing final with
  | nil =>
      cases run with
      | next earlier stepped => exact ⟨earlier, stepped⟩
  | cons _ rest inductionHypothesis =>
      cases run with
      | next earlier _ => exact inductionHypothesis earlier

/-! ## What can be reached -/

/-- Some continuation of the run whose steps meet the condition ends in a state with
the property. -/
def CanReach (system : System σ ε ω) (condition : σ -> ε -> Prop)
    (history : List (Transition σ ε ω)) (Goal : σ -> Prop) : Prop :=
  Exists fun later => Exists fun final =>
    system.Run (later ++ history) final ∧ Meets condition later ∧ Goal final

section CanReach

variable {condition : σ -> ε -> Prop} {Goal : σ -> Prop} {history : List (Transition σ ε ω)}
  {state after : σ} {event : ε} {output : ω}

theorem CanReach.here (run : system.Run history state) (holds : Goal state) :
    system.CanReach condition history Goal :=
  ⟨[], state, run, fun _ listed => (List.not_mem_nil listed).elim, holds⟩

theorem CanReach.mono {Other : σ -> Prop} (reach : system.CanReach condition history Goal)
    (weaker : forall state, Goal state -> Other state) :
    system.CanReach condition history Other := by
  rcases reach with ⟨later, final, run, meets, holds⟩
  exact ⟨later, final, run, meets, weaker final holds⟩

/-- What can be reached after an allowed step can be reached before it. -/
theorem CanReach.step (allowed : condition state event)
    (reach : system.CanReach condition (⟨state, event, output, after⟩ :: history) Goal) :
    system.CanReach condition history Goal := by
  rcases reach with ⟨later, final, run, meets, holds⟩
  refine ⟨later ++ [⟨state, event, output, after⟩], final, ?_, ?_, holds⟩
  · rw [List.append_assoc]
    exact run
  · intro transition listed
    rcases List.mem_append.mp listed with further | first
    · exact meets transition further
    · rw [List.mem_singleton.mp first]
      exact allowed

/-- What can be reached from a state that can be reached, can be reached. -/
theorem CanReach.trans {Middle : σ -> Prop} (reach : system.CanReach condition history Middle)
    (rest : forall longer state, system.Run longer state -> Middle state ->
      system.CanReach condition longer Goal) : system.CanReach condition history Goal := by
  rcases reach with ⟨later, middle, run, meets, holds⟩
  rcases rest _ middle run holds with ⟨behind, final, whole, further, reached⟩
  refine ⟨behind ++ later, final, ?_, ?_, reached⟩
  · rw [List.append_assoc]
    exact whole
  · intro transition listed
    rcases List.mem_append.mp listed with after | before
    · exact further transition after
    · exact meets transition before

/-- What every step keeps is kept wherever the run can come to. -/
theorem CanReach.keep (Kept : σ -> Prop)
    (unique : forall left right, system.Starts left -> system.Starts right -> left = right)
    (keeps : forall state event output after, Kept state ->
      system.step state event = some (after, output) -> Kept after)
    (run : system.Run history state) (kept : Kept state)
    (reach : system.CanReach condition history Goal) :
    system.CanReach condition history (fun state => Kept state ∧ Goal state) := by
  rcases reach with ⟨later, final, whole, meets, holds⟩
  refine ⟨later, final, whole, meets, ?_, holds⟩
  clear holds
  induction later generalizing final with
  | nil =>
      cases run.state_unique unique whole
      exact kept
  | cons transition later inductionHypothesis =>
      cases whole with
      | next before stepped =>
          exact keeps _ _ _ _ (inductionHypothesis _ before meets.earlier) stepped

variable {τ φ υ : Type} {other : System τ φ υ} {allowed : τ -> φ -> Prop} {Related : σ -> τ -> Prop}
  {history' : List (Transition τ φ υ)} {state' : τ}

/-- **The rule of following.**  Where one system can follow every allowed step of
another, it can reach what the other one can reach. -/
theorem CanReach.follow
    (unique : forall left right, system.Starts left -> system.Starts right -> left = right)
    (follows : forall history state history' state' event output after,
      system.Run history state -> other.Run history' state' -> Related state state' ->
      condition state event -> system.step state event = some (after, output) ->
      Exists fun event' => Exists fun output' => Exists fun after' => allowed state' event' ∧
        other.step state' event' = some (after', output') ∧ Related after after')
    (run : system.Run history state) (run' : other.Run history' state')
    (related : Related state state') (reach : system.CanReach condition history Goal) :
    other.CanReach allowed history' (fun state' => Exists fun longer => Exists fun state =>
      system.Run longer state ∧ Goal state ∧ Related state state') := by
  rcases reach with ⟨later, final, whole, meets, holds⟩
  have followed : Exists fun later' => Exists fun final' => other.Run (later' ++ history') final' ∧
      Meets allowed later' ∧ Related final final' := by
    clear holds
    induction later generalizing final with
    | nil =>
        cases run.state_unique unique whole
        exact ⟨[], state', run', fun _ listed => (List.not_mem_nil listed).elim, related⟩
    | cons transition later inductionHypothesis =>
        cases whole with
        | next before stepped =>
            rcases inductionHypothesis _ before meets.earlier with
              ⟨later', middle, before', meets', kept⟩
            rcases follows _ _ _ _ _ _ _ before before' kept meets.last stepped with
              ⟨event', output', after', possible, stepped', kept⟩
            refine ⟨_ :: later', after', before'.next stepped', ?_, kept⟩
            intro transition listed
            rcases List.mem_cons.mp listed with rfl | earlier
            · exact possible
            · exact meets' transition earlier
  rcases followed with ⟨later', final', run'', meets', kept⟩
  exact ⟨later', final', run'', meets', _, final, whole, holds, kept⟩

end CanReach

/-! ## Schedules -/

/-- Execute a list of events from a state. -/
def execute (system : System σ ε ω) (events : List ε) (state : σ) :
    Option (List (Transition σ ε ω) × σ) :=
  events.foldlM
    (fun (reached : List (Transition σ ε ω) × σ) event =>
      (system.step reached.2 event).map fun result =>
        (⟨reached.2, event, result.2, result.1⟩ :: reached.1, result.1))
    ([], state)

private theorem run_of_foldlM (events : List ε) (reached result : List (Transition σ ε ω) × σ)
    (run : system.Run reached.1 reached.2)
    (executed : events.foldlM
      (fun (reached : List (Transition σ ε ω) × σ) event =>
        (system.step reached.2 event).map fun result =>
          (⟨reached.2, event, result.2, result.1⟩ :: reached.1, result.1)) reached = some result) :
    system.Run result.1 result.2 := by
  induction events generalizing reached with
  | nil =>
      cases executed
      exact run
  | cons event rest inductionHypothesis =>
      rw [List.foldlM_cons] at executed
      cases stepped : system.step reached.2 event with
      | none =>
          rw [stepped] at executed
          cases executed
      | some next =>
          rw [stepped] at executed
          exact inductionHypothesis _ (run.next stepped) executed

/-- A run with a property that can be checked by executing a schedule. -/
theorem exists_run {state : σ} (starts : system.Starts state) {events : List ε}
    {check : List (Transition σ ε ω) × σ -> Bool}
    (checked : (system.execute events state).any check = true) :
    Exists fun history => Exists fun final =>
      system.Run history final ∧ check (history, final) = true := by
  rcases (Option.any_eq_true _ _).mp checked with ⟨⟨history, final⟩, executed, holds⟩
  exact ⟨history, final, run_of_foldlM events ([], state) (history, final) (.start starts) executed,
    holds⟩

end System
end Systems
end RaftStore
