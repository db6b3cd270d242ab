import Mathlib.Data.List.Induction

/-!
# Runs of a labelled step relation, machines with outputs, and traces

A component whose parties interleave is a relation `step before event after` on states. A
`Run` is a finite sequence of such steps, extended at its end, so that induction on a run adds
one step to what is already known of the state before it. `Run.invariant` is the induction
rule for a property of states, and `Run.invariant_of_events` the same rule for the runs whose
events all satisfy a condition. An executable step function `next` gives the relation
`next before event = some after`, and `run_of_execute` turns an evaluation of it into a run.

A component called one operation at a time is a step function with an output. `finalState`
and `outputs` run it over a list of inputs, and `forall₂_outputs` is the simulation rule
between two such functions: a relation between their states which each admissible input keeps
and under which the outputs match gives matching outputs over a whole list of inputs.
`forall₂_outputs_iff` says when they match, where the admissible inputs are known exactly.

What happened in a component may also be kept as a trace, the newest event first. A trace is
`Lawful` where every event of it was allowed after what happened before.
-/

set_option autoImplicit false
set_option relaxedAutoImplicit false

namespace OmniaBackends.Foundation

/-! ### Runs -/

section Runs

variable {State Event : Type*}

/-- A run of a step relation from `start`: the events taken in order and the state reached. -/
inductive Run (step : State → Event → State → Prop) (start : State) :
    List Event → State → Prop
  /-- The empty run. -/
  | nil : Run step start [] start
  /-- A run extended by one step at its end. -/
  | snoc {events : List Event} {event : Event} {middle final : State} :
    Run step start events middle → step middle event final →
      Run step start (events ++ [event]) final

variable {step : State → Event → State → Prop} {start middle final : State}
variable {events later : List Event} {event : Event}

/-- One step is a run. -/
theorem Run.single (hstep : step start event final) : Run step start [event] final :=
  Run.snoc Run.nil hstep

/-- Runs compose. -/
theorem Run.append (hfirst : Run step start events middle)
    (hlast : Run step middle later final) : Run step start (events ++ later) final := by
  induction hlast with
  | nil => rwa [List.append_nil]
  | snoc _ hstep ih =>
    rw [← List.append_assoc]
    exact ih.snoc hstep

/-- A run extended by one step at its start. -/
theorem Run.cons (hstep : step start event middle) (hrun : Run step middle events final) :
    Run step start (event :: events) final :=
  (Run.single hstep).append hrun

/-- The last step of a run, and the run before it. -/
theorem Run.of_snoc (hrun : Run step start (events ++ [event]) final) :
    ∃ middle, Run step start events middle ∧ step middle event final := by
  generalize hall : events ++ [event] = all at hrun
  cases hrun with
  | nil => simp at hall
  | snoc hbefore hstep =>
    obtain ⟨rfl, hevent⟩ := List.append_inj' hall rfl
    obtain rfl := List.singleton_inj.mp hevent
    exact ⟨_, hbefore, hstep⟩

/-- A run of a concatenation passes through a state between its two parts. -/
theorem Run.of_append (hrun : Run step start (events ++ later) final) :
    ∃ middle, Run step start events middle ∧ Run step middle later final := by
  induction later using List.reverseRecOn generalizing final with
  | nil => exact ⟨final, by rwa [List.append_nil] at hrun, Run.nil⟩
  | append_singleton later event ih =>
    rw [← List.append_assoc] at hrun
    obtain ⟨before, hbefore, hstep⟩ := hrun.of_snoc
    obtain ⟨middle, hfirst, hlast⟩ := ih hbefore
    exact ⟨middle, hfirst, hlast.snoc hstep⟩

/-- Induction over a run for the runs whose events all satisfy `allowed`. -/
theorem Run.invariant_of_events (allowed : Event → Prop) (invariant : State → Prop)
    (hstep : ∀ {before event after}, allowed event → invariant before →
      step before event after → invariant after)
    (hrun : Run step start events final) (hstart : invariant start)
    (hevents : ∀ event ∈ events, allowed event) : invariant final := by
  induction hrun with
  | nil => exact hstart
  | snoc _ hlast ih =>
    exact hstep (hevents _ (by simp)) (ih fun event hevent ↦ hevents event (by simp [hevent]))
      hlast

/-- Induction over a run: what holds at the start and is kept by every step holds at the end. -/
theorem Run.invariant (invariant : State → Prop)
    (hstep : ∀ {before event after}, invariant before → step before event after →
      invariant after)
    (hrun : Run step start events final) (hstart : invariant start) : invariant final := by
  induction hrun with
  | nil => exact hstart
  | snoc _ hlast ih => exact hstep ih hlast

/-- The step relation of an executable step function. -/
def StepOf (next : State → Event → Option State) (before : State) (event : Event)
    (after : State) : Prop :=
  next before event = some after

/-- An executable step function over a list of events. -/
def execute (next : State → Event → Option State) : State → List Event → Option State
  | state, [] => some state
  | state, event :: events => (next state event).bind fun after ↦ execute next after events

/-- An evaluation of an executable step function is a run of its relation. -/
theorem run_of_execute {next : State → Event → Option State}
    (hexecute : execute next start events = some final) :
    Run (StepOf next) start events final := by
  induction events generalizing start with
  | nil =>
    obtain rfl := Option.some.inj hexecute
    exact Run.nil
  | cons event events ih =>
    obtain ⟨middle, hstep, hrest⟩ := Option.bind_eq_some_iff.mp hexecute
    exact Run.cons hstep (ih hrest)

/-- An executable step function that goes through a list of events runs to where it ends. -/
theorem run_of_isSome {next : State → Event → Option State}
    (hexecute : (execute next start events).isSome) :
    Run (StepOf next) start events ((execute next start events).get hexecute) :=
  run_of_execute (Option.some_get hexecute).symm

/-- An evaluation whose events each meet a condition where they come is a run of such steps. -/
theorem run_and_of_execute {next : State → Event → Option State}
    {condition : State → Event → Prop} (hexecute : execute next start events = some final)
    (hmeets : ∀ index event, events[index]? = some event → ∀ middle,
      execute next start (events.take index) = some middle → condition middle event) :
    Run (fun before event after ↦ condition before event ∧ next before event = some after) start
      events final := by
  induction events generalizing start with
  | nil =>
    obtain rfl := Option.some.inj hexecute
    exact Run.nil
  | cons event events ih =>
    obtain ⟨middle, hstep, hexecute⟩ := Option.bind_eq_some_iff.mp hexecute
    refine .cons ⟨hmeets 0 event rfl start rfl, hstep⟩
      (ih hexecute fun index later hlater last hlast ↦ ?_)
    exact hmeets (index + 1) later hlater last (Option.bind_eq_some_iff.mpr ⟨middle, hstep, hlast⟩)

end Runs

/-! ### Histories extended at their end -/

/-- The places an event stands in a history extended by one event: at the new end, or where it
stood before. -/
theorem concat_eq_append_cons_iff {Event : Type*} {history before after : List Event}
    {event last : Event} :
    history ++ [last] = before ++ event :: after ↔
      (history = before ∧ last = event ∧ after = []) ∨
        ∃ rest, after = rest ++ [last] ∧ history = before ++ event :: rest := by
  constructor
  · intro hsplit
    rcases List.eq_nil_or_concat after with rfl | ⟨rest, final, rfl⟩
    · obtain ⟨hbefore, hlast⟩ := List.append_inj' hsplit rfl
      exact Or.inl ⟨hbefore, List.singleton_inj.mp hlast, rfl⟩
    · rw [List.concat_eq_append, ← List.cons_append, ← List.append_assoc] at hsplit
      obtain ⟨hbefore, hlast⟩ := List.append_inj' hsplit rfl
      obtain rfl := List.singleton_inj.mp hlast
      exact Or.inr ⟨rest, List.concat_eq_append, hbefore⟩
  · rintro (⟨rfl, rfl, rfl⟩ | ⟨rest, rfl, rfl⟩)
    · rfl
    · simp

/-! ### Machines with outputs -/

section Machines

variable {State Other Input Output Result : Type*}

/-- The state a machine is in after a list of inputs. -/
def finalState (next : State → Input → State × Output) : State → List Input → State
  | state, [] => state
  | state, input :: inputs => finalState next (next state input).1 inputs

/-- The outputs of a machine, one for each input, in order. -/
def outputs (next : State → Input → State × Output) : State → List Input → List Output
  | _, [] => []
  | state, input :: inputs =>
    (next state input).2 :: outputs next (next state input).1 inputs

variable {next : State → Input → State × Output}

/-- The state after a concatenation of inputs. -/
theorem finalState_append (state : State) (first last : List Input) :
    finalState next state (first ++ last) =
      finalState next (finalState next state first) last := by
  induction first generalizing state with
  | nil => rfl
  | cons input inputs ih => exact ih _

/-- The outputs over a concatenation of inputs. -/
theorem outputs_append (state : State) (first last : List Input) :
    outputs next state (first ++ last) =
      outputs next state first ++ outputs next (finalState next state first) last := by
  induction first generalizing state with
  | nil => rfl
  | cons input inputs ih => exact congrArg (List.cons _) (ih _)

/-- What holds at the start and is kept by every input holds after every list of inputs. -/
theorem finalState_invariant (invariant : State → Prop)
    (hnext : ∀ state input, invariant state → invariant (next state input).1)
    {state : State} (hstate : invariant state) (inputs : List Input) :
    invariant (finalState next state inputs) := by
  induction inputs generalizing state with
  | nil => exact hstate
  | cons input inputs ih => exact ih (hnext state input hstate)

/-- The simulation rule between two machines over one list of inputs. Assumes: related states,
and that every input admissible where the second machine stands keeps the relation and gives
matching outputs. -/
theorem forall₂_outputs {other : Other → Input → Other × Result}
    (related : State → Other → Prop) (admissible : Other → Input → Prop)
    (matching : Output → Result → Prop)
    (hnext : ∀ state twin input, related state twin → admissible twin input →
      related (next state input).1 (other twin input).1 ∧
        matching (next state input).2 (other twin input).2)
    {state : State} {twin : Other} (hrelated : related state twin) (inputs : List Input)
    (hadmissible : ∀ before input after, inputs = before ++ input :: after →
      admissible (finalState other twin before) input) :
    related (finalState next state inputs) (finalState other twin inputs) ∧
      List.Forall₂ matching (outputs next state inputs) (outputs other twin inputs) := by
  induction inputs generalizing state twin with
  | nil => exact ⟨hrelated, List.Forall₂.nil⟩
  | cons input inputs ih =>
    obtain ⟨hafter, hmatch⟩ := hnext state twin input hrelated (hadmissible [] input inputs rfl)
    obtain ⟨hfinal, hrest⟩ := ih hafter fun before input' after hsplit ↦
      hadmissible (input :: before) input' after (by rw [hsplit, List.cons_append])
    exact ⟨hfinal, List.Forall₂.cons hmatch hrest⟩

/-- Two machines over one list of inputs whose relation may speak of the inputs so far. Assumes: an
input that is admissible after them keeps the relation, and related machines give matching outputs
for exactly the admissible inputs. Then all outputs match exactly where each input is admissible
after those before it. -/
theorem forall₂_outputs_iff {other : Other → Input → Other × Result}
    (related : List Input → State → Other → Prop) (admissible : List Input → Input → Prop)
    (matching : Output → Result → Prop)
    (hkeeps : ∀ before state twin input, related before state twin → admissible before input →
      related (before ++ [input]) (next state input).1 (other twin input).1)
    (hmatch : ∀ before state twin input, related before state twin →
      (matching (next state input).2 (other twin input).2 ↔ admissible before input))
    {before : List Input} {state : State} {twin : Other} (hrelated : related before state twin)
    (inputs : List Input) :
    List.Forall₂ matching (outputs next state inputs) (outputs other twin inputs) ↔
      ∀ first input last, inputs = first ++ input :: last → admissible (before ++ first) input := by
  induction inputs generalizing before state twin with
  | nil => simp [outputs]
  | cons input inputs ih =>
    rw [outputs, outputs, List.forall₂_cons, hmatch before state twin input hrelated]
    constructor
    · rintro ⟨hinput, hrest⟩ first input' last hsplit
      cases first with
      | nil =>
        obtain ⟨rfl, rfl⟩ := List.cons.inj hsplit
        rwa [List.append_nil]
      | cons head first =>
        obtain ⟨rfl, rfl⟩ := List.cons.inj hsplit
        have hafter := hkeeps before state twin input hrelated hinput
        have hlater := (ih hafter).mp hrest first input' last rfl
        rwa [List.append_assoc] at hlater
    · intro hall
      have hinput : admissible before input := by
        simpa using hall [] input inputs rfl
      refine ⟨hinput, (ih (hkeeps before state twin input hrelated hinput)).mpr ?_⟩
      intro first input' last hsplit
      have hlater := hall (input :: first) input' last (by rw [hsplit, List.cons_append])
      rwa [List.append_cons] at hlater

end Machines

/-! ### Traces -/

section Traces

variable {Event : Type*} {allowed permitted : List Event → Event → Prop}
variable {newer older : List Event} {event : Event}

/-- A trace, the newest event first, whose every event was allowed after what happened before. -/
def Lawful (allowed : List Event → Event → Prop) : List Event → Prop
  | [] => True
  | event :: older => allowed older event ∧ Lawful allowed older

/-- What happened before is lawful too. -/
theorem Lawful.of_append (hlawful : Lawful allowed (newer ++ older)) : Lawful allowed older := by
  induction newer with
  | nil => exact hlawful
  | cons event newer ih => exact ih hlawful.2

/-- A lawful trace stays so where more is allowed. -/
theorem Lawful.imp {events : List Event} (hlawful : Lawful allowed events)
    (himp : ∀ older event, allowed older event → permitted older event) :
    Lawful permitted events := by
  induction events with
  | nil => trivial
  | cons event older ih => exact ⟨himp older event hlawful.1, ih hlawful.2⟩

/-- Wherever an event stands in a lawful trace, it was allowed there. -/
theorem Lawful.allowed_of_append (hlawful : Lawful allowed (newer ++ event :: older)) :
    allowed older event :=
  hlawful.of_append.1

end Traces

end OmniaBackends.Foundation
