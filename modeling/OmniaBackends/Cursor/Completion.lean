import OmniaBackends.Cursor.AgentCalls

/-!
# Completions and their restart

`ModelClient::complete` of `crates/cursor/src/model.rs`. A completion is one attempt on an agent
and, where that lost its worker while it was opening, a second one on a fresh worker. The first
agent's teardown goes on beside the second attempt.

Opening is a flag of the rounds, which the first answered `Send` clears. Tool calls arrive beside
the rounds, in the middle of that `Send` too, so that a worker may be lost after the guest has run a
tool and the request is still put to a second one (`restart_runs_twice`). Where no declared call is
dispatched on an agent whose opening `Send` loses the worker, neither before nor after, what is
asked again had nothing run (`restarts_spare`).

An attempt stands for the staging and the lease before it too: a second attempt that finds no worker
puts the request to none.
-/

set_option autoImplicit false
set_option relaxedAutoImplicit false

namespace OmniaBackends.Cursor

open Foundation

/-- Whether `Agent::complete` has returned. -/
def Agent.returned (agent : Agent) : Bool :=
  match agent.stage with
  | .refused | .finished | .recalling | .closing | .deleting | .gone => true
  | _ => false

/-- Whether the result asks for a fresh worker. -/
def Agent.restartable (agent : Agent) : Bool :=
  match agent.result with
  | some (.error unanswered) => unanswered.restartable
  | _ => false

/-- A completion: its first attempt, the second where there is one, and whether the guest dropped
it. -/
structure Completion where
  first : Agent
  second : Option Agent
  dropped : Bool

namespace Completion

inductive Event where
  | first (event : Agent.Event)
  | second (event : Agent.Event)
  /-- The guest drops the completion. -/
  | drop
  /-- The request is put to a second worker. -/
  | restart
  deriving DecidableEq, Repr

/-- The first attempt on a worker leased to it. -/
def start (turn : Turn) : Completion := ⟨.start turn, none, false⟩

variable (turn : Turn)

/-- One step; `none` where it cannot happen. -/
def step (completion : Completion) : Event → Option Completion
  | .first .drop => none
  | .first event =>
    (completion.first.step turn event).map fun first ↦ { completion with first := first }
  | .second .drop => none
  | .second event =>
    completion.second.bind fun second ↦
      (second.step turn event).map fun second ↦ { completion with second := some second }
  | .drop =>
    if completion.dropped then none
    else
      match completion.second with
      | none =>
        (completion.first.step turn .drop).map fun first ↦
          { completion with first := first, dropped := true }
      | some second =>
        (second.step turn .drop).map fun second ↦
          { completion with second := some second, dropped := true }
  | .restart =>
    if completion.second.isNone ∧ completion.first.returned ∧ completion.first.restartable ∧
        ¬ completion.dropped then
      some { completion with second := some (.start turn) }
    else none

/-- The runs of a completion. -/
abbrev Runs (events : List Event) (completion : Completion) : Prop :=
  Foundation.Run (fun before event after ↦ step turn before event = some after) (start turn) events
    completion

/-- Nothing was run for an attempt that is asked again: no declared call was dispatched to the guest
and no candidate was offered. -/
def Spared (completion : Completion) : Prop :=
  completion.second.isSome = true →
    (∀ tool, .dispatched tool ∉ completion.first.history) ∧
      ∀ candidate, .offered candidate ∉ completion.first.history

/-- What a step of the first attempt must not meet: the worker lost under the opening `Send` with a
declared call dispatched, and a declared call where the worker was so lost. -/
def Sparing (before : Completion) : Event → Prop
  | .first event =>
    (event.loses = true → before.first.opening = true →
      ∀ tool, .dispatched tool ∉ before.first.history) ∧
    ∀ tool, event = .callback tool → tool ∈ turn.declared → before.first.restartable = false
  | _ => True

/-- The runs whose every step is sparing. -/
abbrev SparingRuns (events : List Event) (completion : Completion) : Prop :=
  Foundation.Run
    (fun before event after ↦ Sparing turn before event ∧ step turn before event = some after)
    (start turn) events completion

end Completion

/-! ### Attempts that are opening -/

variable {turn : Turn} {agent after : Agent} {event : Agent.Event}

/-- No candidate is offered while an attempt is opening. -/
structure Opening (agent : Agent) : Prop where
  unoffered : agent.opening = true → ∀ candidate, .offered candidate ∉ agent.history
  creating : agent.stage = .creating → agent.opening = true
  running : agent.stage.sending = true → agent.result = none
  unanswered : ∀ unanswered, agent.result = some (.error unanswered) → unanswered.opening = true →
    ∀ candidate, .offered candidate ∉ agent.history

theorem Opening.start : Opening (.start turn) where
  unoffered _ candidate hmember := by simp [Agent.start] at hmember
  creating _ := rfl
  running _ := rfl
  unanswered _ hresult := by cases hresult

/-- What happens but an offer leaves an attempt opening. -/
theorem Opening.happen (hopening : Opening agent) (happening : Happening)
    (hcandidate : happening.candidate = none) : Opening (agent.happen happening) := by
  have hoffered (candidate : Bytes) (hmember : .offered candidate ∈ happening :: agent.history) :
      .offered candidate ∈ agent.history := by
    rcases List.mem_cons.mp hmember with heq | hmember
    · rw [← heq] at hcandidate
      cases hcandidate
    · exact hmember
  exact {
    unoffered := fun hopen candidate hmember ↦
      hopening.unoffered hopen candidate (hoffered candidate hmember)
    creating := hopening.creating
    running := hopening.running
    unanswered := fun unanswered hresult hopen candidate hmember ↦
      hopening.unanswered unanswered hresult hopen candidate (hoffered candidate hmember) }

/-- The rounds end with no answer only where that is said of what is opening. -/
theorem Opening.conclude (hopening : Opening agent) {result : Except Unanswered Answer}
    (hresult : ∀ unanswered, result = .error unanswered → unanswered.opening = true →
      agent.opening = true) : Opening (agent.conclude result) where
  unoffered := hopening.unoffered
  creating hstage := by cases hstage
  running hsending := by cases hsending
  unanswered unanswered hended hopen :=
    hopening.unoffered (hresult unanswered (Option.some.inj hended) hopen)

theorem Opening.failSend (hopening : Opening agent) (error : Error) :
    Opening (agent.failSend error) := by
  refine (hopening.happen (.failed error) rfl).conclude fun unanswered hresult hopen ↦ ?_
  rw [← Except.error.inj hresult] at hopen
  exact hopen

/-- A task that goes on leaves the result as it is. -/
theorem Opening.restage (hopening : Opening agent) (stage : Stage) (runId : Option Bytes)
    (hcreating : stage ≠ .creating) (hsending : stage.sending = true → agent.result = none) :
    Opening { agent with stage := stage, runId := runId } :=
  { hopening with
    creating := fun hstage ↦ absurd hstage hcreating
    running := hsending }

/-- With the opening `Send` answered the attempt is no longer opening. -/
theorem Opening.answered (hresult : agent.result = none)
    (response : Response) : Opening (agent.answered turn response) := by
  have hopened (stage : Stage) (nudged : Bool) (prompt : Bytes) (history : List Happening)
      (hcreating : stage ≠ .creating) : Opening { agent with
        opening := false, stage := stage, nudged := nudged, prompt := prompt,
        history := history } :=
    { unoffered := fun hopen ↦ by cases hopen
      creating := fun hstage ↦ absurd hstage hcreating
      running := fun _ ↦ hresult
      unanswered := fun unanswered hended ↦ by
        rw [show agent.result = some (.error unanswered) from hended] at hresult
        cases hresult }
  unfold Agent.answered
  dsimp only
  split_ifs
  · split
    · exact hopened .prompting true _ agent.history Stage.noConfusion
    · exact hopened _ agent.nudged agent.prompt _ Stage.noConfusion
  · exact {
      unoffered := fun hopen ↦ by cases hopen
      creating := fun hstage ↦ by cases hstage
      running := fun hsending ↦ by cases hsending
      unanswered := fun unanswered hended ↦ by cases hended }

theorem Opening.streamEnded (hopening : Opening agent) (hresult : agent.result = none)
    {log : EventLog} {outcome : Option RunStreamResult}
    (hstage : agent.stage = .following log outcome) :
    Opening (agent.streamEnded turn log outcome) := by
  have hended : Opening (({ agent with runId := none } : Agent).happen .ended) :=
    (hopening.restage agent.stage none (by rw [hstage]; exact Stage.noConfusion)
      hopening.running).happen .ended rfl
  unfold Agent.streamEnded
  cases outcome with
  | none => exact hended.failSend _
  | some outcome =>
    dsimp only
    split_ifs
    · exact hended.failSend _
    · refine Opening.answered ?_ _
      exact hresult

theorem Opening.streamed (hopening : Opening agent) (hresult : agent.result = none)
    (log : EventLog) (outcome : Option RunStreamResult) (message : RunStreamMessage) :
    Opening (agent.streamed turn log outcome message) := by
  have hnext (runId : Option Bytes) : Opening (({ agent with
      stage := .following (log.observeMessage message) (message.result.or outcome)
      runId := runId } : Agent).happen (.streamed message)) :=
    (hopening.restage _ runId Stage.noConfusion fun _ ↦ hresult).happen _ rfl
  unfold Agent.streamed
  dsimp only
  split_ifs
  · exact (hnext _).streamEnded hresult rfl
  · exact hnext _

theorem Opening.judged (hopening : Opening agent) (hresult : agent.result = none)
    (candidate : Bytes) (response : Response) (verdict : Verdict) :
    Opening (agent.judged candidate response verdict) := by
  have hjudged := hopening.happen (.judged candidate verdict) rfl
  have hsettled {error : Error} (unanswered : Unanswered)
      (hended : Except.error (ε := Unanswered) ⟨error, false⟩ = .error unanswered (α := Answer))
      (hopen : unanswered.opening = true) : agent.opening = true := by
    rw [← Except.error.inj hended] at hopen
    cases hopen
  unfold Agent.judged
  cases verdict with
  | accepted => exact hjudged.conclude fun unanswered hended ↦ by cases hended
  | rejected correction =>
    dsimp only
    split_ifs
    · exact { hjudged with
        creating := fun hstage ↦ by cases hstage
        running := fun _ ↦ hresult }
    · exact hjudged.conclude hsettled
  | failed error => exact hjudged.conclude hsettled

theorem Opening.settle (hopening : Opening agent) : Opening agent.settle := by
  have hlate (stage : Stage) (hcreating : stage ≠ .creating) (hstage : stage.sending = false) :
      Opening (({ agent with stage := stage, runId := none } : Agent).happen
        (.settled agent.alive)) :=
    (hopening.restage stage none hcreating fun hsending ↦
      absurd (hstage.symm.trans hsending) Bool.false_ne_true).happen _ rfl
  unfold Agent.settle
  dsimp only
  split
  · exact (hlate .cancelling Stage.noConfusion rfl).happen _ rfl
  · exact hlate .finished Stage.noConfusion rfl

theorem Opening.teardown (hopening : Opening agent) : Opening agent.teardown := by
  have hlate (stage : Stage) (hcreating : stage ≠ .creating) (hstage : stage.sending = false) :
      Opening (({ agent with stage := stage, runId := none } : Agent).happen
        (.tornDown agent.alive)) :=
    (hopening.restage stage none hcreating fun hsending ↦
      absurd (hstage.symm.trans hsending) Bool.false_ne_true).happen _ rfl
  unfold Agent.teardown
  dsimp only
  split_ifs
  · split
    · exact (hlate .recalling Stage.noConfusion rfl).happen _ rfl
    · exact (hlate .closing Stage.noConfusion rfl).happen _ rfl
  · exact hlate .gone Stage.noConfusion rfl

theorem Opening.replied (hopening : Opening agent) (hreplied : agent.replied = some after) :
    Opening after := by
  have hlate (stage : Stage) (hcreating : stage ≠ .creating) (hstage : stage.sending = false) :
      Opening { agent with stage := stage } :=
    hopening.restage stage agent.runId hcreating fun hsending ↦
      absurd (hstage.symm.trans hsending) Bool.false_ne_true
  unfold Agent.replied at hreplied
  split at hreplied
  · rw [← Option.some.inj hreplied]
    exact (hlate .billing Stage.noConfusion rfl).happen _ rfl
  · rw [← Option.some.inj hreplied]
    exact hlate .finished Stage.noConfusion rfl
  · rw [← Option.some.inj hreplied]
    exact (hlate .closing Stage.noConfusion rfl).happen _ rfl
  · rw [← Option.some.inj hreplied]
    exact (hlate .deleting Stage.noConfusion rfl).happen _ rfl
  · rw [← Option.some.inj hreplied]
    exact hlate .gone Stage.noConfusion rfl
  · cases hreplied

/-- Every step keeps what is opening free of offers. -/
theorem Opening.moves (hopening : Opening agent) (hmoves : Agent.Moves turn agent event after) :
    Opening after := by
  have hrunning (hsending : agent.stage.sending = true) := hopening.running hsending
  cases hmoves with
  | aside alive inFlight aborted => exact { hopening with }
  | drop =>
    have hdropped : Opening { agent with dropped := true } := { hopening with }
    exact hdropped.happen .dropped rfl
  | dispatch tool hevent hdeclared hrouted =>
    have hflying : Opening { agent with inFlight := agent.inFlight + 1 } := { hopening with }
    exact hflying.happen (.dispatched tool) rfl
  | refuse error hstage hloses =>
    exact {
      unoffered := hopening.unoffered
      creating := fun hrefused ↦ by cases hrefused
      running := fun hsending ↦ by cases hsending
      unanswered := fun _ _ _ ↦ hopening.unoffered (hopening.creating hstage) }
  | create agentId hstage =>
    rw [hstage] at hrunning
    exact { hopening with
      creating := fun hprompting ↦ by cases hprompting
      running := fun _ ↦ hrunning rfl }
  | failSend error hstage hloses => exact hopening.failSend error
  | send hstage hdropped =>
    rw [hstage] at hrunning
    exact (hopening.restage .opening agent.runId Stage.noConfusion fun _ ↦ hrunning rfl).happen _
      rfl
  | opened hstage =>
    rw [hstage] at hrunning
    exact hopening.restage _ agent.runId Stage.noConfusion fun _ ↦ hrunning rfl
  | streamed log outcome message hstage =>
    rw [hstage] at hrunning
    exact hopening.streamed (hrunning rfl) log outcome message
  | streamEnded log outcome hstage =>
    rw [hstage] at hrunning
    exact hopening.streamEnded (hrunning rfl) hstage
  | judged candidate response verdict hstage =>
    rw [hstage] at hrunning
    exact hopening.judged (hrunning rfl) candidate response verdict
  | settle hstage => exact hopening.settle
  | reply _ hreplied => exact hopening.replied hreplied
  | teardown hstage => exact hopening.teardown

/-! ### What was dispatched -/

/-- No declared call was dispatched to the guest. -/
def Undispatched (agent : Agent) : Prop := ∀ tool, .dispatched tool ∉ agent.history

theorem Undispatched.happen (hundispatched : Undispatched agent) {happening : Happening}
    (hother : ∀ tool, happening ≠ .dispatched tool) : Undispatched (agent.happen happening) := by
  intro tool hmember
  rcases List.mem_cons.mp hmember with heq | hmember
  · exact hother tool heq.symm
  · exact hundispatched tool hmember

theorem Undispatched.failSend (hundispatched : Undispatched agent) (error : Error) :
    Undispatched (agent.failSend error) := by
  have hfailed : Undispatched (agent.happen (.failed error)) :=
    hundispatched.happen fun _ ↦ Happening.noConfusion
  exact hfailed

theorem Undispatched.streamEnded (hundispatched : Undispatched agent) (log : EventLog)
    (outcome : Option RunStreamResult) : Undispatched (agent.streamEnded turn log outcome) := by
  have hended : Undispatched (agent.happen .ended) :=
    hundispatched.happen fun _ ↦ Happening.noConfusion
  have hfailed (error : Error) : Undispatched ((agent.happen .ended).happen (.failed error)) :=
    hended.happen fun _ ↦ Happening.noConfusion
  unfold Agent.streamEnded
  cases outcome with
  | none => exact hfailed _
  | some outcome =>
    dsimp only
    split_ifs
    · exact hfailed _
    · unfold Agent.answered
      dsimp only
      split_ifs
      · split
        · exact hended
        · have hoffered : Undispatched ((agent.happen .ended).happen
              (.offered (turn.candidate (outcome.result.getD [])))) :=
            hended.happen fun _ ↦ Happening.noConfusion
          exact hoffered
      · exact hended

/-- Only the callback of a declared tool dispatches a call. -/
theorem Undispatched.moves (hundispatched : Undispatched agent)
    (hmoves : Agent.Moves turn agent event after)
    (hevent : ∀ tool, event = .callback tool → tool ∉ turn.declared) : Undispatched after := by
  cases hmoves with
  | aside | refuse | create | opened => exact hundispatched
  | drop => exact hundispatched.happen fun _ ↦ Happening.noConfusion
  | dispatch tool hcallback hdeclared hrouted => exact absurd hdeclared (hevent tool hcallback)
  | failSend error hstage hloses => exact hundispatched.failSend error
  | send hstage hdropped => exact hundispatched.happen fun _ ↦ Happening.noConfusion
  | streamed log outcome message hstage =>
    have hstreamed : Undispatched (agent.happen (.streamed message)) :=
      hundispatched.happen fun _ ↦ Happening.noConfusion
    unfold Agent.streamed
    dsimp only
    split_ifs
    · refine Undispatched.streamEnded ?_ _ _
      exact hstreamed
    · exact hstreamed
  | streamEnded log outcome hstage => exact hundispatched.streamEnded log outcome
  | judged candidate response verdict hstage =>
    have hjudged : Undispatched (agent.happen (.judged candidate verdict)) :=
      hundispatched.happen fun _ ↦ Happening.noConfusion
    unfold Agent.judged
    cases verdict with
    | accepted => exact hjudged
    | rejected correction =>
      dsimp only
      split_ifs
      · exact hjudged
      · exact hjudged
    | failed error => exact hjudged
  | settle hstage =>
    have hsettled : Undispatched (agent.happen (.settled agent.alive)) :=
      hundispatched.happen fun _ ↦ Happening.noConfusion
    unfold Agent.settle
    dsimp only
    split
    · exact hsettled.happen fun _ ↦ Happening.noConfusion
    · exact hsettled
  | reply _ hreplied =>
    unfold Agent.replied at hreplied
    split at hreplied
    · rw [← Option.some.inj hreplied]
      exact hundispatched.happen fun _ ↦ Happening.noConfusion
    · rw [← Option.some.inj hreplied]
      exact hundispatched
    · rw [← Option.some.inj hreplied]
      exact hundispatched.happen fun _ ↦ Happening.noConfusion
    · rw [← Option.some.inj hreplied]
      exact hundispatched.happen fun _ ↦ Happening.noConfusion
    · rw [← Option.some.inj hreplied]
      exact hundispatched
    · cases hreplied
  | teardown hstage =>
    have htorn : Undispatched (agent.happen (.tornDown agent.alive)) :=
      hundispatched.happen fun _ ↦ Happening.noConfusion
    unfold Agent.teardown
    dsimp only
    split_ifs
    · split
      · exact htorn.happen fun _ ↦ Happening.noConfusion
      · exact htorn.happen fun _ ↦ Happening.noConfusion
    · exact htorn

/-! ### Results -/

theorem Agent.restartable_of_result (hsame : after.result = agent.result) :
    after.restartable = agent.restartable := by
  unfold Agent.restartable
  rw [hsame]

theorem Agent.result_settle (agent : Agent) : agent.settle.result = agent.result := by
  unfold Agent.settle
  dsimp only
  split
  · rfl
  · rfl

theorem Agent.result_teardown (agent : Agent) : agent.teardown.result = agent.result := by
  unfold Agent.teardown
  dsimp only
  split_ifs
  · split
    · rfl
    · rfl
  · rfl

theorem Agent.result_of_replied (hreplied : agent.replied = some after) :
    after.result = agent.result := by
  unfold Agent.replied at hreplied
  split at hreplied
  · rw [← Option.some.inj hreplied]
    rfl
  · rw [← Option.some.inj hreplied]
  · rw [← Option.some.inj hreplied]
    rfl
  · rw [← Option.some.inj hreplied]
    rfl
  · rw [← Option.some.inj hreplied]
  · cases hreplied

/-- Only the loss of the worker while the attempt is opening asks for a fresh one. -/
theorem Opening.restartable_moves (hopening : Opening agent)
    (hmoves : Agent.Moves turn agent event after) (hrestartable : after.restartable = true) :
    agent.restartable = true ∨ event.loses = true ∧ agent.opening = true := by
  have hfailed {error : Error} {opening : Bool}
      (hloses : (Outcome.ofError error).lostWorker = true → event.loses = true)
      (hunanswered : (Unanswered.mk error opening).restartable = true) :
      event.loses = true ∧ opening = true := by
    obtain ⟨hopen, hlost⟩ := Bool.and_eq_true_iff.mp hunanswered
    exact ⟨hloses hlost, hopen⟩
  have hended {log : EventLog} {outcome : Option RunStreamResult} {before : Agent}
      (hlost : (before.streamEnded turn log outcome).restartable = true)
      (hsame : before.result = agent.result) :
      agent.restartable = true := by
    unfold Agent.streamEnded at hlost
    cases outcome with
    | none => simp [Agent.failSend, Agent.conclude, Agent.restartable, Unanswered.restartable,
        Outcome.ofError, Outcome.lostWorker] at hlost
    | some outcome =>
      dsimp only at hlost
      split_ifs at hlost
      · simp [Agent.failSend, Agent.conclude, Agent.restartable, Unanswered.restartable,
          Outcome.ofError, Outcome.ofFailure, Outcome.lostWorker] at hlost
      · unfold Agent.answered at hlost
        dsimp only at hlost
        split_ifs at hlost
        · split at hlost
          · exact (Agent.restartable_of_result hsame).symm.trans hlost
          · exact (Agent.restartable_of_result hsame).symm.trans hlost
        · cases hlost
  cases hmoves with
  | aside | drop | dispatch | create | send | opened => exact .inl hrestartable
  | refuse error hstage hloses =>
    obtain ⟨hlost, -⟩ := hfailed hloses hrestartable
    exact .inr ⟨hlost, hopening.creating hstage⟩
  | failSend error hstage hloses => exact .inr (hfailed hloses hrestartable)
  | streamed log outcome message hstage =>
    unfold Agent.streamed at hrestartable
    dsimp only at hrestartable
    split_ifs at hrestartable
    · exact .inl (hended hrestartable rfl)
    · exact .inl hrestartable
  | streamEnded log outcome hstage => exact .inl (hended hrestartable rfl)
  | judged candidate response verdict hstage =>
    unfold Agent.judged at hrestartable
    cases verdict with
    | accepted => cases hrestartable
    | rejected correction =>
      dsimp only at hrestartable
      split_ifs at hrestartable
      · exact .inl hrestartable
      · cases hrestartable
    | failed error => cases hrestartable
  | settle hstage =>
    rw [Agent.restartable_of_result agent.result_settle] at hrestartable
    exact .inl hrestartable
  | reply _ hreplied =>
    rw [Agent.restartable_of_result (Agent.result_of_replied hreplied)] at hrestartable
    exact .inl hrestartable
  | teardown hstage =>
    rw [Agent.restartable_of_result agent.result_teardown] at hrestartable
    exact .inl hrestartable

/-- A result is not taken back. -/
theorem Opening.result_moves (hopening : Opening agent)
    (hmoves : Agent.Moves turn agent event after) (hresult : agent.result ≠ none) :
    after.result = agent.result := by
  have hrunning (hsending : agent.stage.sending = true) : False :=
    hresult (hopening.running hsending)
  cases hmoves with
  | aside | drop | dispatch | create | send | opened => rfl
  | refuse error hstage hloses =>
    rw [hstage] at hrunning
    exact (hrunning rfl).elim
  | failSend error hstage hloses =>
    rcases hstage with hstage | hstage | ⟨log, outcome, hstage⟩
    · rw [hstage] at hrunning
      exact (hrunning rfl).elim
    · rw [hstage] at hrunning
      exact (hrunning rfl).elim
    · rw [hstage] at hrunning
      exact (hrunning rfl).elim
  | streamed log outcome message hstage =>
    rw [hstage] at hrunning
    exact (hrunning rfl).elim
  | streamEnded log outcome hstage =>
    rw [hstage] at hrunning
    exact (hrunning rfl).elim
  | judged candidate response verdict hstage =>
    rw [hstage] at hrunning
    exact (hrunning rfl).elim
  | settle hstage => exact agent.result_settle
  | reply _ hreplied => exact Agent.result_of_replied hreplied
  | teardown hstage => exact agent.result_teardown

/-- What asks for a fresh worker goes on asking for it. -/
theorem Opening.restartable_of_moves (hopening : Opening agent)
    (hmoves : Agent.Moves turn agent event after) (hrestartable : agent.restartable = true) :
    after.restartable = true := by
  have hsame : after.result = agent.result := hopening.result_moves hmoves fun hresult ↦ by
    simp [Agent.restartable, hresult] at hrestartable
  exact (Agent.restartable_of_result hsame).trans hrestartable

/-- Nothing that asks for a fresh worker was offered. -/
theorem Opening.unoffered_of_restartable (hopening : Opening agent)
    (hrestartable : agent.restartable = true) (candidate : Bytes) :
    .offered candidate ∉ agent.history := by
  unfold Agent.restartable at hrestartable
  split at hrestartable
  · exact hopening.unanswered _ ‹_› (Bool.and_eq_true_iff.mp hrestartable).1 candidate
  · cases hrestartable

/-! ### Runs of a completion -/

namespace Completion

variable {before next : Completion} {events : List Event} {completion : Completion}

/-- A step of a completion is one of its first attempt, or leaves that as it is. A second attempt is
made only where the first asks for it. -/
theorem moves_of_step {event : Event} (hstep : step turn before event = some next) :
    (∃ agentEvent, (event = .first agentEvent ∨ event = .drop ∧ agentEvent = .drop) ∧
        Agent.Moves turn before.first agentEvent next.first ∧ next.second = before.second) ∨
      (next.first = before.first ∧
        (before.second.isSome = true ∨ before.first.restartable = true)) := by
  cases event with
  | first agentEvent =>
    have hmap : (before.first.step turn agentEvent).map
        (fun first ↦ { before with first := first }) = some next := by
      cases agentEvent with
      | drop => cases hstep
      | _ => exact hstep
    obtain ⟨first, hfirst, rfl⟩ := Option.map_eq_some_iff.mp hmap
    exact .inl ⟨agentEvent, .inl rfl, .of_step hfirst, rfl⟩
  | second agentEvent =>
    have hbind : before.second.bind (fun second ↦ (second.step turn agentEvent).map
        fun second ↦ { before with second := some second }) = some next := by
      cases agentEvent with
      | drop => cases hstep
      | _ => exact hstep
    obtain ⟨second, hsecond, hmap⟩ := Option.bind_eq_some_iff.mp hbind
    obtain ⟨_, -, rfl⟩ := Option.map_eq_some_iff.mp hmap
    exact .inr ⟨rfl, .inl (by rw [hsecond]; rfl)⟩
  | drop =>
    obtain ⟨-, hdrop⟩ := Option.ite_none_left_eq_some.mp hstep
    cases hsecond : before.second with
    | none =>
      rw [hsecond] at hdrop
      obtain ⟨first, hfirst, rfl⟩ := Option.map_eq_some_iff.mp hdrop
      exact .inl ⟨.drop, .inr ⟨rfl, rfl⟩, .of_step hfirst, rfl⟩
    | some second =>
      rw [hsecond] at hdrop
      obtain ⟨_, -, rfl⟩ := Option.map_eq_some_iff.mp hdrop
      exact .inr ⟨rfl, .inl rfl⟩
  | restart =>
    obtain ⟨hrestart, hnext⟩ := Option.ite_none_right_eq_some.mp hstep
    rw [← Option.some.inj hnext]
    exact .inr ⟨rfl, .inr hrestart.2.2.1⟩

/-- What holds of a completion in every run: only an attempt that asks for it is put to a second
worker. -/
structure Restarted (completion : Completion) : Prop where
  opening : Opening completion.first
  asked : completion.second.isSome = true → completion.first.restartable = true

theorem Restarted.step (hrestarted : Restarted before) {event : Event}
    (hstep : step turn before event = some next) : Restarted next := by
  rcases moves_of_step hstep with ⟨agentEvent, -, hmoves, hsecond⟩ | ⟨hfirst, hasked⟩
  · refine ⟨hrestarted.opening.moves hmoves, fun hsome ↦ ?_⟩
    rw [hsecond] at hsome
    exact hrestarted.opening.restartable_of_moves hmoves (hrestarted.asked hsome)
  · rw [← hfirst] at hasked
    refine ⟨hfirst ▸ hrestarted.opening, fun _ ↦ ?_⟩
    rcases hasked with hsome | hrestartable
    · exact hfirst ▸ hrestarted.asked hsome
    · exact hrestartable

/-- In every run, no candidate was offered to the check of an attempt that is asked again. -/
theorem restarted_unoffered (hruns : Runs turn events completion)
    (hsecond : completion.second.isSome = true) (candidate : Bytes) :
    .offered candidate ∉ completion.first.history := by
  have hrestarted : Restarted completion :=
    hruns.invariant Restarted (fun hkept hstep ↦ hkept.step hstep)
      ⟨.start, fun hnone ↦ by cases hnone⟩
  exact hrestarted.opening.unoffered_of_restartable (hrestarted.asked hsecond) candidate

/-- A sparing step dispatches nothing for an attempt that asks for a fresh worker. -/
theorem Restarted.undispatched_step (hrestarted : Restarted before) {event : Event}
    (hsparing : Sparing turn before event) (hstep : Completion.step turn before event = some next)
    (hbefore : before.first.restartable = true → Undispatched before.first)
    (hrestartable : next.first.restartable = true) : Undispatched next.first := by
  rcases moves_of_step hstep with ⟨agentEvent, hevent, hmoves, -⟩ | ⟨hfirst, -⟩
  · rcases hevent with rfl | ⟨-, rfl⟩
    · rcases hrestarted.opening.restartable_moves hmoves hrestartable with hasked | ⟨hloses, hopen⟩
      · refine (hbefore hasked).moves hmoves fun tool hcallback hdeclared ↦ ?_
        have hrefused := hsparing.2 tool hcallback hdeclared
        rw [hasked] at hrefused
        cases hrefused
      · refine Undispatched.moves (hsparing.1 hloses hopen) hmoves fun tool hcallback ↦ ?_
        rw [hcallback] at hloses
        cases hloses
    · rcases hrestarted.opening.restartable_moves hmoves hrestartable with hasked | ⟨hloses, -⟩
      · exact (hbefore hasked).moves hmoves fun tool hcallback ↦ by cases hcallback
      · cases hloses
  · rw [hfirst] at hrestartable ⊢
    exact hbefore hrestartable

/-- Where no opening `Send` loses its worker after a declared call was dispatched, and no declared
call arrives where one has, what is asked again had nothing run: no call was dispatched to the guest
and no candidate was offered to its check. -/
theorem restarts_spare (hruns : SparingRuns turn events completion) : Spared completion := by
  have hinvariant : Restarted completion ∧
      (completion.first.restartable = true → Undispatched completion.first) := by
    refine hruns.invariant
      (fun completion ↦ Restarted completion ∧
        (completion.first.restartable = true → Undispatched completion.first))
      (fun hkept hstep ↦ ?_) ⟨⟨.start, fun hnone ↦ by cases hnone⟩, fun hnone ↦ by cases hnone⟩
    obtain ⟨hsparing, hstep⟩ := hstep
    exact ⟨hkept.1.step hstep, hkept.1.undispatched_step hsparing hstep hkept.2⟩
  obtain ⟨hrestarted, hundispatched⟩ := hinvariant
  intro hsecond
  have hrestartable := hrestarted.asked hsecond
  exact ⟨hundispatched hrestartable, hrestarted.opening.unoffered_of_restartable hrestartable⟩

/-- The worker exits under the opening `Send` before anything was run. -/
def lostAtOnce : List Event :=
  [.first (.created (text "a1")), .first .send, .first .exit, .first (.exited 7), .first .settle,
    .restart]

theorem history_lostAtOnce :
    (Foundation.execute (step unchecked) (start unchecked) (lostAtOnce.take 3)).map
        (fun completion ↦ completion.first.history) =
      some [.called (.send (text "a1") (text "review")), .called .createAgent] := by
  decide +kernel

theorem restarted_lostAtOnce :
    (Foundation.execute (step unchecked) (start unchecked) lostAtOnce).map
      (fun completion ↦ completion.second.isSome) = some true := by
  decide +kernel

/-- The restart after it spares what the first worker did. -/
theorem restarts_spare_lost_worker : ∃ events completion, SparingRuns unchecked events completion ∧
    completion.second.isSome = true ∧ Spared completion := by
  obtain ⟨completion, hexecute, hsecond⟩ := Option.map_eq_some_iff.mp restarted_lostAtOnce
  have hruns : SparingRuns unchecked lostAtOnce completion := by
    refine run_and_of_execute hexecute fun index event hevent middle hmiddle ↦ ?_
    match index with
    | 0 | 1 | 2 | 4 =>
      obtain rfl := Option.some.inj hevent
      exact ⟨fun hloses ↦ (by cases hloses), fun tool hcallback ↦ (by cases hcallback)⟩
    | 3 =>
      obtain rfl := Option.some.inj hevent
      refine ⟨fun _ _ tool hmember ↦ ?_, fun tool hcallback ↦ (by cases hcallback)⟩
      have hhistory := history_lostAtOnce
      rw [hmiddle, Option.map_some, Option.some.injEq] at hhistory
      rw [hhistory] at hmember
      simp at hmember
    | 5 =>
      obtain rfl := Option.some.inj hevent
      trivial
    | index + 6 => cases hevent
  exact ⟨_, completion, hruns, hsecond, restarts_spare hruns⟩

/-- A declared call is dispatched in the middle of the opening `Send`, and then the worker exits. -/
def lostMidway : List Event :=
  [.first (.created (text "a1")), .first .send, .first .opened, .first (.callback (text "grep")),
    .first .exit, .first (.exited 7), .first .settle, .restart]

theorem runs_lostMidway :
    (Foundation.execute (step unchecked) (start unchecked) lostMidway).isSome = true := by
  decide +kernel

/-- The request is put to a second worker though the first ran a tool of the guest's. -/
theorem restart_runs_twice : ∃ completion, Runs unchecked lostMidway completion ∧
    completion.second.isSome = true ∧ .dispatched (text "grep") ∈ completion.first.history :=
  ⟨_, run_of_isSome runs_lostMidway, by decide +kernel, by decide +kernel⟩

end Completion

end OmniaBackends.Cursor
