import OmniaBackends.Foundation.Run
import OmniaBackends.Foundation.Utf8

/-!
# One completion on a leased agent

`Agent` of `crates/cursor/src/model/agent.rs`. An agent is created on a worker, is sent the prompt
and then what is said of its replies, and is deleted: `CreateAgent`, `Send` by `Send`, where a run
was cut short `CancelRun` and `GetUsage`, then `CloseAgent` and `DeleteAgent`. The run and the
teardown are tasks of their own, which the guest's dropping of the completion does not end.

A step is one thing that a wait ends with or that another party does: the worker answers, streams a
message or exits, a deadline passes, a tool calls back or fails, the guest drops the completion, the
check gives its verdict, or the agent's task goes on. Any order of them is a run. What happened is
kept in the state, the newest first.

A message is what the log of the stream reads in it: the id of the run, a status text, the turns of
the tool calls it closes, the result, and whether it is the last. The phases that the inactivity
window depends on are left out: a deadline may pass at any wait. So are usage, spans and logs.
-/

set_option autoImplicit false
set_option relaxedAutoImplicit false

namespace OmniaBackends.Cursor

open Foundation

/-! ### Failures -/

inductive RunStatus where
  | unspecified
  | creating
  | running
  | finished
  | error
  | cancelled
  | expired
  | unknown
  deriving DecidableEq, Repr

inductive RpcError where
  /-- The process answered with an error. -/
  | connect (detail : Bytes)
  /-- The socket, the HTTP layer or the framing gave out. -/
  | transport (detail : Bytes)
  deriving DecidableEq, Repr

inductive Failure where
  | run (status : RunStatus) (detail : Option Bytes)
  | timeout (capSecs : Nat)
  | inactive (waiting : Bytes) (idleSecs inactivitySecs capSecs : Nat)
  | aborted (reason : Bytes)
  | workerExited (pid : Nat)
  | rpc (error : RpcError)
  deriving DecidableEq, Repr

/-- What a completion ends on: a typed failure, the budget that a rejected check exhausted, or an
error of neither type. -/
inductive Error where
  | failure (failure : Failure)
  | budgetExhausted (detail : Bytes)
  | other (detail : Bytes)
  deriving DecidableEq, Repr

inductive Outcome where
  | ok
  | corrected
  | timeout
  | inactive
  | abort
  | workerExit
  | transport
  | exhausted
  | error
  deriving DecidableEq, Repr

namespace Outcome

def ofFailure : Failure → Outcome
  | .run _ _ => error
  | .rpc (.connect _) => error
  | .timeout _ => timeout
  | .inactive _ _ _ _ => inactive
  | .aborted _ => abort
  | .workerExited _ => workerExit
  | .rpc (.transport _) => transport

def ofError : Error → Outcome
  | .failure failure => ofFailure failure
  | .budgetExhausted _ => exhausted
  | .other _ => error

/-- Whether the worker, or the socket to it, was lost under the completion. -/
def lostWorker : Outcome → Bool
  | workerExit => true
  | transport => true
  | _ => false

end Outcome

/-- No answer: the error, and whether it struck while the completion was opening. -/
structure Unanswered where
  error : Error
  opening : Bool
  deriving DecidableEq, Repr

/-- Whether the request may be put to a fresh worker. -/
def Unanswered.restartable (unanswered : Unanswered) : Bool :=
  unanswered.opening && (Outcome.ofError unanswered.error).lostWorker

/-! ### Streams -/

/-- A tool call that the stream closed, its arguments and result as JSON texts. -/
structure ToolTurn where
  tool : Bytes
  args : Bytes
  result : Bytes
  deriving DecidableEq, Repr

structure RunStreamResult where
  runId : Bytes
  status : RunStatus
  errorCode : Option Bytes
  /-- The final text of a completed run. -/
  result : Option Bytes
  deriving DecidableEq, Repr

/-- A message of a stream, as the log reads it. -/
structure RunStreamMessage where
  /-- The id that the payload names the run by. -/
  runId : Option Bytes
  status : Option Bytes
  turns : List ToolTurn
  result : Option RunStreamResult
  /-- Whether it is the closing message. -/
  done : Bool
  deriving DecidableEq, Repr

structure EventLog where
  runId : Option Bytes
  statusMessage : Option Bytes
  turns : List ToolTurn
  deriving DecidableEq, Repr

namespace EventLog

def new : EventLog := ⟨none, none, []⟩

def observe (log : EventLog) (message : RunStreamMessage) : EventLog :=
  { runId := log.runId.or message.runId
    statusMessage := message.status.or log.statusMessage
    turns := log.turns ++ message.turns }

def observeMessage (log : EventLog) (message : RunStreamMessage) : EventLog :=
  let log := log.observe message
  match log.runId, message.result with
  | none, some result => if result.runId = [] then log else { log with runId := some result.runId }
  | _, _ => log

/-- The transcript, where the stream closed a call. -/
def finish (log : EventLog) : Option (List ToolTurn) :=
  if log.turns = [] then none else some log.turns

end EventLog

/-- The run's answer as the wire carried it. -/
structure Response where
  result : Bytes
  transcript : Option (List ToolTurn)
  deriving DecidableEq, Repr

structure Answer where
  answer : Bytes
  transcript : Option (List ToolTurn)
  deriving DecidableEq, Repr

def Response.answer (response : Response) (candidate : Bytes) : Answer :=
  ⟨candidate, response.transcript⟩

/-! ### Agents -/

/-- The shape an answer is asked for in. -/
inductive Format where
  | text
  | json
  | schema
  deriving DecidableEq, Repr

/-- What the check came to. -/
inductive Verdict where
  | accepted
  | rejected (correction : Bytes)
  | failed (error : Error)
  deriving DecidableEq, Repr

/-- What a completion is put to an agent with. Reading a candidate out of a reply, and what a JSON
parser says of one that is not JSON, are the libraries'. -/
structure Turn where
  text : Bytes
  format : Format
  check : Bool
  /-- The tools that the request declares. -/
  declared : List Bytes
  inactivitySecs : Nat
  capSecs : Nat
  candidate : Bytes → Bytes
  jsonFault : Bytes → Option Bytes

/-- A call made for an agent. -/
inductive Call where
  | createAgent
  | send (agentId text : Bytes)
  | cancelRun (runId agentId : Bytes)
  | getUsage (agentId : Bytes)
  | closeAgent (agentId : Bytes)
  | deleteAgent (agentId : Bytes)
  deriving DecidableEq, Repr

/-- What happened to an agent. -/
inductive Happening where
  | called (call : Call)
  /-- The guest dropped the completion. -/
  | dropped
  /-- A declared tool call was dispatched to the guest. -/
  | dispatched (tool : Bytes)
  /-- The stream of the last `Send` had a message. -/
  | streamed (message : RunStreamMessage)
  /-- The stream of the last `Send` reached its end: a clean one, or the closing message. -/
  | ended
  /-- The last `Send` failed. -/
  | failed (error : Error)
  | offered (candidate : Bytes)
  | judged (candidate : Bytes) (verdict : Verdict)
  /-- The round was settled, with the worker alive or not. -/
  | settled (alive : Bool)
  /-- The teardown started, with the worker alive or not. -/
  | tornDown (alive : Bool)
  deriving DecidableEq, Repr

/-- Where the agent's task stands. -/
inductive Stage where
  /-- `CreateAgent` is awaited. -/
  | creating
  /-- No agent was created. -/
  | refused
  /-- The next `Send` is due. -/
  | prompting
  /-- The stream of a `Send` is awaited. -/
  | opening
  | following (log : EventLog) (outcome : Option RunStreamResult)
  /-- The verdict of the check is awaited. -/
  | checking (candidate : Bytes) (response : Response)
  /-- The result is known; the round is settled next. -/
  | ending
  /-- `CancelRun` is awaited. -/
  | cancelling
  /-- `GetUsage` is awaited. -/
  | billing
  /-- The result is returned and the teardown is due. -/
  | finished
  /-- `CancelRun` is awaited in the teardown. -/
  | recalling
  /-- `CloseAgent` is awaited. -/
  | closing
  /-- `DeleteAgent` is awaited. -/
  | deleting
  | gone
  deriving DecidableEq, Repr

structure Agent where
  stage : Stage
  /-- Whether the worker's process runs. -/
  alive : Bool
  /-- Whether the guest dropped the completion. -/
  dropped : Bool
  agentId : Bytes
  /-- What the first hard tool failure ended the completion with. -/
  aborted : Option Bytes
  /-- The dispatched tool calls that the guest has yet to answer. -/
  inFlight : Nat
  prompt : Bytes
  round : Nat
  nudged : Bool
  opening : Bool
  runId : Option Bytes
  result : Option (Except Unanswered Answer)
  history : List Happening

/-- The most candidates an agent is asked for, nudges aside. -/
def MAX_ROUNDS : Nat := 2

namespace Agent

/-- What a wait or another party came to. -/
inductive Event where
  | exit
  | drop
  /-- A call of a tool arrives on the agent's route. -/
  | callback (tool : Bytes)
  | callbackAnswered
  | callbackFailed (reason : Bytes)
  | created (agentId : Bytes)
  /-- `CreateAgent`, `Send` or its stream failed. -/
  | failed (error : Error)
  /-- The worker's exit ended a wait. -/
  | exited (pid : Nat)
  | inactive (waiting : Bytes) (idleSecs : Nat)
  | timeout
  /-- The next `Send` is made, unless the guest is gone. -/
  | send
  /-- The stream of a `Send` opened. -/
  | opened
  | streamed (message : RunStreamMessage)
  | streamEnded
  /-- A hard tool failure ends the wait. -/
  | abort
  /-- The guest's dropping of the completion ends the wait. -/
  | abandon
  | judged (verdict : Verdict)
  | settle
  /-- A call of the settling or the teardown is answered, or is given up. -/
  | reply
  | teardown
  deriving DecidableEq, Repr

/-- Whether the agent's own task goes on with the event. -/
def Event.own : Event → Bool
  | .exit | .drop | .callback _ | .callbackAnswered | .callbackFailed _ => false
  | _ => true

/-- Whether the event is the loss of the worker, or of the socket to it, under a wait. -/
def Event.loses : Event → Bool
  | .failed error => (Outcome.ofError error).lostWorker
  | .exited _ => true
  | _ => false

/-- An agent before it is created. -/
def start (turn : Turn) : Agent where
  stage := .creating
  alive := true
  dropped := false
  agentId := []
  aborted := none
  inFlight := 0
  prompt := turn.text
  round := 1
  nudged := false
  opening := true
  runId := none
  result := none
  history := [.called .createAgent]

def happen (agent : Agent) (happening : Happening) : Agent :=
  { agent with history := happening :: agent.history }

def call (agent : Agent) (call : Call) : Agent := agent.happen (.called call)

/-- Whether the agent's callbacks are routed: from its creation to its deletion. -/
def routed (agent : Agent) : Bool :=
  match agent.stage with
  | .creating | .refused | .gone => false
  | _ => true

/-- No agent is created. -/
def refuse (agent : Agent) (error : Error) : Agent :=
  { agent with stage := .refused, result := some (.error ⟨error, true⟩) }

/-- The rounds end with a result. -/
def conclude (agent : Agent) (result : Except Unanswered Answer) : Agent :=
  { agent with stage := .ending, result := some result }

/-- A `Send` fails, which ends the rounds. -/
def failSend (agent : Agent) (error : Error) : Agent :=
  (agent.happen (.failed error)).conclude (.error ⟨error, agent.opening⟩)

/-- The guest dropped the completion. -/
def abandoned : Error := .failure (.aborted (text "the guest dropped the completion"))

variable (turn : Turn)

/-- What a candidate that is not the JSON asked for is told. -/
def nudge (candidate : Bytes) : Option Bytes :=
  if turn.format = .text then none
  else
    (turn.jsonFault candidate).map fun fault ↦
      text "Your last reply is not one well-formed JSON value (" ++ fault ++
        text "), so it is not the answer. Reply now with only your final answer as a single JSON " ++
        text "value in the shape the prompt asked for, and nothing else."

/-- A `Send` was answered: the reply is the answer, is nudged once, or goes to the check. -/
def answered (agent : Agent) (response : Response) : Agent :=
  let candidate := turn.candidate response.result
  if ¬ turn.check then
    ({ agent with opening := false } : Agent).conclude (.ok (response.answer candidate))
  else
    match agent.nudged, nudge turn candidate with
    | false, some prompt =>
      { agent with opening := false, nudged := true, prompt := prompt, stage := .prompting }
    | _, _ =>
      ({ agent with opening := false, stage := .checking candidate response } : Agent).happen
        (.offered candidate)

/-- The stream ended: there is nothing left to cancel. -/
def streamEnded (agent : Agent) (log : EventLog) (outcome : Option RunStreamResult) : Agent :=
  let agent := ({ agent with runId := none } : Agent).happen .ended
  match outcome with
  | none => agent.failSend (.other (text "the run stream ended without a result"))
  | some outcome =>
    if outcome.status ≠ .finished then
      let detail := (outcome.errorCode.filter fun code ↦ code ≠ []).or log.statusMessage
      agent.failSend (.failure (.run outcome.status detail))
    else agent.answered turn ⟨outcome.result.getD [], log.finish⟩

/-- The stream had a message: the run's id is noted where it is the first, and the closing message
ends the stream. -/
def streamed (agent : Agent) (log : EventLog) (outcome : Option RunStreamResult)
    (message : RunStreamMessage) : Agent :=
  let log := log.observeMessage message
  let outcome := message.result.or outcome
  let agent := ({ agent with
    stage := .following log outcome, runId := agent.runId.or log.runId } : Agent).happen
      (.streamed message)
  if message.done then agent.streamEnded turn log outcome else agent

/-- The check gave its verdict: the answer, another round with the correction, or the end. -/
def judged (agent : Agent) (candidate : Bytes) (response : Response) (verdict : Verdict) : Agent :=
  let agent := agent.happen (.judged candidate verdict)
  match verdict with
  | .accepted => agent.conclude (.ok (response.answer candidate))
  | .rejected correction =>
    if agent.round < MAX_ROUNDS then
      { agent with stage := .prompting, prompt := correction, round := agent.round + 1 }
    else agent.conclude (.error ⟨.budgetExhausted correction, false⟩)
  | .failed error => agent.conclude (.error ⟨error, false⟩)

/-- A run still open was cut short: it is cancelled where the worker runs. -/
def settle (agent : Agent) : Agent :=
  let settled := ({ agent with runId := none } : Agent).happen (.settled agent.alive)
  match agent.runId, agent.alive with
  | some runId, true =>
    ({ settled with stage := .cancelling } : Agent).call (.cancelRun runId agent.agentId)
  | _, _ => { settled with stage := .finished }

/-- The agent is cancelled where a run is still open, closed and deleted; none of it where the
worker is gone. -/
def teardown (agent : Agent) : Agent :=
  let torn := ({ agent with runId := none } : Agent).happen (.tornDown agent.alive)
  if ¬ agent.alive then { torn with stage := .gone }
  else
    match agent.runId with
    | some runId =>
      ({ torn with stage := .recalling } : Agent).call (.cancelRun runId agent.agentId)
    | none => ({ torn with stage := .closing } : Agent).call (.closeAgent agent.agentId)

/-- The next call once one was answered or given up. -/
def replied (agent : Agent) : Option Agent :=
  match agent.stage with
  | .cancelling => some (({ agent with stage := .billing } : Agent).call (.getUsage agent.agentId))
  | .billing => some { agent with stage := .finished }
  | .recalling => some (({ agent with stage := .closing } : Agent).call (.closeAgent agent.agentId))
  | .closing =>
    some (({ agent with stage := .deleting } : Agent).call (.deleteAgent agent.agentId))
  | .deleting => some { agent with stage := .gone }
  | _ => none

/-- A wait ends in a failure: of `CreateAgent`, of `Send` or of its stream. -/
def interrupt (agent : Agent) (error : Error) : Option Agent :=
  match agent.stage with
  | .creating => some (agent.refuse error)
  | .opening | .following _ _ => some (agent.failSend error)
  | _ => none

/-- One step; `none` where it cannot happen. -/
def step (agent : Agent) : Event → Option Agent
  | .exit => if agent.alive then some { agent with alive := false } else none
  | .drop =>
    if agent.dropped then none else some (({ agent with dropped := true } : Agent).happen .dropped)
  | .callback tool =>
    if ¬ agent.routed then none
    else if tool ∈ turn.declared then
      some (({ agent with inFlight := agent.inFlight + 1 } : Agent).happen (.dispatched tool))
    else some agent
  | .callbackAnswered =>
    if agent.inFlight = 0 then none else some { agent with inFlight := agent.inFlight - 1 }
  | .callbackFailed reason =>
    if agent.inFlight = 0 then none
    else
      some { agent with
        inFlight := agent.inFlight - 1
        aborted := if agent.routed then agent.aborted.or (some reason) else agent.aborted }
  | .created agentId =>
    match agent.stage with
    | .creating =>
      if agentId = [] then
        some (agent.refuse
          (.other (text "sdk.v1 RPC \x60CreateAgent\x60 returned an empty agent id")))
      else some { agent with stage := .prompting, agentId := agentId }
    | _ => none
  | .failed error => agent.interrupt error
  | .exited pid => if agent.alive then none else agent.interrupt (.failure (.workerExited pid))
  | .inactive waiting idleSecs =>
    agent.interrupt (.failure (.inactive waiting idleSecs turn.inactivitySecs turn.capSecs))
  | .timeout =>
    if agent.stage = .creating then none
    else agent.interrupt (.failure (.timeout turn.capSecs))
  | .send =>
    match agent.stage with
    | .prompting =>
      if agent.dropped then some (agent.failSend abandoned)
      else some (({ agent with stage := .opening } : Agent).call (.send agent.agentId agent.prompt))
    | _ => none
  | .opened =>
    match agent.stage with
    | .opening => some { agent with stage := .following .new none }
    | _ => none
  | .streamed message =>
    match agent.stage with
    | .following log outcome => some (agent.streamed turn log outcome message)
    | _ => none
  | .streamEnded =>
    match agent.stage with
    | .following log outcome => some (agent.streamEnded turn log outcome)
    | _ => none
  | .abort =>
    match agent.stage, agent.aborted with
    | .following _ _, some reason => some (agent.failSend (.failure (.aborted reason)))
    | _, _ => none
  | .abandon =>
    match agent.stage, agent.dropped, agent.runId with
    | .opening, true, _ => some (agent.failSend abandoned)
    | .following _ _, true, some _ => some (agent.failSend abandoned)
    | _, _, _ => none
  | .judged verdict =>
    match agent.stage with
    | .checking candidate response => some (agent.judged candidate response verdict)
    | _ => none
  | .settle => if agent.stage = .ending then some agent.settle else none
  | .reply => agent.replied
  | .teardown => if agent.stage = .finished then some agent.teardown else none

/-- The runs of an agent. -/
abbrev Runs (events : List Event) (agent : Agent) : Prop :=
  Foundation.Run (fun before event after ↦ step turn before event = some after) (start turn) events
    agent

/-- What the step that an event is does to an agent, and where its task stands as it does. -/
inductive Moves (agent : Agent) (event : Event) : Agent → Prop
  /-- Another party: the worker, the guest, a callback. -/
  | aside (alive : Bool) (inFlight : Nat) (aborted : Option Bytes) :
    Moves agent event { agent with alive := alive, inFlight := inFlight, aborted := aborted }
  | drop : Moves agent event (({ agent with dropped := true } : Agent).happen .dropped)
  | dispatch (tool : Bytes) (hevent : event = .callback tool) (hdeclared : tool ∈ turn.declared)
    (hrouted : agent.routed = true) :
    Moves agent event
      (({ agent with inFlight := agent.inFlight + 1 } : Agent).happen (.dispatched tool))
  | refuse (error : Error) (hstage : agent.stage = .creating)
    (hloses : (Outcome.ofError error).lostWorker = true → event.loses = true) :
    Moves agent event (agent.refuse error)
  | create (agentId : Bytes) (hstage : agent.stage = .creating) :
    Moves agent event { agent with stage := .prompting, agentId := agentId }
  /-- A `Send` that the guest's drop forestalled, or one that was made, fails. -/
  | failSend (error : Error)
    (hstage : agent.stage = .prompting ∨ agent.stage = .opening ∨
      ∃ log outcome, agent.stage = .following log outcome)
    (hloses : (Outcome.ofError error).lostWorker = true → event.loses = true) :
    Moves agent event (agent.failSend error)
  | send (hstage : agent.stage = .prompting) (hdropped : agent.dropped = false) :
    Moves agent event
      (({ agent with stage := .opening } : Agent).call (.send agent.agentId agent.prompt))
  | opened (hstage : agent.stage = .opening) :
    Moves agent event { agent with stage := .following .new none }
  | streamed (log : EventLog) (outcome : Option RunStreamResult) (message : RunStreamMessage)
    (hstage : agent.stage = .following log outcome) :
    Moves agent event (agent.streamed turn log outcome message)
  | streamEnded (log : EventLog) (outcome : Option RunStreamResult)
    (hstage : agent.stage = .following log outcome) :
    Moves agent event (agent.streamEnded turn log outcome)
  | judged (candidate : Bytes) (response : Response) (verdict : Verdict)
    (hstage : agent.stage = .checking candidate response) :
    Moves agent event (agent.judged candidate response verdict)
  | settle (hstage : agent.stage = .ending) : Moves agent event agent.settle
  | reply (after : Agent) (hreplied : agent.replied = some after) : Moves agent event after
  | teardown (hstage : agent.stage = .finished) : Moves agent event agent.teardown

variable {turn} {agent after : Agent} {event : Event}

theorem Moves.of_interrupt {error : Error} (hinterrupt : agent.interrupt error = some after)
    (hloses : (Outcome.ofError error).lostWorker = true → event.loses = true) :
    Moves turn agent event after := by
  unfold interrupt at hinterrupt
  cases hstage : agent.stage with
  | creating =>
    rw [hstage] at hinterrupt
    rw [← Option.some.inj hinterrupt]
    exact .refuse error hstage hloses
  | opening =>
    rw [hstage] at hinterrupt
    rw [← Option.some.inj hinterrupt]
    exact .failSend error (.inr (.inl hstage)) hloses
  | following log outcome =>
    rw [hstage] at hinterrupt
    rw [← Option.some.inj hinterrupt]
    exact .failSend error (.inr (.inr ⟨log, outcome, hstage⟩)) hloses
  | _ =>
    rw [hstage] at hinterrupt
    cases hinterrupt

/-- Every step is one of these. -/
theorem Moves.of_step (hstep : step turn agent event = some after) :
    Moves turn agent event after := by
  cases event with
  | exit =>
    obtain ⟨-, hafter⟩ := Option.ite_none_right_eq_some.mp hstep
    rw [← Option.some.inj hafter]
    exact .aside false agent.inFlight agent.aborted
  | drop =>
    obtain ⟨-, hafter⟩ := Option.ite_none_left_eq_some.mp hstep
    rw [← Option.some.inj hafter]
    exact .drop
  | callback tool =>
    obtain ⟨hrouted, hafter⟩ := Option.ite_none_left_eq_some.mp hstep
    split_ifs at hafter with hdeclared
    · rw [← Option.some.inj hafter]
      exact .dispatch tool rfl hdeclared (by simpa using hrouted)
    · rw [← Option.some.inj hafter]
      exact .aside agent.alive agent.inFlight agent.aborted
  | callbackAnswered =>
    obtain ⟨-, hafter⟩ := Option.ite_none_left_eq_some.mp hstep
    rw [← Option.some.inj hafter]
    exact .aside agent.alive (agent.inFlight - 1) agent.aborted
  | callbackFailed reason =>
    obtain ⟨-, hafter⟩ := Option.ite_none_left_eq_some.mp hstep
    rw [← Option.some.inj hafter]
    exact .aside agent.alive (agent.inFlight - 1) _
  | created agentId =>
    simp only [step] at hstep
    split at hstep
    · split_ifs at hstep
      · rw [← Option.some.inj hstep]
        exact .refuse _ ‹_› fun hlost ↦ by cases hlost
      · rw [← Option.some.inj hstep]
        exact .create agentId ‹_›
    · cases hstep
  | failed error => exact .of_interrupt hstep id
  | exited pid =>
    obtain ⟨-, hafter⟩ := Option.ite_none_left_eq_some.mp hstep
    exact .of_interrupt hafter fun _ ↦ rfl
  | inactive waiting idleSecs => exact .of_interrupt hstep fun hlost ↦ by cases hlost
  | timeout =>
    obtain ⟨-, hafter⟩ := Option.ite_none_left_eq_some.mp hstep
    exact .of_interrupt hafter fun hlost ↦ by cases hlost
  | send =>
    simp only [step] at hstep
    split at hstep
    · split_ifs at hstep with hdropped
      · rw [← Option.some.inj hstep]
        exact .failSend _ (.inl ‹_›) fun hlost ↦ by cases hlost
      · rw [← Option.some.inj hstep]
        exact .send ‹_› (by simpa using hdropped)
    · cases hstep
  | opened =>
    simp only [step] at hstep
    split at hstep
    · rw [← Option.some.inj hstep]
      exact .opened ‹_›
    · cases hstep
  | streamed message =>
    simp only [step] at hstep
    split at hstep
    · rw [← Option.some.inj hstep]
      exact .streamed _ _ message ‹_›
    · cases hstep
  | streamEnded =>
    simp only [step] at hstep
    split at hstep
    · rw [← Option.some.inj hstep]
      exact .streamEnded _ _ ‹_›
    · cases hstep
  | abort =>
    simp only [step] at hstep
    split at hstep
    · rw [← Option.some.inj hstep]
      exact .failSend _ (.inr (.inr ⟨_, _, ‹_›⟩)) fun hlost ↦ by cases hlost
    · cases hstep
  | abandon =>
    simp only [step] at hstep
    split at hstep
    · rw [← Option.some.inj hstep]
      exact .failSend _ (.inr (.inl ‹_›)) fun hlost ↦ by cases hlost
    · rw [← Option.some.inj hstep]
      exact .failSend _ (.inr (.inr ⟨_, _, ‹_›⟩)) fun hlost ↦ by cases hlost
    · cases hstep
  | judged verdict =>
    simp only [step] at hstep
    split at hstep
    · rw [← Option.some.inj hstep]
      exact .judged _ _ verdict ‹_›
    · cases hstep
  | settle =>
    obtain ⟨hstage, hafter⟩ := Option.ite_none_right_eq_some.mp hstep
    rw [← Option.some.inj hafter]
    exact .settle hstage
  | reply => exact .reply after hstep
  | teardown =>
    obtain ⟨hstage, hafter⟩ := Option.ite_none_right_eq_some.mp hstep
    rw [← Option.some.inj hafter]
    exact .teardown hstage

end Agent

end OmniaBackends.Cursor
