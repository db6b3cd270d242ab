import Mathlib.Logic.Function.Basic
import OmniaBackends.Foundation.Program
import OmniaBackends.Foundation.Utf8

/-!
# A bounded provider conversation

`run` is one completion over a chat provider: rounds of requests and replies until a candidate is
accepted or a budget is spent. A reply with tool calls has them run or refused (`providerRound`),
one with text is a candidate, which is nudged once where it is off the shape asked for and then put
to the guest's check (`settle`).

What the provider, the tools and the check answer is an `Environment`, which may answer anything
given what happened before; what happened is the list of `Event`s of a `Run`, the newest first. A
reply has its own timeout, which may elapse wherever a round waits.
-/

set_option autoImplicit false
set_option relaxedAutoImplicit false

namespace OmniaBackends.Genai

open Foundation

/-! ### Chats -/

structure Budgets where
  maxRounds : Nat
  maxCandidates : Nat
  maxRepeats : Nat
  /-- The bound on one reply, in seconds. -/
  timeout : Nat

/-- A call a reply makes, its arguments a JSON value. -/
structure ToolCall (Value : Type) where
  callId : Bytes
  fnName : Bytes
  fnArguments : Value
  deriving DecidableEq

inductive ChatMessage (Value : Type) where
  | system (content : Bytes)
  | user (content : Bytes)
  | assistant (content : Bytes)
  /-- An assistant message that carries tool calls. -/
  | toolCalls (calls : List (ToolCall Value))
  /-- What a call came to, under the call's id. -/
  | toolResponse (callId content : Bytes)
  deriving DecidableEq

/-- A tool that a chat advertises. -/
structure Tool (Value : Type) where
  name : Bytes
  description : Bytes
  schema : Value
  deriving DecidableEq

structure ChatRequest (Value : Type) where
  system : Option Bytes
  messages : List (ChatMessage Value)
  tools : Option (List (Tool Value))
  deriving DecidableEq

inductive ResponseFormat (Value : Type) where
  | jsonMode
  | jsonSpec (name : Bytes) (schema : Value)
  deriving DecidableEq

structure ChatOptions (Value : Type) where
  responseFormat : Option (ResponseFormat Value)
  /-- Calls are forbidden. -/
  toolChoiceNone : Bool
  maxTokens : Option Nat
  deriving DecidableEq

/-- A provider's reply: its text and calls, whether it stopped at the token bound, and the tokens
billed for it. -/
structure ChatResponse (Value : Type) where
  firstText : Option Bytes
  toolCalls : List (ToolCall Value)
  stopMaxTokens : Bool
  completionTokens : Option Int
  deriving DecidableEq

/-- One call of the transcript. -/
structure ToolTurn (Value : Type) where
  tool : Bytes
  args : Value
  result : Bytes
  deriving DecidableEq

structure Answer (Value : Type) where
  answer : Bytes
  transcript : List (ToolTurn Value)
  deriving DecidableEq

/-- The shape an answer is asked for in. -/
inductive Format where
  | text
  | json
  | schema
  deriving DecidableEq, Repr

/-- What a validator finds wrong: where, and what, with and without the values. -/
structure Fault where
  path : Bytes
  masked : Bytes
  detailed : Bytes

inductive Error where
  | budgetExhausted (detail : Bytes)
  /-- A reply took too long, which is budget-exhausted to the guest. -/
  | timeout (seconds : Nat)
  /-- The provider failed. -/
  | provider (detail : Bytes)
  /-- A tool or the check failed as a host failure. -/
  | host (detail : Bytes)
  /-- A reply had neither text nor calls. -/
  | empty (detail : Bytes)
  deriving DecidableEq, Repr

variable {Value : Type}

namespace ChatRequest

/-- What is left of a chat that was taken. -/
def default : ChatRequest Value := ⟨none, [], none⟩

def appendMessage (chat : ChatRequest Value) (message : ChatMessage Value) : ChatRequest Value :=
  { chat with messages := chat.messages ++ [message] }

end ChatRequest

/-! ### Environments -/

/-- What one request came to: a reply, a failure, at the transport or not, or the timeout. -/
inductive Attempt (Value : Type) where
  | response (response : ChatResponse Value)
  | failed (transport : Bool) (detail : Bytes)
  | elapsed

/-- What a tool came to: its output, a failure the model reads, a host failure, or the timeout. -/
inductive ToolAnswer where
  | output (output : Bytes)
  | failed (reason : Bytes)
  | host (detail : Bytes)
  | elapsed
  deriving DecidableEq, Repr

/-- What the check came to. -/
inductive Verdict where
  | accepted
  | rejected (correction : Bytes)
  | host (detail : Bytes)
  deriving DecidableEq, Repr

/-- What happened in a completion. -/
inductive Event (Value : Type) where
  /-- A request was put, again where it is a retry. -/
  | requested (retry : Nat) (chat : ChatRequest Value) (options : ChatOptions Value)
  | replied (response : ChatResponse Value)
  /-- A tool was run. -/
  | called (call : ToolCall Value) (answer : ToolAnswer)
  /-- A candidate was nudged. -/
  | nudged (candidate prompt : Bytes)
  /-- A candidate was offered to the check. -/
  | checked (candidate : Bytes) (verdict : Verdict)

/-- What the provider, the clock, the tools and the check answer, given what happened. -/
structure Environment (Value : Type) where
  provider : List (Event Value) → Attempt Value
  /-- Whether a wait before a retry ends within the timeout. -/
  sleep : List (Event Value) → Bool
  call : List (Event Value) → ToolCall Value → ToolAnswer
  check : List (Event Value) → Bytes → Verdict

/-- What a conversation is prepared with and never changes. Reading a candidate out of a reply, JSON
and its validation are the libraries'. -/
structure Prepared (Value : Type) where
  model : Bytes
  options : ChatOptions Value
  format : Format
  validator : Option (Value → List Fault)
  check : Bool
  budgets : Budgets
  candidate : Bytes → Bytes
  parseJson : Bytes → Except Bytes Value

/-- What a conversation changes. -/
structure Conversation (Value : Type) where
  chat : ChatRequest Value
  round : Nat
  candidates : Nat
  /-- Consecutive failures of a call. -/
  repeats : Bytes × Value → Nat
  nudged : Bool
  transcript : List (ToolTurn Value)

/-- A conversation and what happened in it. -/
structure Run (Value : Type) where
  conversation : Conversation Value
  events : List (Event Value)

/-- A part of a conversation. -/
abbrev Step (Value : Type) := Program (Run Value) Error

/-! ### Texts -/

def REPEAT_NOTE_FROM : Nat := 3

def MAX_RESULT_BYTES : Nat := 64 * 1024

/-- How often a request that failed at the transport is put again. -/
def TRANSPORT_RETRIES : Nat := 3

def REFUSED_IN_CLOSING : Bytes :=
  text "not run: your final answer is due now. Reply with only your final answer as a single JSON " ++
  text "value in the shape the prompt asked for, and nothing else."

/-- A number in decimal. -/
def decimal (number : Nat) : Bytes := text (toString number)

/-- A call's name and arguments, which its hash stands for. -/
def identity (call : ToolCall Value) : Bytes × Value := (call.fnName, call.fnArguments)

def atPath (path fault : Bytes) : Bytes :=
  if path = [] then fault else text "at \x60" ++ path ++ text "\x60: " ++ fault

/-- Texts with a separator between them. -/
def join (separator : Bytes) (parts : List Bytes) : Bytes := (parts.intersperse separator).flatten

/-- A byte that no character starts with. -/
def isContinuation (byte : UInt8) : Bool := 0x80 ≤ byte ∧ byte < 0xC0

/-- Whether a character starts, or the text ends, at a byte. -/
def isCharBoundary (content : Bytes) (index : Nat) : Bool :=
  match content[index]? with
  | none => index = content.length
  | some byte => ! isContinuation byte

/-- The last boundary up to a byte. -/
def floorCharBoundary (content : Bytes) : Nat → Nat
  | 0 => 0
  | index + 1 =>
    if content.length ≤ index + 1 then content.length
    else if isCharBoundary content (index + 1) then index + 1
    else floorCharBoundary content index

/-- The first boundary from a byte on. -/
def ceilCharBoundary (content : Bytes) (index : Nat) : Nat :=
  index + ((content.drop index).takeWhile isContinuation).length

/-- A text within a cap, its head and its tail kept. -/
def truncate (content : Bytes) (cap : Nat) : Bytes :=
  if content.length ≤ cap then content
  else
    let head := floorCharBoundary content (cap / 2)
    let tail := ceilCharBoundary content (content.length - (cap - head))
    content.take head ++ text "\n[… " ++ decimal (tail - head) ++ text " bytes omitted …]\n" ++
      content.drop tail

/-! ### One round -/

section Rounds

variable (prepared : Prepared Value) (environment : Environment Value)

/-- The conversation as it is. -/
def self : Step Value (Conversation Value) := fun run ↦ (.ok run.conversation, run)

theorem self_apply (run : Run Value) : self run = (.ok run.conversation, run) := rfl

/-- Change the conversation. -/
def update (change : Conversation Value → Conversation Value) : Step Value Unit := fun run ↦
  (.ok (), ⟨change run.conversation, run.events⟩)

theorem update_apply (change : Conversation Value → Conversation Value) (run : Run Value) :
    update change run = (.ok (), ⟨change run.conversation, run.events⟩) :=
  rfl

/-- What happens is told by what happened. -/
def happen {Outcome : Type} (outcome : List (Event Value) → Outcome)
    (event : Outcome → Event Value) : Step Value Outcome := fun run ↦
  (.ok (outcome run.events), ⟨run.conversation, event (outcome run.events) :: run.events⟩)

theorem happen_apply {Outcome : Type} (outcome : List (Event Value) → Outcome)
    (event : Outcome → Event Value) (run : Run Value) :
    happen outcome event run =
      (.ok (outcome run.events), ⟨run.conversation, event (outcome run.events) :: run.events⟩) :=
  rfl

/-- The chat taken out of the conversation. -/
def takeChat : Step Value (ChatRequest Value) := do
  let conversation ← self
  update fun conversation ↦ { conversation with chat := ChatRequest.default }
  pure conversation.chat

def setChat (chat : ChatRequest Value) : Step Value Unit :=
  update fun conversation ↦ { conversation with chat := chat }

/-- The turn of a call on the transcript. -/
def pushTurn (call : ToolCall Value) (result : Bytes) : Step Value Unit :=
  update fun conversation ↦
    { conversation with
      transcript := conversation.transcript ++ [⟨call.fnName, call.fnArguments, result⟩] }

/-- Whether an answer is due: after a nudge, and in the last round. -/
def closing (conversation : Conversation Value) : Bool :=
  conversation.nudged || conversation.round = prepared.budgets.maxRounds

/-- What a round asks: under JSON mode after a nudge, for adapters that ignore a schema, and with
the tools declared, to keep the prompt's prefix, but forbidden where an answer is due. -/
def roundRequest (conversation : Conversation Value) : ChatRequest Value × ChatOptions Value :=
  let options :=
    if conversation.nudged then { prepared.options with responseFormat := some .jsonMode }
    else prepared.options
  let options :=
    if closing prepared conversation ∧ (conversation.chat.tools.any fun tools ↦ tools ≠ []) then
      { options with toolChoiceNone := true }
    else options
  (conversation.chat, options)

/-- Whether a reply was cut at the token bound, by its reason or by its bill. -/
def isCut (response : ChatResponse Value) : Bool :=
  response.stopMaxTokens ||
    match prepared.options.maxTokens, response.completionTokens with
    | some bound, some spent => 0 ≤ spent ∧ (bound : Int) ≤ spent
    | _, _ => false

/-- The error of a reply that took too long. -/
def elapsed {Outcome : Type} : Step Value Outcome :=
  Program.fail (.timeout prepared.budgets.timeout)

/-- A request put to the provider, and what it came to. -/
def put (chat : ChatRequest Value) (options : ChatOptions Value) (retry : Nat) :
    Step Value (Attempt Value) := do
  let _ ← happen (fun _ ↦ ()) fun _ ↦ .requested retry chat options
  fun run ↦ (.ok (environment.provider run.events), run)

/-- Wait before a retry, within the timeout. -/
def sleep : Step Value Bool := fun run ↦ (.ok (environment.sleep run.events), run)

/-- What an attempt that is not put again came to. -/
def received : Attempt Value → Step Value (ChatResponse Value)
  | .response response => do
    let _ ← happen (fun _ ↦ ()) fun _ ↦ .replied response
    pure response
  | .failed _ detail =>
    Program.fail (.provider (text "genai exec_chat failed for model \x60" ++ prepared.model ++
      text "\x60: " ++ detail))
  | .elapsed => elapsed prepared

/-- A request put to the provider, again after a wait where it failed at the transport, as often as
there are waits left. -/
def execChatFrom (chat : ChatRequest Value) (options : ChatOptions Value) :
    Nat → Nat → Step Value (ChatResponse Value)
  | 0, retry => do
    let attempt ← put environment chat options retry
    received prepared attempt
  | waits + 1, retry => do
    let attempt ← put environment chat options retry
    match attempt with
    | .failed true _ => do
      let within_ ← sleep environment
      if within_ then execChatFrom chat options waits (retry + 1) else elapsed prepared
    | attempt => received prepared attempt

def execChat (chat : ChatRequest Value) (options : ChatOptions Value) :
    Step Value (ChatResponse Value) :=
  execChatFrom prepared environment chat options TRANSPORT_RETRIES 0

/-! ### Tool calls -/

/-- A failed call counted, and what the model is told of it. The last failure allowed ends the
completion. -/
def failed [DecidableEq Value] (call : ToolCall Value) (reason : Bytes) : Step Value Bytes := do
  let conversation ← self
  let count := conversation.repeats (identity call) + 1
  update fun conversation ↦
    { conversation with repeats := Function.update conversation.repeats (identity call) count }
  if prepared.budgets.maxRepeats ≤ count then
    Program.fail (.budgetExhausted (text "tool \x60" ++ call.fnName ++ text "\x60 failed " ++
      decimal count ++ text " times with the same arguments: " ++ reason))
  else
    let result := text "tool \x60" ++ call.fnName ++ text "\x60 failed: " ++ reason
    if count < REPEAT_NOTE_FROM then pure result
    else
      pure (result ++ text "\n\nThis exact call has now failed " ++ decimal count ++
        text " times, and the same call will fail the same way. Change the arguments or the " ++
        text "approach: after " ++ decimal prepared.budgets.maxRepeats ++
        text " identical failures the task ends.")

/-- What the model is told that a call came to. -/
def resultOf [DecidableEq Value] (call : ToolCall Value) : ToolAnswer → Step Value Bytes
  | .output output => do
    update fun conversation ↦
      { conversation with repeats := Function.update conversation.repeats (identity call) 0 }
    pure (truncate output MAX_RESULT_BYTES)
  | .failed reason => failed prepared call (truncate reason MAX_RESULT_BYTES)
  | .host detail => Program.fail (.host detail)
  | .elapsed => elapsed prepared

/-- Calls run in order, each answered in the chat and the transcript. -/
def runCalls [DecidableEq Value] :
    List (ToolCall Value) → ChatRequest Value → Step Value (ChatRequest Value)
  | [], chat => pure chat
  | call :: calls, chat => do
    let answer ← happen (environment.call · call) (.called call)
    let result ← resultOf prepared call answer
    pushTurn call result
    runCalls calls (chat.appendMessage (.toolResponse call.callId result))

/-- The calls of a reply run. -/
def toolRound [DecidableEq Value] (calls : List (ToolCall Value)) : Step Value Unit := do
  let chat ← takeChat
  let chat ← runCalls prepared environment calls (chat.appendMessage (.toolCalls calls))
  setChat chat

/-- Calls answered with a refusal, in the chat and the transcript. -/
def refuseCalls (refusal : Bytes) :
    List (ToolCall Value) → ChatRequest Value → Step Value (ChatRequest Value)
  | [], chat => pure chat
  | call :: calls, chat => do
    pushTurn call refusal
    refuseCalls refusal calls (chat.appendMessage (.toolResponse call.callId refusal))

/-- The calls of a reply refused. -/
def refuse (calls : List (ToolCall Value)) (refusal : Bytes) : Step Value Unit := do
  let chat ← takeChat
  let chat ← refuseCalls refusal calls (chat.appendMessage (.toolCalls calls))
  setChat chat

/-- What calls of a reply that was cut are told. -/
def cutRefusal : Bytes :=
  text "not run: your reply ran to the cap of " ++
    decimal (prepared.options.maxTokens.getD 0) ++
    text " tokens and was cut there, so the arguments of this call did not arrive as you wrote " ++
    text "them. Send smaller calls, fewer files or edits a call and each shorter, so one reply stays " ++
    text "within the cap."

/-- The calls of a reply dispatched or refused. -/
def dispatch [DecidableEq Value] (closing_ cut : Bool) (calls : List (ToolCall Value)) :
    Step Value Unit :=
  if closing_ then refuse calls REFUSED_IN_CLOSING
  else if cut then refuse calls (cutRefusal prepared)
  else toolRound prepared environment calls

/-- A round that has begun: a request and its reply, and where it makes calls what they come to. The
text of a reply without calls is what the conversation waits for. -/
def ask [DecidableEq Value] (conversation : Conversation Value) : Step Value (Option Bytes) := do
  let (chat, options) := roundRequest prepared conversation
  let response ← execChat prepared environment chat options
  if response.toolCalls ≠ [] then
    dispatch prepared environment (closing prepared conversation) (isCut prepared response)
      response.toolCalls
    pure none
  else
    match response.firstText with
    | some content => pure (some content)
    | none =>
      Program.fail (.empty (text "genai returned neither content nor tool calls (model \x60" ++
        prepared.model ++ text "\x60)"))

/-- One round. -/
def providerRound [DecidableEq Value] : Step Value (Option Bytes) := do
  update fun conversation ↦ { conversation with round := conversation.round + 1 }
  let conversation ← self
  ask prepared environment conversation

/-! ### Candidates -/

/-- What a candidate off the shape asked for is told, where it is. -/
def offShape (candidate : Bytes) : Option Bytes :=
  if prepared.format = .text then none
  else
    match prepared.parseJson candidate with
    | .error fault =>
      some (text "Your last reply is not one well-formed JSON value (" ++ fault ++
        text "), so it is not the answer. Reply now with only your final answer as a single JSON " ++
        text "value in the shape the prompt asked for, and nothing else.")
    | .ok value =>
      match prepared.validator with
      | none => none
      | some validator =>
        let detailed := (validator value).map fun fault ↦ atPath fault.path fault.detailed
        if detailed = [] then none
        else
          some (text "Your last reply is JSON but not in the shape the prompt asked for (" ++
            join (text "; ") detailed ++
            text "), so it is not the answer. Reply now with only your final answer as a single " ++
              text "JSON value in exactly that shape, and nothing else.")

/-- A candidate as the answer. -/
def answer (candidate : Bytes) : Step Value (Answer Value) := do
  let conversation ← self
  update fun conversation ↦ { conversation with transcript := [] }
  pure ⟨candidate, conversation.transcript⟩

/-- A candidate and what is said of it, appended to the chat. -/
def appendExchange (candidate prompt : Bytes) : Step Value Unit := do
  let chat ← takeChat
  setChat ((chat.appendMessage (.assistant candidate)).appendMessage (.user prompt))

/-- A candidate nudged. -/
def nudge (candidate prompt : Bytes) : Step Value Unit := do
  update fun conversation ↦ { conversation with nudged := true }
  let _ ← happen (fun _ ↦ ()) fun _ ↦ .nudged candidate prompt
  appendExchange candidate prompt

/-- What a candidate came to: the answer, or the conversation goes on with a correction. -/
def judged (candidate : Bytes) (conversation : Conversation Value) :
    Verdict → Step Value (Option (Answer Value))
  | .host detail => Program.fail (.host detail)
  | .accepted => do
    let accepted ← answer candidate
    pure (some accepted)
  | .rejected correction =>
    if prepared.budgets.maxCandidates ≤ conversation.candidates ∨
        conversation.round = prepared.budgets.maxRounds then
      Program.fail (.budgetExhausted correction)
    else do
      update fun conversation ↦ { conversation with nudged := false }
      appendExchange candidate correction
      pure none

/-- A candidate offered to the check. -/
def offer (candidate : Bytes) : Step Value (Option (Answer Value)) := do
  update fun conversation ↦ { conversation with candidates := conversation.candidates + 1 }
  let conversation ← self
  let verdict ← happen (environment.check · candidate) (.checked candidate)
  judged prepared candidate conversation verdict

/-- The text of a reply as a candidate: the answer, or the conversation goes on. -/
def settle (content : Bytes) : Step Value (Option (Answer Value)) := do
  let candidate := prepared.candidate content
  if ¬ prepared.check then do
    let unchecked ← answer candidate
    pure (some unchecked)
  else
    let conversation ← self
    match conversation.nudged, offShape prepared candidate with
    | false, some prompt => do
      nudge candidate prompt
      pure none
    | _, _ => offer prepared environment candidate

end Rounds

/-! ### What a round leaves -/

/-- Two states of a conversation in the same round. -/
def SameRound (before after : Run Value) : Prop :=
  after.conversation.round = before.conversation.round

theorem SameRound.refl (run : Run Value) : SameRound run run := rfl

theorem SameRound.trans {first second third : Run Value} (hfirst : SameRound first second)
    (hlast : SameRound second third) : SameRound first third :=
  Eq.trans hlast hfirst

section Keeping

variable {prepared : Prepared Value} {environment : Environment Value}

theorem keeps_update {change : Conversation Value → Conversation Value}
    (hchange : ∀ conversation, (change conversation).round = conversation.round) :
    (update change).Keeps SameRound :=
  fun run ↦ hchange run.conversation

theorem keeps_happen {Outcome : Type} (outcome : List (Event Value) → Outcome)
    (event : Outcome → Event Value) : (happen outcome event).Keeps SameRound :=
  fun _ ↦ rfl

theorem keeps_self : (self : Step Value (Conversation Value)).Keeps SameRound := fun _ ↦ rfl

theorem keeps_takeChat : (takeChat : Step Value _).Keeps SameRound :=
  Program.Keeps.bind SameRound.trans keeps_self fun _ ↦
    Program.Keeps.bind SameRound.trans (keeps_update fun _ ↦ rfl) fun _ ↦
      Program.Keeps.pure SameRound.refl _

theorem keeps_put (chat : ChatRequest Value) (options : ChatOptions Value) (retry : Nat) :
    (put environment chat options retry).Keeps SameRound :=
  Program.Keeps.bind SameRound.trans (keeps_happen _ _) fun _ _ ↦ rfl

theorem keeps_received (attempt : Attempt Value) :
    (received prepared attempt).Keeps SameRound := by
  cases attempt with
  | response response =>
    exact Program.Keeps.bind SameRound.trans (keeps_happen _ _) fun _ ↦
      Program.Keeps.pure SameRound.refl _
  | failed transport detail => exact Program.Keeps.fail SameRound.refl _
  | elapsed => exact Program.Keeps.fail SameRound.refl _

theorem keeps_execChatFrom (chat : ChatRequest Value) (options : ChatOptions Value)
    (waits retry : Nat) :
    (execChatFrom prepared environment chat options waits retry).Keeps SameRound := by
  induction waits generalizing retry with
  | zero =>
    exact Program.Keeps.bind SameRound.trans (keeps_put chat options retry) keeps_received
  | succ waits ih =>
    refine Program.Keeps.bind SameRound.trans (keeps_put chat options retry) fun attempt ↦ ?_
    split
    · refine Program.Keeps.bind SameRound.trans (fun _ ↦ rfl) fun within_ ↦ ?_
      split
      · exact ih (retry + 1)
      · exact Program.Keeps.fail SameRound.refl _
    · exact keeps_received _

variable [DecidableEq Value]

theorem keeps_failed (call : ToolCall Value) (reason : Bytes) :
    (failed prepared call reason).Keeps SameRound := by
  refine Program.Keeps.bind SameRound.trans keeps_self fun conversation ↦ ?_
  refine Program.Keeps.bind SameRound.trans (keeps_update fun _ ↦ rfl) fun _ ↦ ?_
  split
  · exact Program.Keeps.fail SameRound.refl _
  · split
    · exact Program.Keeps.pure SameRound.refl _
    · exact Program.Keeps.pure SameRound.refl _

theorem keeps_resultOf (call : ToolCall Value) (answer : ToolAnswer) :
    (resultOf prepared call answer).Keeps SameRound := by
  cases answer with
  | output output =>
    exact Program.Keeps.bind SameRound.trans (keeps_update fun _ ↦ rfl) fun _ ↦
      Program.Keeps.pure SameRound.refl _
  | failed reason => exact keeps_failed call _
  | host detail => exact Program.Keeps.fail SameRound.refl _
  | elapsed => exact Program.Keeps.fail SameRound.refl _

theorem keeps_runCalls (calls : List (ToolCall Value)) (chat : ChatRequest Value) :
    (runCalls prepared environment calls chat).Keeps SameRound := by
  induction calls generalizing chat with
  | nil => exact Program.Keeps.pure SameRound.refl _
  | cons call calls ih =>
    refine Program.Keeps.bind SameRound.trans (keeps_happen _ _) fun answer ↦ ?_
    refine Program.Keeps.bind SameRound.trans (keeps_resultOf call answer) fun result ↦ ?_
    exact Program.Keeps.bind SameRound.trans (keeps_update fun _ ↦ rfl) fun _ ↦ ih _

omit [DecidableEq Value] in
theorem keeps_refuseCalls (refusal : Bytes) (calls : List (ToolCall Value))
    (chat : ChatRequest Value) : (refuseCalls refusal calls chat).Keeps SameRound := by
  induction calls generalizing chat with
  | nil => exact Program.Keeps.pure SameRound.refl _
  | cons call calls ih =>
    exact Program.Keeps.bind SameRound.trans (keeps_update fun _ ↦ rfl) fun _ ↦ ih _

omit [DecidableEq Value] in
theorem keeps_refuse (calls : List (ToolCall Value)) (refusal : Bytes) :
    (refuse calls refusal).Keeps SameRound :=
  Program.Keeps.bind SameRound.trans keeps_takeChat fun _ ↦
    Program.Keeps.bind SameRound.trans (keeps_refuseCalls _ _ _) fun _ ↦ keeps_update fun _ ↦ rfl

theorem keeps_toolRound (calls : List (ToolCall Value)) :
    (toolRound prepared environment calls).Keeps SameRound :=
  Program.Keeps.bind SameRound.trans keeps_takeChat fun _ ↦
    Program.Keeps.bind SameRound.trans (keeps_runCalls _ _) fun _ ↦ keeps_update fun _ ↦ rfl

theorem keeps_dispatch (closing_ cut : Bool) (calls : List (ToolCall Value)) :
    (dispatch prepared environment closing_ cut calls).Keeps SameRound := by
  unfold dispatch
  split_ifs
  · exact keeps_refuse _ _
  · exact keeps_refuse _ _
  · exact keeps_toolRound _

/-- What a round does once it has begun. -/
theorem keeps_ask (conversation : Conversation Value) :
    (ask prepared environment conversation).Keeps SameRound := by
  refine Program.Keeps.bind SameRound.trans (keeps_execChatFrom _ _ _ _) fun response ↦ ?_
  split_ifs
  · exact Program.Keeps.bind SameRound.trans (keeps_dispatch _ _ _) fun _ ↦
      Program.Keeps.pure SameRound.refl _
  · cases response.firstText with
    | some content => exact Program.Keeps.pure SameRound.refl _
    | none => exact Program.Keeps.fail SameRound.refl _

/-- A round begins one more round, whatever it comes to. -/
theorem providerRound_round (run : Run Value) :
    (providerRound prepared environment run).2.conversation.round =
      run.conversation.round + 1 :=
  keeps_ask _ ⟨{ run.conversation with round := run.conversation.round + 1 }, run.events⟩

omit [DecidableEq Value] in
theorem keeps_appendExchange (candidate prompt : Bytes) :
    (appendExchange candidate prompt : Step Value Unit).Keeps SameRound :=
  Program.Keeps.bind SameRound.trans keeps_takeChat fun _ ↦ keeps_update fun _ ↦ rfl

omit [DecidableEq Value] in
theorem keeps_answer (candidate : Bytes) : (answer candidate : Step Value _).Keeps SameRound :=
  Program.Keeps.bind SameRound.trans keeps_self fun _ ↦
    Program.Keeps.bind SameRound.trans (keeps_update fun _ ↦ rfl) fun _ ↦
      Program.Keeps.pure SameRound.refl _

omit [DecidableEq Value] in
theorem keeps_judged (candidate : Bytes) (conversation : Conversation Value) (verdict : Verdict) :
    (judged prepared candidate conversation verdict).Keeps SameRound := by
  cases verdict with
  | host detail => exact Program.Keeps.fail SameRound.refl _
  | accepted =>
    exact Program.Keeps.bind SameRound.trans (keeps_answer candidate) fun _ ↦
      Program.Keeps.pure SameRound.refl _
  | rejected correction =>
    unfold judged
    split_ifs
    · exact Program.Keeps.fail SameRound.refl _
    · exact Program.Keeps.bind SameRound.trans (keeps_update fun _ ↦ rfl) fun _ ↦
        Program.Keeps.bind SameRound.trans (keeps_appendExchange _ _) fun _ ↦
          Program.Keeps.pure SameRound.refl _

omit [DecidableEq Value] in
theorem keeps_offer (candidate : Bytes) :
    (offer prepared environment candidate).Keeps SameRound :=
  Program.Keeps.bind SameRound.trans (keeps_update fun _ ↦ rfl) fun _ ↦
    Program.Keeps.bind SameRound.trans keeps_self fun _ ↦
      Program.Keeps.bind SameRound.trans (keeps_happen _ _) fun _ ↦ keeps_judged _ _ _

omit [DecidableEq Value] in
theorem keeps_settle (content : Bytes) :
    (settle prepared environment content).Keeps SameRound := by
  unfold settle
  dsimp only
  split_ifs
  · refine Program.Keeps.bind SameRound.trans keeps_self fun conversation ↦ ?_
    split
    · refine Program.Keeps.bind SameRound.trans ?_ fun _ ↦ Program.Keeps.pure SameRound.refl _
      refine Program.Keeps.bind SameRound.trans (keeps_update fun _ ↦ rfl) fun _ ↦ ?_
      exact Program.Keeps.bind SameRound.trans (keeps_happen _ _) fun _ ↦
        keeps_appendExchange _ _
    · exact keeps_offer _
  · exact Program.Keeps.bind SameRound.trans (keeps_answer _) fun _ ↦
      Program.Keeps.pure SameRound.refl _

end Keeping

/-! ### The rounds of a completion -/

section Completion

variable (prepared : Prepared Value) (environment : Environment Value) [DecidableEq Value]

/-- The rounds that are left. -/
def roundsLeft (run : Run Value) : Nat :=
  prepared.budgets.maxRounds - run.conversation.round

/-- A round where one is left, which may have the text waited for; none where none is. -/
def replyRound : Step Value (Option (Option Bytes)) := do
  let conversation ← self
  if conversation.round < prepared.budgets.maxRounds then do
    let content ← providerRound prepared environment
    pure (content.map some)
  else pure (some none)

variable {prepared environment}

/-- Where a round is left it is made. -/
theorem replyRound_apply_of_lt {run : Run Value}
    (hleft : run.conversation.round < prepared.budgets.maxRounds) :
    replyRound prepared environment run =
      ((providerRound prepared environment run).1.map (Option.map some),
        (providerRound prepared environment run).2) := by
  unfold replyRound
  rw [Program.bind_apply_of_ok (self_apply run), if_pos hleft]
  rcases hresult : providerRound prepared environment run with ⟨error | content, after⟩
  · rw [Program.bind_apply_of_error hresult]
    rfl
  · rw [Program.bind_apply_of_ok hresult]
    rfl

/-- Where none is left there is no text. -/
theorem replyRound_apply_of_not_lt {run : Run Value}
    (hnone : ¬ run.conversation.round < prepared.budgets.maxRounds) :
    replyRound prepared environment run = (.ok (some none), run) := by
  unfold replyRound
  rw [Program.bind_apply_of_ok (self_apply run), if_neg hnone]
  rfl

/-- A round that is made leaves fewer. -/
theorem roundsLeft_lt_of_lt {run : Run Value}
    (hleft : run.conversation.round < prepared.budgets.maxRounds) :
    roundsLeft prepared (replyRound prepared environment run).2 < roundsLeft prepared run := by
  have hround : (providerRound prepared environment run).2.conversation.round =
      run.conversation.round + 1 := providerRound_round run
  rw [replyRound_apply_of_lt hleft]
  unfold roundsLeft
  dsimp only
  omega

/-- A round that has no text leaves fewer. -/
theorem roundsLeft_lt_of_none {run : Run Value}
    (hnone : (replyRound prepared environment run).1 = .ok none) :
    roundsLeft prepared (replyRound prepared environment run).2 < roundsLeft prepared run := by
  by_cases hleft : run.conversation.round < prepared.budgets.maxRounds
  · exact roundsLeft_lt_of_lt hleft
  · rw [replyRound_apply_of_not_lt hleft] at hnone
    cases hnone

variable (prepared environment)

/-- The text of the next reply without calls, or none where no round is left. -/
def nextReply : Step Value (Option Bytes) :=
  Program.loop (roundsLeft prepared) (replyRound prepared environment)
    fun _ ↦ roundsLeft_lt_of_none

variable {prepared environment} in
/-- The next reply meets what a round leads to from an invariant that a round without a text keeps,
and where there is none the invariant holds with no round left. -/
theorem nextReply_meets {invariant : Run Value → Prop} {found : Bytes → Run Value → Prop}
    {failed_ : Error → Run Value → Prop}
    (hround : (providerRound prepared environment).Meets
      (fun run ↦ run.conversation.round < prepared.budgets.maxRounds ∧ invariant run)
      (fun content run ↦ content.elim (invariant run) (found · run)) failed_) :
    (nextReply prepared environment).Meets invariant
      (fun content run ↦ content.elim
        (¬ run.conversation.round < prepared.budgets.maxRounds ∧ invariant run) (found · run))
      failed_ := by
  refine Program.Meets.loop fun run hinvariant ↦ ?_
  by_cases hleft : run.conversation.round < prepared.budgets.maxRounds
  · obtain ⟨hok, herror⟩ := hround run ⟨hleft, hinvariant⟩
    rw [replyRound_apply_of_lt hleft]
    rcases hresult : (providerRound prepared environment run).1 with error | content
    · refine ⟨fun found hfound ↦ (by cases hfound), fun other hother ↦ ?_⟩
      rw [← Except.error.inj hother]
      exact herror error hresult
    · refine ⟨fun found hfound ↦ ?_, fun other hother ↦ (by cases hother)⟩
      rw [← Except.ok.inj hfound]
      cases content with
      | none => exact hok none hresult
      | some content => exact hok (some content) hresult
  · rw [replyRound_apply_of_not_lt hleft]
    refine ⟨fun found hfound ↦ ?_, fun error herror ↦ (by cases herror)⟩
    rw [← Except.ok.inj hfound]
    exact ⟨hleft, hinvariant⟩

/-- A text that is found has fewer rounds left. -/
theorem nextReply_leaves (bound : Nat) :
    (nextReply prepared environment).Meets (fun run ↦ roundsLeft prepared run ≤ bound)
      (fun found run ↦ found ≠ none → roundsLeft prepared run < bound) fun _ _ ↦ True := by
  refine Program.Meets.loop fun run hbound ↦ ⟨fun found hfound ↦ ?_, fun _ _ ↦ trivial⟩
  by_cases hleft : run.conversation.round < prepared.budgets.maxRounds
  · have hfewer : roundsLeft prepared (replyRound prepared environment run).2 <
        roundsLeft prepared run := roundsLeft_lt_of_lt hleft
    cases found with
    | none => exact (hfewer.trans_le hbound).le
    | some content => exact fun _ ↦ hfewer.trans_le hbound
  · rw [replyRound_apply_of_not_lt hleft] at hfound ⊢
    rw [← Except.ok.inj hfound]
    exact fun hsome ↦ absurd rfl hsome

/-- The text of the next reply as a candidate: the answer, or the conversation goes on. -/
def candidateRound : Step Value (Option (Answer Value)) := do
  match ← nextReply prepared environment with
  | none =>
    Program.fail (.budgetExhausted (text "no answer after " ++ decimal prepared.budgets.maxRounds ++
      text " model round-trips"))
  | some content => settle prepared environment content

variable {prepared environment} in
/-- A candidate that is not the answer leaves fewer rounds. -/
theorem candidateRound_leaves {run : Run Value}
    (hnone : (candidateRound prepared environment run).1 = .ok none) :
    roundsLeft prepared (candidateRound prepared environment run).2 < roundsLeft prepared run := by
  obtain ⟨hok, -⟩ := nextReply_leaves prepared environment (roundsLeft prepared run) run le_rfl
  unfold candidateRound at *
  rcases hresult : nextReply prepared environment run with ⟨error | found, after⟩
  · rw [Program.bind_apply_of_error hresult] at hnone
    cases hnone
  · rw [Program.bind_apply_of_ok hresult] at *
    rw [hresult] at hok
    cases found with
    | none => cases hnone
    | some content =>
      have hsame : SameRound after (settle prepared environment content after).2 :=
        keeps_settle content after
      have hfewer := hok (some content) rfl (Option.some_ne_none content)
      unfold roundsLeft SameRound at *
      dsimp only at *
      omega

/-- The candidates of a completion up to its answer. -/
def run : Step Value (Answer Value) :=
  Program.loop (roundsLeft prepared) (candidateRound prepared environment)
    fun _ ↦ candidateRound_leaves

end Completion

/-! ### Openings -/

inductive Role where
  | system
  | assistant
  | user
  deriving DecidableEq, Repr

/-- A message of the request. -/
def openingMessage : Role × Bytes → ChatMessage Value
  | (.system, content) => .system content
  | (.assistant, content) => .assistant content
  | (.user, content) => .user content

/-- The chat that a request opens with. -/
def chatRequest (system : Option Bytes) (messages : List (Role × Bytes))
    (tools : List (Tool Value)) : ChatRequest Value :=
  ⟨system, messages.map openingMessage, if tools = [] then none else some tools⟩

/-- A conversation before its first round. -/
def Conversation.new (chat : ChatRequest Value) : Conversation Value :=
  ⟨chat, 0, 0, fun _ ↦ 0, false, []⟩

/-- A completion before its first round, in which nothing happened. -/
def Run.start (chat : ChatRequest Value) : Run Value := ⟨Conversation.new chat, []⟩

/-- A request for text that the guest checks, under the budgets a client has by default. -/
def checkedText : Prepared Nat where
  model := text "gpt"
  options := ⟨none, false, some 4096⟩
  format := .text
  validator := none
  check := true
  budgets := ⟨128, 2, 5, 600⟩
  candidate := id
  parseJson := fun _ ↦ .ok 0

/-- A provider that replies in text, which the check never accepts. -/
def insistent : Environment Nat where
  provider := fun _ ↦ .response ⟨some (text "done"), [], false, some 1⟩
  sleep := fun _ ↦ true
  call := fun _ _ ↦ .failed (text "no such tool")
  check := fun _ _ ↦ .rejected (text "try again")

/-- A file read, by its number. -/
def reading (number : Nat) : ToolCall Nat := ⟨text "call" ++ decimal number, text "read", number⟩

/-- A provider that calls for the same file in every reply, which is not there. -/
def stubborn : Environment Nat where
  provider _ := .response ⟨none, [reading 1], false, some 1⟩
  sleep _ := true
  call _ _ := .failed (text "no such file")
  check _ _ := .accepted

/-- Whether an event is a reply. -/
def Event.isReply : Event Value → Bool
  | .replied _ => true
  | _ => false

/-- A provider that reads a file, calls for another in a reply that is cut off, and then replies in
text, of which the check accepts the second. -/
def assisted : Environment Nat where
  provider events :=
    match events.countP Event.isReply with
    | 0 => .response ⟨none, [reading 1], false, some 1⟩
    | 1 => .response ⟨none, [reading 2], true, some 1⟩
    | 2 => .response ⟨some (text "draft"), [], false, some 1⟩
    | _ => .response ⟨some (text "done"), [], false, some 1⟩
  sleep _ := true
  call _ _ := .output (text "contents")
  check _ candidate :=
    if candidate = text "done" then .accepted else .rejected (text "try again")

/-- A chat in which files may be read. -/
def withFiles : ChatRequest Nat :=
  chatRequest none [(.user, text "go")] [⟨text "read", text "Reads a file.", 0⟩]

end OmniaBackends.Genai
