import OmniaBackends.Foundation.Run
import OmniaBackends.Genai.Conversation

/-!
# The requests of a conversation

A conversation appends to its chat in blocks: the calls of a reply with a response to each, or a
candidate with what is said of it. The blocks of a completion are those that what happened calls for
(`causesOf`), in order. Each request is the chat that the completion opened with, extended by the
blocks up to it, and the transcript is the turns of all blocks (`Laid`). So a request extends the
one before, leaves no call unanswered, and the transcript tells what the model was told
(`run_requests`).
-/

set_option autoImplicit false
set_option relaxedAutoImplicit false

namespace OmniaBackends.Genai

open Foundation

variable {Value : Type}

/-! ### Blocks -/

/-- What calls for a block. -/
inductive Cause (Value : Type) where
  | calls (calls : List (ToolCall Value))
  | exchange (candidate prompt : Bytes)
  deriving DecidableEq

/-- What is appended to a chat at once: calls with the result of each, or a candidate and what is
said of it. -/
inductive Block (Value : Type) where
  | calls (answered : List (ToolCall Value × Bytes))
  | exchange (candidate prompt : Bytes)
  deriving DecidableEq

/-- The responses to calls, in their order. -/
def responses (answered : List (ToolCall Value × Bytes)) : List (ChatMessage Value) :=
  answered.map fun (call, result) ↦ .toolResponse call.callId result

/-- The turns of calls, in their order. -/
def turnsOf (answered : List (ToolCall Value × Bytes)) : List (ToolTurn Value) :=
  answered.map fun (call, result) ↦ ⟨call.fnName, call.fnArguments, result⟩

namespace Block

def cause : Block Value → Cause Value
  | calls answered => .calls (answered.map Prod.fst)
  | exchange candidate prompt => .exchange candidate prompt

def messages : Block Value → List (ChatMessage Value)
  | calls answered => .toolCalls (answered.map Prod.fst) :: responses answered
  | exchange candidate prompt => [.assistant candidate, .user prompt]

def turns : Block Value → List (ToolTurn Value)
  | calls answered => turnsOf answered
  | exchange _ _ => []

end Block

/-- What calls for a block: a reply with calls, a nudge or a rejection. -/
def Event.cause : Event Value → Option (Cause Value)
  | .replied response =>
    if response.toolCalls.isEmpty then none else some (.calls response.toolCalls)
  | .nudged candidate prompt => some (.exchange candidate prompt)
  | .checked candidate (.rejected correction) => some (.exchange candidate correction)
  | _ => none

/-- What happened that calls for blocks, in order. -/
def causesOf (events : List (Event Value)) : List (Cause Value) :=
  events.reverse.filterMap Event.cause

theorem causesOf_cons_of_none {event : Event Value} {older : List (Event Value)}
    (hnone : event.cause = none) : causesOf (event :: older) = causesOf older := by
  simp [causesOf, hnone]

theorem causesOf_cons_of_some {event : Event Value} {older : List (Event Value)}
    {cause : Cause Value} (hsome : event.cause = some cause) :
    causesOf (event :: older) = causesOf older ++ [cause] := by
  simp [causesOf, hsome]

namespace ChatRequest

/-- A chat with messages after its own. -/
def appendAll (chat : ChatRequest Value) (messages : List (ChatMessage Value)) :
    ChatRequest Value :=
  { chat with messages := chat.messages ++ messages }

/-- A chat with blocks after its messages. -/
def extend (chat : ChatRequest Value) (blocks : List (Block Value)) : ChatRequest Value :=
  chat.appendAll (blocks.flatMap Block.messages)

theorem appendAll_appendAll (chat : ChatRequest Value) (first last : List (ChatMessage Value)) :
    (chat.appendAll first).appendAll last = chat.appendAll (first ++ last) := by
  simp [appendAll, List.append_assoc]

theorem extend_append (chat : ChatRequest Value) (blocks : List (Block Value))
    (block : Block Value) :
    chat.extend (blocks ++ [block]) = (chat.extend blocks).appendAll block.messages := by
  simp [extend, appendAll_appendAll]

end ChatRequest

/-! ### What was sent and told -/

/-- A request is the chat that was opened with, extended by the first of the blocks: those that what
happened before called for. -/
def Sent (opening : ChatRequest Value) (blocks : List (Block Value))
    (older : List (Event Value)) : Event Value → Prop
  | .requested _ chat _ =>
    ∃ earlier, earlier <+: blocks ∧ earlier.map Block.cause = causesOf older ∧
      chat = opening.extend earlier
  | _ => True

/-- The blocks are what happened called for, up to what has yet to be appended. -/
structure Told (opening : ChatRequest Value) (blocks : List (Block Value))
    (pending : List (Cause Value)) (events : List (Event Value)) : Prop where
  causes : causesOf events = blocks.map Block.cause ++ pending
  sent : Lawful (Sent opening blocks) events

/-- A conversation whose chat and transcript are those of the blocks. -/
structure Laid (opening : ChatRequest Value) (blocks : List (Block Value))
    (pending : List (Cause Value)) (run : Run Value) : Prop where
  chat : run.conversation.chat = opening.extend blocks
  transcript : run.conversation.transcript = blocks.flatMap Block.turns
  told : Told opening blocks pending run.events

/-- What a failure leaves. -/
def Left (opening : ChatRequest Value) (_ : Error) (run : Run Value) : Prop :=
  ∃ blocks pending, Told opening blocks pending run.events

/-- The last request had every block. -/
def Asked (opening : ChatRequest Value) (blocks : List (Block Value))
    (events : List (Event Value)) : Prop :=
  ∃ newer retry options older,
    events = newer ++ .requested retry (opening.extend blocks) options :: older

variable {opening : ChatRequest Value} {blocks : List (Block Value)}
variable {pending : List (Cause Value)} {events : List (Event Value)} {run : Run Value}

/-- What calls for no block leaves what was told. -/
theorem Told.cons_of_none (htold : Told opening blocks pending events) {event : Event Value}
    (hnone : event.cause = none) (hsent : Sent opening blocks events event) :
    Told opening blocks pending (event :: events) :=
  ⟨(causesOf_cons_of_none hnone).trans htold.causes, hsent, htold.sent⟩

/-- What calls for a block has it pending. -/
theorem Told.cons_of_some (htold : Told opening blocks [] events) {event : Event Value}
    {cause : Cause Value} (hsome : event.cause = some cause)
    (hsent : Sent opening blocks events event) :
    Told opening blocks [cause] (event :: events) := by
  refine ⟨?_, hsent, htold.sent⟩
  rw [causesOf_cons_of_some hsome, htold.causes, List.append_nil]

/-- A block that was pending is appended. -/
theorem Told.append {block : Block Value} (htold : Told opening blocks [block.cause] events) :
    Told opening (blocks ++ [block]) [] events := by
  refine ⟨?_, htold.sent.imp fun older event hsent ↦ ?_⟩
  · rw [htold.causes, List.map_append, List.map_singleton, List.append_nil]
  · cases event with
    | requested retry chat options =>
      obtain ⟨earlier, hinitial, hrest⟩ := hsent
      exact ⟨earlier, hinitial.trans (List.prefix_append blocks [block]), hrest⟩
    | _ => trivial

/-- A request of the chat as it is. -/
theorem Told.sent_request (htold : Told opening blocks [] events) (retry : Nat)
    (options : ChatOptions Value) :
    Told opening blocks [] (.requested retry (opening.extend blocks) options :: events) :=
  htold.cons_of_none rfl ⟨blocks, List.prefix_rfl, by rw [htold.causes, List.append_nil], rfl⟩

/-! ### Requests and replies -/

variable {prepared : Prepared Value} {environment : Environment Value}

/-- A reply that was received to a request of every block. -/
def Replied (opening : ChatRequest Value) (blocks : List (Block Value))
    (response : ChatResponse Value) (run : Run Value) : Prop :=
  ∃ older, run.events = .replied response :: older ∧
    Laid opening blocks [] ⟨run.conversation, older⟩ ∧ Asked opening blocks older

theorem lays_put (options : ChatOptions Value) (retry : Nat) :
    (put environment (opening.extend blocks) options retry).Meets (Laid opening blocks [])
      (fun _ run ↦ Laid opening blocks [] run ∧ Asked opening blocks run.events)
      (Left opening) :=
  fun run hlaid ↦
    ⟨fun _ _ ↦ ⟨{ hlaid with told := hlaid.told.sent_request retry options },
      [], retry, options, run.events, rfl⟩, fun error herror ↦ (by cases herror)⟩

theorem Laid.left (hlaid : Laid opening blocks pending run) (error : Error) :
    Left opening error run :=
  ⟨blocks, pending, hlaid.told⟩

theorem lays_received (attempt : Attempt Value) :
    (received prepared attempt).Meets
      (fun run ↦ Laid opening blocks [] run ∧ Asked opening blocks run.events)
      (Replied opening blocks) (Left opening) := by
  cases attempt with
  | response response =>
    rintro run ⟨hlaid, hasked⟩
    refine ⟨fun found hfound ↦ ?_, fun error herror ↦ (by cases herror)⟩
    rw [← Except.ok.inj hfound]
    exact ⟨run.events, rfl, hlaid, hasked⟩
  | failed transport detail => exact Program.Meets.fail fun run hlaid ↦ hlaid.1.left _
  | elapsed => exact Program.Meets.fail fun run hlaid ↦ hlaid.1.left _

/-- However often a request is put, it is the chat of every block. -/
theorem lays_execChatFrom (options : ChatOptions Value) (waits retry : Nat) :
    (execChatFrom prepared environment (opening.extend blocks) options waits retry).Meets
      (Laid opening blocks []) (Replied opening blocks) (Left opening) := by
  induction waits generalizing retry with
  | zero => exact (lays_put options retry).bind lays_received
  | succ waits ih =>
    refine (lays_put options retry).bind fun attempt ↦ ?_
    split
    · have hsleep : (sleep environment).Meets
          (fun run ↦ Laid opening blocks [] run ∧ Asked opening blocks run.events)
          (fun _ ↦ Laid opening blocks []) (Left opening) :=
        fun _ hlaid ↦ ⟨fun _ _ ↦ hlaid.1, fun error herror ↦ (by cases herror)⟩
      refine hsleep.bind fun within_ ↦ ?_
      split
      · exact ih (retry + 1)
      · exact Program.Meets.fail fun run hlaid ↦ hlaid.left _
    · exact lays_received _

/-! ### Calls answered -/

/-- A part of a conversation that answers calls in a chat: it appends a response and a turn for each
of them, with one result. -/
def Answers (opening : ChatRequest Value) (blocks : List (Block Value))
    (pending : List (Cause Value)) (calls : List (ToolCall Value))
    (part : ChatRequest Value → Step Value (ChatRequest Value)) : Prop :=
  ∀ chat turns, (part chat).Meets
    (fun run ↦ run.conversation.transcript = turns ∧ Told opening blocks pending run.events)
    (fun after run ↦ ∃ answered, answered.map Prod.fst = calls ∧
      after = chat.appendAll (responses answered) ∧
      run.conversation.transcript = turns ++ turnsOf answered ∧
      Told opening blocks pending run.events)
    (Left opening)

/-- No calls are answered by nothing. -/
theorem answers_nil : Answers opening blocks pending [] fun chat ↦ pure chat := by
  refine fun chat turns ↦ Program.Meets.pure fun run ⟨hturns, htold⟩ ↦ ?_
  refine ⟨[], rfl, ?_, ?_, htold⟩
  · simp [responses, ChatRequest.appendAll]
  · simpa [turnsOf] using hturns

/-- A call answered with a result and then the rest. -/
theorem answers_cons {call : ToolCall Value} {calls : List (ToolCall Value)}
    {result : Bytes} {rest : ChatRequest Value → Step Value (ChatRequest Value)}
    (hrest : Answers opening blocks pending calls rest) :
    Answers opening blocks pending (call :: calls) fun chat ↦ (do
      pushTurn call result
      rest (chat.appendMessage (.toolResponse call.callId result))) := by
  intro chat turns
  have hpush : (pushTurn call result).Meets
      (fun run ↦ run.conversation.transcript = turns ∧ Told opening blocks pending run.events)
      (fun _ run ↦ run.conversation.transcript =
          turns ++ [⟨call.fnName, call.fnArguments, result⟩] ∧
        Told opening blocks pending run.events)
      (Left opening) :=
    fun run ⟨hturns, htold⟩ ↦
      ⟨fun _ _ ↦ ⟨congrArg (· ++ _) hturns, htold⟩, fun error herror ↦ (by cases herror)⟩
  refine hpush.bind fun _ ↦ (hrest _ _).imp (fun _ hbefore ↦ hbefore) ?_ fun _ _ hleft ↦ hleft
  rintro after run ⟨answered, hcalls, rfl, hturns, htold⟩
  refine ⟨(call, result) :: answered, congrArg (call :: ·) hcalls, ?_, ?_, htold⟩
  · simp [responses, ChatRequest.appendAll, ChatRequest.appendMessage]
  · simpa [turnsOf] using hturns

theorem answers_refuseCalls (refusal : Bytes) (calls : List (ToolCall Value)) :
    Answers opening blocks pending calls (refuseCalls refusal calls) := by
  induction calls with
  | nil => exact answers_nil
  | cons call calls ih => exact answers_cons ih

/-- Calls answered make a block of the chat and the transcript. -/
theorem lays_answered {calls : List (ToolCall Value)}
    {part : ChatRequest Value → Step Value (ChatRequest Value)}
    (hpart : Answers opening blocks [.calls calls] calls part) :
    (do
      let chat ← takeChat
      let chat ← part (chat.appendMessage (.toolCalls calls))
      setChat chat).Meets (Laid opening blocks [.calls calls])
      (fun _ run ↦ ∃ blocks, Laid opening blocks [] run) (Left opening) := by
  have htake : (takeChat : Step Value _).Meets (Laid opening blocks [.calls calls])
      (fun chat run ↦ chat = opening.extend blocks ∧
        run.conversation.transcript = blocks.flatMap Block.turns ∧
        Told opening blocks [.calls calls] run.events)
      (Left opening) := by
    intro run hlaid
    refine ⟨fun chat hchat ↦ ?_, fun error herror ↦ (by cases herror)⟩
    rw [← Except.ok.inj hchat]
    exact ⟨hlaid.chat, hlaid.transcript, hlaid.told⟩
  refine htake.bind fun chat ↦ Program.Meets.of_fact fun hchat ↦ ?_
  subst hchat
  refine (hpart _ _).bind fun after ↦ ?_
  rintro run ⟨answered, rfl, rfl, htranscript, htold⟩
  refine ⟨fun _ _ ↦ ⟨blocks ++ [.calls answered], ?_, ?_, htold.append⟩,
    fun error herror ↦ (by cases herror)⟩
  · rw [ChatRequest.extend_append]
    change ((opening.extend blocks).appendAll [_]).appendAll _ = _
    rw [ChatRequest.appendAll_appendAll]
    rfl
  · rw [List.flatMap_append, List.flatMap_singleton]
    exact htranscript

variable [DecidableEq Value]

/-- What a call came to leaves the transcript and what was told. -/
theorem lays_resultOf (turns : List (ToolTurn Value)) (call : ToolCall Value)
    (answer : ToolAnswer) :
    (resultOf prepared call answer).Meets
      (fun run ↦ run.conversation.transcript = turns ∧ Told opening blocks pending run.events)
      (fun _ run ↦ run.conversation.transcript = turns ∧ Told opening blocks pending run.events)
      (Left opening) := by
  rintro run ⟨hturns, htold⟩
  cases answer with
  | output output => exact ⟨fun _ _ ↦ ⟨hturns, htold⟩, fun error herror ↦ (by cases herror)⟩
  | failed reason =>
    dsimp only [resultOf]
    unfold failed
    rw [Program.bind_apply_of_ok (self_apply _), Program.bind_apply_of_ok (update_apply _ _)]
    split_ifs
    · exact ⟨fun found hfound ↦ (by cases hfound), fun _ _ ↦ ⟨blocks, pending, htold⟩⟩
    · exact ⟨fun _ _ ↦ ⟨hturns, htold⟩, fun error herror ↦ (by cases herror)⟩
    · exact ⟨fun _ _ ↦ ⟨hturns, htold⟩, fun error herror ↦ (by cases herror)⟩
  | host detail =>
    exact ⟨fun found hfound ↦ (by cases hfound), fun _ _ ↦ ⟨blocks, pending, htold⟩⟩
  | elapsed => exact ⟨fun found hfound ↦ (by cases hfound), fun _ _ ↦ ⟨blocks, pending, htold⟩⟩

theorem answers_runCalls (calls : List (ToolCall Value)) :
    Answers opening blocks pending calls (runCalls prepared environment calls) := by
  induction calls with
  | nil => exact answers_nil
  | cons call calls ih =>
    intro chat turns
    have hhappen : (happen (environment.call · call) (Event.called call)).Meets
        (fun run ↦ run.conversation.transcript = turns ∧ Told opening blocks pending run.events)
        (fun _ run ↦ run.conversation.transcript = turns ∧ Told opening blocks pending run.events)
        (Left opening) :=
      fun run ⟨hturns, htold⟩ ↦
        ⟨fun _ _ ↦ ⟨hturns, htold.cons_of_none rfl trivial⟩, fun error herror ↦ (by cases herror)⟩
    refine hhappen.bind fun answer ↦ (lays_resultOf turns call answer).bind fun result ↦ ?_
    exact answers_cons ih chat turns

/-- The calls of a reply make a block, run or refused. -/
theorem lays_dispatch (blocks : List (Block Value)) (closing_ cut : Bool)
    (calls : List (ToolCall Value)) :
    (dispatch prepared environment closing_ cut calls).Meets (Laid opening blocks [.calls calls])
      (fun _ run ↦ ∃ blocks, Laid opening blocks [] run) (Left opening) := by
  unfold dispatch
  split_ifs
  · exact lays_answered (answers_refuseCalls _ calls)
  · exact lays_answered (answers_refuseCalls _ calls)
  · exact lays_answered (answers_runCalls calls)

/-! ### Rounds -/

/-- What the conversation is when a text was found: every block was in the last request. -/
def Found (opening : ChatRequest Value) (run : Run Value) : Prop :=
  ∃ blocks, Laid opening blocks [] run ∧ Asked opening blocks run.events

theorem lays_ask {conversation : Conversation Value}
    (hchat : conversation.chat = opening.extend blocks) :
    (ask prepared environment conversation).Meets (Laid opening blocks [])
      (fun content run ↦ content.elim (∃ blocks, Laid opening blocks [] run)
        fun _ ↦ Found opening run)
      (Left opening) := by
  unfold ask roundRequest
  dsimp only
  rw [hchat]
  refine (lays_execChatFrom _ TRANSPORT_RETRIES 0).bind fun response ↦ ?_
  split_ifs with hcalls
  · have hpending : (dispatch prepared environment (closing prepared conversation)
        (isCut prepared response) response.toolCalls).Meets (Replied opening blocks response)
        (fun _ run ↦ ∃ blocks, Laid opening blocks [] run) (Left opening) := by
      refine (lays_dispatch blocks _ _ _).imp (fun run hreplied ↦ ?_) (fun _ _ hafter ↦ hafter)
        fun _ _ hleft ↦ hleft
      obtain ⟨older, hevents, hlaid, hasked⟩ := hreplied
      refine ⟨hlaid.chat, hlaid.transcript, ?_⟩
      rw [hevents]
      refine hlaid.told.cons_of_some ?_ trivial
      rw [Event.cause, if_neg (by simpa using hcalls)]
    exact hpending.bind fun _ ↦ Program.Meets.pure fun _ hafter ↦ hafter
  · cases response.firstText with
    | some content =>
      refine Program.Meets.pure fun run hreplied ↦ ?_
      obtain ⟨older, hevents, hlaid, newer, retry, options, oldest, hasked⟩ := hreplied
      refine ⟨blocks, ⟨hlaid.chat, hlaid.transcript, ?_⟩,
        .replied response :: newer, retry, options, oldest, ?_⟩
      · rw [hevents]
        refine hlaid.told.cons_of_none ?_ trivial
        rw [Event.cause, if_pos (by simpa using hcalls)]
      · rw [hevents]
        exact congrArg (_ :: ·) hasked
    | none =>
      refine Program.Meets.fail fun run hreplied ↦ ?_
      obtain ⟨older, hevents, hlaid, -⟩ := hreplied
      refine ⟨blocks, [], ?_⟩
      rw [hevents]
      refine hlaid.told.cons_of_none ?_ trivial
      rw [Event.cause, if_pos (by simpa using hcalls)]

theorem lays_providerRound :
    (providerRound prepared environment).Meets (Laid opening blocks [])
      (fun content run ↦ content.elim (∃ blocks, Laid opening blocks [] run)
        fun _ ↦ Found opening run)
      (Left opening) := by
  have hbegin : (update fun conversation : Conversation Value ↦
      { conversation with round := conversation.round + 1 }).Meets (Laid opening blocks [])
      (fun _ ↦ Laid opening blocks []) (Left opening) :=
    fun run hlaid ↦ ⟨fun _ _ ↦ { hlaid with }, fun error herror ↦ (by cases herror)⟩
  have hself : (self : Step Value _).Meets (Laid opening blocks [])
      (fun conversation run ↦ conversation.chat = opening.extend blocks ∧
        Laid opening blocks [] run)
      (Left opening) := by
    intro run hlaid
    refine ⟨fun conversation hread ↦ ?_, fun error herror ↦ (by cases herror)⟩
    rw [← Except.ok.inj hread]
    exact ⟨hlaid.chat, hlaid⟩
  exact hbegin.bind fun _ ↦ hself.bind fun conversation ↦ Program.Meets.of_fact lays_ask

/-- A text is found with every block in the last request. -/
theorem lays_nextReply :
    (nextReply prepared environment).Meets (fun run ↦ ∃ blocks, Laid opening blocks [] run)
      (fun content run ↦ content.elim
        (¬ run.conversation.round < prepared.budgets.maxRounds ∧
          ∃ blocks, Laid opening blocks [] run)
        fun _ ↦ Found opening run)
      (Left opening) := by
  refine nextReply_meets ?_
  rintro run ⟨-, blocks, hlaid⟩
  exact lays_providerRound run hlaid

/-! ### Candidates -/

/-- What an answer leaves: its transcript is the turns of every block, and every block was in the
last request. -/
def Given (opening : ChatRequest Value) (answer : Answer Value) (run : Run Value) : Prop :=
  ∃ blocks, Told opening blocks [] run.events ∧ Asked opening blocks run.events ∧
    answer.transcript = blocks.flatMap Block.turns

/-- The post-state of a settled candidate. -/
def Settled (opening : ChatRequest Value) (found : Option (Answer Value)) (run : Run Value) :
    Prop :=
  found.elim (∃ blocks, Laid opening blocks [] run) (Given opening · run)

omit [DecidableEq Value] in
/-- A candidate and what is said of it make a block. -/
theorem lays_appendExchange (candidate prompt : Bytes) :
    (do appendExchange candidate prompt; pure none : Step Value (Option (Answer Value))).Meets
      (Laid opening blocks [.exchange candidate prompt]) (Settled opening) (Left opening) := by
  intro run hlaid
  refine ⟨fun found hfound ↦ ?_, fun error herror ↦ (by cases herror)⟩
  rw [← Except.ok.inj hfound]
  refine ⟨blocks ++ [.exchange candidate prompt], ?_, ?_, hlaid.told.append⟩
  · rw [ChatRequest.extend_append, ← hlaid.chat]
    change ((run.conversation.chat.appendAll [_]).appendAll [_]) = _
    rw [ChatRequest.appendAll_appendAll]
    rfl
  · rw [List.flatMap_append, List.flatMap_singleton, ← hlaid.transcript]
    exact (List.append_nil _).symm

omit [DecidableEq Value] in
theorem Asked.cons {event : Event Value} (hasked : Asked opening blocks events) :
    Asked opening blocks (event :: events) := by
  obtain ⟨newer, retry, options, older, hevents⟩ := hasked
  exact ⟨event :: newer, retry, options, older, congrArg (event :: ·) hevents⟩

omit [DecidableEq Value] in
/-- A candidate that was judged gives the transcript, or makes a block of its correction. -/
theorem lays_judged (candidate : Bytes) (conversation : Conversation Value) (verdict : Verdict) :
    (judged prepared candidate conversation verdict).Meets
      (fun run ↦ ∃ older, run.events = .checked candidate verdict :: older ∧
        Found opening ⟨run.conversation, older⟩)
      (Settled opening) (Left opening) := by
  rintro ⟨current, events⟩ ⟨older, rfl, blocks, hlaid, hasked⟩
  cases verdict with
  | host detail =>
    exact ⟨fun found hfound ↦ (by cases hfound),
      fun _ _ ↦ ⟨blocks, [], hlaid.told.cons_of_none rfl trivial⟩⟩
  | accepted =>
    refine ⟨fun found hfound ↦ ?_, fun error herror ↦ (by cases herror)⟩
    rw [← Except.ok.inj hfound]
    exact ⟨blocks, hlaid.told.cons_of_none rfl trivial, hasked.cons, hlaid.transcript⟩
  | rejected correction =>
    have htold : Told opening blocks [.exchange candidate correction]
        (.checked candidate (.rejected correction) :: older) :=
      hlaid.told.cons_of_some rfl trivial
    dsimp only [judged]
    split_ifs
    · exact ⟨fun found hfound ↦ (by cases hfound), fun _ _ ↦ ⟨blocks, _, htold⟩⟩
    · rw [Program.bind_apply_of_ok (update_apply _ _)]
      exact lays_appendExchange candidate correction _ ⟨hlaid.chat, hlaid.transcript, htold⟩

omit [DecidableEq Value] in
theorem lays_offer (candidate : Bytes) :
    (offer prepared environment candidate).Meets (Found opening) (Settled opening)
      (Left opening) := by
  rintro run ⟨blocks, hlaid, hasked⟩
  unfold offer
  rw [Program.bind_apply_of_ok (update_apply _ _), Program.bind_apply_of_ok (self_apply _),
    Program.bind_apply_of_ok (happen_apply _ _ _)]
  exact lays_judged candidate _ _ _ ⟨run.events, rfl, blocks, { hlaid with }, hasked⟩

omit [DecidableEq Value] in
/-- A candidate that is nudged makes a block of the nudge. -/
theorem lays_nudge (candidate prompt : Bytes) :
    (do nudge candidate prompt; pure none : Step Value (Option (Answer Value))).Meets
      (Found opening) (Settled opening) (Left opening) := by
  rintro run ⟨blocks, hlaid, -⟩
  have htold : Told opening blocks [.exchange candidate prompt]
      (.nudged candidate prompt :: run.events) :=
    hlaid.told.cons_of_some rfl trivial
  exact lays_appendExchange candidate prompt
    ⟨{ run.conversation with nudged := true }, .nudged candidate prompt :: run.events⟩
    ⟨hlaid.chat, hlaid.transcript, htold⟩

omit [DecidableEq Value] in
theorem lays_settle (content : Bytes) :
    (settle prepared environment content).Meets (Found opening) (Settled opening)
      (Left opening) := by
  intro run hfound
  unfold settle
  split_ifs with hcheck
  · rw [Program.bind_apply_of_ok (self_apply _)]
    cases run.conversation.nudged with
    | true => exact lays_offer _ run hfound
    | false =>
      cases offShape prepared (prepared.candidate content) with
      | none => exact lays_offer _ run hfound
      | some prompt => exact lays_nudge _ prompt run hfound
  · obtain ⟨blocks, hlaid, hasked⟩ := hfound
    refine ⟨fun found hgiven ↦ ?_, fun error herror ↦ (by cases herror)⟩
    rw [← Except.ok.inj hgiven]
    exact ⟨blocks, hlaid.told, hasked, hlaid.transcript⟩

/-- The blocks of a completion, wherever it ends. -/
theorem lays_run :
    (Genai.run prepared environment).Meets (fun run ↦ ∃ blocks, Laid opening blocks [] run)
      (Given opening) (Left opening) := by
  refine Program.Meets.loop (lays_nextReply.bind fun found ↦ ?_)
  cases found with
  | none => exact Program.Meets.fail fun run ⟨_, blocks, hlaid⟩ ↦ hlaid.left _
  | some content => exact lays_settle content

/-! ### Well-formed chats -/

omit [DecidableEq Value]

def ChatMessage.responds : ChatMessage Value → Bool
  | .toolResponse _ _ => true
  | _ => false

/-- Every assistant message that carries calls is followed at once by one response to each of them,
in their order, and by no other response. -/
def CallsAnswered (messages : List (ChatMessage Value)) : Prop :=
  ∀ before calls after, messages = before ++ .toolCalls calls :: after →
    ∃ answered rest, answered.map Prod.fst = calls ∧ after = responses answered ++ rest ∧
      rest.head?.any ChatMessage.responds = false

/-- Messages of which none carries calls leave none unanswered. -/
theorem callsAnswered_of_none {messages : List (ChatMessage Value)}
    (hnone : ∀ calls, .toolCalls calls ∉ messages) : CallsAnswered messages := by
  intro before calls after hmessages
  refine absurd ?_ (hnone calls)
  rw [hmessages]
  exact List.mem_append_right before List.mem_cons_self

/-- Chats whose calls are answered compose, where the second does not start with a response. -/
theorem CallsAnswered.append {first last : List (ChatMessage Value)}
    (hfirst : CallsAnswered first) (hlast : CallsAnswered last)
    (hstart : last.head?.any ChatMessage.responds = false) : CallsAnswered (first ++ last) := by
  intro before calls after hmessages
  rcases List.append_eq_append_iff.mp hmessages with ⟨between, -, hrest⟩ | ⟨between, hsplit, hrest⟩
  · exact hlast between calls after hrest
  · cases between with
    | nil => exact hlast [] calls after hrest.symm
    | cons message between =>
      obtain ⟨rfl, rfl⟩ := List.cons.inj hrest
      obtain ⟨answered, rest, hcalls, rfl, hnext⟩ := hfirst before calls between hsplit
      refine ⟨answered, rest ++ last, hcalls, List.append_assoc _ _ _, ?_⟩
      cases rest with
      | nil => exact hstart
      | cons message rest => exact hnext

/-- A block leaves no call unanswered. -/
theorem Block.callsAnswered (block : Block Value) : CallsAnswered block.messages := by
  cases block with
  | calls answered =>
    intro before calls after hmessages
    cases before with
    | nil =>
      obtain ⟨hcalls, rfl⟩ := List.cons.inj hmessages
      exact ⟨answered, [], ChatMessage.toolCalls.inj hcalls, (List.append_nil _).symm, rfl⟩
    | cons message before =>
      have hmember : .toolCalls calls ∈ responses answered := by
        rw [(List.cons.inj hmessages).2]
        exact List.mem_append_right before List.mem_cons_self
      simp [responses] at hmember
  | exchange candidate prompt =>
    exact callsAnswered_of_none (by simp [messages])

/-- No block starts with a response. -/
theorem Block.head_messages (block : Block Value) :
    block.messages.head?.any ChatMessage.responds = false := by
  cases block with
  | calls answered => rfl
  | exchange candidate prompt => rfl

/-- A chat that opens without calls leaves none unanswered however it is extended. -/
theorem callsAnswered_extend {opening : ChatRequest Value}
    (hopening : CallsAnswered opening.messages) (blocks : List (Block Value)) :
    CallsAnswered (opening.extend blocks).messages := by
  induction blocks using List.reverseRecOn with
  | nil => simpa [ChatRequest.extend, ChatRequest.appendAll] using hopening
  | append_singleton blocks block ih =>
    rw [ChatRequest.extend_append]
    exact ih.append block.callsAnswered block.head_messages

theorem callsAnswered_chatRequest (system : Option Bytes) (messages : List (Role × Bytes))
    (tools : List (Tool Value)) : CallsAnswered (chatRequest system messages tools).messages := by
  refine callsAnswered_of_none fun calls hmember ↦ ?_
  obtain ⟨⟨role, content⟩, -, hmessage⟩ := List.mem_map.mp hmember
  cases role <;> cases hmessage

/-! ### Transcripts -/

/-- The calls that a cause is made of. -/
def Cause.made : Cause Value → List (ToolCall Value)
  | .calls asked => asked
  | .exchange _ _ => []

/-- The calls that a reply makes. -/
def Event.made : Event Value → List (ToolCall Value)
  | .replied response => response.toolCalls
  | _ => []

/-- The calls of every reply, in order. -/
def callsOf (events : List (Event Value)) : List (ToolCall Value) :=
  events.reverse.flatMap Event.made

/-- The causes hold the calls of every reply. -/
theorem flatMap_made_causesOf (events : List (Event Value)) :
    (causesOf events).flatMap Cause.made = callsOf events := by
  have hevent : ∀ event : Event Value, event.cause.toList.flatMap Cause.made = event.made := by
    intro event
    cases event with
    | replied response =>
      by_cases hcalls : response.toolCalls = []
      · simp [Event.cause, Event.made, hcalls]
      · simp [Event.cause, Event.made, Cause.made, hcalls]
    | checked candidate verdict => cases verdict <;> rfl
    | _ => rfl
  induction events with
  | nil => rfl
  | cons event older ih =>
    have hcauses : causesOf (event :: older) = causesOf older ++ event.cause.toList := by
      cases hcause : event.cause <;> simp [causesOf, hcause]
    rw [hcauses, List.flatMap_append, ih, hevent]
    simp [callsOf]

/-- The turns of blocks are of the calls that caused them. -/
theorem map_turns (blocks : List (Block Value)) :
    (blocks.flatMap Block.turns).map (fun turn ↦ (turn.tool, turn.args)) =
      ((blocks.map Block.cause).flatMap Cause.made).map identity := by
  induction blocks with
  | nil => rfl
  | cons block blocks ih =>
    rw [List.flatMap_cons, List.map_append, List.map_cons, List.flatMap_cons, List.map_append, ih]
    congr 1
    cases block with
    | calls answered =>
      simp only [Block.turns, Block.cause, Cause.made, turnsOf, List.map_map]
      rfl
    | exchange candidate prompt => rfl

/-! ### The requests of a completion -/

theorem causesOf_append (newer older : List (Event Value)) :
    causesOf (newer ++ older) = causesOf older ++ causesOf newer := by
  simp [causesOf]

theorem ChatRequest.messages_extend_prefix {opening : ChatRequest Value}
    {first last : List (Block Value)} (hblocks : first <+: last) :
    (opening.extend first).messages <+: (opening.extend last).messages := by
  obtain ⟨rest, rfl⟩ := hblocks
  refine ⟨rest.flatMap Block.messages, ?_⟩
  simp [ChatRequest.extend, ChatRequest.appendAll]

/-- A request extends every request before it. -/
theorem Sent.messages_prefix {earlier later : ChatRequest Value}
    {again retry : Nat} {former options : ChatOptions Value} {middle older : List (Event Value)}
    (hearlier : Sent opening blocks older (.requested again earlier former))
    (hlater : Sent opening blocks (middle ++ .requested again earlier former :: older)
      (.requested retry later options)) :
    later.system = earlier.system ∧ later.tools = earlier.tools ∧
      earlier.messages <+: later.messages := by
  obtain ⟨first, hfirst, hcauses, rfl⟩ := hearlier
  obtain ⟨last, hlast, hcauses', rfl⟩ := hlater
  refine ⟨rfl, rfl, ChatRequest.messages_extend_prefix ?_⟩
  refine List.prefix_of_prefix_length_le hfirst hlast ?_
  have hlength := congrArg List.length hcauses
  have hlength' := congrArg List.length hcauses'
  rw [causesOf_append, causesOf_cons_of_none rfl] at hlength'
  simp only [List.length_map, List.length_append] at hlength hlength'
  omega

/-- Every request of a completion is the chat it opened with, extended by a block for each thing
that called for one before, so that it extends the requests before it and leaves no call
unanswered. The transcript of an answer is the turns of all blocks, one for each call of every
reply, and the last request had all of them. -/
theorem run_requests [DecidableEq Value] (prepared : Prepared Value)
    (environment : Environment Value) (system : Option Bytes) (messages : List (Role × Bytes))
    (tools : List (Tool Value)) {result : Except Error (Answer Value)} {final : Run Value}
    (hrun : Genai.run prepared environment (Run.start (chatRequest system messages tools)) =
      (result, final)) :
    ∃ blocks : List (Block Value),
      blocks.map Block.cause <+: causesOf final.events ∧
      (∀ newer retry chat options older,
        final.events = newer ++ .requested retry chat options :: older →
          CallsAnswered chat.messages ∧ ∃ earlier, earlier <+: blocks ∧
            earlier.map Block.cause = causesOf older ∧
            chat = (chatRequest system messages tools).extend earlier) ∧
      (∀ newer retry later options middle again earlier former older,
        final.events = newer ++ .requested retry later options ::
          (middle ++ .requested again earlier former :: older) →
            later.system = earlier.system ∧ later.tools = earlier.tools ∧
              earlier.messages <+: later.messages) ∧
      ∀ answer, result = .ok answer →
        blocks.map Block.cause = causesOf final.events ∧
          answer.transcript = blocks.flatMap Block.turns ∧
          answer.transcript.map (fun turn ↦ (turn.tool, turn.args)) =
            (callsOf final.events).map identity ∧
          Asked (chatRequest system messages tools) blocks final.events := by
  have hstart : Laid (chatRequest system messages tools) []
      [] (Run.start (chatRequest system messages tools)) := by
    refine ⟨?_, rfl, rfl, trivial⟩
    simp [Run.start, Conversation.new, ChatRequest.extend, ChatRequest.appendAll]
  have hlays : (Genai.run prepared environment).Meets
      (fun run ↦ ∃ blocks, Laid (chatRequest system messages tools) blocks [] run)
      (Given (chatRequest system messages tools)) (Left (chatRequest system messages tools)) :=
    lays_run
  obtain ⟨hok, herror⟩ := hlays _ ⟨[], hstart⟩
  rw [hrun] at hok herror
  obtain ⟨blocks, pending, htold, hanswer⟩ : ∃ blocks pending,
      Told (chatRequest system messages tools) blocks pending final.events ∧
        ∀ answer, result = .ok answer → pending = [] ∧
          answer.transcript = blocks.flatMap Block.turns ∧
          Asked (chatRequest system messages tools) blocks final.events := by
    cases result with
    | ok found =>
      obtain ⟨blocks, htold, hasked, hturns⟩ := hok found rfl
      refine ⟨blocks, [], htold, fun answer hanswer ↦ ?_⟩
      rw [← Except.ok.inj hanswer]
      exact ⟨rfl, hturns, hasked⟩
    | error failure =>
      obtain ⟨blocks, pending, htold⟩ := herror failure rfl
      exact ⟨blocks, pending, htold, fun answer hanswer ↦ (by cases hanswer)⟩
  refine ⟨blocks, ?_, fun newer retry chat options older hevents ↦ ?_,
    fun newer retry later options middle again earlier former older hevents ↦ ?_,
    fun answer hresult ↦ ?_⟩
  · rw [htold.causes]
    exact List.prefix_append _ _
  · have hsent := htold.sent
    rw [hevents] at hsent
    obtain ⟨earlier, hearlier, hcauses, rfl⟩ := hsent.allowed_of_append
    exact ⟨callsAnswered_extend (callsAnswered_chatRequest system messages tools) earlier,
      earlier, hearlier, hcauses, rfl⟩
  · have hsent := htold.sent
    rw [hevents] at hsent
    exact Sent.messages_prefix hsent.of_append.2.allowed_of_append hsent.allowed_of_append
  · obtain ⟨rfl, hturns, hasked⟩ := hanswer answer hresult
    have hcauses := htold.causes.trans (List.append_nil _)
    refine ⟨hcauses.symm, hturns, ?_, hasked⟩
    rw [hturns, map_turns, ← hcauses, flatMap_made_causesOf]

/-- A file read, a call refused and a text rejected are three blocks, of which every request has the
first ones, and the answer's transcript has the two calls. -/
theorem run_requests_assisted :
    let outcome := Genai.run checkedText assisted (Run.start withFiles)
    ∃ blocks : List (Block Nat),
      blocks.map Block.cause = [.calls [reading 1], .calls [reading 2],
        .exchange (text "draft") (text "try again")] ∧
      (∀ newer retry chat options older,
        outcome.2.events = newer ++ .requested retry chat options :: older →
          CallsAnswered chat.messages ∧ ∃ earlier, earlier <+: blocks ∧
            earlier.map Block.cause = causesOf older ∧ chat = withFiles.extend earlier) ∧
      outcome.1 = .ok ⟨text "done", blocks.flatMap Block.turns⟩ ∧
      (blocks.flatMap Block.turns).map (fun turn ↦ (turn.tool, turn.args)) =
        [(text "read", 1), (text "read", 2)] ∧
      Asked withFiles blocks outcome.2.events := by
  intro outcome
  obtain ⟨answer, hanswer, hdone⟩ :
      ∃ answer, outcome.1 = .ok answer ∧ answer.answer = text "done" := by
    have hfound : outcome.1.toOption.map Answer.answer = some (text "done") := by decide +kernel
    obtain ⟨answer, hsome, hdone⟩ := Option.map_eq_some_iff.mp hfound
    refine ⟨answer, ?_, hdone⟩
    cases hresult : outcome.1 with
    | error error =>
      rw [hresult] at hsome
      cases hsome
    | ok other =>
      rw [hresult] at hsome
      rw [Option.some.inj hsome]
  have hcauses : causesOf outcome.2.events = [.calls [reading 1], .calls [reading 2],
      .exchange (text "draft") (text "try again")] := by decide +kernel
  have hcalls : (callsOf outcome.2.events).map identity = [(text "read", 1), (text "read", 2)] := by
    decide +kernel
  obtain ⟨blocks, -, hrequests, -, hanswered⟩ := run_requests checkedText assisted none
    [(.user, text "go")] [⟨text "read", text "Reads a file.", 0⟩] rfl
  obtain ⟨hblocks, htranscript, hidentities, hasked⟩ := hanswered answer hanswer
  refine ⟨blocks, hblocks.trans hcauses, hrequests, ?_, ?_, hasked⟩
  · rw [hanswer, ← htranscript, ← hdone]
  · rw [← htranscript]
    exact hidentities.trans hcalls

end OmniaBackends.Genai
