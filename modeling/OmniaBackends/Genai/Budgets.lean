import OmniaBackends.Foundation.Run
import OmniaBackends.Genai.Conversation

/-!
# The budgets of a conversation

What happened in a completion says how much of each budget it has spent: the rounds begun, the
candidates offered, whether the next candidate was nudged, and how often a call failed since it last
succeeded. A conversation counts just that (`Sound`), and acts only where the budgets left permit it
(`Permitted`). So a completion stays within its budgets, whatever the provider, the tools and the
check answer, and it ends in an accepted candidate or in a failure that the last event shows
(`run_within`).
-/

set_option autoImplicit false
set_option relaxedAutoImplicit false

namespace OmniaBackends.Genai

open Foundation

variable {Value : Type}

/-! ### What was spent -/

/-- A round begins with a request that is not a retry. -/
def Event.beginsRound : Event Value → Bool
  | .requested 0 _ _ => true
  | _ => false

def Event.offers : Event Value → Bool
  | .checked _ _ => true
  | _ => false

/-- The rounds begun. -/
def roundsOf (events : List (Event Value)) : Nat := events.countP Event.beginsRound

/-- The candidates offered to the check. -/
def candidatesOf (events : List (Event Value)) : Nat := events.countP Event.offers

/-- Whether a nudge came after the last candidate that was offered. -/
def nudgedOf : List (Event Value) → Bool
  | [] => false
  | event :: older =>
    match event with
    | .nudged _ _ => true
    | .checked _ _ => false
    | _ => nudgedOf older

/-- How often a call failed since it last succeeded. -/
def failuresOf [DecidableEq Value] (key : Bytes × Value) : List (Event Value) → Nat
  | [] => 0
  | event :: older =>
    match event with
    | .called call (.failed _) => failuresOf key older + if identity call = key then 1 else 0
    | .called call (.output _) => if identity call = key then 0 else failuresOf key older
    | _ => failuresOf key older

/-- The last reply, and what happened before it. -/
def lastReply : List (Event Value) → Option (ChatResponse Value × List (Event Value))
  | [] => none
  | event :: older =>
    match event with
    | .replied response => some (response, older)
    | _ => lastReply older

section Budgets

variable (prepared : Prepared Value)

/-- The last reply is one whose calls are run: it was not cut, and when its round was begun neither
was an answer due after a nudge nor was it the last. -/
def Running (response : ChatResponse Value) (events : List (Event Value)) : Prop :=
  ∃ before, lastReply events = some (response, before) ∧ isCut prepared response = false ∧
    nudgedOf before = false ∧ roundsOf before < prepared.budgets.maxRounds

/-- What may happen after what happened. -/
def Allowed (older : List (Event Value)) : Event Value → Prop
  | .requested 0 _ _ => roundsOf older < prepared.budgets.maxRounds
  | .requested (retry + 1) _ _ => retry < TRANSPORT_RETRIES
  | .replied _ => True
  | .called call _ => ∃ response, call ∈ response.toolCalls ∧ Running prepared response older
  | .nudged _ _ => nudgedOf older = false
  | .checked _ _ => candidatesOf older < prepared.budgets.maxCandidates

/-- What may happen after what happened, where no call has failed as often as it may. -/
def Permitted [DecidableEq Value] (older : List (Event Value)) (event : Event Value) : Prop :=
  Allowed prepared older event ∧ ∀ key, failuresOf key older < prepared.budgets.maxRepeats

/-- A completion within its budgets. -/
structure Within [DecidableEq Value] (events : List (Event Value)) : Prop where
  rounds : roundsOf events ≤ prepared.budgets.maxRounds
  candidates : candidatesOf events ≤ prepared.budgets.maxCandidates
  repeats : ∀ key, failuresOf key events ≤ prepared.budgets.maxRepeats
  lawful : Lawful (Permitted prepared) events

/-- What a failed completion ended with. -/
def Ended [DecidableEq Value] (events : List (Event Value)) : Error → Prop
  | .budgetExhausted detail =>
    (∃ call reason older, events = .called call (.failed reason) :: older ∧
      failuresOf (identity call) events = prepared.budgets.maxRepeats) ∨
    (∃ candidate older, events = .checked candidate (.rejected detail) :: older ∧
      (candidatesOf events = prepared.budgets.maxCandidates ∨
        roundsOf events = prepared.budgets.maxRounds)) ∨
    roundsOf events = prepared.budgets.maxRounds
  | .timeout seconds =>
    seconds = prepared.budgets.timeout ∧
      ((∃ retry chat options older, events = .requested retry chat options :: older) ∨
        ∃ call older, events = .called call .elapsed :: older)
  | .provider _ => ∃ retry chat options older, events = .requested retry chat options :: older
  | .host detail =>
    (∃ call older, events = .called call (.host detail) :: older) ∨
      ∃ candidate older, events = .checked candidate (.host detail) :: older
  | .empty _ =>
    ∃ response older, events = .replied response :: older ∧ response.toolCalls = [] ∧
      response.firstText = none

/-- What a failure leaves. -/
structure Failed [DecidableEq Value] (error : Error) (run : Run Value) : Prop where
  within_ : Within prepared run.events
  exhausted : ∀ key, failuresOf key run.events = prepared.budgets.maxRepeats →
    ∃ detail, error = .budgetExhausted detail
  ended : Ended prepared run.events error

/-- What an answer leaves. -/
structure Answered [DecidableEq Value] (answer : Answer Value) (run : Run Value) : Prop where
  within_ : Within prepared run.events
  settled : ∀ key, failuresOf key run.events < prepared.budgets.maxRepeats
  checked : prepared.check = true →
    ∃ older, run.events = .checked answer.answer .accepted :: older

/-- A conversation that counts what was spent, with the rounds counted that have yet to begin. -/
structure Sound [DecidableEq Value] (begun : Nat) (run : Run Value) : Prop where
  round : run.conversation.round = roundsOf run.events + begun
  within_ : run.conversation.round ≤ prepared.budgets.maxRounds
  candidates : run.conversation.candidates = candidatesOf run.events
  offers : candidatesOf run.events < prepared.budgets.maxCandidates
  nudged : run.conversation.nudged = nudgedOf run.events
  repeats : ∀ key, run.conversation.repeats key = failuresOf key run.events
  settled : ∀ key, failuresOf key run.events < prepared.budgets.maxRepeats
  lawful : Lawful (Permitted prepared) run.events

end Budgets

variable [DecidableEq Value] {prepared : Prepared Value} {environment : Environment Value}
variable {run : Run Value}

/-- A sound conversation is within its budgets. -/
theorem Sound.within {begun : Nat} (hsound : Sound prepared begun run) :
    Within prepared run.events := by
  have hround := hsound.round
  have hbound := hsound.within_
  exact ⟨by omega, hsound.offers.le, fun key ↦ (hsound.settled key).le, hsound.lawful⟩

/-- A conversation that ends where no call failed too often leaves what a failure may. -/
theorem Sound.failed {begun : Nat} {error : Error} (hsound : Sound prepared begun run)
    (hended : Ended prepared run.events error) : Failed prepared error run :=
  ⟨hsound.within, fun key hkey ↦ absurd hkey (hsound.settled key).ne, hended⟩

/-! ### Requests -/

/-- The request of a round that was counted. -/
theorem Sound.requested (hsound : Sound prepared 1 run) (chat : ChatRequest Value)
    (options : ChatOptions Value) :
    Sound prepared 0 ⟨run.conversation, .requested 0 chat options :: run.events⟩ := by
  have hround := hsound.round
  have hbound := hsound.within_
  refine { hsound with round := ?_, lawful := ⟨⟨?_, hsound.settled⟩, hsound.lawful⟩ }
  · simpa [roundsOf, Event.beginsRound] using hround
  · change roundsOf run.events < _
    omega

/-- A request that is put again. -/
theorem Sound.retried (hsound : Sound prepared 0 run) {retry : Nat}
    (hretry : retry < TRANSPORT_RETRIES) (chat : ChatRequest Value) (options : ChatOptions Value) :
    Sound prepared 0 ⟨run.conversation, .requested (retry + 1) chat options :: run.events⟩ :=
  { hsound with lawful := ⟨⟨hretry, hsound.settled⟩, hsound.lawful⟩ }

/-- The reply to a request. -/
theorem Sound.replied (hsound : Sound prepared 0 run) (response : ChatResponse Value) :
    Sound prepared 0 ⟨run.conversation, .replied response :: run.events⟩ :=
  { hsound with lawful := ⟨⟨trivial, hsound.settled⟩, hsound.lawful⟩ }

/-- The rounds that are counted and have yet to begin when a request is put. -/
def begunBy (retry : Nat) : Nat := if retry = 0 then 1 else 0

theorem meets_put (conversation : Conversation Value) {retry : Nat}
    (hretry : retry ≤ TRANSPORT_RETRIES) (chat : ChatRequest Value) (options : ChatOptions Value) :
    (put environment chat options retry).Meets
      (fun run ↦ run.conversation = conversation ∧ Sound prepared (begunBy retry) run)
      (fun _ run ↦ run.conversation = conversation ∧ Sound prepared 0 run ∧
        ∃ older, run.events = .requested retry chat options :: older)
      (Failed prepared) := by
  rintro run ⟨hconversation, hsound⟩
  have hasked : Sound prepared 0
      ⟨run.conversation, .requested retry chat options :: run.events⟩ := by
    cases retry with
    | zero => exact hsound.requested chat options
    | succ retry => exact hsound.retried hretry chat options
  exact ⟨fun attempt hattempt ↦ ⟨hconversation, hasked, run.events, rfl⟩,
    fun error herror ↦ (by cases herror)⟩

theorem meets_received (conversation : Conversation Value) (attempt : Attempt Value) :
    (received prepared attempt).Meets
      (fun run ↦ run.conversation = conversation ∧ Sound prepared 0 run ∧
        ∃ retry chat options older, run.events = .requested retry chat options :: older)
      (fun response run ↦ run.conversation = conversation ∧ Sound prepared 0 run ∧
        ∃ older, run.events = .replied response :: older)
      (Failed prepared) := by
  cases attempt with
  | response response =>
    rintro run ⟨hconversation, hsound, -⟩
    refine ⟨fun found hfound ↦ ?_, fun error herror ↦ (by cases herror)⟩
    rw [← Except.ok.inj hfound]
    exact ⟨hconversation, hsound.replied response, run.events, rfl⟩
  | failed transport detail =>
    exact Program.Meets.fail fun run ⟨_, hsound, hasked⟩ ↦ hsound.failed hasked
  | elapsed =>
    exact Program.Meets.fail fun run ⟨_, hsound, hasked⟩ ↦ hsound.failed ⟨rfl, .inl hasked⟩

/-- A request has a reply that leaves the conversation, or its failure is the completion's. -/
theorem meets_execChatFrom (conversation : Conversation Value) (chat : ChatRequest Value)
    (options : ChatOptions Value) {waits retry : Nat} (hwaits : waits + retry = TRANSPORT_RETRIES) :
    (execChatFrom prepared environment chat options waits retry).Meets
      (fun run ↦ run.conversation = conversation ∧ Sound prepared (begunBy retry) run)
      (fun response run ↦ run.conversation = conversation ∧ Sound prepared 0 run ∧
        ∃ older, run.events = .replied response :: older)
      (Failed prepared) := by
  induction waits generalizing retry with
  | zero =>
    refine (meets_put conversation (by omega) chat options).bind fun attempt ↦ ?_
    exact (meets_received conversation attempt).imp
      (fun run ⟨hconversation, hsound, older, hasked⟩ ↦
        ⟨hconversation, hsound, retry, chat, options, older, hasked⟩)
      (fun _ _ hafter ↦ hafter) fun _ _ hfailed ↦ hfailed
  | succ waits ih =>
    refine (meets_put conversation (by omega) chat options).bind fun attempt ↦ ?_
    split
    · rintro run ⟨hconversation, hsound, older, hasked⟩
      have hbegun : begunBy (retry + 1) = 0 := if_neg (Nat.succ_ne_zero retry)
      cases hsleep : environment.sleep run.events with
      | true =>
        rw [Program.bind_apply_of_ok (show sleep environment run = (.ok true, run) by
          rw [sleep, hsleep])]
        exact ih (by omega) run ⟨hconversation, hbegun.symm ▸ hsound⟩
      | false =>
        rw [Program.bind_apply_of_ok (show sleep environment run = (.ok false, run) by
          rw [sleep, hsleep])]
        refine ⟨fun found hfound ↦ (by cases hfound), fun error herror ↦ ?_⟩
        rw [← Except.error.inj herror]
        exact hsound.failed ⟨rfl, .inl ⟨retry, chat, options, older, hasked⟩⟩
    · exact (meets_received conversation _).imp
        (fun run ⟨hconversation, hsound, older, hasked⟩ ↦
          ⟨hconversation, hsound, retry, chat, options, older, hasked⟩)
        (fun _ _ hafter ↦ hafter) fun _ _ hfailed ↦ hfailed

theorem meets_execChat (conversation : Conversation Value) (chat : ChatRequest Value)
    (options : ChatOptions Value) :
    (execChat prepared environment chat options).Meets
      (fun run ↦ run.conversation = conversation ∧ Sound prepared 1 run)
      (fun response run ↦ run.conversation = conversation ∧ Sound prepared 0 run ∧
        ∃ older, run.events = .replied response :: older)
      (Failed prepared) :=
  meets_execChatFrom conversation chat options (Nat.add_zero TRANSPORT_RETRIES)

/-! ### Tool calls -/

/-- A tool that neither failed nor succeeded leaves what was counted. -/
theorem Sound.called (hsound : Sound prepared 0 run) {call : ToolCall Value} {answer : ToolAnswer}
    (hcall : Allowed prepared run.events (.called call answer))
    (hfailures : ∀ key, failuresOf key (.called call answer :: run.events) =
      failuresOf key run.events) :
    Sound prepared 0 ⟨run.conversation, .called call answer :: run.events⟩ :=
  { hsound with
    repeats := fun key ↦ (hsound.repeats key).trans (hfailures key).symm
    settled := fun key ↦ (hfailures key).symm ▸ hsound.settled key
    lawful := ⟨⟨hcall, hsound.settled⟩, hsound.lawful⟩ }

/-- A tool that succeeded has its failures forgotten. -/
theorem Sound.succeeded (hsound : Sound prepared 0 run) {call : ToolCall Value} {output : Bytes}
    (hcall : Allowed prepared run.events (.called call (.output output))) :
    Sound prepared 0
      ⟨{ run.conversation with
          repeats := Function.update run.conversation.repeats (identity call) 0 },
        .called call (.output output) :: run.events⟩ := by
  refine { hsound with
    repeats := fun key ↦ ?_
    settled := fun key ↦ ?_
    lawful := ⟨⟨hcall, hsound.settled⟩, hsound.lawful⟩ }
  · by_cases hkey : identity call = key
    · subst hkey
      simp [failuresOf]
    · simpa [failuresOf, hkey, Function.update_of_ne (Ne.symm hkey)] using hsound.repeats key
  · have hpositive := (Nat.zero_le _).trans_lt (hsound.settled key)
    by_cases hkey : identity call = key
    · simpa [failuresOf, hkey] using hpositive
    · simpa [failuresOf, hkey] using hsound.settled key

/-- A tool that failed, though not as often as it may, is counted. -/
theorem Sound.failedAgain (hsound : Sound prepared 0 run) {call : ToolCall Value} {reason : Bytes}
    (hcall : Allowed prepared run.events (.called call (.failed reason)))
    (hfewer : run.conversation.repeats (identity call) + 1 < prepared.budgets.maxRepeats) :
    Sound prepared 0
      ⟨{ run.conversation with
          repeats := Function.update run.conversation.repeats (identity call)
            (run.conversation.repeats (identity call) + 1) },
        .called call (.failed reason) :: run.events⟩ := by
  refine { hsound with
    repeats := fun key ↦ ?_
    settled := fun key ↦ ?_
    lawful := ⟨⟨hcall, hsound.settled⟩, hsound.lawful⟩ }
  · by_cases hkey : identity call = key
    · subst hkey
      simp [failuresOf, hsound.repeats]
    · simpa [failuresOf, hkey, Function.update_of_ne (Ne.symm hkey)] using hsound.repeats key
  · by_cases hkey : identity call = key
    · subst hkey
      simpa [failuresOf, hsound.repeats] using hfewer
    · simpa [failuresOf, hkey] using hsound.settled key

/-- A tool that failed as often as it may ends the completion. -/
theorem Sound.failedLast (hsound : Sound prepared 0 run) {call : ToolCall Value}
    {reason detail : Bytes} (hcall : Allowed prepared run.events (.called call (.failed reason)))
    (hlast : prepared.budgets.maxRepeats ≤ run.conversation.repeats (identity call) + 1)
    (conversation : Conversation Value) :
    Failed prepared (.budgetExhausted detail)
      ⟨conversation, .called call (.failed reason) :: run.events⟩ := by
  have hsettled := hsound.settled (identity call)
  rw [hsound.repeats] at hlast
  have hwithin := hsound.within
  refine ⟨⟨hwithin.rounds, hwithin.candidates, fun key ↦ ?_, ⟨hcall, hsound.settled⟩,
    hwithin.lawful⟩, fun _ _ ↦ ⟨detail, rfl⟩, .inl ⟨call, reason, run.events, rfl, ?_⟩⟩
  · have hkey := hsound.settled key
    change failuresOf key run.events + (if identity call = key then 1 else 0) ≤ _
    split_ifs
    · omega
    · omega
  · change failuresOf (identity call) run.events +
      (if identity call = identity call then 1 else 0) =
      prepared.budgets.maxRepeats
    rw [if_pos rfl]
    omega

/-- A state after a tool was run, before its answer is told. -/
def JustCalled (prepared : Prepared Value) (response : ChatResponse Value) (call : ToolCall Value)
    (answer : ToolAnswer) (run : Run Value) : Prop :=
  ∃ older, run.events = .called call answer :: older ∧
    Sound prepared 0 ⟨run.conversation, older⟩ ∧ Running prepared response older

/-- What a call came to is counted, and is the completion's failure where it may not go on. -/
theorem meets_resultOf {response : ChatResponse Value} {call : ToolCall Value}
    (hcall : call ∈ response.toolCalls) (answer : ToolAnswer) :
    (resultOf prepared call answer).Meets (JustCalled prepared response call answer)
      (fun _ run ↦ Sound prepared 0 run ∧ Running prepared response run.events)
      (Failed prepared) := by
  rintro ⟨conversation, events⟩ ⟨older, rfl, hsound, hrunning⟩
  have hallowed : Allowed prepared older (.called call answer) := ⟨response, hcall, hrunning⟩
  cases answer with
  | output output =>
    exact ⟨fun _ _ ↦ ⟨hsound.succeeded hallowed, hrunning⟩, fun error herror ↦ (by cases herror)⟩
  | failed reason =>
    dsimp only [resultOf]
    unfold failed
    rw [Program.bind_apply_of_ok (self_apply _), Program.bind_apply_of_ok (update_apply _ _)]
    split_ifs with hlast
    · refine ⟨fun found hfound ↦ (by cases hfound), fun error herror ↦ ?_⟩
      rw [← Except.error.inj herror]
      exact hsound.failedLast hallowed hlast _
    · exact ⟨fun _ _ ↦ ⟨hsound.failedAgain hallowed (not_le.mp hlast), hrunning⟩,
        fun error herror ↦ (by cases herror)⟩
    · exact ⟨fun _ _ ↦ ⟨hsound.failedAgain hallowed (not_le.mp hlast), hrunning⟩,
        fun error herror ↦ (by cases herror)⟩
  | host detail =>
    refine ⟨fun found hfound ↦ (by cases hfound), fun error herror ↦ ?_⟩
    rw [← Except.error.inj herror]
    exact (hsound.called hallowed fun _ ↦ rfl).failed (.inl ⟨call, older, rfl⟩)
  | elapsed =>
    refine ⟨fun found hfound ↦ (by cases hfound), fun error herror ↦ ?_⟩
    rw [← Except.error.inj herror]
    exact (hsound.called hallowed fun _ ↦ rfl).failed ⟨rfl, .inr ⟨call, older, rfl⟩⟩

omit [DecidableEq Value] in
/-- A change of the conversation. -/
theorem meets_update {change : Conversation Value → Conversation Value}
    {before after : Run Value → Prop} {failed_ : Error → Run Value → Prop}
    (hchange : ∀ run, before run → after ⟨change run.conversation, run.events⟩) :
    (update change).Meets before (fun _ ↦ after) failed_ :=
  fun run hbefore ↦ ⟨fun _ _ ↦ hchange run hbefore, fun error herror ↦ (by cases herror)⟩

theorem meets_takeChat :
    (takeChat : Step Value _).Meets (Sound prepared 0) (fun _ ↦ Sound prepared 0)
      (Failed prepared) :=
  fun _ hsound ↦ ⟨fun _ _ ↦ { hsound with }, fun error herror ↦ (by cases herror)⟩

theorem meets_setChat (chat : ChatRequest Value) :
    (setChat chat).Meets (Sound prepared 0) (fun _ ↦ Sound prepared 0) (Failed prepared) :=
  meets_update fun _ hsound ↦ { hsound with }

/-- Calls of a reply that are run leave a sound conversation. -/
theorem meets_runCalls {response : ChatResponse Value} {calls : List (ToolCall Value)}
    (hcalls : ∀ call ∈ calls, call ∈ response.toolCalls) (chat : ChatRequest Value) :
    (runCalls prepared environment calls chat).Meets
      (fun run ↦ Sound prepared 0 run ∧ Running prepared response run.events)
      (fun _ run ↦ Sound prepared 0 run ∧ Running prepared response run.events)
      (Failed prepared) := by
  induction calls generalizing chat with
  | nil => exact Program.Meets.pure fun _ hsound ↦ hsound
  | cons call calls ih =>
    have hhappen : (happen (environment.call · call) (Event.called call)).Meets
        (fun run ↦ Sound prepared 0 run ∧ Running prepared response run.events)
        (fun answer ↦ JustCalled prepared response call answer) (Failed prepared) := by
      rintro run ⟨hsound, hrunning⟩
      refine ⟨fun answer hanswer ↦ ?_, fun error herror ↦ (by cases herror)⟩
      rw [← Except.ok.inj hanswer]
      exact ⟨run.events, rfl, hsound, hrunning⟩
    refine hhappen.bind fun answer ↦ ?_
    refine (meets_resultOf (hcalls call List.mem_cons_self) answer).bind fun result ↦ ?_
    have hpush : (pushTurn call result).Meets
        (fun run ↦ Sound prepared 0 run ∧ Running prepared response run.events)
        (fun _ run ↦ Sound prepared 0 run ∧ Running prepared response run.events)
        (Failed prepared) :=
      meets_update fun _ ⟨hsound, hrunning⟩ ↦ ⟨{ hsound with }, hrunning⟩
    exact hpush.bind fun _ ↦ ih (fun other hother ↦ hcalls other (List.mem_cons_of_mem _ hother)) _

theorem meets_refuseCalls (refusal : Bytes) (calls : List (ToolCall Value))
    (chat : ChatRequest Value) :
    (refuseCalls refusal calls chat).Meets (Sound prepared 0) (fun _ ↦ Sound prepared 0)
      (Failed prepared) := by
  induction calls generalizing chat with
  | nil => exact Program.Meets.pure fun _ hsound ↦ hsound
  | cons call calls ih =>
    have hpush : (pushTurn call refusal).Meets (Sound prepared 0) (fun _ ↦ Sound prepared 0)
        (Failed prepared) :=
      meets_update fun _ hsound ↦ { hsound with }
    exact hpush.bind fun _ ↦ ih _

theorem meets_refuse (calls : List (ToolCall Value)) (refusal : Bytes) :
    (refuse calls refusal).Meets (Sound prepared 0) (fun _ ↦ Sound prepared 0) (Failed prepared) :=
  meets_takeChat.bind fun _ ↦ (meets_refuseCalls _ _ _).bind meets_setChat

theorem meets_toolRound {response : ChatResponse Value} :
    (toolRound prepared environment response.toolCalls).Meets
      (fun run ↦ Sound prepared 0 run ∧ Running prepared response run.events)
      (fun _ ↦ Sound prepared 0) (Failed prepared) := by
  have htake : (takeChat : Step Value _).Meets
      (fun run ↦ Sound prepared 0 run ∧ Running prepared response run.events)
      (fun _ run ↦ Sound prepared 0 run ∧ Running prepared response run.events)
      (Failed prepared) :=
    fun _ ⟨hsound, hrunning⟩ ↦
      ⟨fun _ _ ↦ ⟨{ hsound with }, hrunning⟩, fun error herror ↦ (by cases herror)⟩
  refine htake.bind fun _ ↦ (meets_runCalls (fun _ hcall ↦ hcall) _).bind fun chat ↦ ?_
  exact (meets_setChat chat).imp (fun _ hsound ↦ hsound.1) (fun _ _ hsound ↦ hsound)
    fun _ _ hfailed ↦ hfailed

/-! ### Rounds -/

/-- The calls of a reply are run only where no answer was due and the reply was not cut. -/
theorem meets_dispatch {conversation : Conversation Value} {response : ChatResponse Value} :
    (dispatch prepared environment (closing prepared conversation) (isCut prepared response)
      response.toolCalls).Meets
      (fun run ↦ run.conversation = conversation ∧ Sound prepared 0 run ∧
        ∃ older, run.events = .replied response :: older)
      (fun _ ↦ Sound prepared 0) (Failed prepared) := by
  unfold dispatch
  split_ifs with hclosing hcut
  · exact (meets_refuse _ _).imp (fun _ hbefore ↦ hbefore.2.1) (fun _ _ hafter ↦ hafter)
      fun _ _ hfailed ↦ hfailed
  · exact (meets_refuse _ _).imp (fun _ hbefore ↦ hbefore.2.1) (fun _ _ hafter ↦ hafter)
      fun _ _ hfailed ↦ hfailed
  · refine meets_toolRound.imp (fun run hbefore ↦ ?_) (fun _ _ hafter ↦ hafter)
      fun _ _ hfailed ↦ hfailed
    obtain ⟨hconversation, hsound, older, hreplied⟩ := hbefore
    obtain ⟨hnudged, hround⟩ : conversation.nudged = false ∧
        conversation.round ≠ prepared.budgets.maxRounds := by
      simpa [closing] using hclosing
    have hrounds := hsound.round
    have hbound := hsound.within_
    have hspent := hsound.nudged
    rw [hreplied, hconversation] at hspent hrounds
    rw [hconversation] at hbound
    change conversation.round = roundsOf older at hrounds
    exact ⟨hsound, older, by rw [hreplied]; rfl, by simpa using hcut,
      hspent.symm.trans hnudged, by omega⟩

/-- A round that was counted leaves a sound conversation. -/
theorem meets_ask (conversation : Conversation Value) :
    (ask prepared environment conversation).Meets
      (fun run ↦ run.conversation = conversation ∧ Sound prepared 1 run)
      (fun _ ↦ Sound prepared 0) (Failed prepared) := by
  refine (meets_execChat conversation _ _).bind fun response ↦ ?_
  split_ifs with hcalls
  · exact meets_dispatch.bind fun _ ↦ Program.Meets.pure fun _ hafter ↦ hafter
  · cases htext : response.firstText with
    | some content => exact Program.Meets.pure fun _ hbefore ↦ hbefore.2.1
    | none =>
      exact Program.Meets.fail fun run ⟨_, hreplied, older, hevents⟩ ↦
        hreplied.failed ⟨response, older, hevents, not_not.mp hcalls, htext⟩

theorem meets_providerRound :
    (providerRound prepared environment).Meets
      (fun run ↦ run.conversation.round < prepared.budgets.maxRounds ∧ Sound prepared 0 run)
      (fun _ ↦ Sound prepared 0) (Failed prepared) := by
  have hbegin : (update fun conversation : Conversation Value ↦
      { conversation with round := conversation.round + 1 }).Meets
      (fun run ↦ run.conversation.round < prepared.budgets.maxRounds ∧ Sound prepared 0 run)
      (fun _ ↦ Sound prepared 1) (Failed prepared) :=
    meets_update fun run ⟨hleft, hsound⟩ ↦
      { hsound with round := congrArg (· + 1) hsound.round, within_ := hleft }
  have hself : (self : Step Value _).Meets (Sound prepared 1)
      (fun conversation run ↦ run.conversation = conversation ∧ Sound prepared 1 run)
      (Failed prepared) := by
    intro run hsound
    refine ⟨fun conversation hread ↦ ?_, fun error herror ↦ (by cases herror)⟩
    rw [← Except.ok.inj hread]
    exact ⟨rfl, hsound⟩
  exact hbegin.bind fun _ ↦ hself.bind meets_ask

/-- A reply without calls leaves a sound conversation, and where there is none no round is left. -/
theorem meets_nextReply :
    (nextReply prepared environment).Meets (Sound prepared 0)
      (fun content run ↦ content.elim
        (¬ run.conversation.round < prepared.budgets.maxRounds ∧ Sound prepared 0 run)
        fun _ ↦ Sound prepared 0 run)
      (Failed prepared) := by
  refine nextReply_meets (meets_providerRound.imp (fun _ hbefore ↦ hbefore) ?_
    fun _ _ hfailed ↦ hfailed)
  rintro (_ | content) run hsound
  · exact hsound
  · exact hsound

/-! ### Candidates -/

theorem meets_appendExchange (candidate prompt : Bytes) :
    (appendExchange candidate prompt).Meets (Sound prepared 0) (fun _ ↦ Sound prepared 0)
      (Failed prepared) :=
  meets_takeChat.bind fun _ ↦ meets_setChat _

theorem meets_nudge (candidate prompt : Bytes) :
    (nudge candidate prompt).Meets
      (fun run ↦ Sound prepared 0 run ∧ run.conversation.nudged = false)
      (fun _ ↦ Sound prepared 0) (Failed prepared) := by
  rintro run ⟨hsound, hnudged⟩
  unfold nudge
  rw [Program.bind_apply_of_ok (update_apply _ _), Program.bind_apply_of_ok (happen_apply _ _ _)]
  refine meets_appendExchange candidate prompt _ { hsound with
    nudged := rfl
    lawful := ⟨⟨hsound.nudged.symm.trans hnudged, hsound.settled⟩, hsound.lawful⟩ }

/-- A part after which the conversation goes on. -/
theorem meets_goOn {part : Step Value Unit} {before : Run Value → Prop}
    (hpart : part.Meets before (fun _ ↦ Sound prepared 0) (Failed prepared)) :
    (do part; pure none : Step Value (Option (Answer Value))).Meets before
      (fun found run ↦ found.elim (Sound prepared 0 run) (Answered prepared · run))
      (Failed prepared) :=
  hpart.bind fun _ ↦ Program.Meets.pure fun _ hafter ↦ hafter

/-- A candidate that is offered spends one. -/
theorem Sound.offered {conversation : Conversation Value} {older : List (Event Value)}
    (hsound : Sound prepared 0 ⟨conversation, older⟩) (candidate : Bytes) (verdict : Verdict) :
    candidatesOf (.checked candidate verdict :: older) = conversation.candidates + 1 ∧
      Within prepared (.checked candidate verdict :: older) := by
  have hwithin := hsound.within
  have hoffers : candidatesOf older < prepared.budgets.maxCandidates := hsound.offers
  have hone : candidatesOf (.checked candidate verdict :: older) = candidatesOf older + 1 :=
    List.countP_cons_of_pos rfl
  refine ⟨hone.trans (congrArg (· + 1) hsound.candidates.symm), hwithin.rounds, by omega,
    hwithin.repeats, ⟨hsound.offers, hsound.settled⟩, hsound.lawful⟩

/-- A state after a candidate was offered, before its verdict is told. -/
def JustOffered (prepared : Prepared Value) (conversation : Conversation Value) (candidate : Bytes)
    (verdict : Verdict) (run : Run Value) : Prop :=
  ∃ older, run = ⟨{ conversation with candidates := conversation.candidates + 1 },
    .checked candidate verdict :: older⟩ ∧ Sound prepared 0 ⟨conversation, older⟩

/-- A candidate that was offered is the answer, is corrected, or ends the completion. -/
theorem meets_judged (conversation : Conversation Value) (candidate : Bytes) (verdict : Verdict) :
    (judged prepared candidate { conversation with candidates := conversation.candidates + 1 }
      verdict).Meets (JustOffered prepared conversation candidate verdict)
      (fun found run ↦ found.elim (Sound prepared 0 run) (Answered prepared · run))
      (Failed prepared) := by
  rintro run ⟨older, rfl, hsound⟩
  obtain ⟨hcandidates, hwithin⟩ := hsound.offered candidate verdict
  cases verdict with
  | host detail =>
    refine ⟨fun found hfound ↦ (by cases hfound), fun error herror ↦ ?_⟩
    rw [← Except.error.inj herror]
    exact ⟨hwithin, fun key hkey ↦ absurd hkey (hsound.settled key).ne,
      .inr ⟨candidate, older, rfl⟩⟩
  | accepted =>
    refine ⟨fun found hfound ↦ ?_, fun error herror ↦ (by cases herror)⟩
    rw [← Except.ok.inj hfound]
    exact ⟨hwithin, hsound.settled, fun _ ↦ ⟨older, rfl⟩⟩
  | rejected correction =>
    dsimp only [judged]
    have hround : conversation.round = roundsOf older := hsound.round
    have hbound := hwithin.candidates
    split_ifs with hlast
    · refine ⟨fun found hfound ↦ (by cases hfound), fun error herror ↦ ?_⟩
      rw [← Except.error.inj herror]
      refine ⟨hwithin, fun key hkey ↦ absurd hkey (hsound.settled key).ne,
        .inr (.inl ⟨candidate, older, rfl, ?_⟩)⟩
      exact hlast.imp (fun hspent ↦ hbound.antisymm (hcandidates ▸ hspent)) hround.symm.trans
    · rw [Program.bind_apply_of_ok (update_apply _ _)]
      have hcorrected : Sound prepared 0
          ⟨{ conversation with candidates := conversation.candidates + 1, nudged := false },
            .checked candidate (.rejected correction) :: older⟩ :=
        { hsound with
          candidates := hcandidates.symm
          offers := hcandidates.trans_lt (not_le.mp (not_or.mp hlast).1)
          nudged := rfl
          lawful := hwithin.lawful }
      exact meets_goOn (meets_appendExchange candidate correction) _ hcorrected

theorem meets_offer (candidate : Bytes) :
    (offer prepared environment candidate).Meets (Sound prepared 0)
      (fun found run ↦ found.elim (Sound prepared 0 run) (Answered prepared · run))
      (Failed prepared) := by
  intro run hsound
  unfold offer
  rw [Program.bind_apply_of_ok (update_apply _ _), Program.bind_apply_of_ok (self_apply _),
    Program.bind_apply_of_ok (happen_apply _ _ _)]
  exact meets_judged run.conversation candidate _ _ ⟨run.events, rfl, hsound⟩

/-- A candidate is nudged once before it is offered. -/
theorem meets_settle (content : Bytes) :
    (settle prepared environment content).Meets (Sound prepared 0)
      (fun found run ↦ found.elim (Sound prepared 0 run) (Answered prepared · run))
      (Failed prepared) := by
  intro run hsound
  unfold settle
  dsimp only
  split_ifs with hcheck
  · rw [Program.bind_apply_of_ok (self_apply _)]
    cases hnudged : run.conversation.nudged with
    | true => exact meets_offer _ run hsound
    | false =>
      cases offShape prepared (prepared.candidate content) with
      | none => exact meets_offer _ run hsound
      | some prompt => exact meets_goOn (meets_nudge _ prompt) run ⟨hsound, hnudged⟩
  · refine ⟨fun found hfound ↦ ?_, fun error herror ↦ (by cases herror)⟩
    rw [← Except.ok.inj hfound]
    exact ⟨hsound.within, hsound.settled, fun hchecked ↦ absurd hchecked hcheck⟩

/-- A completion answers or fails within its budgets. -/
theorem meets_run :
    (Genai.run prepared environment).Meets (Sound prepared 0) (Answered prepared)
      (Failed prepared) := by
  refine Program.Meets.loop (meets_nextReply.bind fun found ↦ ?_)
  cases found with
  | none =>
    refine Program.Meets.fail fun run ⟨hnone, hsound⟩ ↦ ?_
    have hround := hsound.round
    have hbound := hsound.within_
    exact hsound.failed (.inr (.inr (by omega)))
  | some content => exact meets_settle content

/-- A completion acts only where its budgets permit it and stays within them; an answer to a request
with a check is the candidate that the check accepted last, and every failure is one that the last
event shows. -/
theorem run_within (prepared : Prepared Value) (environment : Environment Value)
    (chat : ChatRequest Value) (hcandidates : 1 ≤ prepared.budgets.maxCandidates)
    (hrepeats : 1 ≤ prepared.budgets.maxRepeats) {result : Except Error (Answer Value)}
    {final : Run Value} (hrun : Genai.run prepared environment (Run.start chat) = (result, final)) :
    roundsOf final.events ≤ prepared.budgets.maxRounds ∧
      candidatesOf final.events ≤ prepared.budgets.maxCandidates ∧
      (∀ newer event older, final.events = newer ++ event :: older →
        Permitted prepared older event) ∧
      (∀ key, failuresOf key final.events ≤ prepared.budgets.maxRepeats ∧
        (failuresOf key final.events = prepared.budgets.maxRepeats →
          ∃ detail, result = .error (.budgetExhausted detail))) ∧
      (∀ answer, result = .ok answer → prepared.check = true →
        ∃ older, final.events = .checked answer.answer .accepted :: older) ∧
      ∀ error, result = .error error → Ended prepared final.events error := by
  have hstart : Sound prepared 0 (Run.start chat) :=
    ⟨rfl, Nat.zero_le _, rfl, hcandidates, rfl, fun _ ↦ rfl, fun _ ↦ hrepeats, trivial⟩
  have hmeets : (Genai.run prepared environment).Meets (Sound prepared 0) (Answered prepared)
      (Failed prepared) := meets_run
  obtain ⟨hok, herror⟩ := hmeets (Run.start chat) hstart
  rw [hrun] at hok herror
  cases result with
  | ok found =>
    obtain ⟨hwithin, hsettled, hchecked⟩ := hok found rfl
    refine ⟨hwithin.rounds, hwithin.candidates, fun newer event older hevents ↦ ?_,
      fun key ↦ ⟨hwithin.repeats key, fun hkey ↦ absurd hkey (hsettled key).ne⟩,
      fun answer hanswer ↦ ?_, fun error herror ↦ (by cases herror)⟩
    · have hlawful := hwithin.lawful
      rw [hevents] at hlawful
      exact hlawful.allowed_of_append
    · rw [← Except.ok.inj hanswer]
      exact hchecked
  | error failure =>
    obtain ⟨hwithin, hexhausted, hended⟩ := herror failure rfl
    refine ⟨hwithin.rounds, hwithin.candidates, fun newer event older hevents ↦ ?_,
      fun key ↦ ⟨hwithin.repeats key, fun hkey ↦ ?_⟩,
      fun answer hanswer ↦ (by cases hanswer), fun error herror ↦ ?_⟩
    · have hlawful := hwithin.lawful
      rw [hevents] at hlawful
      exact hlawful.allowed_of_append
    · obtain ⟨detail, hdetail⟩ := hexhausted key hkey
      exact ⟨detail, congrArg Except.error hdetail⟩
    · rw [← Except.error.inj herror]
      exact hended

/-- A provider whose texts are not accepted stays within the candidates, and one that repeats a call
which fails ends with the fifth failure. -/
theorem run_within_insistent_stubborn :
    let insisted := Genai.run checkedText insistent (Run.start withFiles)
    let repeated := Genai.run checkedText stubborn (Run.start withFiles)
    candidatesOf insisted.2.events ≤ 2 ∧ (∀ error, insisted.1 = .error error →
      Ended checkedText insisted.2.events error) ∧
      failuresOf (identity (reading 1)) repeated.2.events = 5 ∧
        (∃ detail, repeated.1 = .error (.budgetExhausted detail)) ∧
        (∀ error, repeated.1 = .error error → Ended checkedText repeated.2.events error) ∧
        roundsOf repeated.2.events ≤ 128 := by
  intro insisted repeated
  obtain ⟨-, hcandidates, -, -, -, hended⟩ :=
    run_within checkedText insistent withFiles (by decide) (by decide) rfl
  obtain ⟨hrounds, -, -, hrepeats, -, hended'⟩ :=
    run_within checkedText stubborn withFiles (by decide) (by decide) rfl
  have hfailures : failuresOf (identity (reading 1)) repeated.2.events = 5 := by decide +kernel
  exact ⟨hcandidates, hended, hfailures, (hrepeats _).2 hfailures, hended', hrounds⟩

end OmniaBackends.Genai
