import OmniaBackends.Foundation.Decimal
import OmniaBackends.Foundation.Json

/-!
# What a run's stream says

`EventLog` of `crates/cursor/src/model/stream.rs`, frame by frame: the run's id, its status, the
transcript of its tools, and the `Phase` that a silent stream is in. The calls that have started and
not ended are a map from their ids, in whatever order the map is gone through.

`awaiting` says from the messages alone which calls are pending. One phase stands for all of them:
that of the call started last, while it is pending, and of whichever the map comes to first once it
is not. So the window, which a shell command is to hold off, may be bounded beside one
(`stands_iff`).
-/

set_option autoImplicit false
set_option relaxedAutoImplicit false

namespace OmniaBackends.Cursor.Stream

open Foundation

/-! ### Messages -/

/-- `SdkMessage`. -/
structure SdkMessage where
  kind : Bytes
  message : Json

/-- `RunStreamMessage`, as the log reads it: an event, and the run id of a result. -/
structure RunStreamMessage where
  sdkMessage : Option SdkMessage
  runId : Option Bytes

/-- `first_match`. -/
def firstMatch (payload : Json) (keys : List Bytes) : Option Bytes :=
  keys.findSome? fun key ↦ (payload.get key).bind Json.asStr

/-- `lenient_i64`. -/
def lenientI64 : Json → Option ℤ
  | .number integer => integer
  | .string content =>
    (parseSigned content).filter fun number ↦ decide (-2 ^ 63 ≤ number ∧ number < 2 ^ 63)
  | _ => none

/-- `thinking_duration`, in milliseconds. -/
def thinkingDuration (payload : Json) : Option ℕ :=
  ([text "thinking_duration_ms", text "thinkingDurationMs"].findSome? fun key ↦
    (payload.get key).bind lenientI64).bind fun duration ↦
      if 0 ≤ duration then some duration.toNat else none

/-! ### Calls and phases -/

/-- `PendingCall`. -/
structure PendingCall where
  tool : Bytes
  args : Json
  /-- The bridge's own shell. -/
  shell : Bool

/-- `Phase`. -/
inductive Phase where
  | opening
  | tool (name : Bytes)
  | shell
  | model
  deriving DecidableEq, Repr

/-- `Phase::bounded`. -/
def Phase.bounded : Phase → Bool
  | .opening | .tool _ => true
  | .shell | .model => false

namespace PendingCall

/-- `PendingCall::SHELL`. -/
def SHELL : Bytes := text "shell"

/-- `str::strip_suffix`. -/
def stripSuffix (content suffix : Bytes) : Option Bytes :=
  if suffix.isSuffixOf content then some (content.take (content.length - suffix.length)) else none

/-- `PendingCall::nested`. -/
def nested (toolCall : Json) : Option PendingCall :=
  toolCall.asObject.bind fun members ↦ members.findSome? fun member ↦
    (stripSuffix member.1 (text "ToolCall")).map fun tool ↦
      { tool
        args := (member.2.get (text "args")).getD member.2
        shell := tool = SHELL }

/-- `PendingCall::flat`. -/
def flat (payload : Json) : Option PendingCall :=
  ((payload.get (text "name")).bind Json.asStr).map fun name ↦
    let args := (payload.get (text "args")).getD .null
    match (args.get (text "toolName")).bind Json.asStr with
    | some tool => { tool, args := (args.get (text "args")).getD .null, shell := false }
    | none => { tool := name, args, shell := name = SHELL }

/-- `PendingCall::phase`. -/
def phase (call : PendingCall) : Phase :=
  if call.shell then .shell else .tool call.tool

end PendingCall

/-! ### The log -/

/-- `ToolTurn`. -/
structure ToolTurn where
  tool : Bytes
  args : Json
  result : Json

/-- `EventLog`. -/
structure EventLog where
  runId : Option Bytes
  statusMessage : Option Bytes
  frames : ℕ
  started : ℕ
  pendingTools : List (Bytes × PendingCall)
  lastPending : Option Bytes
  /-- In nanoseconds. -/
  thinking : ℕ
  turns : List ToolTurn

namespace EventLog

/-- `EventLog::new`. -/
def new : EventLog where
  runId := none
  statusMessage := none
  frames := 0
  started := 0
  pendingTools := []
  lastPending := none
  thinking := 0
  turns := []

/-- `Duration::MAX`, in nanoseconds. -/
def longest : ℕ := 2 ^ 64 * 10 ^ 9 - 1

/-- `EventLog::resumed`. -/
def resumed (log : EventLog) : EventLog :=
  if log.pendingTools.isEmpty then log else { log with pendingTools := [], lastPending := none }

/-- Where a tool call frame has its call. -/
def nestedOf (payload : Json) : Option Json :=
  (payload.get (text "tool_call")).or (payload.get (text "toolCall"))

/-- The call of a frame. -/
def callOf (payload : Json) : Option PendingCall :=
  ((nestedOf payload).bind PendingCall.nested).or (PendingCall.flat payload)

/-- The id of the call of a frame. -/
def callIdOf (payload : Json) : Option Bytes :=
  firstMatch payload [text "call_id", text "callId", text "tool_call_id", text "toolCallId"]

/-- The result that a terminal frame has. -/
def resultOf (payload : Json) : Option Json :=
  (((nestedOf payload).bind Json.asObject).bind fun members ↦
    members.findSome? fun member ↦ member.2.get (text "result")).or (payload.get (text "result"))

/-- A call whose terminal frame names none. -/
def unknownCall : PendingCall where
  tool := text "unknown"
  args := .null
  shell := false

/-- Whether a frame starts a call (`true`) or ends one. -/
def starts (payload : Json) : Option Bool :=
  match firstMatch payload [text "subtype", text "status"] with
  | none => none
  | some phase =>
    if phase = text "started" ∨ phase = text "running" then some true
    else if phase = text "completed" ∨ phase = text "error" then some false
    else none

/-- `EventLog::tool_call`. -/
def toolCall (log : EventLog) (payload : Json) : EventLog :=
  match starts payload with
  | some true =>
    match callIdOf payload, callOf payload with
    | some callId, some pending =>
      { log with
        started := log.started + 1
        pendingTools := (log.pendingTools.filter fun entry ↦ entry.1 ≠ callId) ++
          [(callId, pending)]
        lastPending := some callId }
    | _, _ => log
  | some false =>
    match callIdOf payload with
    | none => log
    | some callId =>
      let known := List.lookup callId log.pendingTools
      let ended := { log with pendingTools := log.pendingTools.filter fun entry ↦ entry.1 ≠ callId }
      match resultOf payload with
      | none => ended
      | some result =>
        let pending := (known.or (callOf payload)).getD unknownCall
        { ended with turns := log.turns ++ [⟨pending.tool, pending.args, result⟩] }
  | none => log

/-- `EventLog::observe`. -/
def observe (log : EventLog) (event : SdkMessage) : EventLog :=
  let log := { log with
    runId := log.runId.or (firstMatch event.message [text "run_id", text "runId"]) }
  if event.kind = text "tool_call" then log.toolCall event.message
  else if event.kind = text "system" ∨ event.kind = text "status" then
    match (event.message.get (text "message")).bind Json.asStr with
    | some message => { log with statusMessage := some message }
    | none => log
  else if event.kind = text "thinking" then
    let log := log.resumed
    match thinkingDuration event.message with
    | some duration => { log with thinking := min (log.thinking + duration * 10 ^ 6) longest }
    | none => log
  else if event.kind = text "assistant" then log.resumed
  else log

/-- `EventLog::observe_message`. -/
def observeMessage (log : EventLog) (message : RunStreamMessage) : EventLog :=
  let log := { log with frames := log.frames + 1 }
  let log := match message.sdkMessage with
    | some event => log.observe event
    | none => log
  match log.runId, message.runId with
  | none, some runId => if runId = [] then log else { log with runId := some runId }
  | _, _ => log

/-- `EventLog::phase`, the map being gone through from the place that a `seed` gives. -/
def phase (log : EventLog) (seed : ℕ) : Phase :=
  if log.frames = 0 then .opening
  else
    match (log.lastPending.bind fun callId ↦ List.lookup callId log.pendingTools).or
        ((log.pendingTools[seed % log.pendingTools.length]?).map Prod.snd) with
    | some pending => pending.phase
    | none => .model

/-- The log of messages. -/
def ofMessages (messages : List RunStreamMessage) : EventLog :=
  messages.foldl observeMessage new

end EventLog

/-! ### What is pending -/

/-- What a message says about calls. -/
inductive Signal where
  | starts (callId : Bytes) (call : PendingCall)
  | ends (callId : Bytes)
  /-- The model thinks or speaks. -/
  | resumes
  | none

/-- What a tool call frame says. -/
def signalOf (payload : Json) : Signal :=
  match EventLog.starts payload, EventLog.callIdOf payload with
  | some true, some callId => (EventLog.callOf payload).elim .none (.starts callId)
  | some false, some callId => .ends callId
  | _, _ => .none

/-- What a message says. -/
def RunStreamMessage.signal (message : RunStreamMessage) : Signal :=
  match message.sdkMessage with
  | some event =>
    if event.kind = text "tool_call" then signalOf event.message
    else if event.kind = text "thinking" ∨ event.kind = text "assistant" then .resumes
    else .none
  | none => .none

/-- The calls that are pending, in the order they have started, with the id started last since the
model last spoke. -/
structure Awaiting where
  calls : List (Bytes × PendingCall)
  latest : Option Bytes

namespace Awaiting

/-- What is pending after a message. -/
def next (awaiting : Awaiting) (message : RunStreamMessage) : Awaiting :=
  match message.signal with
  | .starts callId call => ⟨awaiting.calls ++ [(callId, call)], some callId⟩
  | .ends callId => { awaiting with calls := awaiting.calls.filter fun entry ↦ entry.1 ≠ callId }
  | .resumes => ⟨[], none⟩
  | .none => awaiting

/-- What is pending after messages. -/
def after (messages : List RunStreamMessage) : Awaiting :=
  messages.foldl next ⟨[], none⟩

/-- A shell command is running. -/
def Shell (awaiting : Awaiting) : Prop :=
  ∃ entry ∈ awaiting.calls, entry.2.shell = true

/-- The call that was started last under an id, while it is pending. -/
def named (awaiting : Awaiting) (callId : Bytes) : Option PendingCall :=
  ((awaiting.calls.filter fun entry ↦ entry.1 = callId).getLast?).map Prod.snd

/-- One phase stands for all calls that are pending: that of the call started last, while it is
pending, and else the one that all have, each id with its last call. It is no other than the shell's
beside a shell command. -/
def Plain (awaiting : Awaiting) : Prop :=
  match awaiting.latest.bind awaiting.named with
  | some call => call.shell = true ∨ ¬awaiting.Shell
  | none => ∀ callId call, awaiting.named callId = some call →
    (∀ other second, awaiting.named other = some second → call.phase = second.phase) ∧
      (call.shell = true ∨ ¬awaiting.Shell)

end Awaiting

/-- The phase after messages is as it should be: it is bounded before any of them and while calls
are pending that are no shell commands, and it is told by the messages alone. -/
structure Stands (messages : List RunStreamMessage) : Prop where
  bounded_iff : ∀ seed, ((EventLog.ofMessages messages).phase seed).bounded = true ↔
    messages = [] ∨ (Awaiting.after messages).calls ≠ [] ∧ ¬(Awaiting.after messages).Shell
  determined : ∀ first second, (EventLog.ofMessages messages).phase first =
    (EventLog.ofMessages messages).phase second

/-! ### The map and the calls -/

/-- A log has the calls that are pending, each id with its last call. -/
structure EventLog.Follows (log : EventLog) (awaiting : Awaiting) : Prop where
  nodup : (log.pendingTools.map Prod.fst).Nodup
  lookup : ∀ callId, List.lookup callId log.pendingTools = awaiting.named callId
  latest : awaiting.calls ≠ [] → log.lastPending = awaiting.latest

variable {log : EventLog} {awaiting : Awaiting} {callId other : Bytes} {call : PendingCall}
variable {entries : List (Bytes × PendingCall)}

theorem lookup_cons_of_ne (hother : other ≠ callId) :
    List.lookup other ((callId, call) :: entries) = List.lookup other entries := by
  rw [List.lookup_cons, beq_eq_false_iff_ne.mpr hother]

theorem lookup_filter_ne (entries : List (Bytes × PendingCall)) (callId other : Bytes) :
    List.lookup other (entries.filter fun entry ↦ entry.1 ≠ callId) =
      if other = callId then none else List.lookup other entries := by
  induction entries with
  | nil => simp
  | cons entry entries ih =>
    obtain ⟨first, call⟩ := entry
    rw [List.filter_cons]
    by_cases hfirst : first = callId
    · rw [if_neg (by simpa using hfirst), ih]
      by_cases hother : other = callId
      · rw [if_pos hother, if_pos hother]
      · rw [if_neg hother, if_neg hother, lookup_cons_of_ne (hfirst ▸ hother)]
    · rw [if_pos (by simpa using hfirst)]
      by_cases hother : other = first
      · subst hother
        rw [List.lookup_cons_self, List.lookup_cons_self, if_neg hfirst]
      · rw [lookup_cons_of_ne hother, lookup_cons_of_ne hother, ih]

theorem lookup_concat (hnone : List.lookup callId entries = none) :
    List.lookup other (entries ++ [(callId, call)]) =
      if other = callId then some call else List.lookup other entries := by
  rw [List.lookup_append]
  by_cases hother : other = callId
  · subst hother
    rw [hnone, List.lookup_cons_self, if_pos rfl]
    rfl
  · rw [lookup_cons_of_ne hother, if_neg hother]
    exact Option.or_none

namespace Awaiting

theorem named_concat : (Awaiting.mk (awaiting.calls ++ [(callId, call)]) (some callId)).named
    other =
    if other = callId then some call else awaiting.named other := by
  rw [named, named, List.filter_append]
  by_cases hother : other = callId
  · subst hother
    simp
  · simp [hother, Ne.symm hother]

theorem named_filter : (Awaiting.mk (awaiting.calls.filter fun entry ↦ entry.1 ≠ callId)
    awaiting.latest).named other = if other = callId then none else awaiting.named other := by
  rw [named, named, List.filter_filter]
  by_cases hother : other = callId
  · subst hother
    simp
  · rw [if_neg hother]
    congr 2
    refine List.filter_congr fun entry _ ↦ ?_
    by_cases hentry : entry.1 = other
    · simp [hentry, hother]
    · simp [hentry]

/-- A call that is shown under its id is pending. -/
theorem mem_calls_of_named (hnamed : awaiting.named callId = some call) :
    (callId, call) ∈ awaiting.calls := by
  obtain ⟨entry, hentry, rfl⟩ := Option.map_eq_some_iff.mp hnamed
  have hmem := List.mem_filter.mp (List.mem_of_getLast? hentry)
  obtain rfl := of_decide_eq_true hmem.2
  exact hmem.1

/-- Some call is pending where one is shown under some id. -/
theorem exists_named (hcalls : awaiting.calls ≠ []) :
    ∃ callId call, awaiting.named callId = some call := by
  obtain ⟨entry, hentry⟩ := List.exists_mem_of_ne_nil _ hcalls
  refine ⟨entry.1, ?_⟩
  rw [named]
  cases hlast : (awaiting.calls.filter fun other ↦ other.1 = entry.1).getLast? with
  | some last => exact ⟨last.2, rfl⟩
  | none =>
    rw [List.getLast?_eq_none_iff, List.filter_eq_nil_iff] at hlast
    exact absurd (decide_eq_true rfl) (hlast entry hentry)

end Awaiting

/-! ### A log follows what is pending -/

/-- A key that is looked up stands among the keys, and another is not found. -/
theorem lookup_eq_none_iff : List.lookup callId entries = none ↔ callId ∉ entries.map Prod.fst := by
  induction entries with
  | nil => simp
  | cons entry entries ih =>
    obtain ⟨first, call⟩ := entry
    by_cases hfirst : callId = first
    · subst hfirst
      simp
    · rw [lookup_cons_of_ne hfirst, ih, List.map_cons, List.mem_cons, not_or, and_iff_right hfirst]

theorem mem_of_lookup_eq_some (hlookup : List.lookup callId entries = some call) :
    (callId, call) ∈ entries := by
  induction entries with
  | nil => cases hlookup
  | cons entry entries ih =>
    obtain ⟨first, other⟩ := entry
    by_cases hfirst : callId = first
    · subst hfirst
      rw [List.lookup_cons_self] at hlookup
      rw [Option.some.inj hlookup]
      exact List.mem_cons_self
    · rw [lookup_cons_of_ne hfirst] at hlookup
      exact List.mem_cons_of_mem _ (ih hlookup)

theorem lookup_eq_some_of_mem (hnodup : (entries.map Prod.fst).Nodup)
    (hentry : (callId, call) ∈ entries) : List.lookup callId entries = some call := by
  induction entries with
  | nil => cases hentry
  | cons entry entries ih =>
    obtain ⟨first, other⟩ := entry
    obtain ⟨hfresh, hrest⟩ := List.nodup_cons.mp hnodup
    rcases List.mem_cons.mp hentry with heq | hentry
    · obtain ⟨rfl, rfl⟩ := Prod.mk.inj heq
      exact List.lookup_cons_self
    · have hne : callId ≠ first := fun heq ↦
        hfresh (heq ▸ List.mem_map.mpr ⟨_, hentry, rfl⟩)
      rw [lookup_cons_of_ne hne]
      exact ih hrest hentry

namespace EventLog

/-- A call that starts. -/
theorem Follows.starts (hfollows : log.Follows awaiting) (started : ℕ) (callId : Bytes)
    (call : PendingCall) :
    Follows { log with
      started
      pendingTools := (log.pendingTools.filter fun entry ↦ entry.1 ≠ callId) ++ [(callId, call)]
      lastPending := some callId } ⟨awaiting.calls ++ [(callId, call)], some callId⟩ := by
  have hgone : List.lookup callId (log.pendingTools.filter fun entry ↦ entry.1 ≠ callId) =
      none := by
    rw [lookup_filter_ne, if_pos rfl]
  refine ⟨?_, fun other ↦ ?_, fun _ ↦ rfl⟩
  · rw [List.map_append, List.nodup_append]
    refine ⟨hfollows.nodup.sublist (List.filter_sublist.map _), by simp, ?_⟩
    intro first hfirst second hsecond hsame
    obtain rfl : second = callId := List.mem_singleton.mp hsecond
    rw [hsame] at hfirst
    exact lookup_eq_none_iff.mp hgone hfirst
  · rw [lookup_concat hgone, Awaiting.named_concat, lookup_filter_ne]
    split_ifs
    · rfl
    · exact hfollows.lookup other

/-- A call that ends. -/
theorem Follows.ends (hfollows : log.Follows awaiting) (callId : Bytes) (turns : List ToolTurn) :
    Follows { log with
      pendingTools := log.pendingTools.filter fun entry ↦ entry.1 ≠ callId
      turns }
      { awaiting with calls := awaiting.calls.filter fun entry ↦ entry.1 ≠ callId } := by
  refine ⟨hfollows.nodup.sublist (List.filter_sublist.map _), fun other ↦ ?_, fun hcalls ↦ ?_⟩
  · rw [lookup_filter_ne, hfollows.lookup]
    exact Awaiting.named_filter.symm
  · refine hfollows.latest fun hnil ↦ hcalls ?_
    rw [hnil]
    rfl

/-- The fields that say nothing of calls do not matter. -/
theorem Follows.congr (hfollows : log.Follows awaiting) {given : EventLog}
    (hpending : given.pendingTools = log.pendingTools)
    (hlast : given.lastPending = log.lastPending) :
    given.Follows awaiting :=
  ⟨hpending ▸ hfollows.nodup, hpending ▸ hfollows.lookup, hlast ▸ hfollows.latest⟩

/-- The model goes on. -/
theorem Follows.resumed (hfollows : log.Follows awaiting) : log.resumed.Follows ⟨[], none⟩ := by
  rw [EventLog.resumed]
  split_ifs with hempty
  · rw [List.isEmpty_iff] at hempty
    refine ⟨hfollows.nodup, fun callId ↦ ?_, fun hcalls ↦ absurd rfl hcalls⟩
    rw [hempty]
    rfl
  · exact ⟨List.nodup_nil, fun _ ↦ rfl, fun _ ↦ rfl⟩

/-- A tool call frame does to the map what it says. -/
theorem Follows.toolCall (hfollows : log.Follows awaiting) (payload : Json) :
    (log.toolCall payload).Follows (match signalOf payload with
      | .starts callId call => ⟨awaiting.calls ++ [(callId, call)], some callId⟩
      | .ends callId =>
        { awaiting with calls := awaiting.calls.filter fun entry ↦ entry.1 ≠ callId }
      | .resumes => ⟨[], none⟩
      | .none => awaiting) := by
  rw [EventLog.toolCall, signalOf]
  rcases EventLog.starts payload with _ | _ | _
  · exact hfollows
  · cases callIdOf payload with
    | none => exact hfollows
    | some callId =>
      cases resultOf payload with
      | none => exact hfollows.ends callId log.turns
      | some result => exact hfollows.ends callId _
  · cases callIdOf payload with
    | none => exact hfollows
    | some callId =>
      cases callOf payload with
      | none => exact hfollows
      | some call => exact hfollows.starts _ callId call

/-- A message does to the map what it says. -/
theorem Follows.observeMessage (hfollows : log.Follows awaiting) (message : RunStreamMessage) :
    (log.observeMessage message).Follows (awaiting.next message) := by
  have hevent : (match message.sdkMessage with
      | some event => EventLog.observe { log with frames := log.frames + 1 } event
      | none => { log with frames := log.frames + 1 } : EventLog).Follows
        (awaiting.next message) := by
    rw [Awaiting.next, RunStreamMessage.signal]
    have hframe : EventLog.Follows { log with frames := log.frames + 1 } awaiting :=
      hfollows.congr rfl rfl
    cases message.sdkMessage with
    | none => exact hframe
    | some event =>
      have hrun : EventLog.Follows { log with
          frames := log.frames + 1
          runId := log.runId.or (firstMatch event.message [text "run_id", text "runId"]) }
            awaiting :=
        hfollows.congr rfl rfl
      change (EventLog.observe _ event).Follows _
      rw [EventLog.observe]
      dsimp only
      by_cases htool : event.kind = text "tool_call"
      · rw [if_pos htool, if_pos htool]
        exact hrun.toolCall event.message
      · rw [if_neg htool, if_neg htool]
        by_cases hstatus : event.kind = text "system" ∨ event.kind = text "status"
        · have hneither : ¬(event.kind = text "thinking" ∨ event.kind = text "assistant") := by
            rcases hstatus with hkind | hkind <;> rw [hkind] <;> decide
          rw [if_pos hstatus, if_neg hneither]
          split
          · exact hrun.congr rfl rfl
          · exact hrun
        · rw [if_neg hstatus]
          by_cases hthinking : event.kind = text "thinking"
          · rw [if_pos hthinking, if_pos (Or.inl hthinking)]
            split
            · exact hrun.resumed.congr rfl rfl
            · exact hrun.resumed
          · rw [if_neg hthinking]
            by_cases hassistant : event.kind = text "assistant"
            · rw [if_pos hassistant, if_pos (Or.inr hassistant)]
              exact hrun.resumed
            · rw [if_neg hassistant, if_neg (not_or.mpr ⟨hthinking, hassistant⟩)]
              exact hrun
  rw [EventLog.observeMessage]
  split
  · split_ifs
    · exact hevent
    · exact hevent.congr rfl rfl
  · exact hevent

/-- A call does not count as a message. -/
theorem frames_toolCall (log : EventLog) (payload : Json) :
    (log.toolCall payload).frames = log.frames := by
  rw [EventLog.toolCall]
  rcases EventLog.starts payload with _ | _ | _
  · rfl
  · cases callIdOf payload with
    | none => rfl
    | some callId => cases resultOf payload <;> rfl
  · cases callIdOf payload with
    | none => rfl
    | some callId => cases callOf payload <;> rfl

theorem frames_resumed (log : EventLog) : log.resumed.frames = log.frames := by
  rw [EventLog.resumed]
  split_ifs <;> rfl

theorem frames_observe (log : EventLog) (event : SdkMessage) :
    (log.observe event).frames = log.frames := by
  rw [EventLog.observe]
  dsimp only
  split_ifs
  · exact frames_toolCall _ _
  · split <;> rfl
  · split <;> simp only [frames_resumed]
  · exact frames_resumed _
  · rfl

/-- A log counts its messages. -/
theorem frames_observeMessage (log : EventLog) (message : RunStreamMessage) :
    (log.observeMessage message).frames = log.frames + 1 := by
  have hevent : (match message.sdkMessage with
      | some event => EventLog.observe { log with frames := log.frames + 1 } event
      | none => { log with frames := log.frames + 1 } : EventLog).frames = log.frames + 1 := by
    cases message.sdkMessage with
    | none => rfl
    | some event => exact frames_observe _ event
  rw [EventLog.observeMessage]
  split
  · split_ifs
    · exact hevent
    · exact hevent
  · exact hevent

/-- A log follows what is pending. -/
theorem follows_ofMessages (messages : List RunStreamMessage) :
    (ofMessages messages).Follows (Awaiting.after messages) ∧
      (ofMessages messages).frames = messages.length := by
  have hrun (log : EventLog) (awaiting : Awaiting) (hfollows : log.Follows awaiting) :
      (messages.foldl observeMessage log).Follows (messages.foldl Awaiting.next awaiting) ∧
        (messages.foldl observeMessage log).frames = log.frames + messages.length := by
    induction messages generalizing log awaiting with
    | nil => exact ⟨hfollows, rfl⟩
    | cons message messages ih =>
      obtain ⟨hrest, hframes⟩ := ih _ _ (hfollows.observeMessage message)
      refine ⟨hrest, hframes.trans ?_⟩
      rw [frames_observeMessage, List.length_cons]
      omega
  have hnew : new.Follows ⟨[], none⟩ := ⟨List.nodup_nil, fun _ ↦ rfl, fun _ ↦ rfl⟩
  obtain ⟨hfollows, hframes⟩ := hrun new ⟨[], none⟩ hnew
  exact ⟨hfollows, hframes.trans (Nat.zero_add _)⟩

/-- What the map may come to first are the last calls of the ids that are pending. -/
theorem Follows.exists_seed_iff (hfollows : log.Follows awaiting) (call : PendingCall) :
    (∃ seed, (log.pendingTools[seed % log.pendingTools.length]?).map Prod.snd = some call) ↔
      ∃ callId, awaiting.named callId = some call := by
  constructor
  · rintro ⟨seed, hseed⟩
    obtain ⟨⟨callId, _⟩, hentry, rfl⟩ := Option.map_eq_some_iff.mp hseed
    refine ⟨callId, ?_⟩
    rw [← hfollows.lookup]
    exact lookup_eq_some_of_mem hfollows.nodup (List.mem_of_getElem? hentry)
  · rintro ⟨callId, hnamed⟩
    rw [← hfollows.lookup] at hnamed
    obtain ⟨index, hindex⟩ := List.mem_iff_getElem?.mp (mem_of_lookup_eq_some hnamed)
    have hlt : index < log.pendingTools.length := (List.getElem?_eq_some_iff.mp hindex).1
    exact ⟨index, by rw [Nat.mod_eq_of_lt hlt, hindex]; rfl⟩

/-- The map is empty where nothing is pending. -/
theorem Follows.pendingTools_eq_nil_iff (hfollows : log.Follows awaiting) :
    log.pendingTools = [] ↔ awaiting.calls = [] := by
  constructor
  · intro hnil
    by_contra hcalls
    obtain ⟨callId, call, hnamed⟩ := Awaiting.exists_named hcalls
    rw [← hfollows.lookup, hnil] at hnamed
    cases hnamed
  · intro hcalls
    refine List.eq_nil_iff_forall_not_mem.mpr fun entry hentry ↦ ?_
    have hlookup := lookup_eq_some_of_mem hfollows.nodup hentry
    rw [hfollows.lookup] at hlookup
    have hmem := Awaiting.mem_calls_of_named hlookup
    rw [hcalls] at hmem
    cases hmem

end EventLog

theorem PendingCall.bounded_phase (call : PendingCall) : call.phase.bounded = !call.shell := by
  rw [PendingCall.phase]
  cases call.shell <;> rfl

/-- A call that is shown is a shell command or none is running, as its phase has it. -/
theorem Awaiting.bounded_iff_of_named {callId : Bytes}
    (hnamed : awaiting.named callId = some call) :
    (call.phase.bounded = true ↔ awaiting.calls ≠ [] ∧ ¬awaiting.Shell) ↔
      call.shell = true ∨ ¬awaiting.Shell := by
  have hmem := mem_calls_of_named hnamed
  have hcalls : awaiting.calls ≠ [] := List.ne_nil_of_mem hmem
  rw [and_iff_right hcalls, PendingCall.bounded_phase]
  cases hshell : call.shell with
  | true =>
    have hrunning : awaiting.Shell := ⟨_, hmem, hshell⟩
    simp [hrunning]
  | false => simp

/-- The phase after messages is as it should be exactly where one phase stands for all pending
calls. -/
theorem stands_iff (messages : List RunStreamMessage) :
    Stands messages ↔ (Awaiting.after messages).Plain := by
  obtain ⟨hfollows, hframes⟩ := EventLog.follows_ofMessages messages
  generalize hlog : EventLog.ofMessages messages = log at hfollows hframes
  generalize hafter : Awaiting.after messages = awaiting at hfollows
  by_cases hcalls : awaiting.calls = []
  · have hnone (callId : Bytes) : awaiting.named callId = none := by
      rw [Awaiting.named, hcalls]
      rfl
    have hphase (seed : ℕ) : log.phase seed = if messages = [] then .opening else .model := by
      have hempty := hfollows.pendingTools_eq_nil_iff.mpr hcalls
      have hlast : (log.lastPending.bind fun callId ↦ List.lookup callId log.pendingTools) =
          none := by
        rw [hempty]
        cases log.lastPending <;> rfl
      have hfirst : (log.pendingTools[seed % log.pendingTools.length]?).map Prod.snd = none := by
        rw [hempty]
        rfl
      rw [EventLog.phase, hframes, hlast, hfirst]
      simp only [List.length_eq_zero_iff]
      rfl
    refine iff_of_true ⟨fun seed ↦ ?_, fun first second ↦ ?_⟩ ?_
    · rw [hlog, hafter, hphase]
      by_cases hmessages : messages = []
      · simp [hmessages, Phase.bounded]
      · simp [hmessages, hcalls, Phase.bounded]
    · rw [hlog, hphase, hphase]
    · rw [Awaiting.Plain]
      split
      next call hlatest =>
        obtain ⟨callId, -, hnamed⟩ := Option.bind_eq_some_iff.mp hlatest
        rw [hnone] at hnamed
        cases hnamed
      next => exact fun callId call hnamed ↦ by rw [hnone] at hnamed; cases hnamed
  · have hmessages : messages ≠ [] := by
      rintro rfl
      rw [← hafter] at hcalls
      exact hcalls rfl
    have hsome : log.frames ≠ 0 := by
      rw [hframes]
      exact mt List.length_eq_zero_iff.mp hmessages
    have hshown : log.lastPending.bind (fun callId ↦ List.lookup callId log.pendingTools) =
        awaiting.latest.bind awaiting.named := by
      rw [hfollows.latest hcalls]
      exact congrArg _ (funext hfollows.lookup)
    have hstands : Stands messages ↔
        (∀ seed, (log.phase seed).bounded = true ↔ awaiting.calls ≠ [] ∧ ¬awaiting.Shell) ∧
          ∀ first second, log.phase first = log.phase second := by
      constructor
      · intro ⟨hbounded, hdetermined⟩
        rw [hlog, hafter] at hbounded
        rw [hlog] at hdetermined
        exact ⟨fun seed ↦ (hbounded seed).trans (or_iff_right hmessages), hdetermined⟩
      · intro ⟨hbounded, hdetermined⟩
        constructor
        · rw [hlog, hafter]
          exact fun seed ↦ (hbounded seed).trans (or_iff_right hmessages).symm
        · rw [hlog]
          exact hdetermined
    rw [hstands, Awaiting.Plain]
    cases hlatest : awaiting.latest.bind awaiting.named with
    | some call =>
      obtain ⟨callId, -, hnamed⟩ := Option.bind_eq_some_iff.mp hlatest
      have hphase (seed : ℕ) : log.phase seed = call.phase := by
        rw [EventLog.phase, if_neg hsome, hshown, hlatest]
        rfl
      simp only [hphase, forall_const, and_true]
      exact Awaiting.bounded_iff_of_named hnamed
    | none =>
      have hempty : log.pendingTools ≠ [] := mt hfollows.pendingTools_eq_nil_iff.mp hcalls
      have hphase (seed : ℕ) {call : PendingCall}
          (hfirst : (log.pendingTools[seed % log.pendingTools.length]?).map Prod.snd = some call) :
          log.phase seed = call.phase := by
        rw [EventLog.phase, if_neg hsome, hshown, hlatest, hfirst]
        rfl
      have hcall (seed : ℕ) : ∃ callId call, awaiting.named callId = some call ∧
          log.phase seed = call.phase := by
        have hlt := Nat.mod_lt seed (List.length_pos_iff.mpr hempty)
        have hfirst : (log.pendingTools[seed % log.pendingTools.length]?).map Prod.snd =
            some log.pendingTools[seed % log.pendingTools.length].2 := by
          rw [List.getElem?_eq_getElem hlt]
          rfl
        obtain ⟨callId, hnamed⟩ := (hfollows.exists_seed_iff _).mp ⟨seed, hfirst⟩
        exact ⟨callId, _, hnamed, hphase seed hfirst⟩
      constructor
      · rintro ⟨hbounded, hdetermined⟩ callId call hnamed
        obtain ⟨seed, hfirst⟩ := (hfollows.exists_seed_iff call).mpr ⟨callId, hnamed⟩
        refine ⟨fun other second hsecond ↦ ?_, ?_⟩
        · obtain ⟨seed', hfirst'⟩ := (hfollows.exists_seed_iff second).mpr ⟨other, hsecond⟩
          rw [← hphase seed hfirst, ← hphase seed' hfirst', hdetermined seed seed']
        · rw [← Awaiting.bounded_iff_of_named hnamed, ← hphase seed hfirst]
          exact hbounded seed
      · intro hplain
        constructor
        · intro seed
          obtain ⟨callId, call, hnamed, hseed⟩ := hcall seed
          rw [hseed, Awaiting.bounded_iff_of_named hnamed]
          exact (hplain callId call hnamed).2
        · intro first second
          obtain ⟨callId, call, hnamed, hfirst⟩ := hcall first
          obtain ⟨other, last, hlast, hsecond⟩ := hcall second
          rw [hfirst, hsecond]
          exact (hplain callId call hnamed).1 other last hlast

/-! ### A guest's tool beside a shell command -/

/-- A frame that starts a call of a tool. -/
def startFrame (callId tool : String) : RunStreamMessage where
  sdkMessage := some {
    kind := text "tool_call"
    message := .object [(text "call_id", .string (text callId)), (text "name", .string (text tool)),
      (text "status", .string (text "running"))] }
  runId := none

/-- A shell command is running, and the phase after a read that was started beside it is bounded. -/
theorem shell_then_read_bounded :
    ¬Stands [startFrame "1" "shell", startFrame "2" "read"] := by
  intro hstands
  rcases (hstands.bounded_iff 0).mp (by decide +kernel) with hnone | ⟨-, hshell⟩
  · cases hnone
  · exact hshell ⟨_, List.mem_cons_self, by decide +kernel⟩

end OmniaBackends.Cursor.Stream
