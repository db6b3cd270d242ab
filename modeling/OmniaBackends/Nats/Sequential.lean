import OmniaBackends.KeyValue.Map
import OmniaBackends.Nats.Atomicity

/-!
# A bucket that nobody else uses

The calls of `KvBucket` with nothing between their turns: each is one read, one write, or a read and
a write that goes through, as no other write came between. On values without a time to live it
answers and leaves what a map does (`perform_spec`), unless the server has no room for what it
writes: then it fails, as no map does (`perform_refused`).
-/

set_option autoImplicit false
set_option relaxedAutoImplicit false

namespace OmniaBackends.Nats

open Foundation KeyValue

/-- The call that an action is. `exists` is the read of `get`. -/
def opOf : KeyValue.Action → Op
  | .get | .exists_ => .get
  | .set value ttl => .set value ttl
  | .delete => .delete
  | .increment delta => .update (.increment delta.toInt)
  | .cas expected value => .update (.cas expected value)

/-- The answer of an action by that of its call. -/
def resultOf (action : KeyValue.Action) : Result → KeyValue.Result
  | .value found =>
    match action with
    | .exists_ => .present found.isSome
    | _ => .value found
  | .done => .done
  | .incremented number => .incremented number
  | .swapped => .swapped
  | .conflict found => .conflict found
  | .failed => .failed

/-- A call that no other comes between, by a number of turns that is enough for it: the stream it
leaves and what it returns. A write that would leave a stream beyond its bounds is refused by the
server, and the call fails. -/
def Client.finish (fits : Stream → Bool) (stream : Stream) (client : Client) :
    ℕ → Option (Stream × Result)
  | 0 => none
  | turns + 1 =>
    match client.stage with
    | .returned _ result => some (stream, result)
    | _ =>
      (client.turn stream).bind fun (moved, written) ↦
        match written with
        | none => moved.finish fits stream turns
        | some (after, _) =>
          if fits after then moved.finish fits after turns else some (stream, .failed)

/-- An action on a bucket that nobody else uses. -/
def perform (fits : Stream → Bool) (stream : Stream) (key : Bytes) (action : KeyValue.Action) :
    Stream × KeyValue.Result :=
  match (Client.call key (opOf action)).finish fits stream 3 with
  | some (after, result) => (after, resultOf action result)
  | none => (stream, .failed)

/-- The stream that an action leaves where it writes and the server has room for it. -/
def Stream.written (stream : Stream) (key : Bytes) : KeyValue.Action → Option Stream
  | .get | .exists_ => none
  | .set value ttl => some (stream.set key value ttl)
  | .delete => some (stream.delete key)
  | .increment delta =>
    let snapshot := stream.snapshot key
    (addI64 snapshot.value delta.toInt).map fun sum ↦ stream.set key (toBeBytes sum) snapshot.ttl
  | .cas expected value =>
    let snapshot := stream.snapshot key
    if snapshot.value = expected then some (stream.set key value snapshot.ttl) else none

/-- The last message of a key is one of a value without a time to live, or of none. -/
def Stream.Holds (stream : Stream) (key : Bytes) (value : Option Bytes) : Prop :=
  match stream.last key with
  | none => value = none
  | some message =>
    message.ttl = none ∧ value = if message.isPut then some message.payload else none

variable {fits : Stream → Bool} {stream after : Stream} {key other payload : Bytes}
  {read : Option Snapshot}
  {value : Option Bytes} {action : KeyValue.Action}

/-- What is read of it. -/
theorem Stream.Holds.snapshot (hholds : stream.Holds key value) :
    stream.snapshot key = ⟨stream.revision key, value, none⟩ := by
  rw [Stream.Holds] at hholds
  rw [Stream.snapshot, Stream.revision]
  cases hlast : stream.last key with
  | none =>
    rw [hlast] at hholds
    rw [show value = none from hholds]
    rfl
  | some message =>
    rw [hlast] at hholds
    obtain ⟨httl, hvalue⟩ := hholds
    simp [Message.remainingTtl, httl, hvalue]

/-- Time passes it by. -/
theorem Stream.Holds.advance (hholds : stream.Holds key value) (duration : ℕ) :
    (stream.advance duration).Holds key value := hholds

/-- After a set. -/
theorem Stream.holds_set (stream : Stream) (key payload : Bytes) :
    (stream.set key payload none).Holds key (some payload) := by
  rw [Stream.Holds, Stream.set, last_store_self]
  exact ⟨rfl, rfl⟩

/-- After a delete. -/
theorem Stream.holds_delete (stream : Stream) (key : Bytes) :
    (stream.delete key).Holds key none := by
  rw [Stream.Holds, Stream.delete, last_store_self]
  exact ⟨rfl, rfl⟩

/-- Of other keys nothing changes. -/
theorem Stream.Holds.of_last_eq {after : Stream} (hholds : stream.Holds key value)
    (hlast : after.last key = stream.last key) : after.Holds key value := by
  rwa [Stream.Holds, hlast]

/-! ### Turn after turn -/

section Finishing

variable {client moved : Client} {update : Update} {turns : ℕ}

@[simp]
theorem Client.finish_returns (fits : Stream → Bool) (stream : Stream) (client : Client)
    (snapshot : Option Snapshot) (result : Result) (turns : ℕ) :
    (client.returns snapshot result).finish fits stream (turns + 1) = some (stream, result) := rfl

/-- A turn that writes nothing leaves the rest of the call to do. -/
theorem Client.finish_of_turn (hturn : client.turn stream = some (moved, none)) :
    client.finish fits stream (turns + 1) = moved.finish fits stream turns := by
  obtain ⟨key, op, stage⟩ := client
  cases stage with
  | returned snapshot result => cases hturn
  | rereading =>
    cases hturn
    rfl
  | reading | writing => exact congrArg (Option.bind · _) hturn

/-- One that writes does so where there is room. -/
theorem Client.finish_of_write {write : Option Bytes}
    (hturn : client.turn stream = some (moved, some (after, write))) :
    client.finish fits stream (turns + 1) =
      if fits after then moved.finish fits after turns else some (stream, .failed) := by
  obtain ⟨key, op, stage⟩ := client
  cases stage with
  | returned _ _ | rereading => cases hturn
  | reading | writing => exact congrArg (Option.bind · _) hturn

/-- The turn that reads the key for an update. -/
theorem Stream.turn_update (stream : Stream) (update : Update) (hkey : validateKey key = true) :
    (Client.call key (.update update)).turn stream =
      match update.attempt (stream.snapshot key) with
      | .write _ => some (⟨key, .update update,
          .writing (maxIncrementRetries - 1) (stream.snapshot key)⟩, none)
      | .refuse =>
        some ((Client.call key (.update update)).returns (some (stream.snapshot key)) .failed, none)
      | .conflict found => some ((Client.call key (.update update)).returns
          (some (stream.snapshot key)) (.conflict found), none) :=
  if_pos hkey

/-- What is written right after it was read goes through. -/
theorem Client.turn_writing {left : ℕ} {snapshot : Snapshot}
    (hattempt : update.attempt snapshot = .write payload)
    (hrevision : snapshot.revision = stream.revision key) (httl : snapshot.ttl = none) :
    (Client.mk key (.update update) (.writing left snapshot)).turn stream =
      some ((Client.call key (.update update)).returns (some snapshot) (update.answer snapshot),
        some (stream.set key payload none, some payload)) := by
  simp [Client.turn, Client.call, Client.returns, hattempt, Stream.publish, Stream.set, hrevision,
    httl]

end Finishing

/-- An action answers what its call returns. -/
theorem perform_of_finish (action : KeyValue.Action) {op : Op} {result : Result}
    (hop : opOf action = op)
    (hfinish : (Client.call key op).finish fits stream 3 = some (after, result)) :
    perform fits stream key action = (after, resultOf action result) := by
  rw [perform, hop, hfinish]

/-- One whose last turn writes goes through where there is room. -/
theorem perform_of_write (action : KeyValue.Action) {op : Op} {client : Client} {result : Result}
    {write : Option Bytes} {turns : ℕ} (hop : opOf action = op)
    (hfinish : (Client.call key op).finish fits stream 3 = client.finish fits stream (turns + 2))
    (hturn : client.turn stream = some (client.returns read result, some (after, write))) :
    perform fits stream key action =
      if fits after then (after, resultOf action result) else (stream, .failed) := by
  rw [Client.finish_of_write hturn, Client.finish_returns] at hfinish
  split_ifs with hfits
  · exact perform_of_finish action hop (hfinish.trans (if_pos hfits))
  · exact perform_of_finish action hop (hfinish.trans (if_neg hfits))

/-- A read returns what is live. -/
theorem perform_read (fits : Stream → Bool) (action : KeyValue.Action)
    (hkey : validateKey key = true) (hholds : stream.Holds key value)
    (haction : opOf action = .get) :
    perform fits stream key action = (stream, resultOf action (.value value)) := by
  have hturn : (Client.call key .get).turn stream =
      some ((Client.call key .get).returns (some (stream.snapshot key))
        (.value (stream.snapshot key).value), none) := if_pos hkey
  rw [hholds.snapshot] at hturn
  exact perform_of_finish action haction (Client.finish_of_turn hturn)

/-- A set goes through where there is room. -/
theorem perform_set (fits : Stream → Bool) (stream : Stream) (payload : Bytes)
    (hkey : validateKey key = true) :
    perform fits stream key (.set payload none) =
      if fits (stream.set key payload none) then (stream.set key payload none, .done)
      else (stream, .failed) := by
  have hturn : (Client.call key (.set payload none)).turn stream =
      some ((Client.call key (.set payload none)).returns none .done,
        some (stream.set key payload none, some payload)) := if_pos hkey
  exact perform_of_write (.set payload none) rfl rfl hturn

/-- So does a delete. -/
theorem perform_delete (fits : Stream → Bool) (stream : Stream) (hkey : validateKey key = true) :
    perform fits stream key .delete =
      if fits (stream.delete key) then (stream.delete key, .done) else (stream, .failed) := by
  have hturn : (Client.call key .delete).turn stream =
      some ((Client.call key .delete).returns none .done, some (stream.delete key, none)) :=
    if_pos hkey
  exact perform_of_write .delete rfl rfl hturn

/-- So does an update that writes. -/
theorem perform_write {update : Update} (fits : Stream → Bool) (action : KeyValue.Action)
    (payload : Bytes) (hkey : validateKey key = true) (hholds : stream.Holds key value)
    (haction : opOf action = .update update)
    (hattempt : update.attempt ⟨stream.revision key, value, none⟩ = .write payload) :
    perform fits stream key action =
      if fits (stream.set key payload none) then
        (stream.set key payload none,
          resultOf action (update.answer ⟨stream.revision key, value, none⟩))
      else (stream, .failed) := by
  have hread := stream.turn_update update hkey
  rw [hholds.snapshot, hattempt] at hread
  exact perform_of_write action haction (Client.finish_of_turn hread)
    (Client.turn_writing hattempt rfl rfl)

/-- One that does not write leaves the stream. -/
theorem perform_refuse {update : Update} (fits : Stream → Bool) (action : KeyValue.Action)
    (hkey : validateKey key = true) (hholds : stream.Holds key value)
    (haction : opOf action = .update update)
    (hattempt : update.attempt ⟨stream.revision key, value, none⟩ = .refuse) :
    perform fits stream key action = (stream, .failed) := by
  have hread := stream.turn_update update hkey
  rw [hholds.snapshot, hattempt] at hread
  exact perform_of_finish action haction (Client.finish_of_turn hread)

/-- A conflict leaves it too. -/
theorem perform_conflict {update : Update} (fits : Stream → Bool) (action : KeyValue.Action)
    (found : Option Bytes) (hkey : validateKey key = true) (hholds : stream.Holds key value)
    (haction : opOf action = .update update)
    (hattempt : update.attempt ⟨stream.revision key, value, none⟩ = .conflict found) :
    perform fits stream key action = (stream, .conflict found) := by
  have hread := stream.turn_update update hkey
  rw [hholds.snapshot, hattempt] at hread
  exact perform_of_finish action haction (Client.finish_of_turn hread)

/-- A turn takes no time. -/
theorem now_of_turn {client moved : Client} {payload : Option Bytes}
    (hturn : client.turn stream = some (moved, some (after, payload))) :
    after.now = stream.now := by
  unfold Client.turn at hturn
  cases hstage : client.stage with
  | reading left =>
    simp only [hstage] at hturn
    split_ifs at hturn
    · cases hop : client.op with
      | get => simp [hop] at hturn
      | set value ttl =>
        simp only [hop, Option.some.injEq, Prod.mk.injEq] at hturn
        rw [← hturn.2.1]
        rfl
      | delete =>
        simp only [hop, Option.some.injEq, Prod.mk.injEq] at hturn
        rw [← hturn.2.1]
        rfl
      | update update =>
        simp only [hop] at hturn
        split at hturn <;> simp at hturn
    · simp at hturn
  | writing left snapshot =>
    simp only [hstage] at hturn
    split at hturn
    · split at hturn
      · split at hturn
        · rename_i hpublish
          simp only [Option.some.injEq, Prod.mk.injEq] at hturn
          obtain ⟨-, hafter⟩ := of_publish hpublish
          rw [← hturn.2.1, hafter]
          rfl
        · split at hturn
          · split_ifs at hturn <;> simp at hturn
          · simp at hturn
      · cases hturn
    · cases hturn
  | rereading => simp [hstage] at hturn
  | returned snapshot result => simp [hstage] at hturn

/-- Nor does a call. -/
theorem now_of_finish {client : Client} {turns : ℕ} {result : Result}
    (hfinish : client.finish fits stream turns = some (after, result)) :
    after.now = stream.now := by
  induction turns generalizing client stream with
  | zero => cases hfinish
  | succ turns ih =>
    rcases hturn : client.turn stream with _ | ⟨moved, _ | ⟨next, payload⟩⟩
    · obtain ⟨key, op, stage⟩ := client
      cases stage with
      | returned snapshot answer => exact congrArg (Stream.now ·.1) (Option.some.inj hfinish).symm
      | rereading => cases hturn
      | reading | writing => cases (congrArg (Option.bind · _) hturn).symm.trans hfinish
    · exact ih ((Client.finish_of_turn hturn).symm.trans hfinish)
    · rw [Client.finish_of_write hturn] at hfinish
      split_ifs at hfinish
      · exact (ih hfinish).trans (now_of_turn hturn)
      · cases hfinish
        rfl

theorem now_perform (fits : Stream → Bool) (stream : Stream) (key : Bytes)
    (action : KeyValue.Action) : (perform fits stream key action).1.now = stream.now := by
  rw [perform]
  split
  · exact now_of_finish ‹_›
  · rfl

/-- What an action on a key without a time to live answers and leaves. -/
structure Performed (fits : Stream → Bool) (stream : Stream) (key : Bytes)
    (action : KeyValue.Action) (expected : KeyValue.Result × Option Held) (value : Option Bytes) :
    Prop where
  result : (perform fits stream key action).2 = expected.1
  left : expected.2 = value.map fun value ↦ ⟨value, none⟩
  holds : (perform fits stream key action).1.Holds key value
  others : ∀ other, other ≠ key → (perform fits stream key action).1.last other = stream.last other

/-- An action on its own answers and leaves what the map does, where the server has room for what it
writes. -/
theorem perform_spec (hkey : validateKey key = true) (hholds : stream.Holds key value)
    (haction : ∀ value ttl, action ≠ .set value (some ttl))
    (hroom : ∀ after, stream.written key action = some after → fits after = true) (now : ℕ) :
    ∃ left, Performed fits stream key action
      (action.run now (value.map fun value ↦ ⟨value, none⟩)) left := by
  have hlive : (value.map fun value ↦ (⟨value, none⟩ : Held)).filter (·.live now) =
      value.map fun value ↦ ⟨value, none⟩ := by
    cases value <;> rfl
  have hvalue : (value.map fun value ↦ (⟨value, none⟩ : Held)).map Held.value = value := by
    cases value <;> rfl
  have hexpiry : (value.map fun value ↦ (⟨value, none⟩ : Held)).bind Held.expiry = none := by
    cases value <;> rfl
  have hothers : ∀ payload other, other ≠ key →
      (stream.set key payload none).last other = stream.last other :=
    fun payload other hother ↦ last_store_other hother
  cases action with
  | get =>
    have hperform := perform_read fits .get hkey hholds rfl
    refine ⟨value, ?_, ?_, ?_, ?_⟩
    · rw [hperform, KeyValue.Action.run, hlive, hvalue]
      rfl
    · rw [KeyValue.Action.run, hlive]
    · rw [hperform]
      exact hholds
    · rw [hperform]
      exact fun other _ ↦ rfl
  | exists_ =>
    have hperform := perform_read fits .exists_ hkey hholds rfl
    refine ⟨value, ?_, ?_, ?_, ?_⟩
    · rw [hperform, KeyValue.Action.run, hlive, Option.isSome_map]
      rfl
    · rw [KeyValue.Action.run, hlive]
    · rw [hperform]
      exact hholds
    · rw [hperform]
      exact fun other _ ↦ rfl
  | set payload ttl =>
    cases ttl with
    | some ttl => exact absurd rfl (haction payload ttl)
    | none =>
      have hperform := perform_set fits stream payload hkey
      rw [if_pos (hroom _ rfl)] at hperform
      refine ⟨some payload, ?_, rfl, ?_, ?_⟩
      · rw [hperform]
        rfl
      · rw [hperform]
        exact stream.holds_set key payload
      · rw [hperform]
        exact hothers payload
  | delete =>
    have hperform := perform_delete fits stream hkey
    rw [if_pos (hroom _ rfl)] at hperform
    refine ⟨none, ?_, rfl, ?_, ?_⟩
    · rw [hperform]
      rfl
    · rw [hperform]
      exact stream.holds_delete key
    · rw [hperform]
      exact fun other hother ↦ last_store_other hother
  | increment delta =>
    cases hsum : addI64 value delta.toInt with
    | some sum =>
      have hperform := perform_write fits (.increment delta) (toBeBytes sum)
        hkey hholds rfl (by simp [Update.attempt, hsum])
      rw [if_pos (hroom _ (by simp [Stream.written, hholds.snapshot, hsum]))] at hperform
      refine ⟨some (toBeBytes sum), ?_, ?_, ?_, ?_⟩
      · rw [hperform, KeyValue.Action.run, hlive, hvalue, hsum]
        simp [Update.answer, resultOf, hsum]
      · simp [KeyValue.Action.run, hlive, hvalue, hsum, hexpiry]
      · rw [hperform]
        exact stream.holds_set key _
      · rw [hperform]
        exact hothers _
    | none =>
      have hperform := perform_refuse fits (.increment delta)
        hkey hholds rfl (by simp [Update.attempt, hsum])
      refine ⟨value, ?_, ?_, ?_, ?_⟩
      · rw [hperform, KeyValue.Action.run, hlive, hvalue, hsum]
      · simp [KeyValue.Action.run, hlive, hvalue, hsum]
      · rw [hperform]
        exact hholds
      · rw [hperform]
        exact fun other _ ↦ rfl
  | cas expected payload =>
    by_cases hsame : value = expected
    · subst hsame
      have hperform := perform_write fits (.cas value payload) payload
        hkey hholds rfl (by simp [Update.attempt])
      rw [if_pos (hroom _ (by simp [Stream.written, hholds.snapshot]))] at hperform
      refine ⟨some payload, ?_, ?_, ?_, ?_⟩
      · rw [hperform, KeyValue.Action.run, hlive, hvalue, if_pos rfl]
        rfl
      · simp [KeyValue.Action.run, hlive, hvalue, hexpiry]
      · rw [hperform]
        exact stream.holds_set key payload
      · rw [hperform]
        exact hothers payload
    · have hperform := perform_conflict fits (.cas expected payload) value
        hkey hholds rfl (by simp [Update.attempt, hsame])
      refine ⟨value, ?_, ?_, ?_, ?_⟩
      · rw [hperform, KeyValue.Action.run, hlive, hvalue, if_neg hsame]
      · simp [KeyValue.Action.run, hlive, hvalue, hsame]
      · rw [hperform]
        exact hholds
      · rw [hperform]
        exact fun other _ ↦ rfl

/-- An action that writes beyond the bounds fails, and a map does not fail there. -/
theorem perform_refused (hkey : validateKey key = true) (hholds : stream.Holds key value)
    (haction : ∀ value ttl, action ≠ .set value (some ttl))
    (hwritten : stream.written key action = some after) (hfull : fits after = false) (now : ℕ) :
    (perform fits stream key action).2 = .failed ∧
      (action.run now (value.map fun value ↦ ⟨value, none⟩)).1 ≠ .failed := by
  have hlive : ((value.map fun value ↦ (⟨value, none⟩ : Held)).filter (·.live now)).map
      Held.value = value := by
    cases value <;> rfl
  cases action with
  | get | exists_ => cases hwritten
  | set payload ttl =>
    cases ttl with
    | some ttl => exact absurd rfl (haction payload ttl)
    | none =>
      obtain rfl := Option.some.inj hwritten
      rw [perform_set fits stream payload hkey, hfull]
      exact ⟨rfl, by simp [KeyValue.Action.run]⟩
  | delete =>
    obtain rfl := Option.some.inj hwritten
    rw [perform_delete fits stream hkey, hfull]
    exact ⟨rfl, by simp [KeyValue.Action.run]⟩
  | increment delta =>
    rw [Stream.written, hholds.snapshot] at hwritten
    obtain ⟨sum, hsum, rfl⟩ := Option.map_eq_some_iff.mp hwritten
    rw [perform_write fits (.increment delta) (toBeBytes sum) hkey hholds rfl
      (by simp [Update.attempt, hsum]), hfull]
    exact ⟨rfl, by simp [KeyValue.Action.run, hlive, hsum]⟩
  | cas expected payload =>
    simp only [Stream.written, hholds.snapshot, Option.ite_none_right_eq_some,
      Option.some.injEq] at hwritten
    obtain ⟨rfl, rfl⟩ := hwritten
    rw [perform_write fits (.cas value payload) payload hkey hholds rfl
      (by simp [Update.attempt]), hfull]
    exact ⟨rfl, by simp [KeyValue.Action.run, hlive]⟩

end OmniaBackends.Nats
