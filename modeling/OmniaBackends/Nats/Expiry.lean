import OmniaBackends.Nats.KeyValue

/-!
# The expiry of a key that is written again

A key is set with a time to live and then written by successful `increment` and `cas` calls. Each of
them carries over what is left of the time in whole seconds, one at the least, and counts them from
its own write. The server leaves its marker the moment a message's time has run out.

What a call carries over is the seconds it read less the time since the write before it, rounded up
(`carried`). The cut of each call adds up, and so does the second that a call near the end adds. The
key keeps its expiry within a second exactly where every call reads it live and what has added up
stays within a second (`Steady`), and ten seconds are cut by more than one after three calls
(`expiry_drifts`).
-/

set_option autoImplicit false
set_option relaxedAutoImplicit false

namespace OmniaBackends.Nats

open Foundation KeyValue

/-- A successful call on a key: the time from the write before it to its read, and from its read to
its write. -/
structure Write where
  update : Update
  idle : ℕ
  latency : ℕ
  deriving DecidableEq, Repr

namespace Stream

/-- Time passes, and the server leaves its marker where the time of a key has run out. -/
def wait (stream : Stream) (key : Bytes) (duration : ℕ) : Stream :=
  (stream.advance duration).sweep key

/-- A call reads and writes; `none` where it does not succeed. -/
def perform (stream : Stream) (key : Bytes) (write : Write) : Option Stream :=
  let read := stream.wait key write.idle
  match write.update.attempt (read.snapshot key) with
  | .write payload =>
    (read.wait key write.latency).publish key payload (some (read.snapshot key).revision)
      (read.snapshot key).ttl
  | _ => none

/-- The stream after calls that all succeed. -/
def replay (stream : Stream) (key : Bytes) : List Write → Option Stream
  | [] => some stream
  | write :: writes => (stream.perform key write).bind fun after ↦ after.replay key writes

/-- The stream at a moment of these calls. -/
def atMoment (stream : Stream) (key : Bytes) : List Write → ℕ → Option Stream
  | [], moment => some (stream.wait key (moment - stream.now))
  | write :: writes, moment =>
    if moment < stream.now + write.idle + write.latency then
      some (stream.wait key (moment - stream.now))
    else (stream.perform key write).bind fun after ↦ after.atMoment key writes moment

/-- Whether a key reads as live. -/
def live (stream : Stream) (key : Bytes) : Bool :=
  (stream.snapshot key).value.isSome

end Stream

/-- A key set with `ttl` on `stream` and written by `writes` is live until a second before its time,
and absent from a second after it. -/
def KeepsExpiry (stream : Stream) (key value : Bytes) (ttl : ℕ) (writes : List Write) : Prop :=
  ∀ moment state, stream.now ≤ moment →
    (stream.set key value (some ttl)).atMoment key writes moment = some state →
      (moment + second < stream.now + ttl → state.live key = true) ∧
        (stream.now + ttl + second < moment → state.live key = false)

/-- A time in seconds, rounded up. -/
def ceilSeconds (duration : ℕ) : ℕ :=
  (duration + second - 1) / second

/-- The seconds a key has from its last write. -/
def carried (ttl : ℕ) (writes : List Write) : ℕ :=
  max (ttl / second - (writes.map fun write ↦ ceilSeconds write.idle).sum) 1

/-- The time from the set to the last write. -/
def elapsed (writes : List Write) : ℕ :=
  (writes.map fun write ↦ write.idle + write.latency).sum

/-- Every call comes within the seconds that the calls before it have carried over, and the seconds
left after the last one end within one second of the key's time. -/
def Steady (ttl : ℕ) (writes : List Write) : Prop :=
  (∀ before write after, writes = before ++ write :: after →
    write.idle < carried ttl before * second) ∧
  ttl ≤ elapsed writes + carried ttl writes * second + second ∧
  elapsed writes + carried ttl writes * second ≤ ttl + second + 1

variable {stream after state : Stream} {key value : Bytes} {ttl seconds duration moment : ℕ}
variable {write : Write} {writes : List Write}

/-! ### A key that has just been written -/

/-- The last message of a key is a put of this moment with that many seconds. -/
structure Written (stream : Stream) (key : Bytes) (seconds : Option ℕ) : Prop where
  put : ∃ message, stream.last key = some message ∧ message.isPut = true ∧
    message.ttl = seconds ∧ message.stored = stream.now ∧ message.sequence = stream.sequence

theorem Written.set (stream : Stream) (key value : Bytes) (ttl : Option ℕ) :
    Written (stream.set key value ttl) key (ttl.map fun ttl ↦ max (ttl / second) 1) :=
  ⟨_, last_store_self, rfl, rfl, rfl, rfl⟩

/-- While its seconds last, a key is live with what is left of them. -/
theorem Written.wait_lt (hwritten : Written stream key (some seconds))
    (hduration : duration < seconds * second) :
    stream.wait key duration = stream.advance duration ∧
      ((stream.wait key duration).snapshot key).value.isSome = true ∧
      ((stream.wait key duration).snapshot key).ttl = some (seconds * second - duration) := by
  obtain ⟨message, hlast, hput, httl, hstored, -⟩ := hwritten
  have hpassed : stream.now + duration - stream.now = duration := Nat.add_sub_cancel_left _ _
  have hleft : seconds * second - duration ≠ 0 := by omega
  have hwait : stream.wait key duration = stream.advance duration := by
    have hexpired : (stream.advance duration).expired key = false := by
      simp [Stream.expired, hlast, hput, Message.remainingTtl, httl, hstored, hpassed, hleft]
    simp [Stream.wait, Stream.sweep, hexpired]
  rw [hwait]
  refine ⟨rfl, ?_, ?_⟩ <;>
    simp [Stream.snapshot, hlast, hput, Message.remainingTtl, httl, hstored, hpassed, hleft]

/-- Once its seconds have passed, a key is absent. -/
theorem Written.wait_ge (hwritten : Written stream key (some seconds))
    (hduration : seconds * second ≤ duration) :
    ((stream.wait key duration).snapshot key).value = none ∧
      ((stream.wait key duration).snapshot key).ttl = none ∧
      (stream.wait key duration).revision key ≠ stream.revision key := by
  obtain ⟨message, hlast, hput, httl, hstored, hsequence⟩ := hwritten
  have hpassed : stream.now + duration - stream.now = duration := Nat.add_sub_cancel_left _ _
  have hleft : seconds * second - duration = 0 := by omega
  have hexpired : (stream.advance duration).expired key = true := by
    simp [Stream.expired, hlast, hput, Message.remainingTtl, httl, hstored, hpassed, hleft]
  have hwait : stream.wait key duration =
      (stream.advance duration).store key [] (some markerTtl) (some (text "MaxAge")) none := by
    simp [Stream.wait, Stream.sweep, hexpired]
  rw [hwait]
  refine ⟨?_, ?_, ?_⟩
  · simp [Stream.snapshot, Message.isPut]
  · simp [Stream.snapshot, Message.isPut]
  · simp [Stream.revision, hlast, hsequence, Stream.advance]

/-- A key without a time to live is live, and has none. -/
theorem Written.wait_forever (hwritten : Written stream key none) (duration : ℕ) :
    stream.wait key duration = stream.advance duration ∧
      ((stream.wait key duration).snapshot key).value.isSome = true ∧
      ((stream.wait key duration).snapshot key).ttl = none := by
  obtain ⟨message, hlast, hput, httl, hstored, -⟩ := hwritten
  have hwait : stream.wait key duration = stream.advance duration := by
    have hexpired : (stream.advance duration).expired key = false := by
      simp [Stream.expired, hlast, Message.remainingTtl, httl]
    simp [Stream.wait, Stream.sweep, hexpired]
  rw [hwait]
  refine ⟨rfl, ?_, ?_⟩ <;> simp [Stream.snapshot, hlast, hput, Message.remainingTtl, httl]

theorem advance_advance (first second : ℕ) :
    (stream.advance first).advance second = stream.advance (first + second) := by
  simp [Stream.advance, Nat.add_assoc]

/-- A call that succeeds has published what it made of its snapshot. -/
theorem of_perform (hperform : stream.perform key write = some after) :
    ∃ payload, ((stream.wait key write.idle).snapshot key).revision =
        ((stream.wait key write.idle).wait key write.latency).revision key ∧
      after = ((stream.wait key write.idle).wait key write.latency).set key payload
        ((stream.wait key write.idle).snapshot key).ttl := by
  unfold Stream.perform at hperform
  cases hattempt : write.update.attempt ((stream.wait key write.idle).snapshot key) with
  | write payload =>
    simp only [hattempt] at hperform
    obtain ⟨hrevision, hafter⟩ := of_publish hperform
    exact ⟨payload, hrevision _ rfl, hafter⟩
  | refuse | conflict => simp [hattempt] at hperform

/-- When a call has written. -/
theorem now_of_perform (hperform : stream.perform key write = some after) :
    after.now = stream.now + write.idle + write.latency := by
  obtain ⟨payload, -, rfl⟩ := of_perform hperform
  simp [Stream.set, Stream.wait]

/-- A call that reads a key live writes while it is, and carries over what is left in seconds. -/
theorem Written.perform_lt (hwritten : Written stream key (some seconds))
    (hidle : write.idle < seconds * second) (hperform : stream.perform key write = some after) :
    write.idle + write.latency < seconds * second ∧
      Written after key (some (max ((seconds * second - write.idle) / second) 1)) := by
  obtain ⟨hread, -, hleft⟩ := hwritten.wait_lt hidle
  obtain ⟨payload, hrevision, rfl⟩ := of_perform hperform
  rw [revision_snapshot, hread, Stream.wait, advance_advance, ← Stream.wait] at hrevision
  refine ⟨?_, ?_⟩
  · by_contra hlate
    exact (hwritten.wait_ge (Nat.le_of_not_lt hlate)).2.2 hrevision.symm
  · rw [hleft]
    exact .set _ _ _ _

/-- A call that reads an expired key writes it without a time to live. -/
theorem Written.perform_ge (hwritten : Written stream key (some seconds))
    (hidle : seconds * second ≤ write.idle) (hperform : stream.perform key write = some after) :
    Written after key none := by
  obtain ⟨payload, -, rfl⟩ := of_perform hperform
  rw [(hwritten.wait_ge hidle).2.1]
  exact .set _ _ _ _

/-- So does every call after that. -/
theorem Written.perform_forever (hwritten : Written stream key none)
    (hperform : stream.perform key write = some after) : Written after key none := by
  obtain ⟨payload, -, rfl⟩ := of_perform hperform
  rw [(hwritten.wait_forever write.idle).2.2]
  exact .set _ _ _ _

/-! ### What calls carry over -/

/-- What is left of some seconds, in seconds, is what they were less the time passed rounded up. -/
theorem left_div (seconds idle : ℕ) :
    (seconds * second - idle) / second = seconds - ceilSeconds idle := by
  unfold ceilSeconds
  have hpos := second_pos
  cases idle with
  | zero =>
    have hless : 0 + second - 1 < second := by omega
    rw [Nat.sub_zero, Nat.mul_div_cancel _ hpos, Nat.div_eq_of_lt hless, Nat.sub_zero]
  | succ idle =>
    have hceil : (idle + 1 + second - 1) / second = idle / second + 1 := by
      rw [show idle + 1 + second - 1 = idle + second by omega, Nat.add_div_right _ hpos]
    rw [hceil]
    by_cases hidle : idle < second * seconds
    · rw [Nat.mul_comm, Nat.mul_sub_div _ _ _ hidle]
    · have hlong : seconds ≤ idle / second :=
        (Nat.le_div_iff_mul_le hpos).mpr (by rw [Nat.mul_comm]; omega)
      rw [Nat.sub_eq_zero_of_le (by rw [Nat.mul_comm]; omega), Nat.zero_div,
        Nat.sub_eq_zero_of_le (by omega)]

/-- The seconds a key has from a call's write, of those it had from the write before. -/
theorem carried_cons (ttl : ℕ) (write : Write) (writes : List Write) :
    carried ttl (write :: writes) =
      carried ((carried ttl [write]) * second) writes := by
  have hone : carried ttl [write] = max (ttl / second - ceilSeconds write.idle) 1 := by
    simp only [carried, List.map_cons, List.map_nil, List.sum_singleton]
  rw [carried, carried, Nat.mul_div_cancel _ second_pos, hone, List.map_cons, List.sum_cons]
  generalize ttl / second = seconds
  generalize ceilSeconds write.idle = cut
  generalize (writes.map fun write ↦ ceilSeconds write.idle).sum = rest
  omega

/-- The seconds of a key that nothing was written to since. -/
theorem carried_nil (hseconds : 1 ≤ seconds) : carried (seconds * second) [] = seconds := by
  rw [carried, Nat.mul_div_cancel _ second_pos, List.map_nil, List.sum_nil, Nat.sub_zero]
  exact Nat.max_eq_left hseconds

/-- What a call within the seconds leaves of them. -/
theorem carried_singleton (seconds : ℕ) (write : Write) :
    carried (seconds * second) [write] = max ((seconds * second - write.idle) / second) 1 := by
  rw [left_div, carried, Nat.mul_div_cancel _ second_pos, List.map_cons, List.map_nil,
    List.sum_singleton]

/-- Every call comes within the seconds that the calls before it have carried over. -/
def Timely (ttl : ℕ) (writes : List Write) : Prop :=
  ∀ before write after, writes = before ++ write :: after →
    write.idle < carried ttl before * second

theorem timely_nil : Timely ttl [] := by
  intro before write after hwrites
  simp at hwrites

theorem timely_cons (hseconds : 1 ≤ seconds) :
    Timely (seconds * second) (write :: writes) ↔
      write.idle < seconds * second ∧
        Timely (carried (seconds * second) [write] * second) writes := by
  constructor
  · intro htimely
    refine ⟨?_, fun before later after hwrites ↦ ?_⟩
    · simpa [carried_nil hseconds] using htimely [] write writes rfl
    · rw [← carried_cons]
      exact htimely (write :: before) later after (by rw [hwrites, List.cons_append])
  · rintro ⟨hfirst, hrest⟩ before later after hwrites
    cases before with
    | nil =>
      obtain ⟨rfl, rfl⟩ := List.cons.inj hwrites
      rwa [carried_nil hseconds]
    | cons first before =>
      obtain ⟨rfl, hrest'⟩ := List.cons.inj hwrites
      rw [carried_cons]
      exact hrest before later after hrest'

/-! ### The key at every moment -/

/-- A key without a time to live is live at every moment after its calls. -/
theorem Written.live_forever (hwritten : Written stream key none)
    (hreplay : (stream.replay key writes).isSome = true)
    (hmoment : stream.now + elapsed writes ≤ moment) :
    ∃ state, stream.atMoment key writes moment = some state ∧ state.live key = true := by
  induction writes generalizing stream with
  | nil => exact ⟨_, rfl, (hwritten.wait_forever _).2.1⟩
  | cons write writes ih =>
    obtain ⟨final, hfinal⟩ := Option.isSome_iff_exists.mp hreplay
    obtain ⟨after, hperform, hrest⟩ := Option.bind_eq_some_iff.mp hfinal
    have hnow := now_of_perform hperform
    simp only [elapsed, List.map_cons, List.sum_cons] at hmoment
    obtain ⟨state, hstate, hlive⟩ := ih (hwritten.perform_forever hperform)
      (by rw [hrest]; rfl) (by rw [hnow, elapsed]; omega)
    refine ⟨state, ?_, hlive⟩
    rw [Stream.atMoment, if_neg (by omega), hperform]
    exact hstate

/-- Where a call comes too late, the key is live at every moment from some moment on. -/
theorem Written.live_of_late (hwritten : Written stream key (some seconds)) (hseconds : 1 ≤ seconds)
    (hreplay : (stream.replay key writes).isSome = true)
    (hlate : ¬ Timely (seconds * second) writes) :
    ∃ bound, ∀ moment, bound ≤ moment →
      ∃ state, stream.atMoment key writes moment = some state ∧ state.live key = true := by
  induction writes generalizing stream seconds with
  | nil => exact absurd timely_nil hlate
  | cons write writes ih =>
    obtain ⟨final, hfinal⟩ := Option.isSome_iff_exists.mp hreplay
    obtain ⟨after, hperform, hrest⟩ := Option.bind_eq_some_iff.mp hfinal
    have hreplay' : (after.replay key writes).isSome = true := by
      rw [hrest]
      rfl
    have hnow := now_of_perform hperform
    by_cases hidle : write.idle < seconds * second
    · rw [timely_cons hseconds, not_and] at hlate
      have hafter := (hwritten.perform_lt hidle hperform).2
      rw [← carried_singleton] at hafter
      obtain ⟨bound, hbound⟩ := ih hafter (Nat.le_max_right _ _) hreplay' (hlate hidle)
      refine ⟨max bound after.now, fun moment hmoment ↦ ?_⟩
      obtain ⟨state, hstate, hlive⟩ := hbound moment (by omega)
      refine ⟨state, ?_, hlive⟩
      rw [Stream.atMoment, if_neg (by omega), hperform]
      exact hstate
    · have hafter := hwritten.perform_ge (Nat.le_of_not_lt hidle) hperform
      refine ⟨after.now + elapsed writes, fun moment hmoment ↦ ?_⟩
      obtain ⟨state, hstate, hlive⟩ := hafter.live_forever hreplay' hmoment
      refine ⟨state, ?_, hlive⟩
      rw [Stream.atMoment, if_neg (by omega), hperform]
      exact hstate

/-- Where every call comes in time, the key is live until the seconds left after the last call have
passed, and no longer. -/
theorem Written.live_iff (hwritten : Written stream key (some seconds)) (hseconds : 1 ≤ seconds)
    (hreplay : (stream.replay key writes).isSome = true)
    (htimely : Timely (seconds * second) writes) (moment : ℕ) (hmoment : stream.now ≤ moment) :
    ∃ state, stream.atMoment key writes moment = some state ∧
      (state.live key = true ↔
        moment < stream.now + elapsed writes + carried (seconds * second) writes * second) := by
  induction writes generalizing stream seconds with
  | nil =>
    refine ⟨_, rfl, ?_⟩
    rw [carried_nil hseconds]
    simp only [elapsed, List.map_nil, List.sum_nil, Nat.add_zero]
    by_cases hlive : moment - stream.now < seconds * second
    · exact iff_of_true (hwritten.wait_lt hlive).2.1 (by omega)
    · refine iff_of_false ?_ (by omega)
      rw [Stream.live, (hwritten.wait_ge (Nat.le_of_not_lt hlive)).1]
      exact Bool.false_ne_true
  | cons write writes ih =>
    obtain ⟨final, hfinal⟩ := Option.isSome_iff_exists.mp hreplay
    obtain ⟨after, hperform, hrest⟩ := Option.bind_eq_some_iff.mp hfinal
    obtain ⟨hidle, htimely⟩ := (timely_cons hseconds).mp htimely
    obtain ⟨hwrite, hafter⟩ := hwritten.perform_lt hidle hperform
    rw [← carried_singleton] at hafter
    have hnow := now_of_perform hperform
    have hone : 1 ≤ carried (seconds * second) [write] := Nat.le_max_right _ _
    rw [carried_cons]
    simp only [elapsed, List.map_cons, List.sum_cons]
    by_cases hbefore : moment < stream.now + write.idle + write.latency
    · refine ⟨stream.wait key (moment - stream.now), ?_, ?_⟩
      · rw [Stream.atMoment, if_pos hbefore]
      · exact iff_of_true (hwritten.wait_lt (by omega)).2.1 (by omega)
    · obtain ⟨state, hstate, hlive⟩ :=
        ih hafter hone (by rw [hrest]; rfl) htimely (by omega)
      refine ⟨state, ?_, ?_⟩
      · rw [Stream.atMoment, if_neg hbefore, hperform]
        exact hstate
      · rw [hlive, hnow, elapsed]
        omega

/-- A key set with a time to live of a second or more, and then written by `increment` and `cas`
calls only, keeps its expiry within a second exactly where these calls are steady. -/
theorem keepsExpiry_iff (httl : second ≤ ttl)
    (hreplay : ((stream.set key value (some ttl)).replay key writes).isSome = true) :
    KeepsExpiry stream key value ttl writes ↔ Steady ttl writes := by
  have hseconds : 1 ≤ ttl / second := (Nat.one_le_div_iff second_pos).mpr httl
  have hwritten : Written (stream.set key value (some ttl)) key (some (ttl / second)) := by
    have hset := Written.set stream key value (some ttl)
    rwa [Option.map_some, Nat.max_eq_left hseconds] at hset
  have hcarried (writes : List Write) : carried (ttl / second * second) writes =
      carried ttl writes := by
    rw [carried, carried, Nat.mul_div_cancel _ second_pos]
  have hsame : Timely (ttl / second * second) writes ↔ Timely ttl writes := by
    simp only [Timely, hcarried]
  constructor
  · intro hkeeps
    by_cases htimely : Timely ttl writes
    · have hread := hwritten.live_iff hseconds hreplay (hsame.mpr htimely)
      simp only [hcarried] at hread
      refine ⟨htimely, ?_, ?_⟩
      · by_contra hshort
        obtain ⟨state, hstate, hlive⟩ :=
          hread (stream.now + elapsed writes + carried ttl writes * second) (by
            change stream.now ≤ _
            omega)
        have hnow := (hkeeps _ state (by omega) hstate).1 (by omega)
        exact absurd (hlive.mp hnow) (Nat.lt_irrefl _)
      · by_contra hlong
        obtain ⟨state, hstate, hlive⟩ := hread (stream.now + ttl + second + 1) (by
          change stream.now ≤ _
          omega)
        have hgone := (hkeeps _ state (by omega) hstate).2 (by omega)
        have hthere := hlive.mpr (by
          change _ < stream.now + elapsed writes + _
          omega)
        simp [hgone] at hthere
    · obtain ⟨bound, hbound⟩ := hwritten.live_of_late hseconds hreplay fun h ↦ htimely (hsame.mp h)
      obtain ⟨state, hstate, hlive⟩ :=
        hbound (max bound (stream.now + ttl + second + 1)) (Nat.le_max_left _ _)
      have hgone := (hkeeps _ state (by omega) hstate).2 (by omega)
      simp [hlive] at hgone
  · rintro ⟨htimely, hlow, hhigh⟩ moment state hmoment hstate
    obtain ⟨state', hstate', hlive⟩ :=
      hwritten.live_iff hseconds hreplay (hsame.mpr htimely) moment hmoment
    obtain rfl := Option.some.inj (hstate.symm.trans hstate')
    rw [hcarried] at hlive
    change _ ↔ moment < stream.now + _ + _ at hlive
    refine ⟨fun hearly ↦ hlive.mpr (by omega), fun hlate ↦ ?_⟩
    rw [← Bool.not_eq_true, hlive]
    omega

/-- Ten seconds, and one call half a second after the set: the key keeps its expiry. -/
theorem keepsExpiry_iff_once :
    KeepsExpiry ⟨0, 0, fun _ ↦ none⟩ (text "visits") (toBeBytes 0) (10 * second)
        [⟨.increment 1, 500000000, 1000000⟩] ↔
      Steady (10 * second) [⟨.increment 1, 500000000, 1000000⟩] :=
  keepsExpiry_iff (Nat.le_mul_of_pos_left _ (by decide)) (by decide +kernel)

/-- Ten seconds, and an increment each half a second: the third has cut a second and a half, and the
key goes half a second before it may. -/
theorem expiry_drifts :
    ((⟨0, 0, fun _ ↦ none⟩ : Stream).set (text "visits") (toBeBytes 0)
        (some (10 * second))).replay (text "visits")
      (List.replicate 3 ⟨.increment 1, 500000000, 0⟩) ≠ none ∧
    ¬ KeepsExpiry ⟨0, 0, fun _ ↦ none⟩ (text "visits") (toBeBytes 0) (10 * second)
      (List.replicate 3 ⟨.increment 1, 500000000, 0⟩) := by
  refine ⟨Option.isSome_iff_ne_none.mp (by decide +kernel), fun hkeeps ↦ ?_⟩
  have hgone : (((⟨0, 0, fun _ ↦ none⟩ : Stream).set (text "visits") (toBeBytes 0)
      (some (10 * second))).atMoment (text "visits")
      (List.replicate 3 ⟨.increment 1, 500000000, 0⟩) 8500000000).map
        (Stream.live · (text "visits")) = some false := by
    decide +kernel
  obtain ⟨state, hstate, hdead⟩ := Option.map_eq_some_iff.mp hgone
  have hlive := (hkeeps 8500000000 state (Nat.zero_le _) hstate).1 (by decide +kernel)
  rw [hdead] at hlive
  exact Bool.false_ne_true hlive

end OmniaBackends.Nats
