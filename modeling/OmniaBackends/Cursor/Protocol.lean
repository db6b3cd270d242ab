import OmniaBackends.Foundation.BigEndian

/-!
# Frames of a run stream

`FrameStream`, `RunStream`, `envelope` and `decode_frame` of `crates/cursor/src/protocol.rs`. A body
comes in chunks that are cut anywhere; a frame is its flags, the length of its payload and the
payload. Frames are taken off the front of what is buffered, and messages off the frames.

However a body is cut, the frames on it are read one after the other and then its end, or where it
is cut short (`yields_frames`); and the messages up to the frame that closes the stream are read in
their order (`RunStream.yields_messages`).
-/

set_option autoImplicit false
set_option relaxedAutoImplicit false

namespace OmniaBackends.Cursor.Protocol

open Foundation

/-! ### Frames -/

/-- `COMPRESSED`. -/
def COMPRESSED : UInt8 := 0x01

/-- `END_STREAM`. -/
def END_STREAM : UInt8 := 0x02

/-- `Frame`. -/
structure Frame where
  flags : UInt8
  payload : Bytes
  deriving DecidableEq, Repr

/-- `Frame::is_end_stream`. -/
def Frame.isEndStream (frame : Frame) : Bool :=
  frame.flags &&& END_STREAM ≠ 0

/-- Connect's error object, without its details. -/
structure ConnectStatus where
  code : Bytes
  message : Bytes
  deriving DecidableEq, Repr

/-- Why a stream fails. -/
inductive StreamError where
  | compressed
  /-- The body has ended within a frame, so much of it buffered. -/
  | truncated (buffered : ℕ)
  | transport
  | connect (status : ConnectStatus)
  /-- A message is too long for a frame. -/
  | tooLong (length : ℕ)
  deriving DecidableEq, Repr

/-- `envelope`, of a message that has been encoded. -/
def envelope (request : Bytes) : Except StreamError Bytes :=
  if request.length < 2 ^ 32 then .ok (0 :: bigEndian 4 request.length ++ request)
  else .error (.tooLong request.length)

/-- `decode_frame`, with what it leaves of the buffer. -/
def decodeFrame (buffer : Bytes) : Except StreamError (Option Frame) × Bytes :=
  match buffer with
  | flags :: first :: second :: third :: fourth :: rest =>
    if flags &&& COMPRESSED ≠ 0 then (.error .compressed, buffer)
    else
      let length := ofBigEndian [first, second, third, fourth]
      if rest.length < length then (.ok none, buffer)
      else (.ok (some ⟨flags, rest.take length⟩), rest.drop length)
  | _ => (.ok none, buffer)

/-- What a body comes in: data, or trailers. -/
inductive Chunk where
  | data (bytes : Bytes)
  | trailers
  deriving DecidableEq, Repr

/-- The data of a chunk. -/
def Chunk.bytes : Chunk → Bytes
  | .data bytes => bytes
  | .trailers => []

/-- `FrameStream`: what is buffered, and what the body still has, which may break. -/
structure FrameStream where
  buffer : Bytes
  body : List (Except Unit Chunk)
  deriving DecidableEq

/-- What is made of a try to take a frame: the next step is to `wait` where there is none. -/
def FrameStream.taken (body : List (Except Unit Chunk))
    (wait : Bytes → Except StreamError (Option Frame) × FrameStream) :
    Except StreamError (Option Frame) × Bytes → Except StreamError (Option Frame) × FrameStream
  | (.error error, buffer) => (.error error, ⟨buffer, body⟩)
  | (.ok (some frame), buffer) => (.ok (some frame), ⟨buffer, body⟩)
  | (.ok none, buffer) => wait buffer

/-- The loop of `FrameStream::next`, a chunk at a time. -/
def FrameStream.nextFrom : List (Except Unit Chunk) → Bytes →
    Except StreamError (Option Frame) × FrameStream
  | [], buffer => taken [] (fun buffer ↦
      if buffer.isEmpty then (.ok none, ⟨buffer, []⟩)
      else (.error (.truncated buffer.length), ⟨buffer, []⟩)) (decodeFrame buffer)
  | chunk :: body, buffer => taken (chunk :: body) (fun buffer ↦
      match chunk with
      | .error () => (.error .transport, ⟨buffer, body⟩)
      | .ok chunk => nextFrom body (buffer ++ chunk.bytes)) (decodeFrame buffer)

/-- `FrameStream::next`. -/
def FrameStream.next (stream : FrameStream) : Except StreamError (Option Frame) × FrameStream :=
  nextFrom stream.body stream.buffer

/-- The bytes that a body has. -/
def dataOf (body : List (Except Unit Chunk)) : Bytes :=
  body.flatMap fun chunk ↦ match chunk with
    | .ok chunk => chunk.bytes
    | .error () => []

/-- The bytes that a stream has not been read of. -/
def FrameStream.left (stream : FrameStream) : Bytes :=
  stream.buffer ++ dataOf stream.body

/-- Either a frame is taken off, or nothing is. -/
theorem decodeFrame_cases (buffer : Bytes) :
    (∃ frame rest, decodeFrame buffer = (.ok (some frame), rest) ∧ rest.length < buffer.length) ∨
      ∃ result, decodeFrame buffer = (result, buffer) ∧ ∀ frame, result ≠ .ok (some frame) := by
  unfold decodeFrame
  split
  next flags first second third fourth rest =>
    by_cases hflags : flags &&& COMPRESSED ≠ 0
    · rw [if_pos hflags]
      exact Or.inr ⟨_, rfl, fun _ h ↦ by cases h⟩
    · rw [if_neg hflags]
      by_cases hlength : rest.length < ofBigEndian [first, second, third, fourth]
      · exact Or.inr ⟨_, if_pos hlength, fun _ h ↦ by cases h⟩
      · refine Or.inl ⟨_, _, if_neg hlength, ?_⟩
        rw [List.length_drop]
        simp only [List.length_cons]
        omega
  next => exact Or.inr ⟨_, rfl, fun _ h ↦ by cases h⟩

theorem decodeFrame_of_ok_none {buffer rest : Bytes}
    (hdecode : decodeFrame buffer = (.ok none, rest)) :
    rest = buffer := by
  rcases decodeFrame_cases buffer with ⟨frame, _, hframe, -⟩ | ⟨_, hnone, -⟩
  · rw [hdecode] at hframe
    cases (Prod.mk.inj hframe).1
  · rw [hdecode] at hnone
    exact (Prod.mk.inj hnone).2

theorem length_lt_of_decodeFrame {buffer rest : Bytes} {frame : Frame}
    (hdecode : decodeFrame buffer = (.ok (some frame), rest)) : rest.length < buffer.length := by
  rcases decodeFrame_cases buffer with ⟨_, _, hframe, hlt⟩ | ⟨_, hnone, hresult⟩
  · rw [hdecode] at hframe
    rwa [(Prod.mk.inj hframe).2]
  · rw [hdecode] at hnone
    exact absurd (Prod.mk.inj hnone).1.symm (hresult frame)

/-- A frame that is read leaves less of the stream. -/
theorem FrameStream.left_next_lt {stream : FrameStream} {frame : Frame}
    (hframe : stream.next.1 = .ok (some frame)) :
    stream.next.2.left.length < stream.left.length := by
  obtain ⟨buffer, body⟩ := stream
  unfold next left at *
  dsimp only at *
  induction body generalizing buffer with
  | nil =>
    rcases hdecode : decodeFrame buffer with ⟨_ | _ | _, rest⟩
    · rw [nextFrom, hdecode] at hframe
      cases hframe
    · rw [nextFrom, hdecode] at hframe
      simp only [taken] at hframe
      split_ifs at hframe
      cases hframe
    · rw [nextFrom, hdecode]
      have hlt := length_lt_of_decodeFrame hdecode
      simp only [taken, List.length_append]
      omega
  | cons chunk body ih =>
    rcases hdecode : decodeFrame buffer with ⟨_ | _ | _, rest⟩
    · rw [nextFrom, hdecode] at hframe
      cases hframe
    · obtain rfl := decodeFrame_of_ok_none hdecode
      rw [nextFrom, hdecode] at hframe ⊢
      cases chunk with
      | error _ => cases hframe
      | ok chunk =>
        have hless := ih (rest ++ chunk.bytes) hframe
        refine hless.trans_eq ?_
        simp only [dataOf, List.flatMap_cons, List.append_assoc]
    · rw [nextFrom, hdecode]
      have hlt := length_lt_of_decodeFrame hdecode
      simp only [taken, List.length_append]
      omega

/-! ### Messages -/

/-- `RunStreamMessage`. -/
structure RunStreamMessage (Event Outcome : Type) where
  sdkMessage : Option Event
  result : Option Outcome
  done : Bool
  offset : Bool
  deriving DecidableEq

variable {Event Outcome : Type}

/-- `RunStreamMessage::is_keepalive`. -/
def RunStreamMessage.isKeepalive (message : RunStreamMessage Event Outcome) : Bool :=
  message.sdkMessage.isNone && message.result.isNone && !message.done && !message.offset

/-- How payloads are parsed: that of a message, and that of a closing frame, which may have an
error. -/
structure Parsers (Event Outcome : Type) where
  message : Bytes → Option (RunStreamMessage Event Outcome)
  endStream : Bytes → Option (Option ConnectStatus)

/-- `RpcError::end_stream`: an unparsable end frame is a clean end. -/
def Parsers.ending (parsers : Parsers Event Outcome) (payload : Bytes) : Option StreamError :=
  ((parsers.endStream payload).getD none).map .connect

/-- `RunStream::next`. -/
def RunStream.next (parsers : Parsers Event Outcome) (stream : FrameStream) :
    Except StreamError (Option (RunStreamMessage Event Outcome)) × FrameStream :=
  match _hread : stream.next with
  | (.error error, rest) => (.error error, rest)
  | (.ok none, rest) => (.ok none, rest)
  | (.ok (some frame), rest) =>
    if frame.isEndStream then
      ((parsers.ending frame.payload).elim (.ok none) .error, rest)
    else
      match parsers.message frame.payload with
      | none => next parsers rest
      | some message =>
        if message.isKeepalive then next parsers rest else (.ok (some message), rest)
termination_by stream.left.length
decreasing_by
  all_goals
    have hless := FrameStream.left_next_lt (congrArg Prod.fst _hread)
    rwa [_hread] at hless

/-! ### What is read -/

/-- Reading again and again gives some things and then an end. -/
def Yields {Item : Type} (next : FrameStream → Except StreamError (Option Item) × FrameStream) :
    FrameStream → List Item → Except StreamError Unit → Prop
  | stream, [], ending => (next stream).1 = ending.map fun _ ↦ none
  | stream, item :: items, ending =>
    (next stream).1 = .ok (some item) ∧ Yields next (next stream).2 items ending

/-- A frame that is sent: it is not compressed, and its payload is as long as a frame may be. -/
structure Envelope where
  frame : Frame
  plain : frame.flags &&& COMPRESSED = 0
  short : frame.payload.length < 2 ^ 32

/-- The bytes of a frame that is sent. -/
def Envelope.wire (envelope : Envelope) : Bytes :=
  envelope.frame.flags :: bigEndian 4 envelope.frame.payload.length ++ envelope.frame.payload

/-- What a body ends with after whole frames: nothing, or a part of one. -/
structure Remnant where
  bytes : Bytes
  envelope : Envelope
  prefixed : bytes <+: envelope.wire
  part : bytes ≠ envelope.wire

/-- How reading ends there. -/
def Remnant.ending (remnant : Remnant) : Except StreamError Unit :=
  if remnant.bytes = [] then .ok () else .error (.truncated remnant.bytes.length)

/-- The bytes of frames that are sent and what is left behind them. -/
def wires (envelopes : List Envelope) (remnant : Remnant) : Bytes :=
  envelopes.flatMap Envelope.wire ++ remnant.bytes

/-- A whole frame is decoded, whatever follows it. -/
theorem decodeFrame_wire (envelope : Envelope) (rest : Bytes) :
    decodeFrame (envelope.wire ++ rest) = (.ok (some envelope.frame), rest) := by
  have hlength := length_bigEndian 4 envelope.frame.payload.length
  have hread : ofBigEndian (bigEndian 4 envelope.frame.payload.length) =
      envelope.frame.payload.length :=
    ofBigEndian_bigEndian (envelope.short.trans_eq (by norm_num))
  rw [Envelope.wire]
  generalize bigEndian 4 envelope.frame.payload.length = written at hlength hread
  obtain ⟨first, second, third, fourth, rfl⟩ : ∃ first second third fourth,
      written = [first, second, third, fourth] := List.length_eq_four.mp hlength
  simp only [List.cons_append, List.nil_append, decodeFrame]
  rw [if_neg (not_not.mpr envelope.plain), hread, if_neg (by simp), List.take_left, List.drop_left]

/-- A part of a frame is none, and stays buffered. -/
theorem decodeFrame_part {part : Bytes} {envelope : Envelope} (hinitial : part <+: envelope.wire)
    (hpart : part ≠ envelope.wire) : decodeFrame part = (.ok none, part) := by
  obtain ⟨later, hlater⟩ := hinitial
  have hwire := decodeFrame_wire envelope []
  rw [List.append_nil, ← hlater] at hwire
  unfold decodeFrame
  split
  next flags first second third fourth rest =>
    simp only [List.cons_append, decodeFrame] at hwire
    by_cases hflags : flags &&& COMPRESSED ≠ 0
    · rw [if_pos hflags] at hwire
      cases (Prod.mk.inj hwire).1
    · rw [if_neg hflags] at hwire ⊢
      refine if_pos (lt_of_not_ge fun hlong ↦ hpart ?_)
      have hwhole : ¬(rest ++ later).length < ofBigEndian [first, second, third, fourth] := by
        rw [List.length_append]
        omega
      rw [if_neg hwhole] at hwire
      have hnil := (Prod.mk.inj hwire).2
      rw [List.drop_eq_nil_iff, List.length_append] at hnil
      have hempty : later = [] := List.length_eq_zero_iff.mp (by omega)
      rw [hempty, List.append_nil] at hlater
      exact hlater
  next => rfl

/-- A whole frame that is buffered is the next one. -/
theorem nextFrom_of_decodeFrame {buffer rest : Bytes} {frame : Frame}
    (body : List (Except Unit Chunk)) (hdecode : decodeFrame buffer = (.ok (some frame), rest)) :
    FrameStream.nextFrom body buffer = (.ok (some frame), ⟨rest, body⟩) := by
  cases body <;> rw [FrameStream.nextFrom, hdecode] <;> rfl

/-- A frame at the front of a stream is the next one. -/
theorem next_wire {buffer rest : Bytes} {chunks : List Chunk} (envelope : Envelope)
    (hleft : buffer ++ chunks.flatMap Chunk.bytes = envelope.wire ++ rest) :
    ∃ (buffer' : Bytes) (chunks' : List Chunk), FrameStream.next ⟨buffer, chunks.map .ok⟩ =
      (.ok (some envelope.frame), ⟨buffer', chunks'.map .ok⟩) ∧
        buffer' ++ chunks'.flatMap Chunk.bytes = rest := by
  unfold FrameStream.next
  dsimp only
  have hbuffered (buffer behind : Bytes) (chunks : List Chunk)
      (hbuffer : buffer = envelope.wire ++ behind)
      (hrest : rest = behind ++ chunks.flatMap Chunk.bytes) :
      ∃ (buffer' : Bytes) (chunks' : List Chunk), FrameStream.nextFrom (chunks.map .ok) buffer =
        (.ok (some envelope.frame), ⟨buffer', chunks'.map .ok⟩) ∧
          buffer' ++ chunks'.flatMap Chunk.bytes = rest :=
    ⟨behind, chunks, nextFrom_of_decodeFrame _ (hbuffer ▸ decodeFrame_wire envelope behind),
      hrest.symm⟩
  induction chunks generalizing buffer with
  | nil =>
    refine hbuffered buffer rest [] ?_ (List.append_nil rest).symm
    rw [← hleft]
    exact (List.append_nil buffer).symm
  | cons chunk chunks ih =>
    rcases List.append_eq_append_iff.mp hleft with ⟨more, hwire, hrest⟩ | ⟨behind, hbuffer, hrest⟩
    · by_cases hmore : more = []
      · subst hmore
        exact hbuffered buffer [] _ (by rw [hwire, List.append_nil, List.append_nil]) hrest.symm
      · have hpart : buffer ≠ envelope.wire := fun heq ↦
          hmore (List.self_eq_append_right.mp (heq.trans hwire))
        rw [List.map_cons, FrameStream.nextFrom, decodeFrame_part ⟨more, hwire.symm⟩ hpart]
        refine ih ?_
        rw [List.append_assoc, ← List.flatMap_cons]
        exact hleft
    · exact hbuffered buffer behind _ hbuffer hrest

/-- A stream that has no whole frame left ends. -/
theorem next_remnant {buffer : Bytes} {chunks : List Chunk} (remnant : Remnant)
    (hleft : buffer ++ chunks.flatMap Chunk.bytes = remnant.bytes) :
    (FrameStream.next ⟨buffer, chunks.map .ok⟩).1 = remnant.ending.map fun _ ↦ none := by
  unfold FrameStream.next
  dsimp only
  have hdecode {buffer : Bytes} (hbuffer : buffer <+: remnant.bytes) :
      decodeFrame buffer = (.ok none, buffer) := by
    refine decodeFrame_part (hbuffer.trans remnant.prefixed) fun heq ↦ remnant.part ?_
    exact remnant.prefixed.eq_of_length_le (heq ▸ hbuffer.length_le)
  induction chunks generalizing buffer with
  | nil =>
    obtain rfl : buffer = remnant.bytes := (List.append_nil buffer).symm.trans hleft
    rw [List.map_nil, FrameStream.nextFrom, hdecode (List.prefix_refl _), Remnant.ending]
    simp only [FrameStream.taken, List.isEmpty_iff]
    split_ifs <;> rfl
  | cons chunk chunks ih =>
    rw [List.map_cons, FrameStream.nextFrom, hdecode ⟨_, hleft⟩]
    refine ih ?_
    rw [List.append_assoc, ← List.flatMap_cons]
    exact hleft

/-- However a body is cut into chunks, the frames on it are read in order, and then its end. -/
theorem yields_frames (buffer : Bytes) (chunks : List Chunk) (envelopes : List Envelope)
    (remnant : Remnant) (hleft : buffer ++ chunks.flatMap Chunk.bytes = wires envelopes remnant) :
    Yields FrameStream.next ⟨buffer, chunks.map .ok⟩ (envelopes.map Envelope.frame)
      remnant.ending := by
  induction envelopes generalizing buffer chunks with
  | nil => exact next_remnant remnant hleft
  | cons envelope envelopes ih =>
    rw [wires, List.flatMap_cons, List.append_assoc] at hleft
    obtain ⟨buffer', chunks', hnext, hrest⟩ := next_wire envelope hleft
    rw [List.map_cons, Yields, hnext]
    exact ⟨rfl, ih buffer' chunks' hrest⟩

/-! ### Messages -/

/-- The messages on frames: those that parse and are no keepalives, before the frame that closes. -/
def messagesOf (parsers : Parsers Event Outcome) (frames : List Frame) :
    List (RunStreamMessage Event Outcome) :=
  (frames.takeWhile fun frame ↦ !frame.isEndStream).filterMap fun frame ↦
    (parsers.message frame.payload).filter fun message ↦ !message.isKeepalive

/-- How messages on frames end: as the frame that closes says, or as the frames do. -/
def endingOf (parsers : Parsers Event Outcome) (frames : List Frame)
    (ending : Except StreamError Unit) : Except StreamError Unit :=
  match frames.find? Frame.isEndStream with
  | some frame => (parsers.ending frame.payload).elim (.ok ()) .error
  | none => ending

variable {parsers : Parsers Event Outcome} {stream rest : FrameStream} {frame : Frame}

/-- What is read depends on the next thing alone. -/
theorem Yields.congr {Item : Type}
    {next : FrameStream → Except StreamError (Option Item) × FrameStream} {items : List Item}
    {ending : Except StreamError Unit} (hsame : next stream = next rest) :
    Yields next stream items ending ↔ Yields next rest items ending := by
  cases items <;> rw [Yields, Yields, hsame]

/-- What is made of the next frame. -/
def RunStream.handled (parsers : Parsers Event Outcome) (frame : Frame) (rest : FrameStream) :
    Except StreamError (Option (RunStreamMessage Event Outcome)) × FrameStream :=
  if frame.isEndStream then ((parsers.ending frame.payload).elim (.ok none) .error, rest)
  else
    match parsers.message frame.payload with
    | none => next parsers rest
    | some message => if message.isKeepalive then next parsers rest else (.ok (some message), rest)

theorem RunStream.next_of_ok_some (parsers : Parsers Event Outcome)
    (hread : stream.next = (.ok (some frame), rest)) :
    RunStream.next parsers stream = RunStream.handled parsers frame rest := by
  rw [RunStream.next]
  split <;> rename_i hgiven <;> rw [hread] at hgiven
  · cases (Prod.mk.inj hgiven).1
  · cases (Prod.mk.inj hgiven).1
  · obtain ⟨hframe, rfl⟩ := Prod.mk.inj hgiven
    obtain rfl := Option.some.inj (Except.ok.inj hframe)
    rfl

/-- Where no frame is next, no message is. -/
theorem RunStream.next_of_ending {ending : Except StreamError Unit}
    (hread : stream.next.1 = ending.map fun _ ↦ none) :
    (RunStream.next parsers stream).1 = ending.map fun _ ↦ none := by
  rw [RunStream.next]
  split <;> rename_i hgiven <;> rw [hgiven] at hread
  · cases ending with
    | error _ => rw [Except.error.inj hread]; rfl
    | ok _ => cases hread
  · cases ending with
    | error _ => cases hread
    | ok _ => rfl
  · cases ending with
    | error _ => cases hread
    | ok _ => cases Except.ok.inj hread

/-- The messages on the frames of a stream are read in order, up to the frame that closes it. -/
theorem RunStream.yields_of_yields {frames : List Frame} {ending : Except StreamError Unit}
    (hframes : Yields FrameStream.next stream frames ending) :
    Yields (RunStream.next parsers) stream (messagesOf parsers frames)
      (endingOf parsers frames ending) := by
  induction frames generalizing stream with
  | nil => exact next_of_ending hframes
  | cons frame frames ih =>
    obtain ⟨hframe, hrest⟩ := hframes
    obtain ⟨result, rest, hread⟩ : ∃ result rest, stream.next = (result, rest) := ⟨_, _, rfl⟩
    rw [hread] at hframe hrest
    obtain rfl : result = .ok (some frame) := hframe
    have hnext := next_of_ok_some parsers hread
    by_cases hend : frame.isEndStream = true
    · have hmessages : messagesOf parsers (frame :: frames) = [] := by
        rw [messagesOf, List.takeWhile_cons_of_neg (by simp [hend])]
        rfl
      have hending : endingOf parsers (frame :: frames) ending =
          (parsers.ending frame.payload).elim (.ok ()) .error := by
        rw [endingOf, List.find?_cons_of_pos hend]
      rw [hmessages, hending, Yields, hnext, handled, if_pos hend]
      cases parsers.ending frame.payload <;> rfl
    · have hending : endingOf parsers (frame :: frames) ending =
          endingOf parsers frames ending := by
        rw [endingOf, List.find?_cons_of_neg hend]
        rfl
      have htake : (frame :: frames).takeWhile (fun frame ↦ !frame.isEndStream) =
          frame :: frames.takeWhile fun frame ↦ !frame.isEndStream :=
        List.takeWhile_cons_of_pos (by simp [hend])
      rw [handled, if_neg hend] at hnext
      rw [hending]
      cases hparse : parsers.message frame.payload with
      | none =>
        have hmessages : messagesOf parsers (frame :: frames) = messagesOf parsers frames := by
          rw [messagesOf, htake, List.filterMap_cons_none (by rw [hparse]; rfl)]
          rfl
        rw [hparse] at hnext
        rw [hmessages, Yields.congr hnext]
        exact ih hrest
      | some message =>
        rw [hparse] at hnext
        by_cases hkeep : message.isKeepalive = true
        · have hmessages : messagesOf parsers (frame :: frames) = messagesOf parsers frames := by
            rw [messagesOf, htake, List.filterMap_cons_none (by simp [hparse, hkeep])]
            rfl
          simp only [hkeep, if_true] at hnext
          rw [hmessages, Yields.congr hnext]
          exact ih hrest
        · have hkept : ((parsers.message frame.payload).filter fun message ↦ !message.isKeepalive) =
              some message := by
            simp [hparse, hkeep]
          have hmessages : messagesOf parsers (frame :: frames) =
              message :: messagesOf parsers frames := by
            rw [messagesOf, htake, List.filterMap_cons, hkept]
            rfl
          simp only [hkeep] at hnext
          rw [hmessages, Yields, hnext]
          exact ⟨rfl, ih hrest⟩

/-- A message that is enveloped is a frame without flags. -/
theorem envelope_eq_ok_iff {request wire : Bytes} : envelope request = .ok wire ↔
    ∃ sent : Envelope, sent.frame = ⟨0, request⟩ ∧ wire = sent.wire := by
  rw [envelope]
  split_ifs with hlength
  · constructor
    · intro hwire
      have hplain : (0 : UInt8) &&& COMPRESSED = 0 := by decide
      exact ⟨⟨⟨0, request⟩, hplain, hlength⟩, rfl, (Except.ok.inj hwire).symm⟩
    · rintro ⟨sent, hsent, rfl⟩
      rw [Envelope.wire, hsent]
  · constructor
    · intro hwire
      cases hwire
    · rintro ⟨sent, hsent, -⟩
      have hshort := sent.short
      rw [hsent] at hshort
      exact absurd hshort hlength

/-- However the bytes of frames are cut into chunks, the frames are read in order and then the end,
where they are whole, or that they are cut short; on them the messages up to the frame that closes.
Until a frame is whole nothing of it is taken. -/
theorem reads_however_cut (parsers : Parsers Event Outcome) (envelopes : List Envelope)
    (remnant : Remnant) (chunks : List Chunk)
    (hchunks : chunks.flatMap Chunk.bytes = wires envelopes remnant) :
    Yields FrameStream.next ⟨[], chunks.map .ok⟩ (envelopes.map Envelope.frame) remnant.ending ∧
      Yields (RunStream.next parsers) ⟨[], chunks.map .ok⟩
        (messagesOf parsers (envelopes.map Envelope.frame))
        (endingOf parsers (envelopes.map Envelope.frame) remnant.ending) ∧
      decodeFrame remnant.bytes = (.ok none, remnant.bytes) ∧
      ∀ buffer, (∀ frame, (decodeFrame buffer).1 ≠ .ok (some frame)) →
        (decodeFrame buffer).2 = buffer := by
  have hframes := yields_frames [] chunks envelopes remnant hchunks
  refine ⟨hframes, RunStream.yields_of_yields hframes,
    decodeFrame_part remnant.prefixed remnant.part, fun buffer hnone ↦ ?_⟩
  rcases decodeFrame_cases buffer with ⟨frame, _, hframe, -⟩ | ⟨_, hresult, -⟩
  · exact absurd (congrArg Prod.fst hframe) (hnone frame)
  · rw [hresult]

/-- A message and the frame that closes, cut within a header and within a payload. -/
theorem reads_message_and_end :
    Yields (RunStream.next ⟨fun payload ↦ some ⟨some payload, none, false, false⟩, fun _ ↦ none⟩)
      ⟨[], [.data [0, 0, 0], .data [], .data [0, 2, 1], .trailers,
        .data [2, 2, 0, 0, 0, 0, 0, 0]].map .ok⟩
      [(⟨some [1, 2], none, false, false⟩ : RunStreamMessage Bytes Unit)] (.ok ()) :=
  (reads_however_cut ⟨fun payload ↦ some ⟨some payload, none, false, false⟩, fun _ ↦ none⟩
    [⟨⟨0, [1, 2]⟩, by decide, by decide⟩, ⟨⟨2, []⟩, by decide, by decide⟩]
    ⟨[0, 0], ⟨⟨0, []⟩, by decide, by decide⟩, by decide, by decide⟩
    [.data [0, 0, 0], .data [], .data [0, 2, 1], .trailers, .data [2, 2, 0, 0, 0, 0, 0, 0]]
    (by decide)).2.1

end OmniaBackends.Cursor.Protocol
