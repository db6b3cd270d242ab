import Mathlib.Algebra.Order.Ring.Nat
import OmniaBackends.Foundation.Utf8

/-!
# Range reads of a blob

A guest reads an object from a start to an end, both counted in bytes and the end inclusive, where
an end of zero or of the greatest number means the object's end. Four backends compute the slice:
the filesystem, MongoDB and NATS read the object whole and clamp the two ends to it, and Azure Blob
translates them into the range of a request, which the service clamps.

`wanted` is the slice a range means. The three that clamp give it for every range, and refuse
exactly the ranges whose end is before their start. The service gives it where the range starts
within the object, and refuses a range that does not, so that a read past the end comes out empty
from three backends and as an error from the fourth (`agree_iff`).

Sizes are those of a machine whose `usize` holds the numbers up to `usizeMax`, which the length of
an object in memory does not exceed.
-/

set_option autoImplicit false
set_option relaxedAutoImplicit false

namespace OmniaBackends.Blobstore

open Foundation

/-! ### Outcomes -/

/-- What a computation comes to: a value, an error with its text, or a panic. -/
inductive Outcome (Value : Type) where
  | ok (value : Value)
  | refused (reason : Bytes)
  | panicked
  deriving DecidableEq, Repr

namespace Outcome

variable {Value Other : Type}

/-- A computation that goes on with the value of another. -/
def andThen (outcome : Outcome Value) (next : Value → Outcome Other) : Outcome Other :=
  match outcome with
  | .ok value => next value
  | .refused reason => .refused reason
  | .panicked => .panicked

instance : Monad Outcome where
  pure := Outcome.ok
  bind := andThen

@[simp] theorem ok_bind (value : Value) (next : Value → Outcome Other) :
    (Outcome.ok value >>= next) = next value :=
  rfl

@[simp] theorem refused_bind (reason : Bytes) (next : Value → Outcome Other) :
    (Outcome.refused reason >>= next) = .refused reason :=
  rfl

@[simp] theorem pure_eq_ok (value : Value) : (pure value : Outcome Value) = .ok value :=
  rfl

end Outcome

/-! ### Words -/

/-- The greatest number of a word of 64 bits. -/
def u64Max : UInt64 := 0xFFFFFFFFFFFFFFFF

/-- A number one greater, or the greatest. -/
def saturatingSucc (number : UInt64) : UInt64 :=
  if number = u64Max then u64Max else number + 1

/-- A difference that must not fall below zero. -/
def checkedSub (minuend subtrahend : UInt64) : Outcome UInt64 :=
  if subtrahend ≤ minuend then .ok (minuend - subtrahend) else .panicked

/-- A sum that must fit the word. -/
def checkedAdd (first second : UInt64) : Outcome UInt64 :=
  if first.toNat + second.toNat < 2 ^ 64 then .ok (first + second) else .panicked

/-- A slice of bytes, whose start must not be past its end, nor that past the bytes'. -/
def slice (data : Bytes) (start stop : ℕ) : Outcome Bytes :=
  if start ≤ stop ∧ stop ≤ data.length then .ok ((data.take stop).drop start) else .panicked

section Machine

variable (usizeMax : ℕ)

/-- An object in memory. -/
def Object : Type := { data : Bytes // data.length ≤ usizeMax }

/-- A number as a size, where it is one. -/
def tryUsize (number : UInt64) : Option ℕ :=
  if number.toNat ≤ usizeMax then some number.toNat else none

/-- Whether an end means the object's. -/
def unbounded (stop : UInt64) : Bool :=
  stop = 0 || stop = u64Max

/-- The error of a range that ends before it starts. -/
def invalidRange (start stop : UInt64) : Bytes :=
  text s!"invalid byte range: end ({stop}) < start ({start})"

/-- What a range means of an object. -/
def wanted (data : Bytes) (start stop : UInt64) : Bytes :=
  if unbounded stop then data.drop start.toNat
  else (data.take (stop.toNat + 1)).drop start.toNat

/-! ### The backends -/

/-- A bound cut to a length. -/
def clamp (length : ℕ) (bound : UInt64) : ℕ :=
  ((tryUsize usizeMax bound).map fun bound ↦ min bound length).getD length

/-- The slice of an object that the filesystem's `get_data` and the `slice_range` of NATS compute
in the same words. -/
def clampedSlice (data : Bytes) (start stop : UInt64) : Outcome Bytes :=
  if !unbounded stop && stop < start then .refused (invalidRange start stop)
  else
    let length := data.length
    let from_ := clamp usizeMax length start
    let to_ := if unbounded stop then length else clamp usizeMax length (saturatingSucc stop)
    slice data from_ to_

/-- `slice_range` of MongoDB. -/
def mongodbSlice (data : Bytes) (start stop : UInt64) : Outcome Bytes :=
  if start = 0 && unbounded stop then .ok data
  else if !unbounded stop && stop < start then .refused (invalidRange start stop)
  else
    let length := data.length
    let from_ := min ((tryUsize usizeMax start).getD length) length
    let to_ :=
      if unbounded stop then length
      else ((tryUsize usizeMax stop).map fun stop ↦ min (min (stop + 1) usizeMax) length).getD
        length
    slice data from_ to_

variable {usizeMax} (stored : Option (Object usizeMax)) (start stop : UInt64)

/-- `FsContainer::get_data` of what is stored under a name. -/
def filesystem : Outcome (Option Bytes) :=
  match stored with
  | none => .ok none
  | some data => do
    let part ← clampedSlice usizeMax data.val start stop
    pure (some part)

/-- `get_data` of MongoDB. -/
def mongodb : Outcome (Option Bytes) :=
  match stored with
  | none => .ok none
  | some blob => do
    let sliced ← mongodbSlice usizeMax blob.val start stop
    pure (some sliced)

/-- `get_data` of NATS. -/
def nats : Outcome (Option Bytes) :=
  match stored with
  | none => .ok none
  | some object => do
    let part ← clampedSlice usizeMax object.val start stop
    pure (some part)

/-- The range of a request: an offset, and a length where it is bounded. -/
structure HttpRange where
  offset : UInt64
  length : Option UInt64
  deriving DecidableEq, Repr

/-- The bytes of a blob within a range. -/
def HttpRange.of (range : HttpRange) (data : Bytes) : Bytes :=
  match range.length with
  | none => data.drop range.offset.toNat
  | some length => (data.drop range.offset.toNat).take length.toNat

/-- `range_options`: the range to download, `none` for the blob whole. -/
def rangeOptions : Outcome (Option HttpRange) :=
  if start = 0 && unbounded stop then .ok none
  else if !unbounded stop && stop < start then .refused (invalidRange start stop)
  else if unbounded stop then .ok (some ⟨start, none⟩)
  else do
    let difference ← checkedSub stop start
    let length ← checkedAdd difference 1
    pure (some ⟨start, some length⟩)

/-- The blob service's downloads: a blob whole, the part of a range within it, and a refusal of a
range that starts at its end or past it. -/
structure Service where
  /-- What a download of a stored blob answers with. -/
  download : Bytes → Option HttpRange → Outcome Bytes
  /-- Without a range the blob is sent whole. -/
  whole : ∀ data, download data none = .ok data
  /-- A range is cut to the blob. -/
  part : ∀ data range, range.offset.toNat < data.length →
    download data (some range) = .ok (range.of data)
  /-- A range that starts past the blob is refused. -/
  past : ∀ data range, data.length ≤ range.offset.toNat →
    ∃ reason, download data (some range) = .refused reason

/-- `get_data` of Azure Blob. The range is translated before the blob is looked for. -/
def azureBlob (service : Service) : Outcome (Option Bytes) := do
  let range ← rangeOptions start stop
  match stored with
  | none => .ok none
  | some data => do
    let part ← service.download data.val range
    pure (some part)

/-! ### What each computes -/

variable {data : Bytes} {start stop}

/-- An end that does not mean the object's is below the greatest number. -/
theorem toNat_lt_of_bounded (hbounded : unbounded stop = false) :
    stop ≠ u64Max ∧ stop.toNat + 1 < 2 ^ 64 := by
  have hne : stop ≠ u64Max := by
    intro heq
    simp [unbounded, heq] at hbounded
  refine ⟨hne, ?_⟩
  have hlt := stop.toNat_lt
  have htoNat : stop.toNat ≠ u64Max.toNat := fun heq ↦ hne (UInt64.toNat_inj.mp heq)
  have hmax : u64Max.toNat = 2 ^ 64 - 1 := rfl
  omega

/-- A range that is not refused starts no later than it ends. -/
theorem start_le_stop (horder : ¬ (!unbounded stop && stop < start) = true)
    (hbounded : unbounded stop = false) : start ≤ stop := by
  simpa [hbounded] using horder

/-- One more than a number below the greatest. -/
theorem toNat_saturatingSucc (hbounded : unbounded stop = false) :
    (saturatingSucc stop).toNat = stop.toNat + 1 := by
  obtain ⟨hne, hlt⟩ := toNat_lt_of_bounded hbounded
  rw [saturatingSucc, if_neg hne, UInt64.toNat_add, UInt64.toNat_one, Nat.mod_eq_of_lt hlt]

/-- A bound is cut to the length of an object in memory. -/
theorem clamp_eq {length : ℕ} (hlength : length ≤ usizeMax) (bound : UInt64) :
    clamp usizeMax length bound = min bound.toNat length := by
  rw [clamp, tryUsize]
  split
  · rfl
  · rw [Option.map_none, Option.getD_none]
    omega

/-- A slice between two places cut to the object is what is between them of it. -/
theorem slice_min {first last : ℕ} (horder : first ≤ last) :
    slice data (min first data.length) (min last data.length) =
      .ok ((data.take last).drop first) := by
  rw [slice, if_pos ⟨by omega, Nat.min_le_right _ _⟩, ← List.take_eq_take_min]
  congr 1
  rcases Nat.le_total first data.length with hle | hge
  · rw [Nat.min_eq_left hle]
  · rw [Nat.min_eq_right hge, List.drop_eq_nil_of_le (List.length_take_le' _ _),
      List.drop_eq_nil_of_le ((List.length_take_le' _ _).trans hge)]

/-- A slice from a place cut to the object to its end is what is left of it there. -/
theorem slice_min_length (first : ℕ) :
    slice data (min first data.length) data.length = .ok (data.drop first) := by
  have hmin : slice data (min first data.length) (min (first + data.length) data.length) = _ :=
    slice_min (Nat.le_add_right first data.length)
  rwa [Nat.min_eq_right (Nat.le_add_left _ _), List.take_of_length_le (Nat.le_add_left _ _)]
    at hmin

/-- What a backend that clamps the ends of a range comes to. -/
def clampedRead (data : Bytes) (start stop : UInt64) : Outcome Bytes :=
  if !unbounded stop && stop < start then .refused (invalidRange start stop)
  else .ok (wanted data start stop)

/-- The filesystem and NATS come to it. -/
theorem clampedSlice_eq (hlength : data.length ≤ usizeMax) (start stop : UInt64) :
    clampedSlice usizeMax data start stop = clampedRead data start stop := by
  rw [clampedSlice, clampedRead]
  split
  · rfl
  · next horder =>
    dsimp only
    rw [clamp_eq hlength, wanted]
    cases hunbounded : unbounded stop with
    | true => exact slice_min_length start.toNat
    | false =>
      have hle : start.toNat ≤ stop.toNat := start_le_stop horder hunbounded
      rw [if_neg Bool.false_ne_true, if_neg Bool.false_ne_true, clamp_eq hlength,
        toNat_saturatingSucc hunbounded]
      exact slice_min (hle.trans (Nat.le_succ _))

/-- MongoDB comes to it. -/
theorem mongodbSlice_eq (hlength : data.length ≤ usizeMax) (start stop : UInt64) :
    mongodbSlice usizeMax data start stop = clampedRead data start stop := by
  rw [mongodbSlice]
  split
  · next hwhole =>
    obtain ⟨rfl, hunbounded⟩ : start = 0 ∧ unbounded stop = true := by simpa using hwhole
    simp [clampedRead, wanted, hunbounded]
  · rw [clampedRead]
    split
    · rfl
    · next horder =>
      dsimp only
      have hstart : min ((tryUsize usizeMax start).getD data.length) data.length =
          min start.toNat data.length := by
        rw [tryUsize]
        split
        · rfl
        · rw [Option.getD_none]
          omega
      rw [hstart, wanted]
      cases hunbounded : unbounded stop with
      | true => exact slice_min_length start.toNat
      | false =>
        have hle : start.toNat ≤ stop.toNat := start_le_stop horder hunbounded
        have hstop : ((tryUsize usizeMax stop).map fun stop ↦
            min (min (stop + 1) usizeMax) data.length).getD data.length =
            min (stop.toNat + 1) data.length := by
          rw [tryUsize]
          split
          · rw [Option.map_some, Option.getD_some]
            omega
          · rw [Option.map_none, Option.getD_none]
            omega
        rw [if_neg Bool.false_ne_true, if_neg Bool.false_ne_true, hstop]
        exact slice_min (hle.trans (Nat.le_succ _))

/-- The range of a request for part of a blob, which computes without overflow. -/
theorem rangeOptions_eq (start stop : UInt64) : rangeOptions start stop =
    if start = 0 ∧ unbounded stop = true then .ok none
    else if !unbounded stop && stop < start then .refused (invalidRange start stop)
    else .ok (some ⟨start, if unbounded stop then none else some (stop - start + 1)⟩) := by
  rw [rangeOptions]
  simp only [Bool.and_eq_true, decide_eq_true_eq]
  split
  · rfl
  · split
    · rfl
    · next horder =>
      cases hunbounded : unbounded stop with
      | true => rfl
      | false =>
        have hle : start ≤ stop := start_le_stop (by simpa using horder) hunbounded
        have hsum : (stop - start).toNat + (1 : UInt64).toNat < 2 ^ 64 := by
          have hlt := (toNat_lt_of_bounded hunbounded).2
          rw [UInt64.toNat_sub_of_le _ _ hle, UInt64.toNat_one]
          omega
        rw [if_neg Bool.false_ne_true, checkedSub, if_pos hle, Outcome.ok_bind, checkedAdd,
          if_pos hsum]
        rfl

/-- The part of a blob within the range of a request is what the read means. -/
theorem of_range_eq (horder : ¬ (!unbounded stop && stop < start) = true) :
    HttpRange.of ⟨start, if unbounded stop then none else some (stop - start + 1)⟩ data =
      wanted data start stop := by
  rw [wanted]
  cases hunbounded : unbounded stop with
  | true => rfl
  | false =>
    have hle : start ≤ stop := start_le_stop horder hunbounded
    have hlt := (toNat_lt_of_bounded hunbounded).2
    have hleNat : start.toNat ≤ stop.toNat := hle
    have hlength : (stop - start + 1).toNat = stop.toNat + 1 - start.toNat := by
      rw [UInt64.toNat_add, UInt64.toNat_sub_of_le _ _ hle, UInt64.toNat_one, Nat.mod_eq_of_lt]
        <;> omega
    change (data.drop start.toNat).take (stop - start + 1).toNat = _
    rw [hlength, List.drop_take]
    rfl

/-! ### Agreement -/

/-- The four backends' answers for an object. -/
def answers (service : Service) (object : Object usizeMax) (start stop : UInt64) :
    List (Outcome (Option Bytes)) :=
  [filesystem (some object) start stop, mongodb (some object) start stop,
    nats (some object) start stop, azureBlob (some object) start stop service]

/-- The backends agree on a range of an object: all give the bytes it means, or all refuse. -/
def Agree (service : Service) (object : Object usizeMax) (start stop : UInt64) : Prop :=
  (∀ answer ∈ answers service object start stop,
    answer = .ok (some (wanted object.val start stop))) ∨
  ∀ answer ∈ answers service object start stop, ∃ reason, answer = .refused reason

/-- A read that starts within the object, one of the whole object, or one whose end is before its
start. -/
def ReadsWithin (object : Object usizeMax) (start stop : UInt64) : Prop :=
  start.toNat < object.val.length ∨ (start = 0 ∧ unbounded stop = true) ∨
    (unbounded stop = false ∧ stop < start)

/-- Three backends clamp. -/
theorem answers_eq (service : Service) (object : Object usizeMax) (start stop : UInt64) :
    answers service object start stop =
      List.replicate 3 (some <$> clampedRead object.val start stop) ++
        [azureBlob (some object) start stop service] := by
  rw [answers, filesystem, mongodb, nats, clampedSlice_eq object.property,
    mongodbSlice_eq object.property]
  rfl

/-- The blob service's answer: an error for a range that starts past the blob, and otherwise what
the others come to. -/
theorem azureBlob_eq (service : Service) (object : Object usizeMax) (start stop : UInt64)
    (hwithin : ReadsWithin object start stop) :
    azureBlob (some object) start stop service = some <$> clampedRead object.val start stop := by
  rw [azureBlob, rangeOptions_eq, clampedRead]
  split
  · next hwhole =>
    obtain ⟨rfl, hunbounded⟩ := hwhole
    simp [service.whole, wanted, hunbounded]
    rfl
  · next hpart =>
    split
    · rfl
    · next horder =>
      have hstart : start.toNat < object.val.length := by
        rcases hwithin with hstart | hwhole | ⟨hbounded, hinverted⟩
        · exact hstart
        · exact absurd hwhole hpart
        · exact absurd hinverted (UInt64.not_lt.mpr (start_le_stop horder hbounded))
      rw [Outcome.ok_bind]
      change (service.download _ _ >>= _) = _
      rw [service.part _ _ hstart, of_range_eq horder]
      rfl

/-- A range that starts past the object, and is neither the whole of it nor refused before the
request, is refused by the service. -/
theorem azureBlob_of_past (service : Service) {object : Object usizeMax}
    (houtside : ¬ ReadsWithin object start stop) :
    ∃ reason, azureBlob (some object) start stop service = .refused reason := by
  obtain ⟨hpast, hpart, hbounded⟩ := not_or.mp houtside |>.imp_right not_or.mp
  have horder : ¬ (!unbounded stop && stop < start) = true := by
    simpa using hbounded
  obtain ⟨reason, hrefused⟩ := service.past object.val
    ⟨start, if unbounded stop then none else some (stop - start + 1)⟩ (not_lt.mp hpast)
  refine ⟨reason, ?_⟩
  rw [azureBlob, rangeOptions_eq, if_neg hpart, if_neg horder, Outcome.ok_bind]
  change (service.download _ _ >>= _) = _
  rw [hrefused, Outcome.refused_bind]

/-- It is empty from the others. -/
theorem not_agree_of_past {service : Service} {object : Object usizeMax}
    (houtside : ¬ ReadsWithin object start stop) : ¬ Agree service object start stop := by
  obtain ⟨-, -, hbounded⟩ := not_or.mp houtside |>.imp_right not_or.mp
  have horder : ¬ (!unbounded stop && stop < start) = true := by
    simpa using hbounded
  have hclamped : clampedRead object.val start stop = .ok (wanted object.val start stop) :=
    if_neg horder
  obtain ⟨reason, hrefused⟩ := azureBlob_of_past service houtside
  rw [Agree, answers_eq, hclamped, hrefused]
  rintro (hfound | hnone)
  · exact absurd (hfound (.refused reason) (by simp)) (by simp)
  · obtain ⟨reason, heq⟩ := hnone (some <$> .ok (wanted object.val start stop)) (by simp)
    cases heq

/-- A read that clamps computes without overflow and slices within bounds. -/
theorem clampedRead_ne_panicked (data : Bytes) (start stop : UInt64) :
    some <$> clampedRead data start stop ≠ .panicked := by
  rw [clampedRead]
  split <;> exact nofun

/-- For every object and every range: no backend computes an overflow or slices out of bounds, and
the four agree exactly where the range starts within the object, is the whole of it, or ends before
it starts. -/
theorem agree_iff (service : Service) (object : Object usizeMax) (start stop : UInt64) :
    (Agree service object start stop ↔ ReadsWithin object start stop) ∧
      ∀ answer ∈ answers service object start stop, answer ≠ .panicked := by
  by_cases hwithin : ReadsWithin object start stop
  · have hall : ∀ answer ∈ answers service object start stop,
        answer = some <$> clampedRead object.val start stop := by
      rw [answers_eq, azureBlob_eq service object start stop hwithin]
      simp
    refine ⟨iff_of_true ?_ hwithin, fun answer hanswer ↦ ?_⟩
    · rw [clampedRead] at hall
      split at hall
      · exact Or.inr fun answer hanswer ↦ ⟨_, hall answer hanswer⟩
      · exact Or.inl hall
    · rw [hall answer hanswer]
      exact clampedRead_ne_panicked _ _ _
  · refine ⟨iff_of_false (not_agree_of_past hwithin) hwithin, fun answer hanswer ↦ ?_⟩
    obtain ⟨reason, hrefused⟩ := azureBlob_of_past service hwithin
    rw [answers_eq, hrefused, List.mem_append, List.mem_singleton] at hanswer
    rcases hanswer with hanswer | rfl
    · rw [List.eq_of_mem_replicate hanswer]
      exact clampedRead_ne_panicked _ _ _
    · exact nofun

end Machine

/-- A service that answers as assumed. -/
def Service.clamping : Service where
  download data range :=
    match range with
    | none => .ok data
    | some range =>
      if range.offset.toNat < data.length then .ok (range.of data)
      else .refused (text "416 InvalidRange")
  whole _ := rfl
  part _ _ hstart := if_pos hstart
  past _ _ hpast := ⟨_, if_neg (not_lt.mpr hpast)⟩

/-- An object of three bytes, on a machine of 64 bits. -/
def threeBytes : Object 0xFFFFFFFFFFFFFFFF := ⟨[1, 2, 3], by decide⟩

/-- It read from its end on: nothing from three backends, and an error from the fourth. -/
theorem not_agree_at_end : ¬ Agree Service.clamping threeBytes 3 5 := by
  refine not_agree_of_past ?_
  rw [ReadsWithin]
  decide

end OmniaBackends.Blobstore
