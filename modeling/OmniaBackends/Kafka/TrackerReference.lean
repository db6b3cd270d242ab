import Mathlib.Data.List.MinMax
import OmniaBackends.Kafka.TrackerTickets

/-!
# The tracker refines a reference that keeps the whole history

`ReferenceTracker` is the plain definition of what the tracker computes. It keeps every record
tracked since its partition's last revoke and every reported number, and after every call it
recomputes, for every partition, the highest offset such that it and every tracked record before
it are done with all their earlier sends reported (`History.resolved`). It returns that offset for
each partition where it has grown (`History.grown`).

The incremental tracker forgets a record once it is resolved, and keeps a watermark in place of the
reported numbers. `Refines` relates the two: what is pending is what the history has beyond the
offset last returned. One call keeps the relation and returns the same offsets (`refines_apply`),
because resolving from the head of the pending records stops exactly at the offset the reference
recomputes (`resolve_eq_grown`). `tracker_refines_reference` is the result over whole sequences.
The offsets inserted in a partition have to increase between its revokes, as the broker hands them
out; an insert that falls in a revoked partition is not tracked and is free.
-/

set_option autoImplicit false
set_option relaxedAutoImplicit false

namespace OmniaBackends.Kafka

open Foundation

/-! ### The reference -/

/-- A tracked record: its offset, the pull it came from, and, once it is done, the number of sends
taken before that. -/
structure Tracked where
  /-- The record's offset. -/
  offset : ℤ
  /-- The pull it came from. -/
  ticket : Ticket
  /-- The sends numbered below this were taken before the record was done. -/
  completion : Option ℕ

/-- The record is done and all its earlier sends are reported. -/
def Tracked.settled (reported : Finset ℕ) (record : Tracked) : Bool :=
  match record.completion with
  | some sendsBefore => decide (∀ send < sendsBefore, send ∈ reported)
  | none => false

/-- What the reference keeps of a partition. -/
structure History where
  /-- Whether the partition was revoked and not assigned again. -/
  revoked : Bool
  /-- Every record tracked since the last revoke, in pull order. -/
  records : List Tracked
  /-- The highest offset returned since the last revoke. -/
  returned : Option ℤ

/-- Whether an offset is beyond the one last returned. -/
def History.beyond (history : History) (offset : ℤ) : Bool :=
  match history.returned with
  | some last => decide (last < offset)
  | none => true

/-- The highest offset such that it and every tracked record before it are done with all their
earlier sends reported. -/
def History.resolved (reported : Finset ℕ) (history : History) : Option ℤ :=
  ((history.records.filter fun record ↦
    history.records.all fun other ↦
      !decide (other.offset ≤ record.offset) || other.settled reported).map Tracked.offset).max?

/-- The resolved offset where it has grown beyond the one last returned. -/
def History.grown (reported : Finset ℕ) (history : History) : Option ℤ :=
  (history.resolved reported).filter history.beyond

/-- The completion of the record a ticket names, written into a record of the history; it counts
until the record's offset has been returned. -/
def History.complete (history : History) (offset : ℤ) (ticket : Ticket) (sendsBefore : ℕ)
    (record : Tracked) : Tracked :=
  if record.offset = offset ∧ record.ticket = ticket ∧ history.beyond offset = true then
    { record with completion := some sendsBefore }
  else record

/-- The reference tracker: the histories of the partitions, the reported numbers and the count of
tickets given out. -/
structure ReferenceTracker where
  /-- What is kept of each partition. -/
  histories : String → ℤ → History
  /-- Every number reported. -/
  reported : Finset ℕ
  /-- The count of tickets given out. -/
  tickets : ℕ

namespace ReferenceTracker

/-- The reference tracker of a new client. -/
def initial : ReferenceTracker :=
  ⟨fun _ _ ↦ ⟨false, [], none⟩, ∅, 0⟩

/-- A call written into the history of a partition. -/
def record (reference : ReferenceTracker) (topic : String) (partition : ℤ) : Op → History
  | .insert otherTopic otherPartition offset =>
    let history := reference.histories topic partition
    if topic = otherTopic ∧ partition = otherPartition ∧ history.revoked = false then
      { history with records := history.records ++ [⟨offset, ⟨reference.tickets⟩, none⟩] }
    else history
  | .done otherTopic otherPartition offset ticket sendsBefore =>
    let history := reference.histories topic partition
    if topic = otherTopic ∧ partition = otherPartition then
      { history with
        records := history.records.map (history.complete offset ticket sendsBefore) }
    else history
  | .noteDelivered _ => reference.histories topic partition
  | .revoke otherTopic otherPartition =>
    if topic = otherTopic ∧ partition = otherPartition then ⟨true, [], none⟩
    else reference.histories topic partition
  | .assign otherTopic otherPartition =>
    if topic = otherTopic ∧ partition = otherPartition then
      { reference.histories topic partition with revoked := false }
    else reference.histories topic partition

/-- A call of the reference: the history is extended, every partition is recomputed, and the
offsets that have grown are returned. -/
def apply (reference : ReferenceTracker) (op : Op) :
    ReferenceTracker × (String → ℤ → Option ℤ) :=
  let reported := Tracker.reportedBy reference.reported op
  let grown := fun topic partition ↦ (reference.record topic partition op).grown reported
  ({ histories := fun topic partition ↦
      { reference.record topic partition op with
        returned := (grown topic partition).or (reference.record topic partition op).returned }
     reported := reported
     tickets :=
      match op with
      | .insert _ _ _ => reference.tickets + 1
      | _ => reference.tickets },
    grown)

end ReferenceTracker

/-! ### What the reference computes -/

/-- An offset such that it and every tracked record before it are settled. -/
def History.Leading (reported : Finset ℕ) (history : History) (offset : ℤ) : Prop :=
  (∃ record ∈ history.records, record.offset = offset) ∧
    ∀ other ∈ history.records, other.offset ≤ offset → other.settled reported = true

variable {reported : Finset ℕ} {history : History} {offset : ℤ}

/-- An offset is beyond the one last returned, if there is one. -/
theorem History.beyond_iff : history.beyond offset = true ↔
    ∀ last, history.returned = some last → last < offset := by
  unfold History.beyond
  cases history.returned <;> simp

/-- An offset above one that is beyond is beyond too. -/
theorem History.beyond_of_lt {lower : ℤ} (hbeyond : history.beyond lower = true)
    (hlt : lower < offset) : history.beyond offset = true :=
  History.beyond_iff.mpr fun last hlast ↦ (History.beyond_iff.mp hbeyond last hlast).trans hlt

/-- The recomputed offset is the greatest leading one. -/
theorem History.resolved_eq_some_iff : history.resolved reported = some offset ↔
    history.Leading reported offset ∧
      ∀ other, history.Leading reported other → other ≤ offset := by
  have hmem (other : ℤ) : other ∈ ((history.records.filter fun record ↦
      history.records.all fun other ↦ !decide (other.offset ≤ record.offset) ||
        other.settled reported).map Tracked.offset) ↔ history.Leading reported other := by
    simp only [List.mem_map, List.mem_filter, List.all_eq_true, Bool.or_eq_true,
      Bool.not_eq_true', decide_eq_false_iff_not, History.Leading]
    constructor
    · rintro ⟨record, ⟨hrecord, hall⟩, rfl⟩
      exact ⟨⟨record, hrecord, rfl⟩, fun other hother hle ↦
        (hall other hother).resolve_left (not_not.mpr hle)⟩
    · rintro ⟨⟨record, hrecord, rfl⟩, hall⟩
      exact ⟨record, ⟨hrecord, fun other hother ↦
        or_iff_not_imp_left.mpr fun hle ↦ hall other hother (not_not.mp hle)⟩, rfl⟩
  rw [History.resolved, List.max?_eq_some_iff, hmem]
  exact and_congr_right fun _ ↦ forall_congr' fun other ↦ by rw [hmem]

/-- The offset that has grown is the greatest leading one, where it is beyond the last returned. -/
theorem History.grown_eq_some_iff : history.grown reported = some offset ↔
    history.Leading reported offset ∧ history.beyond offset = true ∧
      ∀ other, history.Leading reported other → other ≤ offset := by
  rw [History.grown, Option.filter_eq_some_iff, History.resolved_eq_some_iff]
  tauto

/-! ### The relation -/

/-- A tracked record as the tracker keeps it. -/
def Tracked.pending (record : Tracked) : Pending :=
  ⟨record.ticket, record.completion.isSome, record.completion.getD 0⟩

/-- A partition of the tracker and the history of it: the records increase, what is pending is what
the history has beyond the offset last returned, and that offset is a leading one. -/
structure PartitionRefines (state : Partition) (history : History) (reported : Finset ℕ) :
    Prop where
  /-- The revoked flags agree. -/
  revoked : state.revoked = history.revoked
  /-- The offsets tracked since the last revoke increase. -/
  sorted : history.records.Pairwise fun first second ↦ first.offset < second.offset
  /-- What is pending is what the history has beyond the offset last returned. -/
  pending : ∀ offset pending, state.pending.get? offset = some pending ↔
    ∃ record ∈ history.records, record.offset = offset ∧ history.beyond offset = true ∧
      record.pending = pending
  /-- The offset last returned is a leading one. -/
  returned : ∀ last, history.returned = some last → history.Leading reported last

variable {state : Partition} {delivered : ℕ} {outOfOrder : Finset ℕ}

/-- The watermark decides what the reported numbers decide. -/
theorem Tracked.resolved_pending (hmarks : Marks delivered outOfOrder reported)
    (record : Tracked) : record.pending.resolved delivered = record.settled reported := by
  cases hcompletion : record.completion with
  | none => simp [Tracked.pending, Pending.resolved, Tracked.settled, hcompletion]
  | some sendsBefore =>
    simp [Tracked.pending, Pending.resolved, Tracked.settled, hcompletion, hmarks.le_next_iff]

/-- Two tracked records at one offset are one. -/
theorem PartitionRefines.eq_of_offset (hrefines : PartitionRefines state history reported)
    {first second : Tracked} (hfirst : first ∈ history.records)
    (hsecond : second ∈ history.records) (hoffset : first.offset = second.offset) :
    first = second := by
  have hnodup : (history.records.map Tracked.offset).Nodup :=
    List.pairwise_map.mpr (hrefines.sorted.imp ne_of_lt)
  exact List.inj_on_of_nodup_map hnodup hfirst hsecond hoffset

/-- A leading offset stays one when more numbers are reported. -/
theorem History.Leading.mono (hleading : history.Leading reported offset) {more : Finset ℕ}
    (hmore : reported ⊆ more) : history.Leading more offset := by
  refine ⟨hleading.1, fun other hother hle ↦ ?_⟩
  have hsettled := hleading.2 other hother hle
  unfold Tracked.settled at hsettled ⊢
  split at hsettled
  · have hall := of_decide_eq_true hsettled
    exact decide_eq_true fun send hsend ↦ hmore (hall send hsend)
  · exact hsettled

/-- More numbers reported keep the relation of a partition. -/
theorem PartitionRefines.mono (hrefines : PartitionRefines state history reported)
    {more : Finset ℕ} (hmore : reported ⊆ more) : PartitionRefines state history more :=
  ⟨hrefines.revoked, hrefines.sorted, hrefines.pending,
    fun last hlast ↦ (hrefines.returned last hlast).mono hmore⟩

/-! ### Resolving finds what the reference recomputes -/

/-- A record beyond the last returned offset, up to a leading offset, is pending and resolved. -/
theorem PartitionRefines.resolved_of_leading (hrefines : PartitionRefines state history reported)
    (hmarks : Marks delivered outOfOrder reported) {leading : ℤ}
    (hleading : history.Leading reported leading) (hle : offset ≤ leading) {pending : Pending}
    (hget : state.pending.get? offset = some pending) : pending.resolved delivered = true := by
  obtain ⟨record, hrecord, rfl, -, rfl⟩ := (hrefines.pending offset pending).mp hget
  rw [Tracked.resolved_pending hmarks]
  exact hleading.2 record hrecord hle

/-- When the partition resolves up to `last`, `last` is a leading offset. -/
theorem PartitionRefines.leading_of_resolve (hrefines : PartitionRefines state history reported)
    (hmarks : Marks delivered outOfOrder reported) {last : ℤ}
    (hresolve : (state.resolve delivered).1 = some last) :
    history.Leading reported last ∧ history.beyond last = true := by
  obtain ⟨⟨found, hfound⟩, hresolved, -⟩ := Partition.resolve_some hresolve
  obtain ⟨record, hrecord, rfl, hbeyond, -⟩ := (hrefines.pending last found).mp hfound
  refine ⟨⟨⟨record, hrecord, rfl⟩, fun other hother hle ↦ ?_⟩, hbeyond⟩
  by_cases hother' : history.beyond other.offset = true
  · have hpending : state.pending.get? other.offset = some other.pending :=
      (hrefines.pending _ _).mpr ⟨other, hother, rfl, hother', rfl⟩
    rw [← Tracked.resolved_pending hmarks]
    exact hresolved other.offset hle other.pending hpending
  · rw [History.beyond_iff] at hother'
    push Not at hother'
    obtain ⟨returned, hreturned, hcovered⟩ := hother'
    exact (hrefines.returned returned hreturned).2 other hother hcovered

/-- A leading offset beyond the last returned is at most the one the partition resolves up to. -/
theorem PartitionRefines.le_resolve (hrefines : PartitionRefines state history reported)
    (hmarks : Marks delivered outOfOrder reported) {leading : ℤ}
    (hleading : history.Leading reported leading) (hbeyond : history.beyond leading = true) :
    ∃ last, (state.resolve delivered).1 = some last ∧ leading ≤ last := by
  by_contra hnone
  obtain ⟨record, hrecord, hoffset⟩ := hleading.1
  have hget : state.pending.get? leading = some record.pending :=
    (hrefines.pending _ _).mpr ⟨record, hrecord, hoffset, hbeyond, rfl⟩
  have hstays : (state.resolve delivered).2.pending.get? leading = some record.pending := by
    refine Partition.get?_resolve _ |>.mpr ⟨hget, fun last hlast ↦ ?_⟩
    exact not_le.mp fun hle ↦ hnone ⟨last, hlast, hle⟩
  -- the partition stopped before some record up to `leading`, which is resolved all the same
  obtain ⟨least, hle, other, hother, hunresolved⟩ :=
    (Partition.settled_resolve state delivered).exists_le hstays
  have hpending := ((Partition.get?_resolve _).mp hother).1
  have hresolved := hrefines.resolved_of_leading hmarks hleading hle hpending
  exact Bool.noConfusion (hresolved.symm.trans hunresolved)

/-- The offset a partition resolves up to is the one that has grown in the reference. -/
theorem PartitionRefines.resolve_eq_grown (hrefines : PartitionRefines state history reported)
    (hmarks : Marks delivered outOfOrder reported) :
    (state.resolve delivered).1 = history.grown reported := by
  apply Option.ext
  intro last
  rw [History.grown_eq_some_iff]
  constructor
  · intro hresolve
    obtain ⟨hleading, hbeyond⟩ := hrefines.leading_of_resolve hmarks hresolve
    refine ⟨hleading, hbeyond, fun other hother ↦ ?_⟩
    by_contra hgt
    have hlt : last < other := not_le.mp hgt
    have hfurther : history.beyond other = true := History.beyond_of_lt hbeyond hlt
    obtain ⟨top, htop, hle⟩ := hrefines.le_resolve hmarks hother hfurther
    obtain rfl : last = top := Option.some.inj (hresolve.symm.trans htop)
    exact hgt hle
  · rintro ⟨hleading, hbeyond, hgreatest⟩
    obtain ⟨top, htop, hle⟩ := hrefines.le_resolve hmarks hleading hbeyond
    have hge := hgreatest top (hrefines.leading_of_resolve hmarks htop).1
    rw [htop, le_antisymm hge hle]

/-- A resolution and a recomputation keep the relation. -/
theorem PartitionRefines.resolve (hrefines : PartitionRefines state history reported)
    (hmarks : Marks delivered outOfOrder reported) :
    PartitionRefines (state.resolve delivered).2
      { history with returned := (history.grown reported).or history.returned } reported := by
  have hgrown := hrefines.resolve_eq_grown hmarks
  refine ⟨hrefines.revoked, hrefines.sorted, fun offset pending ↦ ?_, fun last hlast ↦ ?_⟩
  · rw [Partition.get?_resolve, hrefines.pending, ← hgrown]
    cases hresolve : (state.resolve delivered).1 with
    | none => simp [History.beyond]
    | some last =>
      have hbeyond := (hrefines.leading_of_resolve hmarks hresolve).2
      have hnew (offset : ℤ) : History.beyond { history with returned := some last } offset = true ↔
          last < offset := by simp [History.beyond]
      simp only [Option.some.injEq, forall_eq', Option.some_or, hnew]
      constructor
      · rintro ⟨⟨record, hrecord, hoffset, -, hpending⟩, hlt⟩
        exact ⟨record, hrecord, hoffset, hlt, hpending⟩
      · rintro ⟨record, hrecord, hoffset, hlt, hpending⟩
        exact ⟨⟨record, hrecord, hoffset, History.beyond_of_lt hbeyond hlt, hpending⟩, hlt⟩
  · rcases Option.or_eq_some_iff.mp hlast with hnew | ⟨-, hold⟩
    · exact (History.grown_eq_some_iff.mp hnew).1
    · exact hrefines.returned last hold

/-! ### One call -/

namespace ReferenceTracker

/-- The tracker and the reference agree: on the reported numbers, on the count of tickets, and
partition by partition. -/
structure Refines (tracker : Tracker) (reference : ReferenceTracker) : Prop where
  /-- The tracker resolves all there is to resolve. -/
  settled : tracker.Settled
  /-- The watermark is that of the reported numbers. -/
  marks : Marks tracker.delivered tracker.outOfOrder reference.reported
  /-- As many tickets were given out. -/
  tickets : tracker.tickets = reference.tickets
  /-- Every partition agrees with its history. -/
  partitions : ∀ topic partition, PartitionRefines (tracker.state topic partition)
    (reference.histories topic partition) reference.reported

/-- An insert into an assigned partition goes beyond every offset tracked there since the last
revoke. -/
def Admits (reference : ReferenceTracker) (op : Op) : Prop :=
  ∀ topic partition offset, op = .insert topic partition offset →
    (reference.histories topic partition).revoked = false →
      ∀ record ∈ (reference.histories topic partition).records, record.offset < offset

variable {tracker : Tracker} {reference : ReferenceTracker} {topic : String} {partition : ℤ}

/-- The reference's state at the start refines to the tracker's. -/
theorem refines_initial : Refines Tracker.default initial := by
  refine ⟨Tracker.settled_default, marks_empty, rfl, fun topic partition ↦ ?_⟩
  refine ⟨rfl, List.Pairwise.nil, fun offset pending ↦ ?_, fun last hlast ↦ ?_⟩
  · simp [initial, Partition.default]
  · exact absurd hlast (by simp [initial])

/-- A record pulled is tracked last, and pending. -/
theorem refines_insert {offset : ℤ} (hrefines : Refines tracker reference)
    (hadmits : reference.Admits (.insert topic partition offset))
    (hrevoked : (tracker.state topic partition).revoked = false) :
    PartitionRefines
      { tracker.state topic partition with
        pending := (tracker.state topic partition).pending.insert offset
          ⟨⟨tracker.tickets⟩, false, 0⟩ }
      { reference.histories topic partition with
        records := (reference.histories topic partition).records ++
          [⟨offset, ⟨reference.tickets⟩, none⟩] } reference.reported := by
  have hold := hrefines.partitions topic partition
  have hbelow : ∀ record ∈ (reference.histories topic partition).records,
      record.offset < offset := hadmits topic partition offset rfl (hold.revoked ▸ hrevoked)
  have hbeyond : (reference.histories topic partition).beyond offset = true := by
    refine History.beyond_iff.mpr fun last hlast ↦ ?_
    obtain ⟨⟨record, hrecord, rfl⟩, -⟩ := hold.returned last hlast
    exact hbelow record hrecord
  refine ⟨hold.revoked, ?_, fun other pending ↦ ?_, fun last hlast ↦ ?_⟩
  · refine List.pairwise_append.mpr ⟨hold.sorted, List.pairwise_singleton _ _, ?_⟩
    intro record hrecord last hlast
    rw [List.mem_singleton.mp hlast]
    exact hbelow record hrecord
  · rw [OrderedMap.get?_insert]
    split_ifs with hother
    · subst hother
      constructor
      · intro hpending
        exact ⟨⟨other, ⟨reference.tickets⟩, none⟩, by simp, rfl, hbeyond,
          by rw [← Option.some.inj hpending, hrefines.tickets]; rfl⟩
      · rintro ⟨record, hrecord, hoffset, -, rfl⟩
        rcases List.mem_append.mp hrecord with hearlier | hlast
        · exact absurd hoffset (hbelow record hearlier).ne
        · rw [List.mem_singleton.mp hlast, hrefines.tickets]
          rfl
    · rw [hold.pending]
      constructor
      · rintro ⟨record, hrecord, hrest⟩
        exact ⟨record, List.mem_append_left _ hrecord, hrest⟩
      · rintro ⟨record, hrecord, hoffset, hrest⟩
        rcases List.mem_append.mp hrecord with hearlier | hlast
        · exact ⟨record, hearlier, hoffset, hrest⟩
        · rw [List.mem_singleton.mp hlast] at hoffset
          exact absurd hoffset.symm hother
  · obtain ⟨⟨record, hrecord, hoffset⟩, hall⟩ := hold.returned last hlast
    refine ⟨⟨record, List.mem_append_left _ hrecord, hoffset⟩, fun other hother hle ↦ ?_⟩
    rcases List.mem_append.mp hother with hearlier | hlast'
    · exact hall other hearlier hle
    · rw [List.mem_singleton.mp hlast'] at hle
      have hlt := hbelow record hrecord
      rw [hoffset] at hlt
      exact absurd hle (not_le.mpr hlt)

/-- A completion changes no offset. -/
@[simp] theorem offset_complete (history : History) (offset : ℤ) (ticket : Ticket)
    (sendsBefore : ℕ) (record : Tracked) :
    (history.complete offset ticket sendsBefore record).offset = record.offset := by
  unfold History.complete
  split_ifs <;> rfl

/-- A completion of a held record is marked in both. -/
theorem refines_done {offset : ℤ} {ticket : Ticket} (sendsBefore : ℕ)
    (hrefines : Refines tracker reference)
    (hholds : tracker.holds topic partition offset ticket = true) :
    PartitionRefines (Tracker.markDone (tracker.state topic partition) offset ticket sendsBefore)
      { reference.histories topic partition with
        records := (reference.histories topic partition).records.map
          ((reference.histories topic partition).complete offset ticket sendsBefore) }
      reference.reported := by
  have hold := hrefines.partitions topic partition
  obtain ⟨held, hheld, rfl⟩ := Tracker.holds_iff.mp hholds
  obtain ⟨record, hrecord, rfl, hbeyond, rfl⟩ := (hold.pending offset held).mp hheld
  refine ⟨hold.revoked, ?_, fun other pending ↦ ?_, fun last hlast ↦ ?_⟩
  · refine List.pairwise_map.mpr (hold.sorted.imp fun hlt ↦ ?_)
    simpa using hlt
  · simp only [Tracker.markDone, OrderedMap.get?_insert, List.mem_map]
    split_ifs with hother
    · subst hother
      constructor
      · intro hpending
        refine ⟨_, ⟨record, hrecord, rfl⟩, by simp, hbeyond, ?_⟩
        rw [← Option.some.inj hpending]
        simp [History.complete, hbeyond, Tracked.pending]
      · rintro ⟨_, ⟨found, hfound, rfl⟩, hoffset, -, rfl⟩
        obtain rfl := hold.eq_of_offset hfound hrecord (by simpa using hoffset)
        simp [History.complete, hbeyond, Tracked.pending]
    · rw [hold.pending]
      have hsame (found : Tracked) (hoffset : found.offset = other) :
          (reference.histories topic partition).complete record.offset record.pending.ticket
            sendsBefore found = found := if_neg fun h ↦ hother (hoffset.symm.trans h.1)
      constructor
      · rintro ⟨found, hfound, hoffset, hrest⟩
        exact ⟨found, ⟨found, hfound, hsame found hoffset⟩, hoffset, hrest⟩
      · rintro ⟨_, ⟨found, hfound, rfl⟩, hoffset, hrest⟩
        rw [offset_complete] at hoffset
        rw [hsame found hoffset] at hrest
        exact ⟨found, hfound, hoffset, hrest⟩
  · obtain ⟨⟨found, hfound, hoffset⟩, hall⟩ := hold.returned last hlast
    refine ⟨⟨_, List.mem_map_of_mem hfound, by simpa using hoffset⟩, fun other hother hle ↦ ?_⟩
    obtain ⟨original, horiginal, rfl⟩ := List.mem_map.mp hother
    rw [offset_complete] at hle
    have hunchanged : (reference.histories topic partition).complete record.offset
        record.pending.ticket sendsBefore original = original := by
      refine if_neg fun h ↦ ?_
      have hlt := History.beyond_iff.mp hbeyond last hlast
      rw [← h.1] at hlt
      exact absurd hle (not_le.mpr hlt)
    rw [hunchanged]
    exact hall original horiginal hle

/-- A completion of a record that is not held is written nowhere. -/
theorem map_complete_of_not_holds {offset : ℤ} {ticket : Ticket} (sendsBefore : ℕ)
    (hrefines : Refines tracker reference)
    (hholds : ¬tracker.holds topic partition offset ticket = true) :
    (reference.histories topic partition).records.map
        ((reference.histories topic partition).complete offset ticket sendsBefore) =
      (reference.histories topic partition).records := by
  have hsame : ∀ record ∈ (reference.histories topic partition).records,
      (reference.histories topic partition).complete offset ticket sendsBefore record =
        id record := by
    intro record hrecord
    refine if_neg ?_
    rintro ⟨rfl, rfl, hbeyond⟩
    refine hholds (Tracker.holds_iff.mpr ⟨record.pending, ?_, rfl⟩)
    exact ((hrefines.partitions topic partition).pending _ _).mpr
      ⟨record, hrecord, rfl, hbeyond, rfl⟩
  rw [List.map_congr_left hsame, List.map_id]

/-- The local change of a call is the change of the history. -/
theorem refines_record (hrefines : Refines tracker reference) {op : Op}
    (hadmits : reference.Admits op) (topic : String) (partition : ℤ) :
    PartitionRefines (tracker.marked topic partition op) (reference.record topic partition op)
      reference.reported := by
  have hold := hrefines.partitions topic partition
  cases op with
  | insert otherTopic otherPartition offset =>
    have hiff : (topic = otherTopic ∧ partition = otherPartition ∧
        (tracker.state topic partition).revoked = false) ↔ (topic = otherTopic ∧
          partition = otherPartition ∧ (reference.histories topic partition).revoked = false) := by
      rw [hold.revoked]
    simp only [Tracker.marked, record]
    by_cases hsame : topic = otherTopic ∧ partition = otherPartition ∧
        (tracker.state topic partition).revoked = false
    · rw [if_pos hsame, if_pos (hiff.mp hsame)]
      obtain ⟨rfl, rfl, hrevoked⟩ := hsame
      exact refines_insert hrefines hadmits hrevoked
    · rw [if_neg hsame, if_neg (mt hiff.mpr hsame)]
      exact hold
  | done otherTopic otherPartition offset ticket sendsBefore =>
    simp only [Tracker.marked, record]
    by_cases hsame : topic = otherTopic ∧ partition = otherPartition
    · obtain ⟨rfl, rfl⟩ := hsame
      by_cases hholds : tracker.holds topic partition offset ticket = true
      · simp only [hholds, and_self, if_true]
        exact refines_done sendsBefore hrefines hholds
      · simp only [hholds, and_self, if_true, Bool.false_eq_true, and_false, if_false]
        rw [map_complete_of_not_holds sendsBefore hrefines hholds]
        exact hold
    · rw [if_neg hsame, if_neg fun h ↦ hsame ⟨h.1, h.2.1⟩]
      exact hold
  | noteDelivered id => exact hold
  | revoke otherTopic otherPartition =>
    simp only [Tracker.marked, record]
    split_ifs
    · exact ⟨rfl, List.Pairwise.nil, by simp, by simp⟩
    · exact hold
  | assign otherTopic otherPartition =>
    simp only [Tracker.marked, record]
    split_ifs
    · exact ⟨rfl, hold.sorted, hold.pending, hold.returned⟩
    · exact hold

/-- What a call returns: for each partition the offset that has grown, and each partition once. -/
def Returns (stored : List Stored) (grown : String → ℤ → Option ℤ) : Prop :=
  (stored.map fun stored ↦ (stored.1, stored.2.1)).Nodup ∧
    ∀ topic partition offset, (topic, partition, offset) ∈ stored ↔
      grown topic partition = some offset

/-- One call keeps the relation and returns what the reference returns. -/
theorem refines_apply (hrefines : Refines tracker reference) {op : Op}
    (hadmits : reference.Admits op) :
    Refines (tracker.apply op).1 (reference.apply op).1 ∧
      Returns (tracker.apply op).2 (reference.apply op).2 := by
  have hmarks : Marks (tracker.apply op).1.delivered (tracker.apply op).1.outOfOrder
      (Tracker.reportedBy reference.reported op) := Tracker.marks_apply hrefines.marks op
  have hrecord (topic : String) (partition : ℤ) : PartitionRefines
      (tracker.marked topic partition op) (reference.record topic partition op)
      (Tracker.reportedBy reference.reported op) :=
    (refines_record hrefines hadmits topic partition).mono (Tracker.subset_reportedBy _ op)
  have hspec := Tracker.apply_spec hrefines.settled op
  constructor
  · refine ⟨Tracker.settled_apply hrefines.settled op, hmarks, ?_, fun topic partition ↦ ?_⟩
    · rw [Tracker.tickets_apply, hrefines.tickets]
      rfl
    · rw [(hspec topic partition).1]
      exact (hrecord topic partition).resolve hmarks
  · refine ⟨Tracker.nodup_apply tracker op, fun topic partition offset ↦ ?_⟩
    rw [(hspec topic partition).2, (hrecord topic partition).resolve_eq_grown hmarks]
    rfl

/-! ### Whole sequences -/

/-- The offsets inserted in a partition increase between its revokes, from the first one tracked:
an insert that falls in a revoked partition bounds nothing. -/
def OffsetsIncrease (ops : List Op) : Prop :=
  ∀ before between after topic partition lower upper,
    ops = before ++ .insert topic partition lower ::
      (between ++ .insert topic partition upper :: after) →
    Tracker.revokedAfter topic partition before = false →
      .revoke topic partition ∉ between → lower < upper

/-- A sequence in which any two inserts of a partition increase. -/
theorem offsetsIncrease_of_pairwise {ops : List Op}
    (hpairwise : ops.Pairwise fun first second ↦ ∀ topic partition lower upper,
      first = .insert topic partition lower → second = .insert topic partition upper →
        lower < upper) : OffsetsIncrease ops := by
  rintro before between after topic partition lower upper rfl - -
  have hlater := (List.pairwise_cons.mp (List.pairwise_append.mp hpairwise).2.1).1
  exact hlater (.insert topic partition upper) (by simp) topic partition lower upper rfl rfl

/-- The revoked flag of a history records the last rebalance of the partition. -/
theorem revoked_histories (ops : List Op) (topic : String) (partition : ℤ) :
    ((finalState apply initial ops).histories topic partition).revoked =
      Tracker.revokedAfter topic partition ops := by
  induction ops using List.reverseRecOn with
  | nil => rfl
  | append_singleton ops op ih =>
    rw [finalState_append, Tracker.revokedAfter, List.foldl_append, ← Tracker.revokedAfter, ← ih]
    change (record _ topic partition op).revoked = _
    cases op with
    | noteDelivered id => rfl
    | _ =>
      simp only [record, List.foldl_cons, List.foldl_nil]
      split_ifs <;> rfl

/-- Every record of a history was inserted since the last revoke of the partition, when the
partition was not revoked. -/
theorem exists_insert_of_mem_records {ops : List Op} {tracked : Tracked}
    (hmem : tracked ∈ ((finalState apply initial ops).histories topic partition).records) :
    ∃ before between, ops = before ++ .insert topic partition tracked.offset :: between ∧
      Tracker.revokedAfter topic partition before = false ∧
        .revoke topic partition ∉ between := by
  induction ops using List.reverseRecOn generalizing tracked with
  | nil => exact absurd hmem List.not_mem_nil
  | append_singleton ops op ih =>
    rw [finalState_append] at hmem
    change tracked ∈ (record _ topic partition op).records at hmem
    have hextend (old : Tracked) (hoffset : old.offset = tracked.offset)
        (hold : old ∈ ((finalState apply initial ops).histories topic partition).records)
        (hop : op ≠ .revoke topic partition) :
        ∃ before between, ops ++ [op] =
          before ++ .insert topic partition tracked.offset :: between ∧
            Tracker.revokedAfter topic partition before = false ∧
              .revoke topic partition ∉ between := by
      obtain ⟨before, between, hsplit, hrevoked, hsince⟩ := ih hold
      refine ⟨before, between ++ [op], by simp [hsplit, hoffset], hrevoked, ?_⟩
      simpa [hsince] using hop.symm
    cases op with
    | insert otherTopic otherPartition offset =>
      simp only [record] at hmem
      split_ifs at hmem with hsame
      · obtain ⟨rfl, rfl, hrevoked⟩ := hsame
        rcases List.mem_append.mp hmem with hold | hnew
        · exact hextend tracked rfl hold (by simp)
        · rw [List.mem_singleton.mp hnew]
          rw [revoked_histories] at hrevoked
          exact ⟨ops, [], rfl, hrevoked, by simp⟩
      · exact hextend tracked rfl hmem (by simp)
    | done otherTopic otherPartition offset ticket sendsBefore =>
      simp only [record] at hmem
      split_ifs at hmem with hsame
      · obtain ⟨old, hold, rfl⟩ := List.mem_map.mp hmem
        exact hextend old (by simp) hold (by simp)
      · exact hextend tracked rfl hmem (by simp)
    | noteDelivered id => exact hextend tracked rfl hmem (by simp)
    | revoke otherTopic otherPartition =>
      simp only [record] at hmem
      split_ifs at hmem with hsame
      · exact absurd hmem List.not_mem_nil
      · refine hextend tracked rfl hmem fun heq ↦ hsame ?_
        obtain ⟨rfl, rfl⟩ := Op.revoke.inj heq
        exact ⟨rfl, rfl⟩
    | assign otherTopic otherPartition =>
      simp only [record] at hmem
      split_ifs at hmem <;> exact hextend tracked rfl hmem (by simp)

/-- Under increasing offsets every call is admitted where the reference stands. -/
theorem admits_of_offsetsIncrease {ops before after : List Op} {op : Op}
    (hincrease : OffsetsIncrease ops) (hsplit : ops = before ++ op :: after) :
    Admits (finalState apply initial before) op := by
  rintro topic partition offset rfl - record hrecord
  obtain ⟨first, between, rfl, hrevoked, hsince⟩ := exists_insert_of_mem_records hrecord
  refine hincrease first between after topic partition record.offset offset ?_ hrevoked hsince
  rw [hsplit, List.append_assoc, List.cons_append]

/-- The tracker and the reference agree after every prefix of an admissible sequence. -/
theorem refines_finalState {ops before after : List Op} (hincrease : OffsetsIncrease ops)
    (hsplit : ops = before ++ after) :
    Refines (finalState Tracker.apply Tracker.default before) (finalState apply initial before) ∧
      List.Forall₂ Returns (outputs Tracker.apply Tracker.default before)
        (outputs apply initial before) := by
  have hnext (tracker : Tracker) (reference : ReferenceTracker) (op : Op)
      (hrefines : Refines tracker reference) (hadmits : reference.Admits op) :
      Refines (tracker.apply op).1 (reference.apply op).1 ∧
        Returns (tracker.apply op).2 (reference.apply op).2 :=
    refines_apply hrefines hadmits
  refine forall₂_outputs Refines Admits Returns hnext refines_initial before
    fun first op last hbefore ↦ ?_
  have hplace : ops = first ++ op :: (last ++ after) := by
    rw [hsplit, hbefore, List.append_assoc, List.cons_append]
  exact admits_of_offsetsIncrease hincrease hplace

/-- Between two revokes of a partition the offset last returned never falls. -/
theorem le_returned (reference : ReferenceTracker) {ops : List Op}
    (hrevoke : .revoke topic partition ∉ ops) {last : ℤ}
    (hlast : (reference.histories topic partition).returned = some last) :
    ∃ later ≥ last, ((finalState apply reference ops).histories topic partition).returned =
      some later := by
  induction ops generalizing reference last with
  | nil => exact ⟨last, le_rfl, hlast⟩
  | cons op ops ih =>
    rw [List.mem_cons, not_or] at hrevoke
    have hkeeps : (reference.record topic partition op).returned = some last := by
      cases op with
      | revoke otherTopic otherPartition =>
        simp only [record]
        rw [if_neg]
        · exact hlast
        · rintro ⟨rfl, rfl⟩
          exact hrevoke.1 rfl
      | noteDelivered id => exact hlast
      | _ =>
        simp only [record]
        split_ifs <;> exact hlast
    have hstep : ∃ later ≥ last, ((reference.apply op).1.histories topic partition).returned =
        some later := by
      change ∃ later ≥ last, ((reference.record topic partition op).grown _).or
        (reference.record topic partition op).returned = some later
      rw [hkeeps]
      cases hgrown : (reference.record topic partition op).grown
          (Tracker.reportedBy reference.reported op) with
      | none => exact ⟨last, le_rfl, rfl⟩
      | some offset =>
        have hbeyond := (History.grown_eq_some_iff.mp hgrown).2.1
        exact ⟨offset, (History.beyond_iff.mp hbeyond last hkeeps).le, rfl⟩
    obtain ⟨middle, hmiddle, hreturned⟩ := hstep
    obtain ⟨later, hlater, hfinal⟩ := ih _ hrevoke.2 hreturned
    exact ⟨later, hmiddle.trans hlater, hfinal⟩

/-- An offset a call returns is beyond the one returned before it. -/
theorem lt_of_grown {op : Op} {last offset : ℤ}
    (hlast : (reference.histories topic partition).returned = some last)
    (hgrown : (reference.apply op).2 topic partition = some offset) : last < offset := by
  change (reference.record topic partition op).grown _ = some offset at hgrown
  obtain ⟨⟨⟨tracked, htracked, -⟩, -⟩, hbeyond, -⟩ := History.grown_eq_some_iff.mp hgrown
  refine History.beyond_iff.mp hbeyond last ?_
  -- a revoke forgets every record, so what is returned after it is never a new offset
  cases op with
  | revoke otherTopic otherPartition =>
    simp only [record] at htracked ⊢
    split_ifs at htracked ⊢ with hsame
    · exact absurd htracked List.not_mem_nil
    · exact hlast
  | noteDelivered id => exact hlast
  | _ =>
    simp only [record]
    split_ifs <;> exact hlast

/-- The tracker refines the reference over every sequence of calls whose inserts increase between
revokes: call by call it returns the offsets that have grown, each partition at most once; no
partition is left with a resolvable record at its head; and the offsets returned for a partition
strictly increase between its revokes, so nothing is returned twice. Assumes: the offsets inserted
in a partition increase between its revokes. -/
theorem tracker_refines_reference (ops : List Op) (hincrease : OffsetsIncrease ops) :
    List.Forall₂ Returns (outputs Tracker.apply Tracker.default ops)
        (outputs apply initial ops) ∧
      (finalState Tracker.apply Tracker.default ops).Settled ∧
      ∀ before first between second after topic partition lower upper,
        ops = before ++ first :: (between ++ second :: after) →
        (topic, partition, lower) ∈
          ((finalState Tracker.apply Tracker.default before).apply first).2 →
        .revoke topic partition ∉ between →
        (topic, partition, upper) ∈ ((finalState Tracker.apply Tracker.default
          (before ++ first :: between)).apply second).2 → lower < upper := by
  refine ⟨(refines_finalState hincrease (List.append_nil ops).symm).2,
    Tracker.settled_finalState ops, ?_⟩
  intro before first between second after topic partition lower upper hsplit hlower hrevoke hupper
  have hfirst := (refines_finalState hincrease hsplit).1
  have hlow := (refines_apply hfirst (admits_of_offsetsIncrease hincrease hsplit)).2
  have hsplit' : ops = (before ++ first :: between) ++ second :: after := by
    rw [hsplit, List.append_assoc, List.cons_append]
  have hsecond := (refines_finalState hincrease hsplit').1
  have hhigh := (refines_apply hsecond (admits_of_offsetsIncrease hincrease hsplit')).2
  have hgrownLow := (hlow.2 topic partition lower).mp hlower
  have hgrownHigh := (hhigh.2 topic partition upper).mp hupper
  have hreturned : (((finalState apply initial before).apply first).1.histories
      topic partition).returned = some lower := by
    change (((finalState apply initial before).apply first).2 topic partition).or _ = some lower
    rw [hgrownLow, Option.some_or]
  obtain ⟨last, hle, hlast⟩ := le_returned _ hrevoke hreturned
  rw [finalState_append] at hgrownHigh
  exact hle.trans_lt (lt_of_grown hlast hgrownHigh)

/-- Two records done in the other order: only the second completion returns an offset. -/
theorem tracker_refines_reference_two_records :
    List.Forall₂ Returns
      (outputs Tracker.apply Tracker.default
        [.insert "t" 0 5, .insert "t" 0 6, .done "t" 0 6 ⟨1⟩ 0, .done "t" 0 5 ⟨0⟩ 0])
      (outputs apply initial
        [.insert "t" 0 5, .insert "t" 0 6, .done "t" 0 6 ⟨1⟩ 0, .done "t" 0 5 ⟨0⟩ 0]) :=
  (tracker_refines_reference _ (offsetsIncrease_of_pairwise (by simp; omega))).1

end ReferenceTracker

end OmniaBackends.Kafka
