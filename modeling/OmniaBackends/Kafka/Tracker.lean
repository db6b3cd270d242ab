import Mathlib.Data.String.Basic
import Mathlib.Data.Int.Basic
import OmniaBackends.Foundation.OrderedMap
import OmniaBackends.Foundation.Watermark

/-!
# The offset tracker of the Kafka backend

`crates/kafka/src/tracker.rs`. The tracker is told of every record pulled (`Tracker.insert`),
of every record whose handler has succeeded (`Tracker.done`, with the value the send counter had
then), of every delivery report of a send (`Tracker.noteDelivered`) and of the rebalances
(`Tracker.revoke`, `Tracker.assign`). It answers with the offsets to store: the highest offset of
a partition with every tracked record up to it done and every send those records waited on
reported.

The definitions follow the source one by one. `Tracker.state` reads a partition that has no entry
yet as the default one, as `partition_or_insert` would create it. The lemmas of this module say
what each operation does to the state of every partition and to the watermark, once, and the other
modules use them without unfolding an operation: `state_insert`, `done_of_holds` and
`done_of_not_holds`, `noteDelivered_cases`, `state_resolveAll` and `mem_resolveAll`, `state_revoke`
and `state_assign`.

Tickets and send numbers are natural numbers: the source counts them in 64 bits, one for each
record pulled and one for each send of a process.
-/

set_option autoImplicit false
set_option relaxedAutoImplicit false

namespace OmniaBackends.Kafka

open Foundation

/-! ### The data model -/

/-- A resolved offset as `store_offset` takes it: topic, partition, offset. -/
abbrev Stored := String × ℤ × ℤ

/-- One pull of a record. The same offset pulled again after a revoke is another ticket. -/
structure Ticket where
  /-- The count of pulls before this one. -/
  number : ℕ
  deriving DecidableEq, Repr

/-- One record the host has been given, or that is waiting on an earlier record in its partition.
`sendsBefore` is meaningful once `done` is set. -/
structure Pending where
  /-- The pull the record came from. -/
  ticket : Ticket
  /-- Whether its handler has succeeded. -/
  done : Bool
  /-- The sends numbered below this have to be delivered before the record is resolved. -/
  sendsBefore : ℕ
  deriving DecidableEq, Repr

/-- Whether a record is done with the sends it waited on delivered. -/
def Pending.resolved (pending : Pending) (delivered : ℕ) : Bool :=
  pending.done && decide (pending.sendsBefore ≤ delivered)

/-- A partition's state, kept from its first record or assignment for the life of the tracker. A
revoke empties it rather than removing it. -/
structure Partition where
  /-- Whether the partition was revoked and not assigned again. -/
  revoked : Bool
  /-- The records not resolved yet, by offset. -/
  pending : OrderedMap ℤ Pending

/-- The state of a partition never seen. -/
def Partition.default : Partition :=
  ⟨false, OrderedMap.empty⟩

/-- The leading records that are done with their sends delivered leave; the last of them is the
new resolved offset. -/
def Partition.resolve (state : Partition) (delivered : ℕ) : Option ℤ × Partition :=
  let popped := state.pending.popWhile fun pending ↦ pending.resolved delivered
  (popped.1, { state with pending := popped.2 })

/-- The tracker: the partitions by topic, the watermark of the delivery reports with the reports
above it, and the count of tickets given out. -/
structure Tracker where
  /-- The partitions, by topic and number. -/
  topics : OrderedMap String (OrderedMap ℤ Partition)
  /-- Every send numbered below this has a delivery report. -/
  delivered : ℕ
  /-- The reported sends above the watermark. -/
  outOfOrder : Finset ℕ
  /-- The count of tickets given out. -/
  tickets : ℕ

namespace Tracker

/-- The tracker of a new client. -/
def default : Tracker :=
  ⟨OrderedMap.empty, 0, ∅, 0⟩

/-! ### The operations -/

/-- The entry of a partition, if it has one. -/
def partition (tracker : Tracker) (topic : String) (partition : ℤ) : Option Partition :=
  (tracker.topics.get? topic).bind fun partitions ↦ partitions.get? partition

/-- A change of a partition's state, from the default one where the partition has no entry yet. -/
def partitionOrInsert (tracker : Tracker) (topic : String) (partition : ℤ)
    (change : Partition → Partition) : Tracker :=
  let partitions := (tracker.topics.get? topic).getD OrderedMap.empty
  let state := (partitions.get? partition).getD Partition.default
  { tracker with
    topics := tracker.topics.insert topic (partitions.insert partition (change state)) }

/-- A record pulled: it takes the next ticket, and is tracked unless its partition is revoked. -/
def insert (tracker : Tracker) (topic : String) (partition offset : ℤ) : Tracker × Ticket :=
  let ticket : Ticket := ⟨tracker.tickets⟩
  let counted := { tracker with tickets := tracker.tickets + 1 }
  (counted.partitionOrInsert topic partition fun state ↦
    if state.revoked then state
    else { state with pending := state.pending.insert offset ⟨ticket, false, 0⟩ }, ticket)

/-- Whether the record is still this consumer's to deliver. -/
def holds (tracker : Tracker) (topic : String) (partition offset : ℤ) (ticket : Ticket) : Bool :=
  match (tracker.partition topic partition).bind fun state ↦ state.pending.get? offset with
  | some pending => decide (pending.ticket = ticket)
  | none => false

/-- A record's handler has succeeded, with `sendsBefore` sends numbered before that. Only the
record's own partition can resolve here: the delivered watermark has not moved. -/
def done (tracker : Tracker) (topic : String) (partition offset : ℤ) (ticket : Ticket)
    (sendsBefore : ℕ) : Tracker × Option Stored :=
  match tracker.partition topic partition with
  | none => (tracker, none)
  | some state =>
    match (state.pending.get? offset).filter fun pending ↦ decide (pending.ticket = ticket) with
    | none => (tracker, none)
    | some pending =>
      let marked := { pending with done := true, sendsBefore := sendsBefore }
      let resolved :=
        { state with pending := state.pending.insert offset marked }.resolve tracker.delivered
      (tracker.partitionOrInsert topic partition fun _ ↦ resolved.2,
        resolved.1.map fun offset ↦ (topic, partition, offset))

/-- The watermark moves past a number just reported, and past the reports kept above it. -/
def advance (tracker : Tracker) : Tracker :=
  let moved := absorb tracker.outOfOrder.card (tracker.delivered + 1) tracker.outOfOrder
  { tracker with delivered := moved.1, outOfOrder := moved.2 }

/-- Every partition resolves against the watermark. -/
def resolveAll (tracker : Tracker) : Tracker × List Stored :=
  let resolve := fun state : Partition ↦ state.resolve tracker.delivered
  ({ tracker with
      topics := tracker.topics.mapValues fun _ partitions ↦
        partitions.mapValues fun _ state ↦ (resolve state).2 },
    tracker.topics.entries.flatMap fun (topic, partitions) ↦
      partitions.entries.filterMap fun (partition, state) ↦
        (resolve state).1.map fun offset ↦ (topic, partition, offset))

/-- A delivery report, including a send that never left the queue. Only a report that moves the
watermark can resolve a record. -/
def noteDelivered (tracker : Tracker) (id : ℕ) : Tracker × List Stored :=
  if id < tracker.delivered then (tracker, [])
  else if tracker.delivered < id then
    ({ tracker with outOfOrder := Insert.insert id tracker.outOfOrder }, [])
  else tracker.advance.resolveAll

/-- A partition taken from this consumer: its records are forgotten. -/
def revoke (tracker : Tracker) (topic : String) (partition : ℤ) : Tracker :=
  tracker.partitionOrInsert topic partition fun _ ↦ { Partition.default with revoked := true }

/-- A partition given to this consumer. -/
def assign (tracker : Tracker) (topic : String) (partition : ℤ) : Tracker :=
  tracker.partitionOrInsert topic partition fun state ↦ { state with revoked := false }

/-! ### The state of a partition -/

/-- The state of a partition, the default one where it has no entry. -/
def state (tracker : Tracker) (topic : String) (partition : ℤ) : Partition :=
  (tracker.partition topic partition).getD Partition.default

variable {tracker : Tracker} {topic : String} {partition offset : ℤ} {ticket : Ticket}

@[simp] theorem state_default (topic : String) (partition : ℤ) :
    default.state topic partition = Partition.default :=
  rfl

/-- A change of one partition leaves every other as it is. -/
theorem state_partitionOrInsert (tracker : Tracker) (topic : String) (partition : ℤ)
    (change : Partition → Partition) (otherTopic : String) (otherPartition : ℤ) :
    (tracker.partitionOrInsert topic partition change).state otherTopic otherPartition =
      if otherTopic = topic ∧ otherPartition = partition then
        change (tracker.state topic partition)
      else tracker.state otherTopic otherPartition := by
  simp only [state, Tracker.partition, partitionOrInsert, OrderedMap.get?_insert]
  by_cases htopic : otherTopic = topic
  · subst htopic
    by_cases hpartition : otherPartition = partition
    · subst hpartition
      cases htopics : tracker.topics.get? otherTopic <;> simp
    · cases htopics : tracker.topics.get? otherTopic <;>
        simp [OrderedMap.get?_insert, hpartition]
  · simp [htopic]

/-- What `holds` reads: the pending record at the offset carries the ticket. -/
theorem holds_iff : tracker.holds topic partition offset ticket = true ↔
    ∃ pending, (tracker.state topic partition).pending.get? offset = some pending ∧
      pending.ticket = ticket := by
  simp only [holds, state]
  cases hpartition : tracker.partition topic partition with
  | none => simp [Partition.default]
  | some state => cases hget : state.pending.get? offset <;> simp [hget]

/-- `insert` changes the record's own partition alone. -/
theorem state_insert (tracker : Tracker) (topic : String) (partition offset : ℤ)
    (otherTopic : String) (otherPartition : ℤ) :
    (tracker.insert topic partition offset).1.state otherTopic otherPartition =
      if otherTopic = topic ∧ otherPartition = partition ∧
          (tracker.state topic partition).revoked = false then
        { tracker.state topic partition with
          pending := (tracker.state topic partition).pending.insert offset
            ⟨⟨tracker.tickets⟩, false, 0⟩ }
      else tracker.state otherTopic otherPartition := by
  rw [insert, state_partitionOrInsert]
  have hcounted (topic : String) (partition : ℤ) :
      ({ tracker with tickets := tracker.tickets + 1 } : Tracker).state topic partition =
        tracker.state topic partition := rfl
  simp only [hcounted]
  by_cases hsame : otherTopic = topic ∧ otherPartition = partition
  · obtain ⟨rfl, rfl⟩ := hsame
    cases (tracker.state otherTopic otherPartition).revoked <;> simp
  · rw [if_neg hsame, if_neg fun h ↦ hsame ⟨h.1, h.2.1⟩]

/-- `done` for a pull that is not held changes nothing. -/
theorem done_of_not_holds (hholds : tracker.holds topic partition offset ticket = false)
    (sendsBefore : ℕ) :
    tracker.done topic partition offset ticket sendsBefore = (tracker, none) := by
  simp only [holds] at hholds
  rw [done]
  cases hpartition : tracker.partition topic partition with
  | none => rfl
  | some state =>
    rw [hpartition, Option.bind_some] at hholds
    dsimp only
    cases hget : state.pending.get? offset with
    | none => rfl
    | some pending =>
      have hticket : ¬pending.ticket = ticket := by simpa [hget] using hholds
      simp [Option.filter, hticket]

/-- A partition's state with the record at an offset marked done. -/
def markDone (state : Partition) (offset : ℤ) (ticket : Ticket) (sendsBefore : ℕ) : Partition :=
  { state with pending := state.pending.insert offset ⟨ticket, true, sendsBefore⟩ }

/-- `done` for a pull that is held marks it and resolves its partition. -/
theorem done_of_holds (hholds : tracker.holds topic partition offset ticket = true)
    (sendsBefore : ℕ) :
    tracker.done topic partition offset ticket sendsBefore =
      let resolved := (markDone (tracker.state topic partition) offset ticket sendsBefore).resolve
        tracker.delivered
      (tracker.partitionOrInsert topic partition fun _ ↦ resolved.2,
        resolved.1.map fun offset ↦ (topic, partition, offset)) := by
  obtain ⟨pending, hget, rfl⟩ := holds_iff.mp hholds
  rw [done]
  simp only [state] at hget ⊢
  cases hpartition : tracker.partition topic partition with
  | none => simp [hpartition, Partition.default] at hget
  | some state =>
    rw [hpartition, Option.getD_some] at hget
    simp [hget, Option.filter, markDone]

/-- `done` touches neither the watermark nor the count of tickets. -/
theorem done_frame (tracker : Tracker) (topic : String) (partition offset : ℤ) (ticket : Ticket)
    (sendsBefore : ℕ) :
    let after := (tracker.done topic partition offset ticket sendsBefore).1
    after.delivered = tracker.delivered ∧ after.outOfOrder = tracker.outOfOrder ∧
      after.tickets = tracker.tickets := by
  cases hholds : tracker.holds topic partition offset ticket
  · simp [done_of_not_holds hholds]
  · simp [done_of_holds hholds, partitionOrInsert]

/-- The state of a partition after `resolveAll`. -/
theorem state_resolveAll (tracker : Tracker) (topic : String) (partition : ℤ) :
    tracker.resolveAll.1.state topic partition =
      ((tracker.state topic partition).resolve tracker.delivered).2 := by
  simp only [state, Tracker.partition, resolveAll, OrderedMap.get?_mapValues]
  cases tracker.topics.get? topic with
  | none => rfl
  | some partitions =>
    simp only [Option.map_some, Option.bind_some, OrderedMap.get?_mapValues]
    cases partitions.get? partition <;> rfl

/-- What `resolveAll` returns: the resolved offset of every partition that has a new one. -/
theorem mem_resolveAll {tracker : Tracker} {topic : String} {partition offset : ℤ} :
    (topic, partition, offset) ∈ tracker.resolveAll.2 ↔
      ((tracker.state topic partition).resolve tracker.delivered).1 = some offset := by
  simp only [resolveAll, List.mem_flatMap, List.mem_filterMap, Option.map_eq_some_iff,
    Prod.mk.injEq, Prod.exists, state, Tracker.partition]
  constructor
  · rintro ⟨name, partitions, hpartitions, number, found, hfound, resolved, hresolved, rfl, rfl,
      rfl⟩
    rw [OrderedMap.get?_eq_some_iff.mpr hpartitions, Option.bind_some,
      OrderedMap.get?_eq_some_iff.mpr hfound]
    exact hresolved
  · intro hresolved
    cases hpartitions : tracker.topics.get? topic with
    | none => simp [hpartitions, Partition.default, Partition.resolve, OrderedMap.popWhile,
        OrderedMap.popEntries, OrderedMap.empty] at hresolved
    | some partitions =>
      rw [hpartitions, Option.bind_some] at hresolved
      cases hfound : partitions.get? partition with
      | none => simp [hfound, Partition.default, Partition.resolve, OrderedMap.popWhile,
          OrderedMap.popEntries, OrderedMap.empty] at hresolved
      | some found =>
        rw [hfound, Option.getD_some] at hresolved
        exact ⟨topic, partitions, OrderedMap.get?_eq_some_iff.mp hpartitions, partition, found,
          OrderedMap.get?_eq_some_iff.mp hfound, offset, hresolved, rfl, rfl, rfl⟩

/-- `resolveAll` returns at most one offset for a partition. -/
theorem nodup_resolveAll (tracker : Tracker) :
    (tracker.resolveAll.2.map fun stored ↦ (stored.1, stored.2.1)).Nodup := by
  rw [List.Nodup, List.pairwise_map, resolveAll, List.pairwise_flatMap]
  constructor
  · rintro ⟨name, partitions⟩ -
    refine List.pairwise_filterMap.mpr (partitions.sorted.imp ?_)
    rintro ⟨_, _⟩ ⟨_, _⟩ hlt stored hstored other hother heq
    obtain ⟨_, _, rfl⟩ := Option.map_eq_some_iff.mp hstored
    obtain ⟨_, _, rfl⟩ := Option.map_eq_some_iff.mp hother
    simp only [Prod.mk.injEq, true_and] at heq
    exact absurd heq hlt.ne
  · refine tracker.topics.sorted.imp ?_
    rintro ⟨_, _⟩ ⟨_, _⟩ hlt stored hstored other hother heq
    obtain ⟨_, _, hfirst⟩ := List.mem_filterMap.mp hstored
    obtain ⟨_, _, hsecond⟩ := List.mem_filterMap.mp hother
    obtain ⟨_, _, rfl⟩ := Option.map_eq_some_iff.mp hfirst
    obtain ⟨_, _, rfl⟩ := Option.map_eq_some_iff.mp hsecond
    simp only [Prod.mk.injEq] at heq
    exact absurd heq.1 hlt.ne

/-- The three things a delivery report can do. -/
theorem noteDelivered_cases (tracker : Tracker) (id : ℕ) :
    (id < tracker.delivered ∧ tracker.noteDelivered id = (tracker, [])) ∨
      (tracker.delivered < id ∧ tracker.noteDelivered id =
        ({ tracker with outOfOrder := Insert.insert id tracker.outOfOrder }, [])) ∨
      (id = tracker.delivered ∧ tracker.noteDelivered id = tracker.advance.resolveAll) := by
  unfold noteDelivered
  split_ifs with hbelow hbeyond
  · exact Or.inl ⟨hbelow, rfl⟩
  · exact Or.inr (Or.inl ⟨hbeyond, rfl⟩)
  · exact Or.inr (Or.inr ⟨le_antisymm (not_lt.mp hbeyond) (not_lt.mp hbelow), rfl⟩)

/-- `revoke` empties the one partition. -/
theorem state_revoke (tracker : Tracker) (topic : String) (partition : ℤ) (otherTopic : String)
    (otherPartition : ℤ) :
    (tracker.revoke topic partition).state otherTopic otherPartition =
      if otherTopic = topic ∧ otherPartition = partition then ⟨true, OrderedMap.empty⟩
      else tracker.state otherTopic otherPartition :=
  state_partitionOrInsert _ _ _ _ _ _

/-- `assign` clears the revoked flag of the one partition. -/
theorem state_assign (tracker : Tracker) (topic : String) (partition : ℤ) (otherTopic : String)
    (otherPartition : ℤ) :
    (tracker.assign topic partition).state otherTopic otherPartition =
      if otherTopic = topic ∧ otherPartition = partition then
        { tracker.state topic partition with revoked := false }
      else tracker.state otherTopic otherPartition :=
  state_partitionOrInsert _ _ _ _ _ _

end Tracker

end OmniaBackends.Kafka
