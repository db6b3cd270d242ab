import OmniaBackends.Foundation.Run
import OmniaBackends.Kafka.Tracker

/-!
# One tracker operation as a local change and a resolution

The tracker resolves as little as it can: `done` looks at one partition, a delivery report that
does not move the watermark at none. `apply_spec` says that this is never too little. While the
tracker is `Settled`, meaning that no partition has a resolvable record at its head, every
operation is the same two things: the change it makes to the pending records (`marked`), and then
a resolution of every partition against the watermark. The offsets returned are those of the
partitions where that resolution finds some, and the tracker is settled again
(`settled_apply`), so it is settled in every state it can reach (`settled_finalState`).

The watermark and the reports kept above it depend on the set of reported numbers alone
(`marks_apply`).
-/

set_option autoImplicit false
set_option relaxedAutoImplicit false

namespace OmniaBackends.Kafka

open Foundation

/-- A call of the tracker. -/
inductive Op
  /-- A record pulled. -/
  | insert (topic : String) (partition offset : ℤ)
  /-- A record's handler has succeeded. -/
  | done (topic : String) (partition offset : ℤ) (ticket : Ticket) (sendsBefore : ℕ)
  /-- A delivery report. -/
  | noteDelivered (id : ℕ)
  /-- A partition taken from this consumer. -/
  | revoke (topic : String) (partition : ℤ)
  /-- A partition given to this consumer. -/
  | assign (topic : String) (partition : ℤ)
  deriving DecidableEq

/-! ### Partitions -/

/-- No resolvable record is at the head of the partition. -/
def Partition.Settled (state : Partition) (delivered : ℕ) : Prop :=
  OrderedMap.Stuck (fun pending ↦ pending.resolved delivered) state.pending

variable {state : Partition} {delivered : ℕ} {offset last : ℤ}

/-- A settled partition resolves nothing. -/
theorem Partition.Settled.resolve_eq (hsettled : state.Settled delivered) :
    state.resolve delivered = (none, state) := by
  simp [Partition.resolve, hsettled.popWhile_eq]

/-- A partition is settled after it resolves. -/
theorem Partition.settled_resolve (state : Partition) (delivered : ℕ) :
    (state.resolve delivered).2.Settled delivered :=
  OrderedMap.stuck_popWhile _ _

/-- Resolving keeps the revoked flag. -/
@[simp] theorem Partition.revoked_resolve (state : Partition) (delivered : ℕ) :
    (state.resolve delivered).2.revoked = state.revoked :=
  rfl

/-- When a partition resolves up to `last`, every pending record up to `last` was resolved, `last`
was pending, and exactly the records beyond it stay. -/
theorem Partition.resolve_some (hlast : (state.resolve delivered).1 = some last) :
    (∃ pending, state.pending.get? last = some pending) ∧
      (∀ offset ≤ last, ∀ pending, state.pending.get? offset = some pending →
        pending.resolved delivered = true) ∧
      ∀ offset, (state.resolve delivered).2.pending.get? offset =
        if offset ≤ last then none else state.pending.get? offset :=
  OrderedMap.popWhile_some hlast

/-- When a partition resolves nothing it is unchanged. -/
theorem Partition.resolve_none (hnone : (state.resolve delivered).1 = none) :
    (state.resolve delivered).2 = state := by
  simp only [Partition.resolve, OrderedMap.popWhile_none hnone]

/-- A record that stays was there, and one that was there stays unless the partition resolved up
to its offset or further. -/
theorem Partition.get?_resolve (pending : Pending) :
    (state.resolve delivered).2.pending.get? offset = some pending ↔
      state.pending.get? offset = some pending ∧
        ∀ last, (state.resolve delivered).1 = some last → last < offset := by
  cases hresolve : (state.resolve delivered).1 with
  | none => simp [Partition.resolve_none hresolve]
  | some last =>
    obtain ⟨-, -, hstay⟩ := Partition.resolve_some hresolve
    rw [hstay]
    by_cases hle : offset ≤ last
    · simp [hle]
    · simp [hle, not_le.mp hle]

/-! ### What is returned for a partition -/

/-- The offsets for one partition among resolved offsets, in order. -/
def offsetsOf (stored : List Stored) (topic : String) (partition : ℤ) : List ℤ :=
  stored.filterMap fun one ↦
    if one.1 = topic ∧ one.2.1 = partition then some one.2.2 else none

/-- The offsets for a partition over two lists. -/
theorem offsetsOf_append (first second : List Stored) (topic : String) (partition : ℤ) :
    offsetsOf (first ++ second) topic partition =
      offsetsOf first topic partition ++ offsetsOf second topic partition :=
  List.filterMap_append

/-- An offset is there for a partition when it was returned for it. -/
theorem mem_offsetsOf {stored : List Stored} {topic : String} {partition offset : ℤ} :
    offset ∈ offsetsOf stored topic partition ↔ (topic, partition, offset) ∈ stored := by
  unfold offsetsOf
  rw [List.mem_filterMap]
  constructor
  · rintro ⟨⟨otherTopic, otherPartition, found⟩, hmem, hsome⟩
    dsimp only at hsome
    split_ifs at hsome with hsame
    obtain ⟨rfl, rfl⟩ := hsame
    rwa [← Option.some.inj hsome]
  · intro hmem
    exact ⟨_, hmem, if_pos ⟨rfl, rfl⟩⟩

/-- In a list with each partition at most once, the offsets for a partition are the one there is,
if any. -/
theorem offsetsOf_eq_toList {stored : List Stored} {topic : String} {partition : ℤ}
    {resolved : Option ℤ} (hnodup : (stored.map fun one ↦ (one.1, one.2.1)).Nodup)
    (hresolved : ∀ offset, (topic, partition, offset) ∈ stored ↔ resolved = some offset) :
    offsetsOf stored topic partition = resolved.toList := by
  induction stored generalizing resolved with
  | nil =>
    have hnone : resolved = none := Option.eq_none_iff_forall_ne_some.mpr fun offset hoffset ↦
      absurd ((hresolved offset).mpr hoffset) List.not_mem_nil
    rw [hnone]
    rfl
  | cons one rest ih =>
    obtain ⟨otherTopic, otherPartition, found⟩ := one
    obtain ⟨hhead, htail⟩ := List.nodup_cons.mp hnodup
    by_cases hsame : otherTopic = topic ∧ otherPartition = partition
    · obtain ⟨rfl, rfl⟩ := hsame
      have hnone : offsetsOf rest otherTopic otherPartition = [] := by
        refine List.eq_nil_iff_forall_not_mem.mpr fun offset hoffset ↦ hhead ?_
        exact List.mem_map.mpr ⟨_, mem_offsetsOf.mp hoffset, rfl⟩
      rw [(hresolved found).mp List.mem_cons_self, ← List.singleton_append, offsetsOf_append, hnone]
      simp [offsetsOf]
    · have hrest : offsetsOf rest topic partition = resolved.toList := by
        refine ih htail fun offset ↦ ?_
        rw [← hresolved offset, List.mem_cons, or_iff_right]
        rintro heq
        simp only [Prod.mk.injEq] at heq
        exact hsame ⟨heq.1.symm, heq.2.1.symm⟩
      rw [← List.singleton_append, offsetsOf_append, hrest]
      simp [offsetsOf, hsame]

namespace Tracker

/-! ### The operations as one function -/

/-- A call of the tracker: the tracker after it, and the offsets it returns. -/
def apply (tracker : Tracker) : Op → Tracker × List Stored
  | .insert topic partition offset => ((tracker.insert topic partition offset).1, [])
  | .done topic partition offset ticket sendsBefore =>
    let finished := tracker.done topic partition offset ticket sendsBefore
    (finished.1, finished.2.toList)
  | .noteDelivered id => tracker.noteDelivered id
  | .revoke topic partition => (tracker.revoke topic partition, [])
  | .assign topic partition => (tracker.assign topic partition, [])

/-- The numbers reported once a call has been made. -/
def reportedBy (reported : Finset ℕ) : Op → Finset ℕ
  | .noteDelivered id => Insert.insert id reported
  | _ => reported

/-- The change a call makes to a partition's records before anything is resolved. -/
def marked (tracker : Tracker) (topic : String) (partition : ℤ) : Op → Partition
  | .insert otherTopic otherPartition offset =>
    if topic = otherTopic ∧ partition = otherPartition ∧
        (tracker.state topic partition).revoked = false then
      { tracker.state topic partition with
        pending := (tracker.state topic partition).pending.insert offset
          ⟨⟨tracker.tickets⟩, false, 0⟩ }
    else tracker.state topic partition
  | .done otherTopic otherPartition offset ticket sendsBefore =>
    if topic = otherTopic ∧ partition = otherPartition ∧
        tracker.holds topic partition offset ticket = true then
      markDone (tracker.state topic partition) offset ticket sendsBefore
    else tracker.state topic partition
  | .noteDelivered _ => tracker.state topic partition
  | .revoke otherTopic otherPartition =>
    if topic = otherTopic ∧ partition = otherPartition then ⟨true, OrderedMap.empty⟩
    else tracker.state topic partition
  | .assign otherTopic otherPartition =>
    if topic = otherTopic ∧ partition = otherPartition then
      { tracker.state topic partition with revoked := false }
    else tracker.state topic partition

/-- No partition has a resolvable record at its head. -/
def Settled (tracker : Tracker) : Prop :=
  ∀ topic partition, (tracker.state topic partition).Settled tracker.delivered

variable {tracker : Tracker} {reported : Finset ℕ}

/-- The tracker of a new client is settled. -/
theorem settled_default : Settled default :=
  fun _ _ ↦ OrderedMap.stuck_empty _

/-- Only a delivery report moves the watermark. -/
theorem delivered_apply (tracker : Tracker) {op : Op} (hop : ∀ id, op ≠ .noteDelivered id) :
    (tracker.apply op).1.delivered = tracker.delivered ∧
      (tracker.apply op).1.outOfOrder = tracker.outOfOrder := by
  cases op with
  | insert topic partition offset => exact ⟨rfl, rfl⟩
  | done topic partition offset ticket sendsBefore =>
    exact ⟨(done_frame tracker topic partition offset ticket sendsBefore).1,
      (done_frame tracker topic partition offset ticket sendsBefore).2.1⟩
  | noteDelivered id => exact absurd rfl (hop id)
  | revoke topic partition => exact ⟨rfl, rfl⟩
  | assign topic partition => exact ⟨rfl, rfl⟩

/-- The watermark and the numbers kept above it are those of the reported numbers. -/
theorem marks_apply (hmarks : Marks tracker.delivered tracker.outOfOrder reported) (op : Op) :
    Marks (tracker.apply op).1.delivered (tracker.apply op).1.outOfOrder
      (reportedBy reported op) := by
  by_cases hop : ∀ id, op ≠ .noteDelivered id
  · obtain ⟨hdelivered, houtOfOrder⟩ := delivered_apply tracker hop
    rw [hdelivered, houtOfOrder]
    cases op with
    | noteDelivered id => exact absurd rfl (hop id)
    | _ => exact hmarks
  · obtain ⟨id, rfl⟩ := not_forall_not.mp hop
    simp only [apply, reportedBy]
    rcases tracker.noteDelivered_cases id with ⟨hid, heq⟩ | ⟨hid, heq⟩ | ⟨rfl, heq⟩
    · rw [heq]
      exact hmarks.note_below hid
    · rw [heq]
      exact hmarks.note_beyond hid
    · rw [heq]
      exact hmarks.note_next

/-- The numbers reported only grow. -/
theorem subset_reportedBy (reported : Finset ℕ) (op : Op) : reported ⊆ reportedBy reported op := by
  cases op with
  | noteDelivered id => exact Finset.subset_insert id reported
  | _ => exact subset_rfl

/-- The watermark never falls. -/
theorem delivered_le_apply (hmarks : Marks tracker.delivered tracker.outOfOrder reported)
    (op : Op) :
    tracker.delivered ≤ (tracker.apply op).1.delivered :=
  (marks_apply hmarks op).le_next_iff.mpr fun number hnumber ↦
    subset_reportedBy reported op (hmarks.below number hnumber)

/-- The numbers reported in a list of calls. -/
def reportedIn (ops : List Op) : Finset ℕ :=
  ops.foldl reportedBy ∅

/-- A number is reported in a list of calls exactly when one of them reports it. -/
theorem mem_reportedIn {ops : List Op} {id : ℕ} :
    id ∈ reportedIn ops ↔ .noteDelivered id ∈ ops := by
  unfold reportedIn
  induction ops using List.reverseRecOn with
  | nil => simp
  | append_singleton ops op ih =>
    rw [List.foldl_append, List.foldl_cons, List.foldl_nil, List.mem_append, ← ih]
    cases op with
    | noteDelivered other => simp [reportedBy, or_comm]
    | _ => simp [reportedBy]

/-- Whatever is called, the watermark and the numbers kept above it are those of the numbers
reported. -/
theorem marks_finalState (ops : List Op) :
    Marks (finalState apply default ops).delivered (finalState apply default ops).outOfOrder
      (reportedIn ops) := by
  induction ops using List.reverseRecOn with
  | nil => exact marks_empty
  | append_singleton ops op ih =>
    rw [finalState_append, reportedIn, List.foldl_append]
    exact marks_apply ih op

/-- The count of tickets after a call. -/
theorem tickets_apply (tracker : Tracker) (op : Op) :
    (tracker.apply op).1.tickets =
      match op with
      | .insert _ _ _ => tracker.tickets + 1
      | _ => tracker.tickets := by
  cases op with
  | insert topic partition offset => rfl
  | done topic partition offset ticket sendsBefore =>
    exact (done_frame tracker topic partition offset ticket sendsBefore).2.2
  | noteDelivered id =>
    rcases tracker.noteDelivered_cases id with ⟨-, heq⟩ | ⟨-, heq⟩ | ⟨-, heq⟩ <;>
      simp [apply, heq, resolveAll, advance]
  | revoke topic partition => rfl
  | assign topic partition => rfl

/-! ### Every call resolves all there is to resolve -/

/-- The local change of a call that is neither a completion nor a report leaves a settled
partition settled. -/
theorem settled_marked (hsettled : tracker.Settled) (topic : String) (partition : ℤ) {op : Op}
    (hop : ∀ topic partition offset ticket sendsBefore,
      op ≠ .done topic partition offset ticket sendsBefore) :
    (tracker.marked topic partition op).Settled tracker.delivered := by
  cases op with
  | insert otherTopic otherPartition offset =>
    rw [marked]
    split_ifs
    · exact (hsettled topic partition).insert offset rfl
    · exact hsettled topic partition
  | done topic partition offset ticket sendsBefore => exact absurd rfl (hop _ _ _ _ _)
  | noteDelivered id => exact hsettled topic partition
  | revoke otherTopic otherPartition =>
    rw [marked]
    split_ifs
    · exact OrderedMap.stuck_empty _
    · exact hsettled topic partition
  | assign otherTopic otherPartition =>
    rw [marked]
    split_ifs
    · exact hsettled topic partition
    · exact hsettled topic partition

/-- A call that returns nothing, leaves each partition as its local change made it and leaves it
settled, resolved all there was to resolve. -/
theorem apply_spec_of_quiet {op : Op} {topic : String} {partition : ℤ}
    (hstate : (tracker.apply op).1.state topic partition = tracker.marked topic partition op)
    (hsettled : (tracker.marked topic partition op).Settled (tracker.apply op).1.delivered)
    (hreturned : (tracker.apply op).2 = []) :
    (tracker.apply op).1.state topic partition =
        ((tracker.marked topic partition op).resolve (tracker.apply op).1.delivered).2 ∧
      ∀ offset, (topic, partition, offset) ∈ (tracker.apply op).2 ↔
        ((tracker.marked topic partition op).resolve (tracker.apply op).1.delivered).1 =
          some offset := by
  rw [hsettled.resolve_eq, hstate, hreturned]
  simp

/-- A completion of a held record resolves the record's partition, and every other partition of a
settled tracker has nothing to resolve. -/
theorem apply_spec_done (hsettled : tracker.Settled) {otherTopic : String}
    {otherPartition otherOffset : ℤ} {ticket : Ticket}
    (hholds : tracker.holds otherTopic otherPartition otherOffset ticket = true)
    (sendsBefore : ℕ) (topic : String) (partition : ℤ) :
    let finished := tracker.done otherTopic otherPartition otherOffset ticket sendsBefore
    let marked := if topic = otherTopic ∧ partition = otherPartition then
        markDone (tracker.state topic partition) otherOffset ticket sendsBefore
      else tracker.state topic partition
    finished.1.state topic partition = (marked.resolve tracker.delivered).2 ∧
      ∀ offset, (topic, partition, offset) ∈ finished.2.toList ↔
        (marked.resolve tracker.delivered).1 = some offset := by
  intro finished marked
  have hfinished : finished = _ := done_of_holds hholds sendsBefore
  by_cases hsame : topic = otherTopic ∧ partition = otherPartition
  · obtain ⟨rfl, rfl⟩ := hsame
    simp only [hfinished, marked, state_partitionOrInsert, and_self, if_true, true_and,
      Option.mem_toList, Option.map_eq_some_iff, Prod.mk.injEq, exists_eq_right, implies_true]
  · have hquiet : (tracker.state topic partition).resolve tracker.delivered =
        (none, tracker.state topic partition) := (hsettled topic partition).resolve_eq
    simp only [hfinished, marked, state_partitionOrInsert, hsame, if_false, hquiet, true_and,
      Option.mem_toList, Option.map_eq_some_iff, Prod.mk.injEq, reduceCtorEq, iff_false, not_exists,
      not_and]
    rintro offset last - rfl rfl
    exact absurd ⟨rfl, rfl⟩ hsame

/-- A call of a settled tracker changes its own records and resolves every partition against the
watermark it leaves, and what it returns is what that resolution found. -/
theorem apply_spec (hsettled : tracker.Settled) (op : Op) (topic : String) (partition : ℤ) :
    (tracker.apply op).1.state topic partition =
        ((tracker.marked topic partition op).resolve (tracker.apply op).1.delivered).2 ∧
      ∀ offset, (topic, partition, offset) ∈ (tracker.apply op).2 ↔
        ((tracker.marked topic partition op).resolve (tracker.apply op).1.delivered).1 =
          some offset := by
  cases op with
  | insert otherTopic otherPartition offset =>
    refine apply_spec_of_quiet ?_ (settled_marked hsettled topic partition (by simp)) rfl
    simp only [apply, marked, state_insert]
    split_ifs with hother hsame hsame
    · obtain ⟨rfl, rfl, -⟩ := hsame
      rfl
    · exact absurd ⟨hother.1, hother.2.1, hother.1 ▸ hother.2.1 ▸ hother.2.2⟩ hsame
    · exact absurd ⟨hsame.1, hsame.2.1, hsame.1 ▸ hsame.2.1 ▸ hsame.2.2⟩ hother
    · rfl
  | done otherTopic otherPartition otherOffset ticket sendsBefore =>
    rw [(delivered_apply tracker (by simp)).1]
    cases hholds : tracker.holds otherTopic otherPartition otherOffset ticket
    · have hmarked : tracker.marked topic partition (.done otherTopic otherPartition otherOffset
          ticket sendsBefore) = tracker.state topic partition := by
        rw [marked, if_neg]
        rintro ⟨rfl, rfl, htrue⟩
        rw [hholds] at htrue
        exact Bool.noConfusion htrue
      rw [hmarked, (hsettled topic partition).resolve_eq, apply, done_of_not_holds hholds]
      simp
    · have hmarked : tracker.marked topic partition (.done otherTopic otherPartition otherOffset
          ticket sendsBefore) = if topic = otherTopic ∧ partition = otherPartition then
            markDone (tracker.state topic partition) otherOffset ticket sendsBefore
          else tracker.state topic partition := by
        rw [marked]
        by_cases hsame : topic = otherTopic ∧ partition = otherPartition
        · obtain ⟨rfl, rfl⟩ := hsame
          simp [hholds]
        · rw [if_neg hsame, if_neg fun h ↦ hsame ⟨h.1, h.2.1⟩]
      rw [hmarked]
      exact apply_spec_done hsettled hholds sendsBefore topic partition
  | noteDelivered id =>
    rcases tracker.noteDelivered_cases id with ⟨-, heq⟩ | ⟨-, heq⟩ | ⟨-, heq⟩
    · have happly : tracker.apply (.noteDelivered id) = (tracker, []) := heq
      refine apply_spec_of_quiet ?_ ?_ (by rw [happly]) <;> rw [happly]
      · rfl
      · exact hsettled topic partition
    · have happly : tracker.apply (.noteDelivered id) = (_, []) := heq
      refine apply_spec_of_quiet ?_ ?_ (by rw [happly]) <;> rw [happly]
      · rfl
      · exact hsettled topic partition
    · have happly : tracker.apply (.noteDelivered id) = tracker.advance.resolveAll := heq
      rw [happly]
      exact ⟨state_resolveAll _ _ _, fun offset ↦ mem_resolveAll⟩
  | revoke otherTopic otherPartition =>
    refine apply_spec_of_quiet ?_ (settled_marked hsettled topic partition (by simp)) rfl
    exact state_revoke _ _ _ _ _
  | assign otherTopic otherPartition =>
    refine apply_spec_of_quiet ?_ (settled_marked hsettled topic partition (by simp)) rfl
    simp only [apply, marked, state_assign]
    split_ifs with hsame
    · obtain ⟨rfl, rfl⟩ := hsame
      rfl
    · rfl

/-- A call leaves a settled tracker settled. -/
theorem settled_apply (hsettled : tracker.Settled) (op : Op) : (tracker.apply op).1.Settled := by
  intro topic partition
  rw [(apply_spec hsettled op topic partition).1]
  exact Partition.settled_resolve _ _

/-- A call returns at most one offset for a partition. -/
theorem nodup_apply (tracker : Tracker) (op : Op) :
    ((tracker.apply op).2.map fun stored ↦ (stored.1, stored.2.1)).Nodup := by
  cases op with
  | done topic partition offset ticket sendsBefore =>
    simp only [apply]
    cases (tracker.done topic partition offset ticket sendsBefore).2 <;> simp
  | noteDelivered id =>
    rcases tracker.noteDelivered_cases id with ⟨-, heq⟩ | ⟨-, heq⟩ | ⟨-, heq⟩
    · simp [apply, heq]
    · simp [apply, heq]
    · rw [apply, heq]
      exact nodup_resolveAll _
  | insert topic partition offset => exact List.nodup_nil
  | revoke topic partition => exact List.nodup_nil
  | assign topic partition => exact List.nodup_nil

/-- A call of a settled tracker returns for a partition what its resolution found. -/
theorem offsetsOf_apply (hsettled : tracker.Settled) (op : Op) (topic : String) (partition : ℤ) :
    offsetsOf (tracker.apply op).2 topic partition =
      ((tracker.marked topic partition op).resolve (tracker.apply op).1.delivered).1.toList :=
  offsetsOf_eq_toList (nodup_apply tracker op) (apply_spec hsettled op topic partition).2

/-- Whatever is called, no partition has a resolvable record at its head. -/
theorem settled_finalState (ops : List Op) : (finalState apply default ops).Settled :=
  finalState_invariant Settled (fun _ op hsettled ↦ settled_apply hsettled op) settled_default ops

end Tracker

end OmniaBackends.Kafka
