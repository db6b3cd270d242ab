import OmniaBackends.Kafka.TrackerStep

/-!
# Which pull the tracker holds

An offset can be pulled any number of times: a revoke drops the pull in flight, and the offset
comes back once the partition is assigned again, with completions of the earlier pull still to
come. `holds_iff_latest` reads `Tracker.holds` off the history of the calls: it is true exactly for
the ticket of the latest insert of the offset, when the partition was not revoked at that insert
or since and nothing returned since then has resolved the offset. A completion that carries any
other ticket changes nothing (`stale_pull_inert`).

The proof follows the history from its end. `holds_apply` says what one call does to `holds`, and
`latest_concat` what it does to the condition on the history; the two agree call by call.
-/

set_option autoImplicit false
set_option relaxedAutoImplicit false

namespace OmniaBackends.Kafka

open Foundation

namespace Tracker

variable {tracker : Tracker} {topic : String} {partition offset : ℤ} {ticket : Ticket}

/-! ### The ticket at an offset -/

/-- The ticket of the record pending at an offset. -/
def ticketAt (state : Partition) (offset : ℤ) : Option Ticket :=
  (state.pending.get? offset).map Pending.ticket

/-- `holds` compares the ticket at the offset. -/
theorem holds_iff_ticketAt : tracker.holds topic partition offset ticket = true ↔
    ticketAt (tracker.state topic partition) offset = some ticket := by
  rw [holds_iff, ticketAt, Option.map_eq_some_iff]

/-- The ticket at an offset after a resolution: the one there before, unless the partition
resolved up to the offset. -/
theorem ticketAt_resolve (state : Partition) (delivered : ℕ) :
    ticketAt (state.resolve delivered).2 offset = some ticket ↔
      ticketAt state offset = some ticket ∧
        ∀ last, (state.resolve delivered).1 = some last → last < offset := by
  simp only [ticketAt, Option.map_eq_some_iff, Partition.get?_resolve]
  constructor
  · rintro ⟨pending, ⟨hget, hlast⟩, hticket⟩
    exact ⟨⟨pending, hget, hticket⟩, hlast⟩
  · rintro ⟨⟨pending, hget, hticket⟩, hlast⟩
    exact ⟨pending, ⟨hget, hlast⟩, hticket⟩

/-- Marking a held record done keeps its ticket. -/
theorem ticketAt_markDone {state : Partition} {doneOffset : ℤ}
    (hheld : ticketAt state doneOffset = some ticket) (sendsBefore : ℕ) :
    ticketAt (markDone state doneOffset ticket sendsBefore) offset = ticketAt state offset := by
  simp only [ticketAt, markDone, OrderedMap.get?_insert]
  split_ifs with hsame
  · rw [hsame]
    exact hheld.symm
  · rfl

/-! ### Revoked partitions -/

/-- A revoked partition holds no record. -/
def RevokedEmpty (tracker : Tracker) : Prop :=
  ∀ topic partition, (tracker.state topic partition).revoked = true →
    ∀ offset, (tracker.state topic partition).pending.get? offset = none

/-- The revoked flag after a call: set by a revoke of the partition, cleared by an assignment. -/
theorem revoked_apply (hsettled : tracker.Settled) (op : Op) (topic : String) (partition : ℤ) :
    ((tracker.apply op).1.state topic partition).revoked =
      match op with
      | .revoke otherTopic otherPartition =>
        if topic = otherTopic ∧ partition = otherPartition then true
        else (tracker.state topic partition).revoked
      | .assign otherTopic otherPartition =>
        if topic = otherTopic ∧ partition = otherPartition then false
        else (tracker.state topic partition).revoked
      | _ => (tracker.state topic partition).revoked := by
  rw [(apply_spec hsettled op topic partition).1, Partition.revoked_resolve]
  cases op with
  | noteDelivered id => rfl
  | _ =>
    simp only [marked]
    split_ifs <;> rfl

/-- The local change of a call keeps a revoked partition empty. -/
theorem marked_of_revoked (hempty : tracker.RevokedEmpty) {op : Op}
    (hrevoked : (tracker.marked topic partition op).revoked = true) (offset : ℤ) :
    (tracker.marked topic partition op).pending.get? offset = none := by
  cases op with
  | insert otherTopic otherPartition otherOffset =>
    rw [marked] at hrevoked ⊢
    split_ifs at hrevoked ⊢ with hsame
    · rw [hsame.2.2] at hrevoked
      exact absurd hrevoked (by simp)
    · exact hempty _ _ hrevoked offset
  | done otherTopic otherPartition otherOffset ticket sendsBefore =>
    rw [marked] at hrevoked ⊢
    split_ifs at hrevoked ⊢ with hsame
    · obtain ⟨held, hheld, -⟩ := holds_iff.mp hsame.2.2
      rw [hempty _ _ hrevoked] at hheld
      exact absurd hheld (by simp)
    · exact hempty _ _ hrevoked offset
  | noteDelivered id => exact hempty _ _ hrevoked offset
  | revoke otherTopic otherPartition =>
    rw [marked] at hrevoked ⊢
    split_ifs at hrevoked ⊢
    · rfl
    · exact hempty _ _ hrevoked offset
  | assign otherTopic otherPartition =>
    rw [marked] at hrevoked ⊢
    split_ifs at hrevoked ⊢
    exact hempty _ _ hrevoked offset

/-- A call keeps revoked partitions empty. -/
theorem revokedEmpty_apply (hsettled : tracker.Settled) (hempty : tracker.RevokedEmpty) (op : Op) :
    (tracker.apply op).1.RevokedEmpty := by
  intro topic partition hrevoked offset
  rw [(apply_spec hsettled op topic partition).1] at hrevoked ⊢
  refine Option.eq_none_iff_forall_ne_some.mpr fun pending hget ↦ ?_
  rw [Partition.get?_resolve, marked_of_revoked hempty hrevoked] at hget
  exact absurd hget.1 (by simp)

/-- Whatever is called, a revoked partition holds no record. -/
theorem revokedEmpty_finalState (ops : List Op) : (finalState apply default ops).RevokedEmpty :=
  (finalState_invariant (fun tracker : Tracker ↦ tracker.Settled ∧ tracker.RevokedEmpty)
    (fun _ op h ↦ ⟨settled_apply h.1 op, revokedEmpty_apply h.1 h.2 op⟩)
    ⟨settled_default, fun _ _ _ _ ↦ rfl⟩ ops).2

/-! ### What one call does to `holds` -/

/-- After an insert of the offset itself only its own ticket is held, and that where the partition
is not revoked. -/
theorem holds_apply_insert_self (hempty : tracker.RevokedEmpty) :
    (tracker.apply (.insert topic partition offset)).1.holds topic partition offset ticket = true ↔
      (tracker.state topic partition).revoked = false ∧
        ticket = (tracker.insert topic partition offset).2 := by
  rw [holds_iff_ticketAt, apply, state_insert, insert]
  cases hrevoked : (tracker.state topic partition).revoked
  · simp [ticketAt, eq_comm]
  · simp [ticketAt, hempty topic partition hrevoked]

/-- After any other call the offset's ticket is held exactly if it was, the partition is not the
one revoked, and nothing returned resolves the offset. -/
theorem holds_apply (hsettled : tracker.Settled) {op : Op}
    (hop : op ≠ .insert topic partition offset) :
    (tracker.apply op).1.holds topic partition offset ticket = true ↔
      tracker.holds topic partition offset ticket = true ∧ op ≠ .revoke topic partition ∧
        ∀ last, (topic, partition, last) ∈ (tracker.apply op).2 → last < offset := by
  obtain ⟨hstate, hreturned⟩ := apply_spec hsettled op topic partition
  simp only [hreturned]
  rw [holds_iff_ticketAt, holds_iff_ticketAt, hstate, ticketAt_resolve, ← and_assoc]
  refine and_congr_left fun _ ↦ ?_
  cases op with
  | insert otherTopic otherPartition otherOffset =>
    simp only [marked, ne_eq, reduceCtorEq, not_false_eq_true, and_true]
    split_ifs with hsame
    · obtain ⟨rfl, rfl, -⟩ := hsame
      have hne : offset ≠ otherOffset := fun h ↦ hop (by rw [h])
      simp [ticketAt, OrderedMap.get?_insert_of_ne, hne]
    · rfl
  | done otherTopic otherPartition otherOffset otherTicket sendsBefore =>
    simp only [marked, ne_eq, reduceCtorEq, not_false_eq_true, and_true]
    split_ifs with hsame
    · rw [ticketAt_markDone (holds_iff_ticketAt.mp hsame.2.2)]
    · rfl
  | noteDelivered id => simp [marked]
  | revoke otherTopic otherPartition =>
    simp only [marked, ne_eq, Op.revoke.injEq]
    split_ifs with hsame
    · obtain ⟨rfl, rfl⟩ := hsame
      simp [ticketAt]
    · rw [and_iff_left]
      exact fun h ↦ hsame ⟨h.1.symm, h.2.symm⟩
  | assign otherTopic otherPartition =>
    simp only [marked, ne_eq, reduceCtorEq, not_false_eq_true, and_true]
    split_ifs <;> rfl

/-! ### The history -/

/-- Whether the last rebalance of a partition in a history was a revoke. -/
def revokedAfter (topic : String) (partition : ℤ) (ops : List Op) : Bool :=
  ops.foldl (fun revoked op ↦
    match op with
    | .revoke otherTopic otherPartition =>
      if topic = otherTopic ∧ partition = otherPartition then true else revoked
    | .assign otherTopic otherPartition =>
      if topic = otherTopic ∧ partition = otherPartition then false else revoked
    | _ => revoked) false

/-- The revoked flag records the last rebalance of the partition. -/
theorem revoked_finalState (ops : List Op) (topic : String) (partition : ℤ) :
    ((finalState apply default ops).state topic partition).revoked =
      revokedAfter topic partition ops := by
  induction ops using List.reverseRecOn with
  | nil => rfl
  | append_singleton ops op ih =>
    rw [finalState_append, revokedAfter, List.foldl_append, ← revokedAfter, ← ih]
    exact revoked_apply (settled_finalState ops) op topic partition

/-- The ticket came from the latest insert of the offset, the partition was not revoked at that
insert or since, and no offset returned since resolves it. -/
def Latest (ops : List Op) (topic : String) (partition offset : ℤ) (ticket : Ticket) : Prop :=
  ∃ before after, ops = before ++ .insert topic partition offset :: after ∧
    ticket = ((finalState apply default before).insert topic partition offset).2 ∧
    .insert topic partition offset ∉ after ∧
    revokedAfter topic partition before = false ∧ .revoke topic partition ∉ after ∧
    ∀ last, (topic, partition, last) ∈ (outputs apply
      (finalState apply default (before ++ [.insert topic partition offset])) after).flatten →
        last < offset

/-- The latest insert of an offset in a history that ends with one is that one. -/
theorem latest_concat_insert_self (ops : List Op) :
    Latest (ops ++ [.insert topic partition offset]) topic partition offset ticket ↔
      revokedAfter topic partition ops = false ∧
        ticket = ((finalState apply default ops).insert topic partition offset).2 := by
  constructor
  · rintro ⟨before, after, hsplit, hticket, hlatest, hrevoked, -, -⟩
    rcases concat_eq_append_cons_iff.mp hsplit with ⟨rfl, -, -⟩ | ⟨rest, rfl, -⟩
    · exact ⟨hrevoked, hticket⟩
    · exact absurd (by simp) hlatest
  · rintro ⟨hrevoked, hticket⟩
    exact ⟨ops, [], rfl, hticket, by simp, hrevoked, by simp, by simp [outputs]⟩

/-- Any other call at the end of a history leaves the latest insert where it was. -/
theorem latest_concat (ops : List Op) {op : Op} (hop : op ≠ .insert topic partition offset) :
    Latest (ops ++ [op]) topic partition offset ticket ↔
      Latest ops topic partition offset ticket ∧ op ≠ .revoke topic partition ∧
        ∀ last, (topic, partition, last) ∈ ((finalState apply default ops).apply op).2 →
          last < offset := by
  have houtputs (before rest : List Op)
      (hsplit : ops = before ++ .insert topic partition offset :: rest) :
      (outputs apply (finalState apply default (before ++ [.insert topic partition offset]))
        (rest ++ [op])).flatten =
      (outputs apply (finalState apply default (before ++ [.insert topic partition offset]))
        rest).flatten ++ ((finalState apply default ops).apply op).2 := by
    rw [outputs_append, ← finalState_append, List.flatten_append, hsplit]
    simp [outputs]
  constructor
  · rintro ⟨before, after, hsplit, hticket, hlatest, hrevoked, hsince, hresolved⟩
    rcases concat_eq_append_cons_iff.mp hsplit with ⟨-, heq, -⟩ | ⟨rest, rfl, hrest⟩
    · exact absurd heq hop
    · rw [houtputs before rest hrest] at hresolved
      refine ⟨⟨before, rest, hrest, hticket, fun h ↦ hlatest (by simp [h]), hrevoked,
        fun h ↦ hsince (by simp [h]), fun last h ↦ hresolved last (by simp [h])⟩,
        fun h ↦ hsince (by simp [h]), fun last h ↦ hresolved last (List.mem_append_right _ h)⟩
  · rintro ⟨⟨before, rest, hrest, hticket, hlatest, hrevoked, hsince, hresolved⟩, hrevoke, hlast⟩
    refine ⟨before, rest ++ [op], by simp [hrest], hticket, ?_, hrevoked, ?_, fun last hmem ↦ ?_⟩
    · simpa [hlatest] using hop.symm
    · simpa [hsince] using hrevoke.symm
    · rw [houtputs before rest hrest, List.mem_append] at hmem
      exact hmem.elim (hresolved last) (hlast last)

/-- `holds` is true exactly for the latest insert of the offset, when its partition was not revoked
then or since and the offset has not been resolved. -/
theorem holds_iff_latest (ops : List Op) :
    (finalState apply default ops).holds topic partition offset ticket = true ↔
      Latest ops topic partition offset ticket := by
  induction ops using List.reverseRecOn with
  | nil => simp [Latest, finalState, holds, Tracker.partition, default]
  | append_singleton ops op ih =>
    rw [finalState_append]
    by_cases hop : op = .insert topic partition offset
    · subst hop
      rw [latest_concat_insert_self, ← revoked_finalState]
      exact holds_apply_insert_self (revokedEmpty_finalState ops)
    · rw [latest_concat ops hop, ← ih]
      exact holds_apply (settled_finalState ops) hop

/-- A stale pull never stands in for a fresh one: over every history of calls, `holds` is true
exactly for the ticket of the latest insert of the offset, with the partition not revoked at that
insert or since and the offset not resolved since, and a completion with any other ticket returns
nothing and leaves the whole tracker unchanged. -/
theorem stale_pull_inert (ops : List Op) (topic : String) (partition offset : ℤ)
    (ticket : Ticket) :
    ((finalState apply default ops).holds topic partition offset ticket = true ↔
      Latest ops topic partition offset ticket) ∧
    ((finalState apply default ops).holds topic partition offset ticket = false →
      ∀ sendsBefore, (finalState apply default ops).done topic partition offset ticket sendsBefore =
        (finalState apply default ops, none)) :=
  ⟨holds_iff_latest ops, fun hholds sendsBefore ↦ done_of_not_holds hholds sendsBefore⟩

end Tracker

end OmniaBackends.Kafka
