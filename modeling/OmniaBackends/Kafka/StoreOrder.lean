import OmniaBackends.Kafka.CommitSafety

/-!
# The stored position

A call of `Shared::done` or `Shared::note_delivered` computes what it stores under the tracker's
lock and hands it to `store_offset` after the lock is released, and nothing orders that second
half. Two calls can swap: the one that took the lock first hands over last, and the position moves
back (`position_can_move_back`).

What the calls have to hand is the rest of what was resolved: as long as the calls hand their
offsets of a partition over in the order in which they took the lock, and none is left with an
offset of a partition that is revoked (`handsInOrder`), the offsets resolved for a partition since
its last revoke are those handed over, in order, followed by those still to hand
(`resolved_eq_of_run`). The offsets handed over then increase, and once every call has returned the
position is that of the highest offset resolved (`position_of_run`).
-/

set_option autoImplicit false
set_option relaxedAutoImplicit false

namespace OmniaBackends.Kafka

open Foundation

namespace Commit

/-- The offsets of a partition that calls have still to hand, in lock order. -/
def toHand (calls : List (List Stored)) (topic : String) (partition : ℤ) : List ℤ :=
  calls.flatMap fun stored ↦ offsetsOf stored topic partition

/-- A call hands over an offset of a partition only when no call that took the lock before it has
one to hand, and a partition is revoked only when no call has an offset of it to hand. -/
def handsInOrder (state : Commit) : Event → Bool
  | .store index =>
    match state.calls[index]? with
    | some (stored :: _) => (toHand (state.calls.take index) stored.1 stored.2.1).isEmpty
    | _ => true
  | .revoke topic partition => (toHand state.calls topic partition).isEmpty
  | _ => true

/-- A step in the broker's order in which the calls hand over in lock order. -/
def handingStep (config : Config) (state : Commit) (event : Event) : Option Commit :=
  if state.handsInOrder event then orderedStep config state event else none

variable {config : Config} {state after : Commit} {events : List Event} {event : Event}
variable {calls : List (List Stored)} {stored : Stored} {rest : List Stored} {index : ℕ}

/-- A call more has its offsets to hand after those before it. -/
theorem toHand_append (calls : List (List Stored)) (returned : List Stored) (topic : String)
    (partition : ℤ) :
    toHand (calls ++ [returned]) topic partition =
      toHand calls topic partition ++ offsetsOf returned topic partition := by
  simp [toHand]

/-- The offset of one partition is none of another. -/
theorem offsetsOf_singleton_of_ne {topic : String} {partition : ℤ}
    (hother : ¬(stored.1 = topic ∧ stored.2.1 = partition)) :
    offsetsOf [stored] topic partition = [] := by
  simp [offsetsOf, hother]

/-- What is to hand starts with the offset handed over, when no call before it has one of its
partition to hand. -/
theorem toHand_set (hcall : calls[index]? = some (stored :: rest))
    (hearlier : toHand (calls.take index) stored.1 stored.2.1 = []) (topic : String)
    (partition : ℤ) :
    toHand calls topic partition =
      offsetsOf [stored] topic partition ++ toHand (calls.set index rest) topic partition := by
  induction calls generalizing index with
  | nil => simp at hcall
  | cons head tail ih =>
    cases index with
    | zero =>
      obtain rfl : head = stored :: rest := by simpa using hcall
      have hsplit := offsetsOf_append [stored] rest topic partition
      rw [List.singleton_append] at hsplit
      simp only [toHand, List.flatMap_cons, List.set_cons_zero, hsplit, List.append_assoc]
    | succ index =>
      simp only [toHand, List.take_succ_cons, List.flatMap_cons, List.append_eq_nil_iff] at hearlier
      have htail := ih (by simpa using hcall) hearlier.2
      simp only [toHand] at htail
      simp only [toHand, List.flatMap_cons, List.set_cons_succ, htail]
      by_cases hsame : stored.1 = topic ∧ stored.2.1 = partition
      · obtain ⟨rfl, rfl⟩ := hsame
        rw [hearlier.1, List.nil_append, List.nil_append]
      · rw [offsetsOf_singleton_of_ne hsame, List.nil_append, List.nil_append]

/-- What was resolved for a partition is what was handed over and then what is to hand. -/
def HandedInOrder (state : Commit) : Prop :=
  ∀ topic partition, state.resolved topic partition =
    state.handed topic partition ++ toHand state.calls topic partition

/-- A call of the tracker adds what it resolves to what is to hand. -/
theorem HandedInOrder.call (hhanded : state.HandedInOrder) (op : Op) :
    HandedInOrder (state.call op) := by
  intro topic partition
  change state.resolved topic partition ++ offsetsOf _ topic partition =
    state.handed topic partition ++ toHand (state.calls ++ [_]) topic partition
  rw [hhanded topic partition, toHand_append, List.append_assoc]

/-- A step in which the calls hand over in lock order. -/
theorem handedInOrder_step (hhanded : state.HandedInOrder)
    (horder : state.handsInOrder event = true)
    (hstep : step config state event = some after) : after.HandedInOrder := by
  cases event with
  | insert topic partition offset =>
    obtain rfl := Option.some.inj hstep
    exact hhanded
  | handle index move =>
    obtain ⟨pull, -, ⟨how, sendsBefore, -, rfl⟩ | ⟨stage, -, rfl⟩⟩ := handle_cases hstep
    · exact hhanded.call (.done pull.topic pull.partition pull.offset ⟨index⟩ sendsBefore)
    · exact hhanded
  | send event =>
    obtain ⟨sends, ⟨id, rfl⟩ | rfl⟩ := send_cases hstep
    · exact hhanded.call (.noteDelivered id)
    · exact hhanded
  | revoke topic partition =>
    obtain rfl := Option.some.inj hstep
    intro otherTopic otherPartition
    simp only [Commit.revoke]
    split_ifs with hsame
    · obtain ⟨rfl, rfl⟩ := hsame
      exact (List.isEmpty_iff.mp horder).symm
    · exact hhanded otherTopic otherPartition
  | assign topic partition =>
    obtain rfl := Option.some.inj hstep
    exact hhanded
  | store index =>
    obtain ⟨stored, rest, hcall, rfl⟩ := store_cases hstep
    intro topic partition
    simp only [handsInOrder, hcall] at horder
    change state.resolved topic partition = (state.handed topic partition ++ _) ++
      toHand (state.calls.set index rest) topic partition
    rw [hhanded topic partition, List.append_assoc,
      toHand_set hcall (List.isEmpty_iff.mp horder) topic partition]

/-- Over a run in which the calls hand over in lock order, what was resolved for a partition since
its last revoke is what was handed over and then what is to hand. -/
theorem resolved_eq_of_run (hrun : Run (StepOf (handingStep config)) initial events state) :
    state.Sound ∧ state.HandedInOrder := by
  refine hrun.invariant (fun state ↦ state.Sound ∧ state.HandedInOrder) ?_
    ⟨sound_initial, fun _ _ ↦ rfl⟩
  intro before event after hbefore hstep
  unfold StepOf handingStep at hstep
  split_ifs at hstep with horder
  exact ⟨sound_step hbefore.1 hstep,
    handedInOrder_step hbefore.2 horder (step_of_orderedStep hstep).2⟩

/-- The last of increasing offsets is their greatest. -/
theorem max?_eq_getLast? {offsets : List ℤ} (hincrease : offsets.Pairwise (· < ·)) :
    offsets.max? = offsets.getLast? := by
  rcases List.eq_nil_or_concat offsets with rfl | ⟨earlier, last, rfl⟩
  · rfl
  · rw [List.concat_eq_append] at hincrease ⊢
    rw [List.getLast?_concat, List.max?_eq_some_iff]
    refine ⟨by simp, fun offset hoffset ↦ ?_⟩
    rcases List.mem_append.mp hoffset with hearlier | hlast
    · exact ((List.pairwise_append.mp hincrease).2.2 offset hearlier last (by simp)).le
    · exact (List.mem_singleton.mp hlast).le

/-- While the calls hand their offsets of a partition over in the order in which they took the
tracker's lock, and none is left with an offset of a partition that is revoked, the position never
moves back: in every state a run reaches the offsets handed over for a partition since its last
revoke do not decrease, and once every call has returned the position is that of the highest offset
resolved. -/
theorem position_of_run (config : Config) {events : List Event} {state : Commit}
    (hrun : Run (StepOf (handingStep config)) initial events state) (topic : String)
    (partition : ℤ) :
    (state.handed topic partition).Pairwise (· ≤ ·) ∧
      ((∀ call ∈ state.calls, call = []) →
        state.position topic partition = (state.resolved topic partition).max?.map (· + 1)) := by
  obtain ⟨hsound, hhanded⟩ := resolved_eq_of_run hrun
  have hsorted := (hsound.partitions topic partition).sorted
  rw [hhanded topic partition] at hsorted
  have hincrease := (List.pairwise_append.mp hsorted).1
  refine ⟨hincrease.imp le_of_lt, fun hreturned ↦ ?_⟩
  have hnone : toHand state.calls topic partition = [] := by
    refine List.flatMap_eq_nil_iff.mpr fun call hcall ↦ ?_
    rw [hreturned call hcall]
    rfl
  rw [hhanded topic partition, hnone, List.append_nil, position, max?_eq_getLast? hincrease]

/-- Two records completed at once: the call that takes the lock first stores last. -/
def swappedCalls : List Event :=
  [.insert "t" 0 0, .insert "t" 0 1, .handle 0 .start, .handle 1 .start,
    .handle 0 (.handled true), .handle 1 (.handled true), .handle 0 .load, .handle 1 .load,
    .handle 0 .done, .handle 1 .done, .store 1, .store 0]

/-- Those steps are a run. -/
theorem isSome_swappedCalls :
    (execute (orderedStep ⟨"", false⟩) initial swappedCalls).isSome := by
  decide +kernel

/-- The position can move back: nothing orders what two calls hand to `store_offset`. -/
theorem position_can_move_back :
    ¬∀ (config : Config) (events : List Event) (state : Commit),
      Run (StepOf (orderedStep config)) initial events state →
      ∀ (topic : String) (partition : ℤ),
        (state.handed topic partition).Pairwise (· ≤ ·) ∧
          ((∀ call ∈ state.calls, call = []) →
            state.position topic partition =
              (state.resolved topic partition).max?.map (· + 1)) := by
  intro hclaim
  have hmoves := (hclaim ⟨"", false⟩ swappedCalls _ (run_of_isSome isSome_swappedCalls) "t" 0).1
  revert hmoves
  decide +kernel

/-- The same two calls in lock order. -/
def callsInOrder : List Event :=
  [.insert "t" 0 0, .insert "t" 0 1, .handle 0 .start, .handle 1 .start,
    .handle 0 (.handled true), .handle 1 (.handled true), .handle 0 .load, .handle 1 .load,
    .handle 0 .done, .handle 1 .done, .store 0, .store 1]

/-- Those steps are a run in which the calls hand over in order. -/
theorem isSome_callsInOrder :
    (execute (handingStep ⟨"", false⟩) initial callsInOrder).isSome := by
  decide +kernel

/-- Handed over in lock order, the two offsets increase. -/
theorem position_of_run_two_calls :
    let state := (execute (handingStep ⟨"", false⟩) initial callsInOrder).get isSome_callsInOrder
    (state.handed "t" 0).Pairwise (· ≤ ·) ∧
      ((∀ call ∈ state.calls, call = []) →
        state.position "t" 0 = (state.resolved "t" 0).max?.map (· + 1)) :=
  position_of_run ⟨"", false⟩ (run_of_isSome isSome_callsInOrder) "t" 0

end Commit

end OmniaBackends.Kafka
