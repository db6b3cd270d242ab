import OmniaBackends.Kafka.TrackerStep

/-!
# The order of reports and completions does not matter

A delivery report or a completion marks what it is about and resolves what has become resolvable.
Over a list of them, a partition ends as it would if every completion had been marked first and
the partition resolved once, against the last watermark, and the last offset stored for it is the
one that single resolution finds (`state_and_lastStored`). Marks commute (`complete_comm`) and the
watermark is that of the set of reported numbers, so two orders of the same reports and
completions leave the same tracker and the same last stored offset of every partition
(`finalState_and_lastStored_of_perm`).

A pull completes once, with the count of sends its completion read. `MatchingCompletions` is what
the results need of that: two completions of one pull carry one count.
-/

set_option autoImplicit false
set_option relaxedAutoImplicit false

namespace OmniaBackends.Kafka

open Foundation

/-- A delivery report or a completion. -/
def Op.Reporting : Op → Prop
  | .done _ _ _ _ _ => True
  | .noteDelivered _ => True
  | _ => False

/-- Two completions of one pull carry the same count of sends. -/
def MatchingCompletions (ops : List Op) : Prop :=
  ∀ topic partition offset ticket first second,
    .done topic partition offset ticket first ∈ ops →
      .done topic partition offset ticket second ∈ ops → first = second

/-- The last offset handed out for a partition. -/
def lastStored (stored : List Stored) (topic : String) (partition : ℤ) : Option ℤ :=
  (offsetsOf stored topic partition).getLast?

/-! ### Marks -/

/-- The count of sends a call completes a pull with, if it completes it. -/
def Op.completionOf (topic : String) (partition offset : ℤ) (ticket : Ticket) : Op → Option ℕ
  | .done otherTopic otherPartition otherOffset otherTicket sendsBefore =>
    if otherTopic = topic ∧ otherPartition = partition ∧ otherOffset = offset ∧
        otherTicket = ticket then
      some sendsBefore
    else none
  | _ => none

/-- The mark a call leaves in the pending record at an offset. -/
def Pending.complete (topic : String) (partition : ℤ) (op : Op) (offset : ℤ)
    (pending : Pending) : Pending :=
  match op.completionOf topic partition offset pending.ticket with
  | some sendsBefore => ⟨pending.ticket, true, sendsBefore⟩
  | none => pending

/-- The marks a call leaves in the records of a partition, with nothing resolved. -/
def Partition.complete (topic : String) (partition : ℤ) (state : Partition) (op : Op) :
    Partition :=
  { state with pending := state.pending.mapValues (Pending.complete topic partition op) }

/-- The done records of a partition were completed in `ops`. -/
def Partition.DoneIn (topic : String) (partition : ℤ) (ops : List Op) (state : Partition) : Prop :=
  ∀ offset pending, state.pending.get? offset = some pending → pending.done = true →
    .done topic partition offset pending.ticket pending.sendsBefore ∈ ops

section Partitions

variable {topic : String} {partition offset : ℤ} {state : Partition} {delivered later : ℕ}
variable {ops : List Op} {op other : Op} {pending : Pending}

/-- What completes a pull is its completion. -/
theorem Op.completionOf_eq_some_iff {ticket : Ticket} {sendsBefore : ℕ} :
    op.completionOf topic partition offset ticket = some sendsBefore ↔
      op = .done topic partition offset ticket sendsBefore := by
  cases op with
  | done otherTopic otherPartition otherOffset otherTicket otherSends =>
    unfold Op.completionOf
    by_cases hsame : otherTopic = topic ∧ otherPartition = partition ∧ otherOffset = offset ∧
        otherTicket = ticket
    · obtain ⟨rfl, rfl, rfl, rfl⟩ := hsame
      simp
    · simp only [hsame, if_false, reduceCtorEq, false_iff, Op.done.injEq]
      tauto
  | _ => simp [Op.completionOf]

/-- A mark either changes nothing or is the completion of that very pull. -/
theorem Pending.complete_cases (topic : String) (partition : ℤ) (op : Op) (offset : ℤ)
    (pending : Pending) :
    pending.complete topic partition op offset = pending ∨
      ∃ sendsBefore, op = .done topic partition offset pending.ticket sendsBefore ∧
        pending.complete topic partition op offset = ⟨pending.ticket, true, sendsBefore⟩ := by
  unfold Pending.complete
  cases hcompletion : op.completionOf topic partition offset pending.ticket with
  | none => exact Or.inl rfl
  | some sendsBefore =>
    exact Or.inr ⟨sendsBefore, Op.completionOf_eq_some_iff.mp hcompletion, rfl⟩

/-- Two completions of one pull carry one count, so their marks commute. -/
theorem Pending.complete_comm (hmatching : MatchingCompletions ops) (hop : op ∈ ops)
    (hother : other ∈ ops) :
    (pending.complete topic partition op offset).complete topic partition other offset =
      (pending.complete topic partition other offset).complete topic partition op offset := by
  unfold Pending.complete
  cases hfirst : op.completionOf topic partition offset pending.ticket with
  | none => cases other.completionOf topic partition offset pending.ticket <;> simp [hfirst]
  | some first =>
    cases hsecond : other.completionOf topic partition offset pending.ticket with
    | none => simp [hfirst]
    | some second =>
      have hop' := Op.completionOf_eq_some_iff.mp hfirst
      have hother' := Op.completionOf_eq_some_iff.mp hsecond
      have hsame : first = second :=
        hmatching _ _ _ _ _ _ (hop' ▸ hop) (hother' ▸ hother)
      simp [hfirst, hsame]

/-- Marks of one list commute. -/
theorem Partition.complete_comm (hmatching : MatchingCompletions ops) (hop : op ∈ ops)
    (hother : other ∈ ops) :
    (state.complete topic partition op).complete topic partition other =
      (state.complete topic partition other).complete topic partition op := by
  simp only [Partition.complete, Partition.mk.injEq, true_and]
  apply OrderedMap.ext_get?
  intro offset
  simp only [OrderedMap.get?_mapValues, Option.map_map]
  refine congrArg (fun change ↦ Option.map change _) (funext fun pending ↦ ?_)
  exact Pending.complete_comm hmatching hop hother

/-- A mark is what completed the record. -/
theorem Partition.doneIn_complete (hdone : state.DoneIn topic partition ops) (op : Op) :
    (state.complete topic partition op).DoneIn topic partition (ops ++ [op]) := by
  intro offset pending hget hpending
  rw [Partition.complete, OrderedMap.get?_mapValues, Option.map_eq_some_iff] at hget
  obtain ⟨old, hold, rfl⟩ := hget
  rcases old.complete_cases topic partition op offset with heq | ⟨sendsBefore, rfl, heq⟩
  · rw [heq] at hpending ⊢
    exact List.mem_append_left _ (hdone offset old hold hpending)
  · rw [heq]
    simp

/-- Resolving before a mark and again after it, against a watermark that has not fallen, is
marking first and resolving once. A record that the first resolution took is done, so a further
completion of it carries the count it has. -/
theorem Partition.resolve_complete (hdone : state.DoneIn topic partition ops)
    (hmatching : MatchingCompletions (ops ++ [op])) (hle : delivered ≤ later) :
    (state.complete topic partition op).resolve later =
      (((((state.resolve delivered).2.complete topic partition op).resolve later).1.or
        (state.resolve delivered).1),
        (((state.resolve delivered).2.complete topic partition op).resolve later).2) := by
  have hresolved : ∀ offset pending, state.pending.get? offset = some pending →
      pending.resolved delivered = true →
        (pending.complete topic partition op offset).resolved later = true := by
    intro offset pending hget hresolved
    rw [Pending.resolved, Bool.and_eq_true] at hresolved
    have hreached : pending.sendsBefore ≤ later := (of_decide_eq_true hresolved.2).trans hle
    rcases pending.complete_cases topic partition op offset with heq | ⟨sendsBefore, rfl, heq⟩
    · rw [heq, Pending.resolved, hresolved.1, decide_eq_true hreached, Bool.and_self]
    · have hsame : pending.sendsBefore = sendsBefore := by
        refine hmatching topic partition offset pending.ticket _ _ ?_ (by simp)
        exact List.mem_append_left _ (hdone offset pending hget hresolved.1)
      rw [heq, Pending.resolved, ← hsame, decide_eq_true hreached, Bool.true_and]
  have hpop := OrderedMap.popWhile_mapValues state.pending
    (fun pending ↦ pending.resolved delivered) (Pending.complete topic partition op)
    (fun pending ↦ pending.resolved later) hresolved
  simp only [Partition.resolve, Partition.complete, hpop]

end Partitions

/-! ### What one call stores -/

variable {topic : String} {partition : ℤ}

/-- What is stored last over two lists is what the second stores, or the first where the second
stores nothing. -/
theorem lastStored_append (first second : List Stored) :
    lastStored (first ++ second) topic partition =
      (lastStored second topic partition).or (lastStored first topic partition) := by
  unfold lastStored
  rw [offsetsOf_append, List.getLast?_append]

namespace Tracker

variable {tracker : Tracker} {op : Op} {ops : List Op}

/-- What a call of a settled tracker stores for a partition. -/
theorem lastStored_apply (hsettled : tracker.Settled) (op : Op) :
    lastStored (tracker.apply op).2 topic partition =
      ((tracker.marked topic partition op).resolve (tracker.apply op).1.delivered).1 := by
  rw [lastStored, offsetsOf_apply hsettled]
  cases ((tracker.marked topic partition op).resolve (tracker.apply op).1.delivered).1 <;> rfl

/-- The local change of a report or a completion is its mark. -/
theorem marked_eq_complete (hop : op.Reporting) (topic : String) (partition : ℤ) :
    tracker.marked topic partition op =
      (tracker.state topic partition).complete topic partition op := by
  have hunmarked (hnone : ∀ offset pending,
      (tracker.state topic partition).pending.get? offset = some pending →
        op.completionOf topic partition offset pending.ticket = none) :
      (tracker.state topic partition).complete topic partition op =
        tracker.state topic partition := by
    have hsame : (tracker.state topic partition).pending.mapValues
        (Pending.complete topic partition op) = (tracker.state topic partition).pending := by
      apply OrderedMap.ext_get?
      intro offset
      rw [OrderedMap.get?_mapValues]
      cases hget : (tracker.state topic partition).pending.get? offset with
      | none => rfl
      | some pending => simp [Pending.complete, hnone offset pending hget]
    rw [Partition.complete, hsame]
  cases op with
  | noteDelivered id => exact (hunmarked fun _ _ _ ↦ rfl).symm
  | done otherTopic otherPartition offset ticket sendsBefore =>
    rw [marked]
    split_ifs with hheld
    · obtain ⟨rfl, rfl, hholds⟩ := hheld
      obtain ⟨pending, hpending, rfl⟩ := holds_iff.mp hholds
      simp only [markDone, Partition.complete, Partition.mk.injEq, true_and]
      apply OrderedMap.ext_get?
      intro other
      rw [OrderedMap.get?_insert, OrderedMap.get?_mapValues]
      split_ifs with hother
      · subst hother
        simp [hpending, Pending.complete, Op.completionOf]
      · cases (tracker.state topic partition).pending.get? other with
        | none => rfl
        | some found => simp [Pending.complete, Op.completionOf, Ne.symm hother]
    · refine (hunmarked fun at_ pending hget ↦ if_neg ?_).symm
      rintro ⟨rfl, rfl, rfl, rfl⟩
      exact hheld ⟨rfl, rfl, holds_iff.mpr ⟨pending, hget, rfl⟩⟩
  | insert otherTopic otherPartition offset => exact hop.elim
  | revoke otherTopic otherPartition => exact hop.elim
  | assign otherTopic otherPartition => exact hop.elim

/-- The done records of a partition were completed in the history. -/
theorem doneIn_finalState (ops : List Op) (topic : String) (partition : ℤ) :
    ((finalState apply default ops).state topic partition).DoneIn topic partition ops := by
  induction ops using List.reverseRecOn with
  | nil => exact fun offset pending hget ↦ absurd hget (by simp [finalState, Partition.default])
  | append_singleton ops op ih =>
    intro offset pending hget hdone
    rw [finalState_append] at hget
    change ((apply _ op).1.state topic partition).pending.get? offset = some pending at hget
    rw [(apply_spec (settled_finalState ops) op topic partition).1, Partition.get?_resolve] at hget
    have hmarked := hget.1
    have hkeeps (hold : ((finalState apply default ops).state topic partition).pending.get?
        offset = some pending) :
        .done topic partition offset pending.ticket pending.sendsBefore ∈ ops ++ [op] :=
      List.mem_append_left _ (ih offset pending hold hdone)
    by_cases hop : op.Reporting
    · rw [marked_eq_complete hop] at hmarked
      exact Partition.doneIn_complete ih op offset pending hmarked hdone
    · cases op with
      | insert otherTopic otherPartition otherOffset =>
        simp only [marked] at hmarked
        split_ifs at hmarked with hsame
        · rw [OrderedMap.get?_insert] at hmarked
          split_ifs at hmarked with hoffset
          · rw [← Option.some.inj hmarked] at hdone
            exact Bool.noConfusion hdone
          · exact hkeeps hmarked
        · exact hkeeps hmarked
      | revoke otherTopic otherPartition =>
        simp only [marked] at hmarked
        split_ifs at hmarked
        · exact absurd hmarked (by simp)
        · exact hkeeps hmarked
      | assign otherTopic otherPartition =>
        simp only [marked] at hmarked
        split_ifs at hmarked <;> exact hkeeps hmarked
      | done otherTopic otherPartition otherOffset ticket sendsBefore => exact absurd trivial hop
      | noteDelivered id => exact absurd trivial hop

/-! ### The closed form of a list of reports and completions -/

/-- What a partition is and what was stored last for it, when it is as marking `completed` and
resolving once against the watermark makes it, is so again after a report or a completion. -/
theorem state_and_lastStored_apply {reported : Finset ℕ} {completed : Partition}
    {stored : List Stored} (hsettled : tracker.Settled)
    (hmarks : Marks tracker.delivered tracker.outOfOrder reported)
    (hdone : completed.DoneIn topic partition ops) (hmatching : MatchingCompletions (ops ++ [op]))
    (hop : op.Reporting)
    (hstate : tracker.state topic partition = (completed.resolve tracker.delivered).2)
    (hstored : lastStored stored topic partition = (completed.resolve tracker.delivered).1) :
    (tracker.apply op).1.state topic partition =
        ((completed.complete topic partition op).resolve (tracker.apply op).1.delivered).2 ∧
      lastStored (stored ++ (tracker.apply op).2) topic partition =
        ((completed.complete topic partition op).resolve (tracker.apply op).1.delivered).1 := by
  have hresolve := Partition.resolve_complete hdone hmatching (delivered_le_apply hmarks op)
  have hmarked : tracker.marked topic partition op = _ := marked_eq_complete hop topic partition
  rw [hresolve, (apply_spec hsettled op topic partition).1, lastStored_append,
    lastStored_apply hsettled, hmarked, hstate, hstored]
  exact ⟨rfl, rfl⟩

/-- A list of reports and completions leaves a partition as marking every completion first and
resolving once against the last watermark does, and the last offset stored for it is the one that
resolution finds. -/
theorem state_and_lastStored {history : List Op} (hops : ∀ op ∈ ops, op.Reporting)
    (hmatching : MatchingCompletions (history ++ ops)) (topic : String) (partition : ℤ) :
    let start := finalState apply default history
    let completed := ops.foldl (Partition.complete topic partition) (start.state topic partition)
    let resolved := completed.resolve (finalState apply start ops).delivered
    completed.DoneIn topic partition (history ++ ops) ∧
      (finalState apply start ops).state topic partition = resolved.2 ∧
      lastStored (outputs apply start ops).flatten topic partition = resolved.1 := by
  intro start
  induction ops using List.reverseRecOn with
  | nil =>
    have hquiet : (start.state topic partition).resolve start.delivered =
        (none, start.state topic partition) :=
          (settled_finalState history topic partition).resolve_eq
    simp only [List.foldl_nil, finalState, hquiet, List.append_nil]
    exact ⟨doneIn_finalState history topic partition, trivial, rfl⟩
  | append_singleton ops op ih =>
    rw [← List.append_assoc] at hmatching ⊢
    have hearlier : MatchingCompletions (history ++ ops) :=
      fun topic partition offset ticket first second hfirst hsecond ↦
        hmatching topic partition offset ticket first second (List.mem_append_left _ hfirst)
          (List.mem_append_left _ hsecond)
    obtain ⟨hdone, hstate, hstored⟩ :=
      ih (fun op hop ↦ hops op (List.mem_append_left _ hop)) hearlier
    have hmiddle : finalState apply start ops = finalState apply default (history ++ ops) :=
      (finalState_append _ _ _).symm
    have hsettled : (finalState apply start ops).Settled := hmiddle ▸ settled_finalState _
    have hmarks : Marks (finalState apply start ops).delivered
        (finalState apply start ops).outOfOrder (reportedIn (history ++ ops)) :=
      hmiddle ▸ marks_finalState _
    have hstep := state_and_lastStored_apply hsettled hmarks hdone hmatching (hops op (by simp))
      hstate hstored
    rw [List.foldl_append, finalState_append, outputs_append, List.flatten_append]
    simp only [List.foldl_cons, List.foldl_nil, finalState, outputs, List.flatten_cons,
      List.flatten_nil, List.append_nil]
    exact ⟨Partition.doneIn_complete hdone op, hstep⟩

/-! ### Two orders -/

/-- The topics and the partitions that have an entry are the same in both trackers. -/
def SameEntries (first second : Tracker) : Prop :=
  (∀ topic, (first.topics.get? topic).isSome = (second.topics.get? topic).isSome) ∧
    ∀ topic partition,
      (first.partition topic partition).isSome = (second.partition topic partition).isSome

/-- Two trackers with the same counts, the same entries and the same states are equal. -/
theorem ext_state {first second : Tracker} (hdelivered : first.delivered = second.delivered)
    (houtOfOrder : first.outOfOrder = second.outOfOrder) (htickets : first.tickets = second.tickets)
    (hentries : SameEntries first second)
    (hstates : ∀ topic partition, first.state topic partition = second.state topic partition) :
    first = second := by
  have hpartition (topic : String) (partition : ℤ) :
      first.partition topic partition = second.partition topic partition := by
    have hsome := hentries.2 topic partition
    have hstate := hstates topic partition
    unfold state at hstate
    cases hfirst : first.partition topic partition <;>
      cases hsecond : second.partition topic partition <;> simp_all
  have hentry (topic : String) : first.topics.get? topic = second.topics.get? topic := by
    have hsome := hentries.1 topic
    have hlookup := hpartition topic
    unfold Tracker.partition at hlookup
    cases hfirst : first.topics.get? topic with
    | none => simp_all
    | some partitions =>
      cases hsecond : second.topics.get? topic with
      | none => simp_all
      | some others =>
        simp only [hfirst, hsecond, Option.bind_some] at hlookup
        rw [OrderedMap.ext_get? hlookup]
  have hall : first.topics = second.topics := OrderedMap.ext_get? hentry
  cases first
  cases second
  simp_all

/-- A change of a partition that has an entry adds none. -/
theorem sameEntries_partitionOrInsert {state : Partition}
    (hstate : tracker.partition topic partition = some state) (change : Partition → Partition) :
    SameEntries (tracker.partitionOrInsert topic partition change) tracker := by
  unfold Tracker.partition at hstate
  obtain ⟨partitions, hpartitions, hget⟩ := Option.bind_eq_some_iff.mp hstate
  constructor
  · intro other
    simp only [partitionOrInsert, OrderedMap.get?_insert]
    split_ifs with hother
    · rw [hother, hpartitions]
      rfl
    · rfl
  · intro other number
    simp only [partitionOrInsert, Tracker.partition, OrderedMap.get?_insert, hpartitions]
    split_ifs with hother
    · subst hother
      simp only [hpartitions, Option.bind_some, Option.getD_some, OrderedMap.get?_insert]
      split_ifs with hnumber
      · rw [hnumber, hget]
        rfl
      · rfl
    · rfl

/-- Resolving every partition adds no entry. -/
theorem sameEntries_resolveAll (tracker : Tracker) : SameEntries tracker.resolveAll.1 tracker := by
  constructor
  · intro topic
    simp [resolveAll]
  · intro topic partition
    simp only [Tracker.partition, resolveAll, OrderedMap.get?_mapValues]
    cases tracker.topics.get? topic <;> simp

/-- A report or a completion adds no entry. -/
theorem sameEntries_apply (tracker : Tracker) (hop : op.Reporting) :
    SameEntries (tracker.apply op).1 tracker := by
  cases op with
  | done topic partition offset ticket sendsBefore =>
    simp only [apply]
    cases hholds : tracker.holds topic partition offset ticket
    · rw [done_of_not_holds hholds]
      exact ⟨fun _ ↦ rfl, fun _ _ ↦ rfl⟩
    · rw [done_of_holds hholds]
      unfold holds at hholds
      cases hpartition : tracker.partition topic partition with
      | none => simp [hpartition] at hholds
      | some state => exact sameEntries_partitionOrInsert hpartition _
  | noteDelivered id =>
    simp only [apply]
    rcases tracker.noteDelivered_cases id with ⟨-, heq⟩ | ⟨-, heq⟩ | ⟨-, heq⟩
    · rw [heq]
      exact ⟨fun _ ↦ rfl, fun _ _ ↦ rfl⟩
    · rw [heq]
      exact ⟨fun _ ↦ rfl, fun _ _ ↦ rfl⟩
    · rw [heq]
      exact sameEntries_resolveAll tracker.advance
  | insert topic partition offset => exact hop.elim
  | revoke topic partition => exact hop.elim
  | assign topic partition => exact hop.elim

/-- A list of reports and completions adds no entry and gives out no ticket. -/
theorem frame_finalState (tracker : Tracker) (hops : ∀ op ∈ ops, op.Reporting) :
    (finalState apply tracker ops).tickets = tracker.tickets ∧
      SameEntries (finalState apply tracker ops) tracker := by
  induction ops generalizing tracker with
  | nil => exact ⟨rfl, fun _ ↦ rfl, fun _ _ ↦ rfl⟩
  | cons op ops ih =>
    have hop : op.Reporting := hops op (by simp)
    obtain ⟨htickets, htopics, hpartitions⟩ :=
      ih (tracker.apply op).1 fun other hother ↦ hops other (by simp [hother])
    obtain ⟨htopics', hpartitions'⟩ := sameEntries_apply tracker hop
    have htickets' : (tracker.apply op).1.tickets = tracker.tickets := by
      rw [tickets_apply]
      cases op with
      | insert topic partition offset => exact hop.elim
      | _ => rfl
    exact ⟨htickets.trans htickets', fun topic ↦ (htopics topic).trans (htopics' topic),
      fun topic partition ↦ (hpartitions topic partition).trans (hpartitions' topic partition)⟩

/-- Two orders of the same reports and completions leave the same tracker and the same last
stored offset of every partition. -/
theorem finalState_and_lastStored_of_perm {history first second : List Op}
    (hperm : first.Perm second) (hops : ∀ op ∈ first, op.Reporting)
    (hmatching : MatchingCompletions (history ++ first)) :
    finalState apply default (history ++ first) = finalState apply default (history ++ second) ∧
      ∀ topic partition,
        lastStored (outputs apply default (history ++ first)).flatten topic partition =
          lastStored (outputs apply default (history ++ second)).flatten topic partition := by
  have hops' : ∀ op ∈ second, op.Reporting := fun op hop ↦ hops op (hperm.mem_iff.mpr hop)
  have hmem (op : Op) : op ∈ history ++ second ↔ op ∈ history ++ first := by
    rw [List.mem_append, List.mem_append, hperm.mem_iff]
  have hmatching' : MatchingCompletions (history ++ second) :=
    fun topic partition offset ticket one other hone hother ↦
      hmatching topic partition offset ticket one other ((hmem _).mp hone) ((hmem _).mp hother)
  have hreported : reportedIn (history ++ second) = reportedIn (history ++ first) := by
    ext id
    rw [mem_reportedIn, mem_reportedIn, hmem]
  have hmarks := marks_finalState (history ++ second)
  rw [hreported] at hmarks
  obtain ⟨hdelivered, houtOfOrder⟩ := (marks_finalState (history ++ first)).unique hmarks
  have hcompleted (topic : String) (partition : ℤ) (start : Partition) :
      first.foldl (Partition.complete topic partition) start =
        second.foldl (Partition.complete topic partition) start :=
    hperm.foldl_eq' (fun op hop other hother _ ↦ Partition.complete_comm hmatching
      (List.mem_append_right _ hop) (List.mem_append_right _ hother)) start
  have hclosed (topic : String) (partition : ℤ) :=
    state_and_lastStored hops hmatching topic partition
  have hclosed' (topic : String) (partition : ℤ) :=
    state_and_lastStored hops' hmatching' topic partition
  simp only [finalState_append] at hdelivered houtOfOrder ⊢
  obtain ⟨htickets, hentries⟩ := frame_finalState (finalState apply default history) hops
  obtain ⟨htickets', hentries'⟩ := frame_finalState (finalState apply default history) hops'
  constructor
  · refine ext_state hdelivered houtOfOrder (htickets.trans htickets'.symm)
      ⟨fun topic ↦ (hentries.1 topic).trans (hentries'.1 topic).symm,
        fun topic partition ↦
          (hentries.2 topic partition).trans (hentries'.2 topic partition).symm⟩
      fun topic partition ↦ ?_
    rw [(hclosed topic partition).2.1, (hclosed' topic partition).2.1, hcompleted, hdelivered]
  · intro topic partition
    rw [outputs_append, outputs_append, List.flatten_append, List.flatten_append,
      lastStored_append, lastStored_append, (hclosed topic partition).2.2,
      (hclosed' topic partition).2.2, hcompleted, hdelivered]

end Tracker

end OmniaBackends.Kafka
