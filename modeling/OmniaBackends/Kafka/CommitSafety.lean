import OmniaBackends.Kafka.Commit

/-!
# At-least-once commit safety

No offset is stored past a record that is not done. Over every interleaving of the parties of
`Commit`, an offset resolved for a partition since its last revoke has behind it only records that
are completed, with every send numbered before their completion reported, among those pulled since
that revoke while the partition was assigned (`stored_offset_safe`). A record pulled while its
partition was revoked is not tracked: it is skipped when its turn comes and delivered again from
the committed offset, and an offset may be stored past it
(`passes_record_pulled_while_revoked`).

The invariant is `PartitionSound`, partition by partition: what is pending is a live pull at its
own ticket, a live pull is pending or settled, and every live pull up to a resolved offset is
settled. A call of the tracker marks and then resolves (`Tracker.apply_spec`), so it is enough that
each mark keeps the invariant and that a resolution does (`PartitionSound.resolve`).
-/

set_option autoImplicit false
set_option relaxedAutoImplicit false

namespace OmniaBackends.Kafka

open Foundation

/-- The pull is completed, with the sends it waits on below the watermark. -/
def Pull.Settled (pull : Pull) (delivered : ℕ) : Prop :=
  ∃ sendsBefore, pull.stage.completion = some sendsBefore ∧ sendsBefore ≤ delivered

/-- A pull stays settled when the watermark moves up. -/
theorem Pull.Settled.mono {pull : Pull} {delivered later : ℕ} (hsettled : pull.Settled delivered)
    (hle : delivered ≤ later) : pull.Settled later := by
  obtain ⟨sendsBefore, hcompletion, hreached⟩ := hsettled
  exact ⟨sendsBefore, hcompletion, hreached.trans hle⟩

/-- A live pull of a partition, at its number. -/
structure LivePull (pulls : List Pull) (topic : String) (partition : ℤ) (index : ℕ) (pull : Pull) :
    Prop where
  /-- The pull of that number. -/
  found : pulls[index]? = some pull
  /-- It is one of the partition. -/
  at_ : pull.At topic partition
  /-- It came since the last revoke, while the partition was assigned. -/
  live : pull.live = true

/-- A partition of the tracker, the pulls, and the offsets resolved for it since its last revoke,
accounted for. -/
structure PartitionSound (pulls : List Pull) (delivered : ℕ) (topic : String) (partition : ℤ)
    (state : Partition) (resolved : List ℤ) : Prop where
  /-- What is pending is a live pull, completed if it is marked done. -/
  pending : ∀ offset pending, state.pending.get? offset = some pending →
    ∃ pull, LivePull pulls topic partition pending.ticket.number pull ∧ pull.offset = offset ∧
      (pending.done = true → pull.stage.completion = some pending.sendsBefore)
  /-- A live pull is pending under its own ticket, or settled. -/
  live : ∀ index pull, LivePull pulls topic partition index pull →
    (∃ pending, state.pending.get? pull.offset = some pending ∧ pending.ticket = ⟨index⟩) ∨
      pull.Settled delivered
  /-- Every live pull up to a resolved offset is settled. -/
  passed : ∀ offset ∈ resolved, ∀ index pull, LivePull pulls topic partition index pull →
    pull.offset ≤ offset → pull.Settled delivered
  /-- A resolved offset is that of a live pull. -/
  known : ∀ offset ∈ resolved, ∃ index pull, LivePull pulls topic partition index pull ∧
    pull.offset = offset
  /-- What is pending is beyond every resolved offset. -/
  beyond : ∀ offset pending, state.pending.get? offset = some pending →
    ∀ earlier ∈ resolved, earlier < offset
  /-- The offsets are resolved in increasing order. -/
  sorted : resolved.Pairwise (· < ·)

section Partitions

variable {pulls more : List Pull} {delivered later : ℕ} {topic : String} {partition : ℤ}
variable {state : Partition} {resolved : List ℤ} {pull : Pull} {index : ℕ}

/-- A resolution keeps the account, with what it resolved added. -/
theorem PartitionSound.resolve
    (hsound : PartitionSound pulls delivered topic partition state resolved)
    (hle : delivered ≤ later) :
    PartitionSound pulls later topic partition (state.resolve later).2
      (resolved ++ (state.resolve later).1.toList) := by
  have hpopped (last : ℤ) (hlast : (state.resolve later).1 = some last) (offset : ℤ)
      (hoffset : offset ≤ last) (pending : Pending)
      (hget : state.pending.get? offset = some pending) (pull : Pull)
      (hcompletion : pending.done = true → pull.stage.completion = some pending.sendsBefore) :
      pull.Settled later := by
    have hresolved := (Partition.resolve_some hlast).2.1 offset hoffset pending hget
    rw [Pending.resolved, Bool.and_eq_true] at hresolved
    exact ⟨pending.sendsBefore, hcompletion hresolved.1, of_decide_eq_true hresolved.2⟩
  have hlive : ∀ index pull, LivePull pulls topic partition index pull →
      (∃ pending, (state.resolve later).2.pending.get? pull.offset = some pending ∧
        pending.ticket = ⟨index⟩) ∨ pull.Settled later := by
    intro index pull hpull
    rcases hsound.live index pull hpull with ⟨pending, hget, hticket⟩ | hsettled
    · by_cases hstays : ∀ last, (state.resolve later).1 = some last → last < pull.offset
      · exact Or.inl ⟨pending, (Partition.get?_resolve pending).mpr ⟨hget, hstays⟩, hticket⟩
      · push Not at hstays
        obtain ⟨last, hlast, hoffset⟩ := hstays
        obtain ⟨found, hfound, -, hcompletion⟩ := hsound.pending pull.offset pending hget
        have hsame : found = pull := by
          rw [hticket] at hfound
          exact Option.some.inj (hfound.found.symm.trans hpull.found)
        exact Or.inr (hpopped last hlast _ hoffset pending hget pull (hsame ▸ hcompletion))
    · exact Or.inr (hsettled.mono hle)
  refine ⟨fun offset pending hget ↦ ?_, hlive, fun offset hoffset index pull hpull hbelow ↦ ?_,
    fun offset hoffset ↦ ?_, fun offset pending hget earlier hearlier ↦ ?_, ?_⟩
  · exact hsound.pending offset pending ((Partition.get?_resolve pending).mp hget).1
  · rcases List.mem_append.mp hoffset with hold | hnew
    · exact (hsound.passed offset hold index pull hpull hbelow).mono hle
    · have hlast : (state.resolve later).1 = some offset := Option.mem_toList.mp hnew
      refine (hlive index pull hpull).resolve_left ?_
      rintro ⟨pending, hget, -⟩
      have hlt := ((Partition.get?_resolve pending).mp hget).2 offset hlast
      exact absurd hbelow (not_le.mpr hlt)
  · rcases List.mem_append.mp hoffset with hold | hnew
    · exact hsound.known offset hold
    · obtain ⟨pending, hget⟩ := (Partition.resolve_some (Option.mem_toList.mp hnew)).1
      obtain ⟨pull, hpull, hsame, -⟩ := hsound.pending offset pending hget
      exact ⟨_, pull, hpull, hsame⟩
  · obtain ⟨hold, hlast⟩ := (Partition.get?_resolve pending).mp hget
    rcases List.mem_append.mp hearlier with hearlier | hnew
    · exact hsound.beyond offset pending hold earlier hearlier
    · exact hlast earlier (Option.mem_toList.mp hnew)
  · refine List.pairwise_append.mpr ⟨hsound.sorted, ?_, fun earlier hearlier last hlast ↦ ?_⟩
    · cases (state.resolve later).1 <;> simp
    · obtain ⟨pending, hget⟩ := (Partition.resolve_some (Option.mem_toList.mp hlast)).1
      exact hsound.beyond last pending hget earlier hearlier

/-- The account depends on the live pulls of the partition alone, and a pull may be completed. -/
theorem PartitionSound.congr
    (hsound : PartitionSound pulls delivered topic partition state resolved)
    (hforward : ∀ index pull, LivePull pulls topic partition index pull →
      ∃ moved, LivePull more topic partition index moved ∧ moved.offset = pull.offset ∧
        ∀ sends, pull.stage.completion = some sends → moved.stage.completion = some sends)
    (hbackward : ∀ index moved, LivePull more topic partition index moved →
      ∃ pull, LivePull pulls topic partition index pull ∧ moved.offset = pull.offset ∧
        ∀ sends, pull.stage.completion = some sends → moved.stage.completion = some sends) :
    PartitionSound more delivered topic partition state resolved := by
  refine ⟨fun offset pending hget ↦ ?_, fun index moved hmoved ↦ ?_,
    fun offset hoffset index moved hmoved hle ↦ ?_, fun offset hoffset ↦ ?_, hsound.beyond,
    hsound.sorted⟩
  · obtain ⟨pull, hpull, hsame, hcompletion⟩ := hsound.pending offset pending hget
    obtain ⟨moved, hmoved, hkept, hcompleted⟩ := hforward _ pull hpull
    exact ⟨moved, hmoved, hkept.trans hsame, fun hdone ↦ hcompleted _ (hcompletion hdone)⟩
  · obtain ⟨pull, hpull, hsame, hcompleted⟩ := hbackward index moved hmoved
    rw [hsame]
    refine (hsound.live index pull hpull).imp_right fun hsettled ↦ ?_
    obtain ⟨sends, hcompletion, hreached⟩ := hsettled
    exact ⟨sends, hcompleted sends hcompletion, hreached⟩
  · obtain ⟨pull, hpull, hsame, hcompleted⟩ := hbackward index moved hmoved
    obtain ⟨sends, hcompletion, hreached⟩ :=
      hsound.passed offset hoffset index pull hpull (hsame ▸ hle)
    exact ⟨sends, hcompleted sends hcompletion, hreached⟩
  · obtain ⟨index, pull, hpull, hsame⟩ := hsound.known offset hoffset
    obtain ⟨moved, hmoved, hkept, -⟩ := hforward index pull hpull
    exact ⟨index, moved, hmoved, hkept.trans hsame⟩

/-- The live pulls after an arrival. -/
theorem livePull_arrival {arrived : Pull} :
    LivePull (pulls ++ [arrived]) topic partition index pull ↔
      LivePull pulls topic partition index pull ∨
        (index = pulls.length ∧ pull = arrived ∧ arrived.At topic partition ∧
          arrived.live = true) := by
  constructor
  · rintro ⟨hfound, hat, hlive⟩
    rcases getElem?_arrival.mp hfound with hold | ⟨rfl, rfl⟩
    · exact Or.inl ⟨hold, hat, hlive⟩
    · exact Or.inr ⟨rfl, rfl, hat, hlive⟩
  · rintro (⟨hfound, hat, hlive⟩ | ⟨rfl, rfl, hat, hlive⟩)
    · exact ⟨getElem?_append_of_some hfound _, hat, hlive⟩
    · exact ⟨getElem?_arrival.mpr (Or.inr ⟨rfl, rfl⟩), hat, hlive⟩

/-- A pull of another partition, or one that is not live, keeps the account. -/
theorem PartitionSound.arrive
    (hsound : PartitionSound pulls delivered topic partition state resolved) {arrived : Pull}
    (harrived : ¬(arrived.At topic partition ∧ arrived.live = true)) :
    PartitionSound (pulls ++ [arrived]) delivered topic partition state resolved := by
  refine hsound.congr (fun index pull hpull ↦ ?_) fun index moved hmoved ↦ ?_
  · exact ⟨pull, livePull_arrival.mpr (Or.inl hpull), rfl, fun _ h ↦ h⟩
  · have hold := (livePull_arrival.mp hmoved).resolve_right fun hnew ↦ harrived hnew.2.2
    exact ⟨moved, hold, rfl, fun _ h ↦ h⟩

/-- A live pull beyond every live pull before it is pending, and keeps the account. -/
theorem PartitionSound.insert
    (hsound : PartitionSound pulls delivered topic partition state resolved) {arrived : Pull}
    (hat : arrived.At topic partition) (hlive : arrived.live = true)
    (hbelow : ∀ index pull, LivePull pulls topic partition index pull →
      pull.offset < arrived.offset) :
    PartitionSound (pulls ++ [arrived]) delivered topic partition
      { state with
        pending := state.pending.insert arrived.offset ⟨⟨pulls.length⟩, false, 0⟩ } resolved := by
  have hresolved : ∀ offset ∈ resolved, offset < arrived.offset := by
    intro offset hoffset
    obtain ⟨index, pull, hpull, rfl⟩ := hsound.known offset hoffset
    exact hbelow index pull hpull
  have hnew : LivePull (pulls ++ [arrived]) topic partition pulls.length arrived :=
    livePull_arrival.mpr (Or.inr ⟨rfl, rfl, hat, hlive⟩)
  refine ⟨fun offset pending hget ↦ ?_, fun index pull hpull ↦ ?_,
    fun offset hoffset index pull hpull hle ↦ ?_, fun offset hoffset ↦ ?_,
    fun offset pending hget ↦ ?_, hsound.sorted⟩
  · rw [OrderedMap.get?_insert] at hget
    split_ifs at hget with hsame
    · rw [← Option.some.inj hget]
      exact ⟨arrived, hnew, hsame.symm, fun hdone ↦ Bool.noConfusion hdone⟩
    · obtain ⟨pull, hpull, hoffset, hcompletion⟩ := hsound.pending offset pending hget
      exact ⟨pull, livePull_arrival.mpr (Or.inl hpull), hoffset, hcompletion⟩
  · rcases livePull_arrival.mp hpull with hold | ⟨rfl, rfl, -, -⟩
    · rw [OrderedMap.get?_insert_of_ne _ _ (hbelow index pull hold).ne]
      exact hsound.live index pull hold
    · exact Or.inl ⟨_, OrderedMap.get?_insert_self _ _ _, rfl⟩
  · rcases livePull_arrival.mp hpull with hold | ⟨-, rfl, -, -⟩
    · exact hsound.passed offset hoffset index pull hold hle
    · exact absurd hle (not_le.mpr (hresolved offset hoffset))
  · obtain ⟨index, pull, hpull, hsame⟩ := hsound.known offset hoffset
    exact ⟨index, pull, livePull_arrival.mpr (Or.inl hpull), hsame⟩
  · rw [OrderedMap.get?_insert] at hget
    split_ifs at hget with hsame
    · rw [hsame]
      exact hresolved
    · exact hsound.beyond offset pending hget

/-- A completed pull that is pending may be marked done. -/
theorem PartitionSound.markDone
    (hsound : PartitionSound pulls delivered topic partition state resolved) {offset : ℤ}
    {sendsBefore : ℕ} {held : Pending} (hheld : state.pending.get? offset = some held)
    (hcompletion : ∀ pull, pulls[held.ticket.number]? = some pull →
      pull.stage.completion = some sendsBefore) :
    PartitionSound pulls delivered topic partition
      (Tracker.markDone state offset held.ticket sendsBefore) resolved := by
  have hget (other : ℤ) (pending : Pending) (hpending :
      (Tracker.markDone state offset held.ticket sendsBefore).pending.get? other = some pending) :
      ∃ old, state.pending.get? other = some old ∧ old.ticket = pending.ticket ∧
        (pending = old ∨ pending = ⟨held.ticket, true, sendsBefore⟩) := by
    rw [Tracker.markDone, OrderedMap.get?_insert] at hpending
    split_ifs at hpending with hsame
    · obtain rfl := Option.some.inj hpending
      exact ⟨held, by rw [hsame, hheld], rfl, Or.inr rfl⟩
    · exact ⟨pending, hpending, rfl, Or.inl rfl⟩
  refine ⟨fun other pending hpending ↦ ?_, fun index pull hpull ↦ ?_, hsound.passed, hsound.known,
    fun other pending hpending ↦ ?_, hsound.sorted⟩
  · obtain ⟨old, hold, hticket, hcases⟩ := hget other pending hpending
    obtain ⟨pull, hpull, hoffset, hdone⟩ := hsound.pending other old hold
    refine ⟨pull, hticket ▸ hpull, hoffset, fun hmarked ↦ ?_⟩
    rcases hcases with rfl | rfl
    · exact hdone hmarked
    · exact hcompletion pull (hticket ▸ hpull.found)
  · refine (hsound.live index pull hpull).imp_left fun hpending ↦ ?_
    obtain ⟨pending, hpending, hticket⟩ := hpending
    rw [Tracker.markDone, OrderedMap.get?_insert]
    split_ifs with hsame
    · rw [hsame, hheld] at hpending
      obtain rfl := Option.some.inj hpending
      exact ⟨_, rfl, hticket⟩
    · exact ⟨pending, hpending, hticket⟩
  · obtain ⟨old, hold, -, -⟩ := hget other pending hpending
    exact hsound.beyond other old hold

/-- An empty partition with no live pull accounts for nothing resolved. -/
theorem partitionSound_empty (revoked : Bool)
    (hnone : ∀ index pull, ¬LivePull pulls topic partition index pull) :
    PartitionSound pulls delivered topic partition ⟨revoked, OrderedMap.empty⟩ [] :=
  ⟨fun _ _ hget ↦ absurd hget (by simp), fun index pull hpull ↦ absurd hpull (hnone index pull),
    fun _ hmem ↦ absurd hmem List.not_mem_nil, fun _ hmem ↦ absurd hmem List.not_mem_nil,
    fun _ _ hget ↦ absurd hget (by simp), List.Pairwise.nil⟩

/-- The live pulls after a pull has moved within its handling. -/
theorem livePull_move {moved : HandleStage} {place : ℕ} {other : Pull}
    (hplace : pulls[place]? = some other) :
    LivePull (pulls.set place { other with stage := moved }) topic partition index pull ↔
      (index = place ∧ pull = { other with stage := moved } ∧
          LivePull pulls topic partition place other) ∨
        (index ≠ place ∧ LivePull pulls topic partition index pull) := by
  constructor
  · rintro ⟨hfound, hat, hlive⟩
    rcases (getElem?_move hplace).mp hfound with ⟨rfl, rfl⟩ | ⟨hne, hold⟩
    · exact Or.inl ⟨rfl, rfl, hplace, hat, hlive⟩
    · exact Or.inr ⟨hne, hold, hat, hlive⟩
  · rintro (⟨rfl, rfl, hpull⟩ | ⟨hne, hpull⟩)
    · exact ⟨(getElem?_move hplace).mpr (Or.inl ⟨rfl, rfl⟩), hpull.at_, hpull.live⟩
    · exact ⟨(getElem?_move hplace).mpr (Or.inr ⟨hne, hpull.found⟩), hpull.at_, hpull.live⟩

/-- A pull not completed yet may move within its handling. -/
theorem PartitionSound.move
    (hsound : PartitionSound pulls delivered topic partition state resolved) {place : ℕ}
    {other : Pull} (hplace : pulls[place]? = some other)
    (hcompletion : other.stage.completion = none) (moved : HandleStage) :
    PartitionSound (pulls.set place { other with stage := moved }) delivered topic partition state
      resolved := by
  refine hsound.congr (fun index pull hpull ↦ ?_) fun index found hfound ↦ ?_
  · by_cases hindex : index = place
    · subst hindex
      obtain rfl := Option.some.inj (hpull.found.symm.trans hplace)
      refine ⟨_, (livePull_move hplace).mpr (Or.inl ⟨rfl, rfl, hpull⟩), rfl, fun sends h ↦ ?_⟩
      rw [hcompletion] at h
      exact absurd h (by simp)
    · exact ⟨pull, (livePull_move hplace).mpr (Or.inr ⟨hindex, hpull⟩), rfl, fun _ h ↦ h⟩
  · rcases (livePull_move hplace).mp hfound with ⟨rfl, rfl, hpull⟩ | ⟨-, hpull⟩
    · refine ⟨other, hpull, rfl, fun sends h ↦ ?_⟩
      rw [hcompletion] at h
      exact absurd h (by simp)
    · exact ⟨found, hpull, rfl, fun _ h ↦ h⟩

end Partitions

/-! ### The shared state -/

namespace Commit

/-- The shared state, accounted for. -/
structure Sound (state : Commit) : Prop where
  /-- The tracker resolves all there is to resolve. -/
  settled : state.tracker.Settled
  /-- The watermark is that of the reported numbers. -/
  marks : Marks state.tracker.delivered state.tracker.outOfOrder state.reported
  /-- Each pull has one ticket. -/
  tickets : state.tracker.tickets = state.pulls.length
  /-- Every partition is accounted for. -/
  partitions : ∀ topic partition, PartitionSound state.pulls state.tracker.delivered topic partition
    (state.tracker.state topic partition) (state.resolved topic partition)

variable {config : Config} {state after : Commit} {events : List Event} {event : Event}
variable {topic : String} {partition offset : ℤ}

/-- The shared state of a new client is accounted for. -/
theorem sound_initial : Sound initial := by
  refine ⟨Tracker.settled_default, marks_empty, rfl, fun topic partition ↦ ?_⟩
  exact partitionSound_empty false fun index pull hpull ↦ absurd hpull.found (by simp [initial])

/-- A call of the tracker whose marks keep the account, partition by partition, keeps it. -/
theorem Sound.call (hsound : state.Sound) (op : Op) (pulls : List Pull) (sends : List Send)
    (hpulls : pulls.length = state.pulls.length)
    (hop : ∀ topic partition offset, op ≠ .insert topic partition offset)
    (hmarked : ∀ topic partition, PartitionSound pulls state.tracker.delivered topic partition
      (state.tracker.marked topic partition op) (state.resolved topic partition)) :
    Sound { state.call op with
      pulls := pulls, sends := sends, reported := Tracker.reportedBy state.reported op } := by
  refine ⟨Tracker.settled_apply hsound.settled op, Tracker.marks_apply hsound.marks op, ?_,
    fun topic partition ↦ ?_⟩
  · change (state.tracker.apply op).1.tickets = pulls.length
    rw [Tracker.tickets_apply, hpulls, ← hsound.tickets]
    cases op with
    | insert topic partition offset => exact absurd rfl (hop topic partition offset)
    | _ => rfl
  · have hresolve := (hmarked topic partition).resolve (Tracker.delivered_le_apply hsound.marks op)
    change PartitionSound pulls (state.tracker.apply op).1.delivered topic partition
      ((state.tracker.apply op).1.state topic partition)
      (state.resolved topic partition ++ offsetsOf (state.tracker.apply op).2 topic partition)
    rw [(Tracker.apply_spec hsound.settled op topic partition).1,
      Tracker.offsetsOf_apply hsound.settled]
    exact hresolve

/-- A call that is neither a completion nor a report leaves each partition as it marks it, and the
watermark where it is. -/
theorem state_apply_of_quiet (hsettled : state.tracker.Settled) (op : Op)
    (hdone : ∀ topic partition offset ticket sendsBefore,
      op ≠ .done topic partition offset ticket sendsBefore)
    (hreport : ∀ id, op ≠ .noteDelivered id) (topic : String) (partition : ℤ) :
    (state.tracker.apply op).1.state topic partition = state.tracker.marked topic partition op ∧
      (state.tracker.apply op).1.delivered = state.tracker.delivered ∧
      (state.tracker.apply op).1.outOfOrder = state.tracker.outOfOrder := by
  have hquiet := Tracker.settled_marked hsettled topic partition hdone
  rw [(Tracker.apply_spec hsettled op topic partition).1,
    (Tracker.delivered_apply state.tracker hreport).1, hquiet.resolve_eq]
  exact ⟨rfl, rfl, (Tracker.delivered_apply state.tracker hreport).2⟩

/-- A record pulled in the broker's order keeps the account. -/
theorem Sound.insert (hsound : state.Sound)
    (horder : state.inOrder (.insert topic partition offset) = true) :
    Sound (state.insert topic partition offset) := by
  have hquiet := state_apply_of_quiet hsound.settled (.insert topic partition offset) (by simp)
    (by simp)
  have hbelow : ∀ index pull, LivePull state.pulls topic partition index pull →
      pull.offset < offset := by
    intro index pull hpull
    have hall := List.all_eq_true.mp horder pull (List.mem_of_getElem? hpull.found)
    simpa [hpull.at_, hpull.live] using hall
  refine ⟨Tracker.settled_apply hsound.settled (.insert topic partition offset), ?_, ?_,
    fun otherTopic otherPartition ↦ ?_⟩
  · change Marks (state.tracker.apply (.insert topic partition offset)).1.delivered
      (state.tracker.apply (.insert topic partition offset)).1.outOfOrder state.reported
    rw [(hquiet topic partition).2.1, (hquiet topic partition).2.2]
    exact hsound.marks
  · change state.tracker.tickets + 1 = _
    rw [hsound.tickets]
    simp [Commit.insert]
  · change PartitionSound (state.pulls ++ [_])
      (state.tracker.apply (.insert topic partition offset)).1.delivered otherTopic otherPartition
      ((state.tracker.apply (.insert topic partition offset)).1.state otherTopic otherPartition)
      (state.resolved otherTopic otherPartition)
    rw [(hquiet otherTopic otherPartition).1, (hquiet topic partition).2.1, Tracker.marked]
    split_ifs with hsame
    · obtain ⟨rfl, rfl, hassigned⟩ := hsame
      rw [hsound.tickets]
      exact (hsound.partitions otherTopic otherPartition).insert ⟨rfl, rfl⟩
        (by simp [Pull.live, hassigned])
        hbelow
    · refine (hsound.partitions otherTopic otherPartition).arrive fun hnew ↦ hsame ?_
      obtain ⟨⟨rfl, rfl⟩, hlive⟩ := hnew
      simpa [Pull.live] using hlive

/-- A revoke of a partition keeps the account. -/
theorem Sound.revoke (hsound : state.Sound) (topic : String) (partition : ℤ) :
    Sound (state.revoke topic partition) := by
  have hquiet := state_apply_of_quiet hsound.settled (.revoke topic partition) (by simp) (by simp)
  refine ⟨Tracker.settled_apply hsound.settled (.revoke topic partition), hsound.marks, ?_,
    fun otherTopic otherPartition ↦ ?_⟩
  · change state.tracker.tickets = _
    rw [hsound.tickets]
    simp [Commit.revoke]
  · change PartitionSound (state.pulls.map _) state.tracker.delivered otherTopic otherPartition
      ((state.tracker.apply (.revoke topic partition)).1.state otherTopic otherPartition)
      (if otherTopic = topic ∧ otherPartition = partition then []
        else state.resolved otherTopic otherPartition)
    rw [(hquiet otherTopic otherPartition).1, Tracker.marked]
    split_ifs with hsame
    · obtain ⟨rfl, rfl⟩ := hsame
      refine partitionSound_empty true fun index pull hpull ↦ ?_
      obtain ⟨old, hold, rfl⟩ := List.mem_map.mp (List.mem_of_getElem? hpull.found)
      have hat := hpull.at_
      have hlive := hpull.live
      split_ifs at hat hlive with hold'
      · simp [Pull.live] at hlive
      · exact hold' hat
    · have hother (pull : Pull) (hat : pull.At otherTopic otherPartition) :
          ¬pull.At topic partition := fun h ↦ hsame ⟨hat.1.symm.trans h.1, hat.2.symm.trans h.2⟩
      refine (hsound.partitions otherTopic otherPartition).congr (fun index pull hpull ↦ ?_)
        fun index moved hmoved ↦ ?_
      · refine ⟨pull, ⟨?_, hpull.at_, hpull.live⟩, rfl, fun _ h ↦ h⟩
        rw [List.getElem?_map, hpull.found, Option.map_some, if_neg (hother pull hpull.at_)]
      · have hfound := hmoved.found
        rw [List.getElem?_map] at hfound
        obtain ⟨pull, hpull, rfl⟩ := Option.map_eq_some_iff.mp hfound
        have hat : ¬pull.At topic partition := by
          intro h
          have hmovedAt := hmoved.at_
          rw [if_pos h] at hmovedAt
          exact hother pull hmovedAt h
        have hsamePull := hmoved
        rw [if_neg hat] at hsamePull ⊢
        exact ⟨pull, ⟨hpull, hsamePull.at_, hsamePull.live⟩, rfl, fun _ h ↦ h⟩

/-- An assignment of a partition keeps the account. -/
theorem Sound.assign (hsound : state.Sound) (topic : String) (partition : ℤ) :
    Sound { state with tracker := state.tracker.assign topic partition } := by
  have hquiet := state_apply_of_quiet hsound.settled (.assign topic partition) (by simp) (by simp)
  refine ⟨Tracker.settled_apply hsound.settled (.assign topic partition), hsound.marks,
    hsound.tickets, fun otherTopic otherPartition ↦ ?_⟩
  have hold := hsound.partitions otherTopic otherPartition
  change PartitionSound state.pulls state.tracker.delivered otherTopic otherPartition
    ((state.tracker.apply (.assign topic partition)).1.state otherTopic otherPartition)
    (state.resolved otherTopic otherPartition)
  rw [(hquiet otherTopic otherPartition).1, Tracker.marked]
  split_ifs
  · exact ⟨hold.pending, hold.live, hold.passed, hold.known, hold.beyond, hold.sorted⟩
  · exact hold

/-- A move of a pull's delivery keeps the account. -/
theorem Sound.handle (hsound : state.Sound) {index : ℕ} {move : HandleMove}
    (hstep : handle config state index move = some after) : Sound after := by
  obtain ⟨pull, hpull, ⟨how, sendsBefore, hloaded, rfl⟩ | ⟨stage, hnext, rfl⟩⟩ :=
    handle_cases hstep
  · refine hsound.call (.done pull.topic pull.partition pull.offset ⟨index⟩ sendsBefore)
      (state.pulls.set index _) state.sends List.length_set (by simp) fun topic partition ↦ ?_
    have hmoved := (hsound.partitions topic partition).move hpull (by rw [hloaded]; rfl)
      (.completed how sendsBefore state.calls.length)
    rw [Tracker.marked]
    split_ifs with hsame
    · obtain ⟨rfl, rfl, hholds⟩ := hsame
      obtain ⟨held, hheld, hticket⟩ := Tracker.holds_iff.mp hholds
      rw [← hticket]
      refine hmoved.markDone hheld fun found hfound ↦ ?_
      rw [hticket] at hfound
      rcases (getElem?_move hpull).mp hfound with ⟨-, rfl⟩ | ⟨hne, -⟩
      · rfl
      · exact absurd rfl hne
    · exact hmoved
  · have hcompletion := (HandleStage.of_next hnext).2.1
    refine ⟨hsound.settled, hsound.marks, ?_, fun topic partition ↦ ?_⟩
    · rw [List.length_set]
      exact hsound.tickets
    · exact (hsound.partitions topic partition).move hpull hcompletion stage

/-- A move of a send keeps the account. -/
theorem Sound.send (hsound : state.Sound) {event : SendEvent}
    (hstep : state.send event = some after) : Sound after := by
  obtain ⟨sends, ⟨id, rfl⟩ | rfl⟩ := send_cases hstep
  · exact hsound.call (.noteDelivered id) state.pulls sends rfl (by simp) hsound.partitions
  · exact ⟨hsound.settled, hsound.marks, hsound.tickets, hsound.partitions⟩

/-- A step in the broker's order keeps the account. -/
theorem sound_step (hsound : state.Sound)
    (hstep : StepOf (orderedStep config) state event after) : after.Sound := by
  obtain ⟨horder, hstep⟩ := step_of_orderedStep hstep
  cases event with
  | insert topic partition offset =>
    obtain rfl := Option.some.inj hstep
    exact hsound.insert horder
  | handle index move => exact hsound.handle hstep
  | send event => exact hsound.send hstep
  | revoke topic partition =>
    obtain rfl := Option.some.inj hstep
    exact hsound.revoke topic partition
  | assign topic partition =>
    obtain rfl := Option.some.inj hstep
    exact hsound.assign topic partition
  | store index =>
    obtain ⟨stored, rest, -, rfl⟩ := store_cases hstep
    exact ⟨hsound.settled, hsound.marks, hsound.tickets, hsound.partitions⟩

/-- What the send counter of a record to be completed is bounded below by: the counter as it stands
until it is read, and what was read from then on. -/
def bound (sends : ℕ) : HandleStage → Option ℕ
  | .completing _ => some sends
  | .loaded _ sendsBefore => some sendsBefore
  | .completed _ sendsBefore _ => some sendsBefore
  | _ => none

/-- A stage's bound is that of a larger counter, or grows with it. -/
theorem bound_mono {stage : HandleStage} {sends later least : ℕ} (hle : sends ≤ later)
    (hbound : bound later stage = some least) :
    ∃ earlier, bound sends stage = some earlier ∧ earlier ≤ least := by
  cases stage with
  | completing how =>
    obtain rfl := Option.some.inj hbound
    exact ⟨sends, rfl, hle⟩
  | loaded how sendsBefore =>
    obtain rfl := Option.some.inj hbound
    exact ⟨sendsBefore, rfl, le_rfl⟩
  | completed how sendsBefore call =>
    obtain rfl := Option.some.inj hbound
    exact ⟨sendsBefore, rfl, le_rfl⟩
  | _ => cases hbound

/-- Every record to be completed was counted when its handler returned or it was dropped, and its
completion waits on at least the sends numbered by then. -/
def Counted (state : Commit) : Prop :=
  ∀ index stage least, state.stageOf index = some stage →
    bound state.sends.length stage = some least →
      ∃ taken, state.returned index = some taken ∧ taken ≤ least

/-- Where the sends only grow and the counts stay, a pull that stays where it stands stays
counted. -/
theorem Counted.stays (hcounted : state.Counted) (hsends : state.sends.length ≤ after.sends.length)
    (hreturned : after.returned = state.returned) {index : ℕ} {stage : HandleStage} {least : ℕ}
    (hstage : state.stageOf index = some stage)
    (hbound : bound after.sends.length stage = some least) :
    ∃ taken, after.returned index = some taken ∧ taken ≤ least := by
  obtain ⟨earlier, hearlier, hle⟩ := bound_mono hsends hbound
  obtain ⟨taken, htaken, hbelow⟩ := hcounted index stage earlier hstage hearlier
  exact ⟨taken, by rw [hreturned, htaken], hbelow.trans hle⟩

/-- A move of a send gives no number back. -/
theorem length_sends_send {event : SendEvent} (hstep : state.send event = some after) :
    state.sends.length ≤ after.sends.length ∧ after.returned = state.returned := by
  obtain ⟨⟨sends, report⟩, hsends, rfl⟩ := Option.map_eq_some_iff.mp hstep
  have hgrows : state.sends.length ≤ sends.length := by
    cases event with
    | nextSendId =>
      obtain ⟨rfl, -⟩ := Prod.mk.inj (Option.some.inj hsends)
      simp
    | move id move =>
      obtain ⟨send, -, hmove⟩ := Option.bind_eq_some_iff.mp hsends
      obtain ⟨moved, -, hmoved⟩ := Option.map_eq_some_iff.mp hmove
      obtain ⟨rfl, -⟩ := Prod.mk.inj hmoved
      rw [List.length_set]
  cases report <;> exact ⟨hgrows, rfl⟩

/-- What a pull waits on after its delivery moved on its own: the counter as it is read, where it
was counted before, or the counter as it stands, where it is counted now. -/
theorem bound_next {held : Bool} {sends least : ℕ} {topic : String} {stage moved : HandleStage}
    {move : HandleMove} (hnext : stage.next config held sends topic move = some moved)
    (hbound : bound sends moved = some least) :
    least = sends ∧ (moved.isCompleting = true ∨
      moved.isCompleting = false ∧ bound sends stage = some sends) := by
  unfold HandleStage.next at hnext
  split at hnext
  · obtain rfl := Option.some.inj hnext
    unfold HandleStage.entered at hbound ⊢
    split_ifs at hbound ⊢
    · cases hbound
    · exact ⟨(Option.some.inj hbound).symm, .inl rfl⟩
    · cases hbound
    · cases hbound
  · obtain rfl := Option.some.inj hnext
    split_ifs at hbound ⊢
    · cases hbound
    · exact ⟨(Option.some.inj hbound).symm, .inl rfl⟩
  · obtain rfl := Option.some.inj hnext
    split_ifs at hbound ⊢
    · exact ⟨(Option.some.inj hbound).symm, .inl rfl⟩
    · cases hbound
  · obtain rfl := Option.some.inj hnext
    exact ⟨(Option.some.inj hbound).symm, .inr ⟨rfl, rfl⟩⟩
  · cases hnext

/-- A move of a delivery keeps every pull counted: it is counted as `Delivery::done` is entered, and
the counter read after that is at least the count. -/
theorem Counted.handle (hcounted : state.Counted) {index : ℕ} {move : HandleMove}
    (hstep : handle config state index move = some after) : after.Counted := by
  obtain ⟨pull, hpull, hcases⟩ := handle_cases hstep
  have hstage : state.stageOf index = some pull.stage := by rw [stageOf, hpull, Option.map_some]
  have hothers := (stageOf_handle hstep).2.1
  have hset (moved : HandleStage) :
      ((state.pulls.set index { pull with stage := moved })[index]?).map Pull.stage =
        some moved := by
    simp [lt_length_of_getElem? hpull]
  intro other stage least hother hbound
  rcases hcases with ⟨how, sendsBefore, hloaded, rfl⟩ | ⟨moved, hnext, rfl⟩
  · by_cases hsame : other = index
    · subst hsame
      obtain rfl := Option.some.inj (hother.symm.trans (hset _))
      exact hcounted other pull.stage least hstage (by rw [hloaded]; exact hbound)
    · rw [hothers other hsame] at hother
      exact hcounted.stays le_rfl rfl hother hbound
  · by_cases hsame : other = index
    · subst hsame
      obtain rfl := Option.some.inj (hother.symm.trans (hset _))
      obtain ⟨rfl, hcompleting | ⟨hread, hbefore⟩⟩ := bound_next hnext hbound
      · refine ⟨state.sends.length, ?_, le_rfl⟩
        change state.returnedAt other stage other = _
        rw [returnedAt, if_pos hcompleting, Function.update_self]
      · obtain ⟨taken, htaken, hle⟩ := hcounted other pull.stage _ hstage hbefore
        refine ⟨taken, ?_, hle⟩
        change state.returnedAt other stage other = _
        rw [returnedAt, if_neg (by rw [hread]; exact Bool.false_ne_true), htaken]
    · rw [hothers other hsame] at hother
      obtain ⟨taken, htaken, hle⟩ := hcounted other stage least hother hbound
      refine ⟨taken, ?_, hle⟩
      change state.returnedAt index moved other = _
      rw [returnedAt]
      split_ifs
      · rw [Function.update_of_ne hsame, htaken]
      · exact htaken

/-- Every step keeps every pull counted. -/
theorem counted_step (hcounted : state.Counted) (hstep : step config state event = some after) :
    after.Counted := by
  by_cases hevent : ∃ index move, event = .handle index move
  · obtain ⟨index, move, rfl⟩ := hevent
    exact hcounted.handle hstep
  · have hgrows : state.sends.length ≤ after.sends.length ∧ after.returned = state.returned := by
      cases event with
      | handle index move => exact absurd ⟨index, move, rfl⟩ hevent
      | send event => exact length_sends_send hstep
      | store index =>
        obtain ⟨stored, rest, -, rfl⟩ := store_cases hstep
        exact ⟨le_rfl, rfl⟩
      | _ =>
        obtain rfl := Option.some.inj hstep
        exact ⟨le_rfl, rfl⟩
    have hstages := stageOf_step hstep fun index move heq ↦ hevent ⟨index, move, heq⟩
    intro index stage least hstage hbound
    rcases hstages index with hsame | ⟨-, hwaiting⟩
    · exact hcounted.stays hgrows.1 hgrows.2 (hsame ▸ hstage) hbound
    · obtain rfl := Option.some.inj (hwaiting.symm.trans hstage)
      cases hbound

/-- Every state a run reaches is accounted for. -/
theorem sound_of_run (hrun : Run (StepOf (orderedStep config)) initial events state) :
    state.Sound :=
  hrun.invariant Sound (fun hbefore hstep ↦ sound_step hbefore hstep) sound_initial

/-- In every state that a run reaches every pull is counted. -/
theorem counted_of_run (hrun : Run (StepOf (orderedStep config)) initial events state) :
    state.Counted :=
  hrun.invariant Counted (fun hbefore hstep ↦ counted_step hbefore (step_of_orderedStep hstep).2)
    fun _ _ _ hstage _ ↦ absurd hstage (by simp [stageOf, initial])

/-- At-least-once commit safety: in every state that a run reaches, an offset resolved for a
partition since its last revoke passes only records that are completed, with every send numbered
before the completion reported, among the records of the partition pulled since that revoke while
it was assigned: those numbered when its handler returned or it was dropped, and those numbered
before the counter was read. So it passes none that waits, that is with the registry or the
handler, or that failed. Assumes: the offsets of a partition increase within an assignment. -/
theorem stored_offset_safe (config : Config) {events : List Event} {state : Commit}
    (hrun : Run (StepOf (orderedStep config)) initial events state) {topic : String}
    {partition offset : ℤ} (hresolved : offset ∈ state.resolved topic partition) {index : ℕ}
    {pull : Pull} (hpull : state.pulls[index]? = some pull) (hat : pull.At topic partition)
    (htracked : pull.tracked = true) (hsince : pull.since = true) (hle : pull.offset ≤ offset) :
    ∃ how sendsBefore call taken, pull.stage = .completed how sendsBefore call ∧
      state.returned index = some taken ∧ taken ≤ sendsBefore ∧
        ∀ send < sendsBefore, send ∈ state.reported := by
  have hsound := sound_of_run hrun
  have hlive : LivePull state.pulls topic partition index pull :=
    ⟨hpull, hat, by simp [Pull.live, htracked, hsince]⟩
  obtain ⟨sendsBefore, hcompletion, hreached⟩ :=
    (hsound.partitions topic partition).passed offset hresolved index pull hlive hle
  have hreported := hsound.marks.le_next_iff.mp hreached
  cases hstage : pull.stage with
  | completed how sends call =>
    rw [hstage] at hcompletion
    obtain rfl := Option.some.inj hcompletion
    have hstageOf : state.stageOf index = some (.completed how sends call) := by
      rw [stageOf, hpull, Option.map_some, hstage]
    obtain ⟨taken, htaken, hbelow⟩ := counted_of_run hrun index _ sends hstageOf rfl
    exact ⟨how, sends, call, taken, rfl, htaken, hbelow, hreported⟩
  | _ =>
    rw [hstage] at hcompletion
    exact absurd hcompletion (by simp [HandleStage.completion])

/-- A record whose handler makes one send, which is reported after the record is done. -/
def oneSend : List Event :=
  [.insert "t" 0 5, .handle 0 .start, .send .nextSendId, .send (.move 0 (.trySend .ok)),
    .handle 0 (.handled true), .handle 0 .load, .handle 0 .done, .send (.move 0 .callback)]

/-- Those steps are a run. -/
theorem isSome_oneSend : (execute (orderedStep ⟨"", false⟩) initial oneSend).isSome := by
  decide +kernel

/-- With that send reported, the record's offset is resolved, and the record is completed. -/
theorem stored_offset_safe_one_send :
    let state := (execute (orderedStep ⟨"", false⟩) initial oneSend).get isSome_oneSend
    ∀ pull, state.pulls[0]? = some pull →
      ∃ how sendsBefore call taken, pull.stage = .completed how sendsBefore call ∧
        state.returned 0 = some taken ∧ taken ≤ sendsBefore ∧
          ∀ send < sendsBefore, send ∈ state.reported := by
  intro state pull hpull
  have hknown : pull = ⟨"t", 0, 5, true, true, .completed .handled 1 0⟩ :=
    (Option.some.inj hpull).symm
  have hresolved : 5 ∈ state.resolved "t" 0 := by decide +kernel
  exact stored_offset_safe ⟨"", false⟩ (run_of_isSome isSome_oneSend) hresolved hpull
    (by rw [hknown]; decide) (by rw [hknown]) (by rw [hknown]) (by rw [hknown])

/-- A record pulled while its partition is revoked, and after the next assignment one beyond it
that is handled. -/
def pulledWhileRevoked : List Event :=
  [.revoke "t" 0, .insert "t" 0 5, .assign "t" 0, .insert "t" 0 7, .handle 1 .start,
    .handle 1 (.handled true), .handle 1 .load, .handle 1 .done]

/-- Those steps are a run. -/
theorem isSome_pulledWhileRevoked :
    (execute (orderedStep ⟨"", false⟩) initial pulledWhileRevoked).isSome := by
  decide +kernel

/-- A record pulled while its partition was revoked is passed without being completed: it is
skipped when its turn comes. -/
theorem passes_record_pulled_while_revoked :
    ¬∀ (config : Config) (events : List Event) (state : Commit),
      Run (StepOf (orderedStep config)) initial events state →
      ∀ (topic : String) (partition offset : ℤ), offset ∈ state.resolved topic partition →
      ∀ (index : ℕ) (pull : Pull), state.pulls[index]? = some pull → pull.At topic partition →
      pull.since = true → pull.offset ≤ offset →
      ∃ how sendsBefore call taken, pull.stage = .completed how sendsBefore call ∧
        state.returned index = some taken ∧ taken ≤ sendsBefore ∧
          ∀ send < sendsBefore, send ∈ state.reported := by
  intro hclaim
  obtain ⟨_, _, _, _, hwaiting, -⟩ := hclaim ⟨"", false⟩ pulledWhileRevoked _
    (run_of_isSome isSome_pulledWhileRevoked) "t" 0 7 (by decide +kernel) 0
    ⟨"t", 0, 5, false, true, .waiting⟩ rfl (by decide) rfl (by decide)
  exact HandleStage.noConfusion hwaiting

end Commit

end OmniaBackends.Kafka
