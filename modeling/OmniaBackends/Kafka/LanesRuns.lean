import OmniaBackends.Foundation.Run
import OmniaBackends.Kafka.Lanes
import Mathlib.Data.Finset.Insert

/-!
# The lanes over a run of the consumer

Deliveries share one map of lanes under a lock, so what happens to it is a sequence of calls in
some order. A delivery enqueues its record at the pull, awaits its turn, releases its lane, and
drops it (`Delivery::admit` and `Delivery::deliver`). Where the handler panics or the task is
aborted the lane is dropped without its release. Dropping a lane closes its channel, and the turn
of the lane behind resolves on a closed channel. `turn` takes the receiver out of the lane, so that
a lane past its turn reports itself at the head.

What the map holds follows from one fact about the channels: a lane that had its turn has every
earlier lane of its key released or dropped, the one it waited for and those that one waited for
before it, but for the lanes before one that was dropped while it waited.
-/

set_option autoImplicit false
set_option relaxedAutoImplicit false

namespace OmniaBackends.Kafka

open OmniaBackends.Foundation

/-- A lane past its turn: the receiver is taken out of it. -/
def Lane.turn (lane : Lane) : Lane :=
  { lane with behind := none }

/-- The map and what was done with the lanes it gave out. -/
structure Traffic where
  /-- The map. -/
  lanes : Lanes
  /-- The lanes as they were enqueued, in that order. -/
  enqueued : List Lane
  /-- The lanes that had their turn, by number. -/
  turned : Finset ℕ
  /-- The lanes that were released. -/
  released : Finset ℕ
  /-- The lanes that were dropped, whose channels are closed. -/
  closed : Finset ℕ

/-- What a delivery does with its lane. -/
inductive LaneEvent
  /-- A record of a key is admitted. -/
  | enqueue (key : Key)
  /-- A lane's turn resolves. -/
  | turn (lane : Lane)
  /-- A lane is released. -/
  | release (lane : Lane)
  /-- A lane is dropped. -/
  | drop (lane : Lane)
  deriving DecidableEq

namespace Traffic

/-- No lane was given out. -/
def start : Traffic :=
  ⟨Lanes.default, [], ∅, ∅, ∅⟩

/-- The lane last enqueued for a key. -/
def last (traffic : Traffic) (key : Key) : Option Lane :=
  (traffic.enqueued.filter fun lane ↦ lane.key = key).getLast?

/-- A lane as its delivery holds it now. -/
def held (traffic : Traffic) (lane : Lane) : Lane :=
  if lane.seq ∈ traffic.turned then lane.turn else lane

/-- A record joins the lane of its key. -/
def enqueue (traffic : Traffic) (key : Key) : Traffic :=
  { traffic with
    lanes := (traffic.lanes.enqueue key).1
    enqueued := traffic.enqueued ++ [(traffic.lanes.enqueue key).2] }

/-- A lane is released or dropped. -/
def Over (traffic : Traffic) (seq : ℕ) : Prop :=
  seq ∈ traffic.released ∨ seq ∈ traffic.closed

/-- Between a lane and a number there is a lane of its key that was dropped before its turn. -/
def Skipped (traffic : Traffic) (earlier : Lane) (before : ℕ) : Prop :=
  ∃ between ∈ traffic.enqueued, between.key = earlier.key ∧ earlier.seq < between.seq ∧
    between.seq < before ∧ between.seq ∈ traffic.closed ∧ between.seq ∉ traffic.turned

/-- Every lane of a key before a number is released or dropped, but for those before a lane that was
dropped while it waited. -/
def Passed (traffic : Traffic) (key : Key) (before : ℕ) : Prop :=
  ∀ earlier ∈ traffic.enqueued, earlier.key = key → earlier.seq < before →
    traffic.Over earlier.seq ∨ traffic.Skipped earlier before

/-- One event after another, as the deliveries may interleave them: a turn resolves at the head of
a lane or once the channel of the lane ahead is closed, a lane is released once and past its turn,
and it is dropped at any time, after its release or without one; a lane that was dropped does
nothing more. -/
inductive Step (traffic : Traffic) : LaneEvent → Traffic → Prop
  /-- The map is locked for each call, so a record is enqueued at any time. -/
  | enqueue (key : Key) : Step traffic (.enqueue key) (traffic.enqueue key)
  /-- The turn of a lane. -/
  | turn (lane : Lane) (hlane : lane ∈ traffic.enqueued) (hopen : lane.seq ∉ traffic.closed)
    (hahead : ∀ ahead, lane.behind = some ahead → ahead ∈ traffic.closed) :
    Step traffic (.turn lane) { traffic with turned := insert lane.seq traffic.turned }
  /-- The release of a lane. -/
  | release (lane : Lane) (hlane : lane ∈ traffic.enqueued) (hturn : lane.seq ∈ traffic.turned)
    (honce : lane.seq ∉ traffic.released) (hopen : lane.seq ∉ traffic.closed) :
    Step traffic (.release lane)
      { traffic with
        lanes := traffic.lanes.release (traffic.held lane)
        released := insert lane.seq traffic.released }
  /-- The drop of a lane, with its delivery: past its release, in a panic or by an abort. -/
  | drop (lane : Lane) (hlane : lane ∈ traffic.enqueued) (hopen : lane.seq ∉ traffic.closed) :
    Step traffic (.drop lane) { traffic with closed := insert lane.seq traffic.closed }

/-! ### The lane last enqueued -/

variable {traffic after : Traffic} {lane earlier : Lane} {key : Key} {event : LaneEvent}

/-- The lane last enqueued for a key is one of the key's lanes. -/
theorem mem_of_last (hlast : traffic.last key = some lane) :
    lane ∈ traffic.enqueued ∧ lane.key = key := by
  have hmem := List.mem_of_getLast? hlast
  simpa [List.mem_filter] using hmem

/-- A key without a last lane has no lane. -/
theorem key_ne_of_last_none (hlast : traffic.last key = none) (hlane : lane ∈ traffic.enqueued) :
    lane.key ≠ key := by
  rw [last, List.getLast?_eq_none_iff, List.filter_eq_nil_iff] at hlast
  simpa using hlast lane hlane

/-- The record just enqueued is the last of its key, and no other key's. -/
theorem last_enqueue (other : Key) :
    (traffic.enqueue key).last other =
      if other = key then some (traffic.lanes.enqueue key).2 else traffic.last other := by
  have hkey : (traffic.lanes.enqueue key).2.key = key := rfl
  by_cases hother : other = key
  · subst hother
    simp [last, enqueue, List.filter_append, hkey]
  · simp [last, enqueue, List.filter_append, hkey, hother, Ne.symm hother]

/-- A held lane is released as the lane that was enqueued: its key and its number stay. -/
theorem release_held (lanes : Lanes) : lanes.release (traffic.held lane) = lanes.release lane := by
  rw [held]
  split <;> rfl

/-! ### What holds between calls -/

/-- What holds of the map and of the lanes it gave out between calls. -/
structure Sound (traffic : Traffic) : Prop where
  /-- Lanes are numbered in the order they were enqueued. -/
  bounded : ∀ lane ∈ traffic.enqueued, lane.seq < traffic.lanes.next
  /-- A number names one lane. -/
  unique : ∀ lane ∈ traffic.enqueued, ∀ other ∈ traffic.enqueued,
    lane.seq = other.seq → lane = other
  /-- Only lanes past their turn were released. -/
  released : traffic.released ⊆ traffic.turned
  /-- Only lanes that were enqueued had a turn. -/
  turned : ∀ seq ∈ traffic.turned, seq < traffic.lanes.next
  /-- A lane past its turn has every earlier lane of its key passed. -/
  settled : ∀ lane ∈ traffic.enqueued, lane.seq ∈ traffic.turned → traffic.Passed lane.key lane.seq
  /-- So does a lane with nothing ahead. -/
  head : ∀ lane ∈ traffic.enqueued, lane.behind = none → traffic.Passed lane.key lane.seq
  /-- A lane with something ahead waits for the last of the earlier lanes of its key. -/
  behind : ∀ lane ∈ traffic.enqueued, ∀ ahead, lane.behind = some ahead →
    ∃ prior ∈ traffic.enqueued, prior.seq = ahead ∧ prior.key = lane.key ∧ prior.seq < lane.seq ∧
      ∀ earlier ∈ traffic.enqueued, earlier.key = lane.key → earlier.seq < lane.seq →
        earlier.seq ≤ ahead
  /-- The lane last enqueued for a key has the greatest number of the key's lanes. -/
  greatest : ∀ key lane, traffic.last key = some lane →
    ∀ other ∈ traffic.enqueued, other.key = key → other.seq ≤ lane.seq
  /-- The map holds the number of the lane last enqueued for a key until it is released. -/
  tails : ∀ key seq, traffic.lanes.tails key = some seq ↔
    ∃ lane, traffic.last key = some lane ∧ lane.seq = seq ∧ lane.seq ∉ traffic.released

/-- What is passed stays so: what is released or dropped stays so, and a lane that was dropped has
no turn. -/
theorem Passed.mono {before : ℕ} (hpassed : traffic.Passed key before)
    (hlanes : ∀ earlier ∈ after.enqueued, earlier.seq < before → earlier ∈ traffic.enqueued)
    (hkept : ∀ earlier ∈ traffic.enqueued, earlier ∈ after.enqueued)
    (hreleased : traffic.released ⊆ after.released) (hclosed : traffic.closed ⊆ after.closed)
    (hturned : ∀ seq ∈ traffic.closed, seq ∉ traffic.turned → seq ∉ after.turned) :
    after.Passed key before := by
  intro earlier hearlier hkey hlt
  rcases hpassed earlier (hlanes earlier hearlier hlt) hkey hlt with (hout | hgone) | hskipped
  · exact .inl (.inl (hreleased hout))
  · exact .inl (.inr (hclosed hgone))
  · obtain ⟨between, hbetween, hsame, hafter, hbefore, hdropped, hwaiting⟩ := hskipped
    exact .inr ⟨between, hkept between hbetween, hsame, hafter, hbefore, hclosed hdropped,
      hturned _ hdropped hwaiting⟩

/-- Where the map has no entry for a key, every lane of the key is passed. -/
theorem Sound.passed_of_tails_none (hsound : traffic.Sound)
    (htails : traffic.lanes.tails key = none) : traffic.Passed key traffic.lanes.next := by
  intro lane hlane hkey _
  cases hlast : traffic.last key with
  | none => exact absurd hkey (key_ne_of_last_none hlast hlane)
  | some final =>
    obtain ⟨hfinal, hfinalKey⟩ := mem_of_last hlast
    have hreleased : final.seq ∈ traffic.released := by
      by_contra hnot
      have hentry := (hsound.tails key final.seq).mpr ⟨final, hlast, rfl, hnot⟩
      simp [htails] at hentry
    rcases (hsound.greatest key final hlast lane hlane hkey).lt_or_eq with hlt | heq
    · refine (hsound.settled final hfinal (hsound.released hreleased) lane hlane
        (hkey.trans hfinalKey.symm) hlt).imp_right ?_
      rintro ⟨between, hbetween, hsame, hafter, hbefore, hdropped⟩
      exact ⟨between, hbetween, hsame, hafter, hbefore.trans (hsound.bounded final hfinal),
        hdropped⟩
    · rw [heq]
      exact .inl (.inl hreleased)

/-- A lane before one that was enqueued earlier was there too when another record joins. -/
theorem Sound.old_of_lt (hsound : traffic.Sound) (hlane : lane ∈ traffic.enqueued)
    (hearlier : earlier ∈ (traffic.enqueue key).enqueued) (hlt : earlier.seq < lane.seq) :
    earlier ∈ traffic.enqueued := by
  rcases List.mem_append.mp hearlier with hold | hnew
  · exact hold
  · obtain rfl := List.mem_singleton.mp hnew
    exact absurd hlt (hsound.bounded lane hlane).not_gt

/-- No lane was given out: nothing to keep. -/
theorem sound_start : start.Sound := by
  constructor <;> simp [start, last, Lanes.default]

/-- Enqueueing keeps it. -/
theorem Sound.enqueue (hsound : traffic.Sound) (key : Key) : (traffic.enqueue key).Sound := by
  have hmem (lane : Lane) : lane ∈ (traffic.enqueue key).enqueued ↔
      lane ∈ traffic.enqueued ∨ lane = ⟨key, traffic.lanes.next, traffic.lanes.tails key⟩ := by
    simp [Traffic.enqueue, Lanes.enqueue]
  have hfresh : traffic.lanes.next ∉ traffic.turned := fun hnext ↦
    (hsound.turned _ hnext).false
  have hgrows {other : Key} {before : ℕ} (hpassed : traffic.Passed other before)
      (hlanes : ∀ earlier ∈ (traffic.enqueue key).enqueued, earlier.seq < before →
        earlier ∈ traffic.enqueued) : (traffic.enqueue key).Passed other before :=
    hpassed.mono hlanes (fun earlier hearlier ↦ (hmem earlier).mpr (.inl hearlier)) subset_rfl
      subset_rfl fun _ _ hwaiting ↦ hwaiting
  refine
    { released := hsound.released
      turned := fun seq hseq ↦ (hsound.turned seq hseq).trans (Nat.lt_succ_self _)
      bounded := ?_, unique := ?_, settled := ?_, head := ?_, behind := ?_, greatest := ?_
      tails := ?_ }
  · intro lane hlane
    rcases (hmem lane).mp hlane with hold | rfl
    · exact (hsound.bounded lane hold).trans (Nat.lt_succ_self _)
    · exact Nat.lt_succ_self _
  · intro lane hlane other hother hseq
    rcases (hmem lane).mp hlane with hold | rfl <;> rcases (hmem other).mp hother with hold' | rfl
    · exact hsound.unique lane hold other hold' hseq
    · exact absurd hseq (hsound.bounded lane hold).ne
    · exact absurd hseq.symm (hsound.bounded other hold').ne
    · rfl
  · intro lane hlane hturned
    rcases (hmem lane).mp hlane with hold | rfl
    · exact hgrows (hsound.settled lane hold hturned) fun earlier hearlier hlt ↦
        hsound.old_of_lt hold hearlier hlt
    · exact absurd hturned hfresh
  · intro lane hlane hbehind
    rcases (hmem lane).mp hlane with hold | rfl
    · exact hgrows (hsound.head lane hold hbehind) fun earlier hearlier hlt ↦
        hsound.old_of_lt hold hearlier hlt
    · refine hgrows (hsound.passed_of_tails_none hbehind) fun earlier hearlier hlt ↦ ?_
      rcases (hmem earlier).mp hearlier with hold | rfl
      · exact hold
      · exact absurd hlt (lt_irrefl _)
  · intro lane hlane ahead hbehind
    rcases (hmem lane).mp hlane with hold | rfl
    · obtain ⟨prior, hprior, hseq, hkey, hless, hmost⟩ := hsound.behind lane hold ahead hbehind
      refine ⟨prior, (hmem prior).mpr (Or.inl hprior), hseq, hkey, hless, ?_⟩
      intro earlier hearlier hearlierKey hlt
      exact hmost earlier (hsound.old_of_lt hold hearlier hlt) hearlierKey hlt
    · obtain ⟨prior, hlast, hseq, -⟩ := (hsound.tails key ahead).mp hbehind
      obtain ⟨hprior, hkey⟩ := mem_of_last hlast
      refine ⟨prior, (hmem prior).mpr (Or.inl hprior), hseq, hkey, hsound.bounded prior hprior, ?_⟩
      intro earlier hearlier hearlierKey hlt
      rcases (hmem earlier).mp hearlier with hold | rfl
      · exact hseq ▸ hsound.greatest key prior hlast earlier hold hearlierKey
      · exact absurd hlt (lt_irrefl _)
  · intro other lane hlast earlier hearlier hkey
    rw [last_enqueue] at hlast
    split at hlast
    · obtain rfl := Option.some.inj hlast
      rcases (hmem earlier).mp hearlier with hold | rfl
      · exact (hsound.bounded earlier hold).le
      · exact le_rfl
    · next hother =>
      rcases (hmem earlier).mp hearlier with hold | rfl
      · exact hsound.greatest other lane hlast earlier hold hkey
      · exact absurd hkey.symm hother
  · intro other seq
    rw [last_enqueue]
    by_cases hother : other = key
    · subst hother
      have hnot : traffic.lanes.next ∉ traffic.released := fun hin ↦
        hfresh (hsound.released hin)
      simp only [Traffic.enqueue, Lanes.enqueue, Function.update_self, Option.some.injEq,
        if_true, exists_eq_left']
      exact ⟨fun heq ↦ ⟨heq, hnot⟩, And.left⟩
    · simp only [Traffic.enqueue, Lanes.enqueue, Function.update_of_ne hother, if_neg hother]
      exact hsound.tails other seq

/-- A turn keeps it: the lane ahead was dropped, past its own turn or while it waited. -/
theorem Sound.turn (hsound : traffic.Sound) (hlane : lane ∈ traffic.enqueued)
    (hopen : lane.seq ∉ traffic.closed)
    (hahead : ∀ ahead, lane.behind = some ahead → ahead ∈ traffic.closed) :
    Sound { traffic with turned := insert lane.seq traffic.turned } := by
  have hsettled : traffic.Passed lane.key lane.seq := by
    intro earlier hearlier hkey hlt
    cases hbehind : lane.behind with
    | none => exact hsound.head lane hlane hbehind earlier hearlier hkey hlt
    | some ahead =>
      obtain ⟨prior, hprior, rfl, hpriorKey, hpriorLt, hmost⟩ :=
        hsound.behind lane hlane ahead hbehind
      have hclosed : prior.seq ∈ traffic.closed := hahead _ hbehind
      rcases (hmost earlier hearlier hkey hlt).lt_or_eq with hbefore | heq
      · by_cases hturned : prior.seq ∈ traffic.turned
        · refine (hsound.settled prior hprior hturned earlier hearlier
            (hkey.trans hpriorKey.symm) hbefore).imp_right ?_
          rintro ⟨between, hbetween, hsame, hafter, hless, hdropped⟩
          exact ⟨between, hbetween, hsame, hafter, hless.trans hpriorLt, hdropped⟩
        · exact .inr ⟨prior, hprior, hpriorKey.trans hkey.symm, hbefore, hpriorLt, hclosed, hturned⟩
      · rw [heq]
        exact .inl (.inr hclosed)
  have hgrows {key : Key} {before : ℕ} (hpassed : traffic.Passed key before) :
      Passed { traffic with turned := insert lane.seq traffic.turned } key before := by
    refine hpassed.mono (fun _ hearlier _ ↦ hearlier) (fun _ hearlier ↦ hearlier) subset_rfl
      subset_rfl fun seq hdropped hwaiting hturned ↦ ?_
    rcases Finset.mem_insert.mp hturned with rfl | hold
    · exact hopen hdropped
    · exact hwaiting hold
  refine
    { hsound with
      released := hsound.released.trans (Finset.subset_insert _ _)
      turned := ?_, settled := ?_
      head := fun other hother hbehind ↦ hgrows (hsound.head other hother hbehind) }
  · intro seq hseq
    rcases Finset.mem_insert.mp hseq with rfl | hold
    · exact hsound.bounded lane hlane
    · exact hsound.turned seq hold
  · intro other hother hturned
    rcases Finset.mem_insert.mp hturned with heq | hold
    · rw [hsound.unique other hother lane hlane heq]
      exact hgrows hsettled
    · exact hgrows (hsound.settled other hother hold)

/-- The entry of a key goes with the release of the lane last enqueued for it, and with no
other. -/
theorem Sound.tails_release (hsound : traffic.Sound) (hlane : lane ∈ traffic.enqueued) (key : Key)
    (seq : ℕ) : (traffic.lanes.release lane).tails key = some seq ↔
      ∃ final, traffic.last key = some final ∧ final.seq = seq ∧
        final.seq ∉ insert lane.seq traffic.released := by
  have hentry := hsound.tails key seq
  simp only [Finset.mem_insert, not_or]
  by_cases htail : traffic.lanes.tails lane.key = some lane.seq
  · obtain ⟨final, hlast, hseq, -⟩ := (hsound.tails _ _).mp htail
    obtain rfl := hsound.unique _ (mem_of_last hlast).1 _ hlane hseq
    by_cases hkey : key = final.key
    · subst hkey
      simp [Lanes.release, htail, hlast]
    · have hother : (traffic.lanes.release final).tails key = traffic.lanes.tails key := by
        rw [Lanes.release, if_pos htail]
        exact Function.update_of_ne hkey _ _
      rw [hother, hentry]
      refine exists_congr fun other ↦ and_congr_right fun hother ↦ and_congr_right fun _ ↦ ?_
      have hne : other.seq ≠ final.seq := fun heq ↦ by
        obtain ⟨hmem, rfl⟩ := mem_of_last hother
        exact hkey (congrArg Lane.key (hsound.unique other hmem final hlane heq))
      simp [hne]
  · rw [Lanes.release, if_neg htail, hentry]
    refine exists_congr fun other ↦ and_congr_right fun hother ↦ and_congr_right fun _ ↦ ?_
    -- a lane that is the last of its key and not released is in the map
    have hne (hnot : other.seq ∉ traffic.released) : other.seq ≠ lane.seq := fun heq ↦ by
      obtain ⟨hmem, rfl⟩ := mem_of_last hother
      obtain rfl := hsound.unique other hmem lane hlane heq
      exact htail ((hsound.tails _ _).mpr ⟨other, hother, rfl, hnot⟩)
    exact ⟨fun hnot ↦ ⟨hne hnot, hnot⟩, And.right⟩

/-- A release keeps it: the entry goes with the lane last enqueued, and with no other. -/
theorem Sound.release (hsound : traffic.Sound) (hlane : lane ∈ traffic.enqueued)
    (hturn : lane.seq ∈ traffic.turned) :
    Sound { traffic with
      lanes := traffic.lanes.release lane
      released := insert lane.seq traffic.released } := by
  have hnext : (traffic.lanes.release lane).next = traffic.lanes.next := by
    rw [Lanes.release]
    split <;> rfl
  have hgrows {key : Key} {before : ℕ} (hpassed : traffic.Passed key before) :
      Passed { traffic with
        lanes := traffic.lanes.release lane
        released := insert lane.seq traffic.released } key before :=
    hpassed.mono (fun _ hearlier _ ↦ hearlier) (fun _ hearlier ↦ hearlier)
      (Finset.subset_insert _ _) subset_rfl fun _ _ hwaiting ↦ hwaiting
  exact
    { bounded := fun other hother ↦ hnext ▸ hsound.bounded other hother
      unique := hsound.unique
      released := Finset.insert_subset hturn hsound.released
      turned := fun seq hseq ↦ hnext ▸ hsound.turned seq hseq
      settled := fun other hother hturned ↦ hgrows (hsound.settled other hother hturned)
      head := fun other hother hbehind ↦ hgrows (hsound.head other hother hbehind)
      behind := hsound.behind
      greatest := hsound.greatest
      tails := hsound.tails_release hlane }

/-- A drop keeps it, with or without a release. -/
theorem Sound.drop (hsound : traffic.Sound) (seq : ℕ) :
    Sound { traffic with closed := insert seq traffic.closed } := by
  have hgrows {key : Key} {before : ℕ} (hpassed : traffic.Passed key before) :
      Passed { traffic with closed := insert seq traffic.closed } key before :=
    hpassed.mono (fun _ hearlier _ ↦ hearlier) (fun _ hearlier ↦ hearlier) subset_rfl
      (Finset.subset_insert _ _) fun _ _ hwaiting ↦ hwaiting
  exact
    { hsound with
      settled := fun other hother hturned ↦ hgrows (hsound.settled other hother hturned)
      head := fun other hother hbehind ↦ hgrows (hsound.head other hother hbehind) }

/-- Every step keeps it. -/
theorem Sound.step (hsound : traffic.Sound) (hstep : Step traffic event after) : after.Sound := by
  cases hstep with
  | enqueue key => exact hsound.enqueue key
  | turn lane hlane hopen hahead => exact hsound.turn hlane hopen hahead
  | release lane hlane hturn honce hopen =>
    rw [release_held]
    exact hsound.release hlane hturn
  | drop lane hlane hopen => exact hsound.drop lane.seq

/-- It holds after every run. -/
theorem sound_of_run {events : List LaneEvent} (hrun : Run Step start events traffic) :
    traffic.Sound :=
  hrun.invariant Sound (fun hsound hstep ↦ hsound.step hstep) sound_start

/-! ### The busy keys -/

/-- Whatever order the deliveries take their lanes, their turns, their releases and their drops in:
the map has an entry for a key exactly while the lane last enqueued for it is not released, and the
entry is that lane's number; a record is put at the head of its lane only where every earlier lane
of its key was released or dropped, those before a lane aside that was dropped while it waited, and
so it is for a lane that reports itself at the head later, past its turn; and once every lane is
released the map is empty. -/
theorem busy_keys {events : List LaneEvent} (hrun : Run Step start events traffic) :
    (∀ key, (traffic.lanes.tails key).isSome ↔
      ∃ lane, traffic.last key = some lane ∧ lane.seq ∉ traffic.released) ∧
    (∀ key seq, traffic.lanes.tails key = some seq →
      ∃ lane, traffic.last key = some lane ∧ lane.seq = seq) ∧
    (∀ key, (traffic.lanes.enqueue key).2.isHead →
      traffic.Passed key (traffic.lanes.enqueue key).2.seq) ∧
    (∀ lane ∈ traffic.enqueued, (traffic.held lane).isHead → traffic.Passed lane.key lane.seq) ∧
    ((∀ lane ∈ traffic.enqueued, lane.seq ∈ traffic.released) →
      ∀ key, traffic.lanes.tails key = none) := by
  have hsound := sound_of_run hrun
  have hbusy (key : Key) : (traffic.lanes.tails key).isSome ↔
      ∃ lane, traffic.last key = some lane ∧ lane.seq ∉ traffic.released := by
    simp only [Option.isSome_iff_exists, hsound.tails]
    constructor
    · rintro ⟨-, lane, hlast, -, hnot⟩
      exact ⟨lane, hlast, hnot⟩
    · rintro ⟨lane, hlast, hnot⟩
      exact ⟨lane.seq, lane, hlast, rfl, hnot⟩
  refine ⟨hbusy, ?_, ?_, ?_, ?_⟩
  · intro key seq htails
    obtain ⟨lane, hlast, hseq, -⟩ := (hsound.tails key seq).mp htails
    exact ⟨lane, hlast, hseq⟩
  · intro key hhead
    have htails : traffic.lanes.tails key = none := by
      simpa [Lane.isHead, Lanes.enqueue] using hhead
    exact hsound.passed_of_tails_none htails
  · intro lane hlane hhead
    rw [held] at hhead
    split at hhead
    · next hturned => exact hsound.settled lane hlane hturned
    · exact hsound.head lane hlane (by simpa [Lane.isHead] using hhead)
  · intro hall key
    rw [← Option.not_isSome_iff_eq_none, hbusy]
    rintro ⟨lane, hlast, hnot⟩
    exact hnot (hall lane (mem_of_last hlast).1)

/-- Two records of one key: the handler of the first panics, and the second, which waited for it, is
done. -/
def panicked : List LaneEvent :=
  [.enqueue [7], .enqueue [7], .turn ⟨[7], 0, none⟩, .drop ⟨[7], 0, none⟩,
    .turn ⟨[7], 1, some 0⟩, .release ⟨[7], 1, some 0⟩]

/-- The traffic after that. -/
def afterPanic : Traffic :=
  ⟨((((Lanes.default.enqueue [7]).1.enqueue [7]).1).release ⟨[7], 1, none⟩),
    [⟨[7], 0, none⟩, ⟨[7], 1, some 0⟩], {1, 0}, {1}, {0}⟩

theorem run_panicked : Run Step start panicked afterPanic := by
  have hqueued := ((@Run.nil _ _ Step start).snoc (.enqueue [7])).snoc (.enqueue [7])
  have hfirst := (hqueued.snoc (.turn ⟨[7], 0, none⟩ (by decide) (by decide) (by simp))).snoc
    (.drop ⟨[7], 0, none⟩ (by decide) (by decide))
  exact (hfirst.snoc (.turn ⟨[7], 1, some 0⟩ (by decide) (by decide) (by decide))).snoc
    (.release ⟨[7], 1, some 0⟩ (by decide) (by decide) (by decide) (by decide))

/-- The key is forgotten with the second record. -/
theorem busy_keys_panicked :
    (afterPanic.lanes.enqueue [7]).2.isHead = true ∧
      afterPanic.Passed [7] (afterPanic.lanes.enqueue [7]).2.seq :=
  ⟨by decide, (busy_keys run_panicked).2.2.1 [7] (by decide)⟩

/-- A record is put at the head of its lane beside one of its key that was never released. -/
theorem head_beside_unreleased :
    ¬ ∀ (events : List LaneEvent) (traffic : Traffic), Run Step start events traffic →
      ∀ key, (traffic.lanes.enqueue key).2.isHead = true →
        ∀ earlier ∈ traffic.enqueued, earlier.key = key → earlier.seq ∈ traffic.released := by
  intro hclaim
  have hreleased := hclaim panicked afterPanic run_panicked [7] (by decide) ⟨[7], 0, none⟩
    (by decide) rfl
  exact absurd hreleased (by decide)

end Traffic

end OmniaBackends.Kafka
