import Mathlib.Data.List.Nodup

/-!
# Fair counting semaphores

A semaphore with a count of free permits and a queue of waiters. A waiter joins the queue at its
end and may take a permit once there are more free permits than waiters before it: the permits go
to the waiters in the order in which they came, whichever of those that may go resumes first. A
waiter that gives up leaves the queue.
-/

set_option autoImplicit false
set_option relaxedAutoImplicit false

namespace OmniaBackends.Foundation

/-- A fair counting semaphore. -/
structure FairSemaphore (Waiter : Type*) where
  /-- The permits that nobody holds. -/
  permits : ℕ
  /-- The waiters, the one that came first in front. -/
  waiters : List Waiter

namespace FairSemaphore

variable {Waiter : Type*} {semaphore : FairSemaphore Waiter}
variable {waiter other : Waiter}

/-- A semaphore with all its permits free. -/
def new (permits : ℕ) : FairSemaphore Waiter :=
  ⟨permits, []⟩

/-- A waiter joins the queue. -/
def join (semaphore : FairSemaphore Waiter) (waiter : Waiter) : FairSemaphore Waiter :=
  { semaphore with waiters := semaphore.waiters ++ [waiter] }

/-- A waiter that joins waits behind the others, once where it did not wait before. -/
theorem nodup_join (hnodup : semaphore.waiters.Nodup) (hout : waiter ∉ semaphore.waiters) :
    (semaphore.join waiter).waiters.Nodup :=
  List.nodup_append_comm.mp (List.nodup_cons.mpr ⟨hout, hnodup⟩)

/-- Who waits once a waiter has joined. -/
theorem mem_join : other ∈ (semaphore.join waiter).waiters ↔
    other ∈ semaphore.waiters ∨ other = waiter := by
  simp [join]

variable [DecidableEq Waiter]

/-- Whether there is a permit for a waiter once those before it have theirs. -/
def mayTake (semaphore : FairSemaphore Waiter) (waiter : Waiter) : Bool :=
  decide (waiter ∈ semaphore.waiters.take semaphore.permits)

/-- A waiter takes its permit. -/
def take (semaphore : FairSemaphore Waiter) (waiter : Waiter) : FairSemaphore Waiter :=
  ⟨semaphore.permits - 1, semaphore.waiters.erase waiter⟩

/-- A permit is given back. -/
def release (semaphore : FairSemaphore Waiter) : FairSemaphore Waiter :=
  { semaphore with permits := semaphore.permits + 1 }

/-- A waiter gives up. -/
def leave (semaphore : FairSemaphore Waiter) (waiter : Waiter) : FairSemaphore Waiter :=
  { semaphore with waiters := semaphore.waiters.erase waiter }

/-- Nobody waits twice once a waiter has left. -/
theorem nodup_leave (hnodup : semaphore.waiters.Nodup) : (semaphore.leave waiter).waiters.Nodup :=
  hnodup.erase _

/-- Who waits once a waiter has left. -/
theorem mem_leave (hnodup : semaphore.waiters.Nodup) :
    other ∈ (semaphore.leave waiter).waiters ↔ other ≠ waiter ∧ other ∈ semaphore.waiters :=
  hnodup.mem_erase_iff

/-- A waiter that takes its permit leaves the queue. -/
theorem waiters_take : (semaphore.take waiter).waiters = (semaphore.leave waiter).waiters := by
  rfl

/-- Who may take a permit waits, and there is a permit. -/
theorem of_mayTake (hmay : semaphore.mayTake waiter = true) :
    waiter ∈ semaphore.waiters ∧ 0 < semaphore.permits := by
  have hmem := of_decide_eq_true hmay
  refine ⟨List.mem_of_mem_take hmem, Nat.pos_of_ne_zero fun hzero ↦ ?_⟩
  rw [hzero, List.take_zero] at hmem
  exact List.not_mem_nil hmem

/-- With two permits free, one waiter that is not `other` may take one when any such waiter
waits. -/
theorem exists_mayTake (hnodup : semaphore.waiters.Nodup) (hpermits : 2 ≤ semaphore.permits)
    (hwaits : waiter ∈ semaphore.waiters) (hne : waiter ≠ other) :
    ∃ first ≠ other, semaphore.mayTake first = true := by
  obtain ⟨permits, waiters⟩ := semaphore
  obtain ⟨more, rfl⟩ := Nat.exists_eq_add_of_le' hpermits
  simp only [mayTake, decide_eq_true_eq] at *
  match waiters with
  | [] => exact absurd hwaits List.not_mem_nil
  | [only] =>
    have honly : waiter = only := List.mem_singleton.mp hwaits
    exact ⟨waiter, hne, by simp [honly]⟩
  | front :: second :: rest =>
    by_cases hfront : front = other
    · have hsecond : second ≠ other := by
        rintro rfl
        simp [hfront] at hnodup
      exact ⟨second, hsecond, by simp⟩
    · exact ⟨front, hfront, by simp⟩

end FairSemaphore

end OmniaBackends.Foundation
