import OmniaBackends.Filesystem.Cell
import OmniaBackends.Filesystem.MapRefinement
import OmniaBackends.Foundation.Indexed

/-!
# The locks of keys

`LockRegistry`, `open_bucket` and `key_lock` of `crates/filesystem/src/keyvalue.rs`, with the calls
that take their locks there. A call on a key has its lock from the moment it is made and runs later
on another thread, or never; a listing takes the locks of its candidates one after the other. The
registry has a weak reference to each lock, and is swept of those that no call holds.

The calls of one client run in any order, a file step at a time, and a step may fail for whatever
reason. What a listing finds in the directories is left open: other calls change them meanwhile. The
result is `serialised`: the calls on one key run one after the other, each from the files that the
one before has left, and wait for nothing else.
-/

set_option autoImplicit false
set_option relaxedAutoImplicit false

namespace OmniaBackends.Filesystem

open Foundation KeyValue

/-- What is done under a lock. -/
inductive Job where
  | act (action : Action) (now : ℕ)
  /-- A candidate of a listing is looked at. -/
  | candidate (now : ℕ)
  deriving DecidableEq

/-- The file steps of a job. -/
def Job.operation (key : Bytes) : Job → Operation Result
  | .act action now => do
    let path ← Script.ofResult (keyPath key)
    onPath path now action
  | .candidate now => do
    let live ← liveKey key now
    pure (.present live)

/-- The turn of a call at a key, with the reference to the lock that it holds. A listing has the
keys that it found live so far and the candidates that are left. -/
structure Turn where
  key : Bytes
  lock : ℕ
  job : Job
  listing : Option (List Bytes × List Bytes)

/-- Where a call is. -/
inductive Stage where
  /-- It has not run yet, or waits in `lock`. -/
  | waiting (turn : Turn)
  /-- It has the guard, since the files were as they `began`, and these steps left. -/
  | running (turn : Turn) (began : Cell) (rest : Operation Result)
  /-- A listing between two turns; the candidates are `none` before `collect`. -/
  | listing (live : List Bytes) (left : Option (List Bytes))
  | ended

/-- The turn of a call, while it has one. -/
def Stage.turn : Stage → Option Turn
  | .waiting turn | .running turn _ _ => some turn
  | .listing _ _ | .ended => none

/-- The turn of a call that has the guard. -/
def Stage.guarded : Stage → Option Turn
  | .running turn _ _ => some turn
  | _ => none

/-- A call through a bucket handle. -/
structure Call where
  identifier : Bytes
  /-- The `KeyLocks` of the handle. -/
  locks : ℕ
  stage : Stage

/-- A job that was done: the files of its key when it got the guard and when it gave it back. -/
structure Entry where
  identifier : Bytes
  key : Bytes
  job : Job
  began : Cell
  result : Except Fault Result
  ended : Cell

/-- A client with its registry, handles, calls and files, and the jobs done so far. The `KeyLocks`
and the locks have numbers. -/
structure System where
  buckets : Bytes → Option ℕ
  locks : ℕ → Bytes → Option ℕ
  handles : List (Bytes × ℕ)
  calls : List Call
  fresh : ℕ
  files : Bytes → Files
  log : List Entry

/-- A client that has opened no bucket. -/
def System.start (files : Bytes → Files) : System where
  buckets _ := none
  locks _ _ := none
  handles := []
  calls := []
  fresh := 0
  files := files
  log := []

namespace System

/-- Whether a lock has a strong reference: `Weak::upgrade` goes through. -/
def alive (system : System) (lock : ℕ) : Bool :=
  system.calls.any fun call ↦ call.stage.turn.any fun turn ↦ turn.lock = lock

/-- Whether a call has the guard of a lock. -/
def taken (system : System) (lock : ℕ) : Bool :=
  system.calls.any fun call ↦ call.stage.guarded.any fun turn ↦ turn.lock = lock

/-- `key_lock`. -/
def keyLock (system : System) (locks : ℕ) (key : Bytes) : ℕ × System :=
  match (system.locks locks key).filter system.alive with
  | some lock => (lock, system)
  | none =>
    (system.fresh, { system with
      locks := Function.update system.locks locks fun other ↦
        if other = key then some system.fresh else (system.locks locks other).filter system.alive
      fresh := system.fresh + 1 })

/-- The system with a call at another stage. -/
def withStage (system : System) (index : ℕ) (call : Call) (stage : Stage) : System :=
  { system with calls := system.calls.set index { call with stage := stage } }

end System

/-- What happens in a client. -/
inductive Event where
  | openBucket (identifier : Bytes)
  /-- An operation on a key through a handle. -/
  | call (handle : ℕ) (key : Bytes) (action : Action) (now : ℕ)
  /-- `keys` through a handle. -/
  | list (handle : ℕ)
  /-- What a listing has collected, or that it could not. -/
  | collected (index : ℕ) (found : Option (List Bytes))
  /-- A listing takes the lock of its next candidate, or has none left. -/
  | candidate (index : ℕ) (now : ℕ)
  /-- A call gets its guard. -/
  | guard (index : ℕ)
  /-- A call takes a file step, which may fail. -/
  | step (index : ℕ) (fails : Bool)
  /-- A call has its result and gives its guard and its lock back. -/
  | finish (index : ℕ)
  /-- A call is dropped before it ran. -/
  | abandon (index : ℕ)

/-- A listing after a turn. -/
def Turn.next (turn : Turn) (result : Except Fault Result) : Stage :=
  match turn.listing, result with
  | none, _ => .ended
  | some (live, left), .ok (.present true) => .listing (live ++ [turn.key]) (some left)
  | some (live, left), .ok _ => .listing live (some left)
  | some _, .error _ => .ended

/-- The files of a key of a bucket. -/
def cellOf (files : Files) (key : Bytes) : Cell :=
  match keyPath key with
  | .ok path => files.cell path
  | .error _ => ⟨none, none⟩

/-- A client after an event, where it can happen. -/
def System.next (system : System) : Event → Option System
  | .openBucket identifier =>
    match system.buckets identifier with
    | some locks => some { system with handles := system.handles ++ [(identifier, locks)] }
    | none =>
      some { system with
        buckets := Function.update system.buckets identifier (some system.fresh)
        handles := system.handles ++ [(identifier, system.fresh)]
        fresh := system.fresh + 1 }
  | .call handle key action now =>
    (system.handles[handle]?).map fun (identifier, locks) ↦
      let (lock, system) := system.keyLock locks key
      { system with
        calls := system.calls ++
          [⟨identifier, locks, .waiting ⟨key, lock, .act action now, none⟩⟩] }
  | .list handle =>
    (system.handles[handle]?).map fun (identifier, locks) ↦
      { system with calls := system.calls ++ [⟨identifier, locks, .listing [] none⟩] }
  | .collected index found =>
    (system.calls[index]?).bind fun call ↦
      match call.stage with
      | .listing live none =>
        some (system.withStage index call
          (found.elim .ended fun names ↦ .listing live (some names)))
      | _ => none
  | .candidate index now =>
    (system.calls[index]?).bind fun call ↦
      match call.stage with
      | .listing live (some (key :: left)) =>
        let (lock, system) := system.keyLock call.locks key
        some (system.withStage index call (.waiting ⟨key, lock, .candidate now, some (live, left)⟩))
      | .listing _ (some []) => some (system.withStage index call .ended)
      | _ => none
  | .guard index =>
    (system.calls[index]?).bind fun call ↦
      match call.stage with
      | .waiting turn =>
        if system.taken turn.lock then none
        else
          some (system.withStage index call
            (.running turn (cellOf (system.files call.identifier) turn.key)
            (turn.job.operation turn.key)))
      | _ => none
  | .step index fails =>
    (system.calls[index]?).bind fun call ↦
      match call.stage with
      | .running turn began (.ask request rest) =>
        if fails then some (system.withStage index call (.running turn began (rest (.error .step))))
        else
          let (response, files) := Files.handle request (system.files call.identifier)
          some { system.withStage index call (.running turn began (rest response)) with
            files := Function.update system.files call.identifier files }
      | _ => none
  | .finish index =>
    (system.calls[index]?).bind fun call ↦
      match call.stage with
      | .running turn began (.done result) =>
        some { system.withStage index call (turn.next result) with
          log := system.log ++ [⟨call.identifier, turn.key, turn.job, began, result,
            cellOf (system.files call.identifier) turn.key⟩] }
      | _ => none
  | .abandon index =>
    (system.calls[index]?).bind fun call ↦
      match call.stage with
      | .waiting ⟨_, _, _, none⟩ | .listing _ none => some (system.withStage index call .ended)
      | _ => none

variable {system after : System} {call other : Call} {turn turn' : Turn} {index place : ℕ}
variable {stage : Stage} {key : Bytes} {began : Cell} {rest : Operation Result}

/-! ### The registry -/

/-- Who holds what: every handle and call has the `KeyLocks` of its bucket, and every call with a
turn the lock that is registered for its key. No lock is registered for two keys. -/
structure System.Registered (system : System) : Prop where
  handles : ∀ handle ∈ system.handles, system.buckets handle.1 = some handle.2
  calls : ∀ (index : ℕ) (call : Call), system.calls[index]? = some call →
    system.buckets call.identifier = some call.locks
  buckets : ∀ first second locks, system.buckets first = some locks →
    system.buckets second = some locks → first = second
  bucketsFresh : ∀ identifier locks, system.buckets identifier = some locks → locks < system.fresh
  turns : ∀ (index : ℕ) (call : Call) (turn : Turn), system.calls[index]? = some call →
    call.stage.turn = some turn →
    system.locks call.locks turn.key = some turn.lock
  locks : ∀ first second key key' lock, system.locks first key = some lock →
    system.locks second key' = some lock → first = second ∧ key = key'
  locksFresh : ∀ locks key lock, system.locks locks key = some lock → lock < system.fresh

namespace System.Registered

theorem alive_of_turn (hcall : system.calls[index]? = some call)
    (hturn : call.stage.turn = some turn) : system.alive turn.lock = true := by
  refine List.any_eq_true.mpr ⟨call, List.mem_of_getElem? hcall, ?_⟩
  rw [hturn]
  simp

/-- A lock that is found or made is registered, and no call loses its own. -/
theorem keyLock (hreg : system.Registered) (locks : ℕ) (key : Bytes) :
    (system.keyLock locks key).2.Registered ∧
      (system.keyLock locks key).2.locks locks key = some (system.keyLock locks key).1 := by
  unfold System.keyLock
  cases hfound : (system.locks locks key).filter system.alive with
  | some lock => exact ⟨hreg, (Option.filter_eq_some_iff.mp hfound).1⟩
  | none =>
    dsimp only
    refine ⟨?_, by simp⟩
    have hold {first : ℕ} {key' : Bytes} {lock : ℕ}
        (hlock : Function.update system.locks locks (fun other ↦
          if other = key then some system.fresh
          else (system.locks locks other).filter system.alive) first key' = some lock) :
        (first = locks ∧ key' = key ∧ lock = system.fresh) ∨
          (system.locks first key' = some lock) := by
      by_cases hfirst : first = locks
      · subst hfirst
        rw [Function.update_self] at hlock
        split_ifs at hlock with hkey
        · exact Or.inl ⟨rfl, hkey, (Option.some.inj hlock).symm⟩
        · exact Or.inr (Option.filter_eq_some_iff.mp hlock).1
      · rw [Function.update_of_ne hfirst] at hlock
        exact Or.inr hlock
    constructor
    case handles => exact hreg.handles
    case calls => exact hreg.calls
    case buckets => exact hreg.buckets
    case bucketsFresh =>
      exact fun identifier locks hlocks ↦ Nat.lt_succ_of_lt (hreg.bucketsFresh _ _ hlocks)
    case turns =>
      intro index call turn hcall hturn
      have hlock := hreg.turns index call turn hcall hturn
      have halive : system.alive turn.lock = true := alive_of_turn hcall hturn
      dsimp only
      by_cases hlocks : call.locks = locks
      · subst hlocks
        rw [Function.update_self]
        split_ifs with hkey
        · rw [hkey] at hlock
          rw [hlock, Option.filter_some_pos halive] at hfound
          cases hfound
        · rw [hlock, Option.filter_some_pos halive]
      · rwa [Function.update_of_ne hlocks]
    case locks =>
      intro first second key' key'' lock hfirst hsecond
      rcases hold hfirst with ⟨rfl, rfl, rfl⟩ | hfirst'
      · rcases hold hsecond with ⟨rfl, rfl, -⟩ | hsecond'
        · exact ⟨rfl, rfl⟩
        · exact absurd (hreg.locksFresh _ _ _ hsecond') (Nat.lt_irrefl _)
      · rcases hold hsecond with ⟨rfl, rfl, rfl⟩ | hsecond'
        · exact absurd (hreg.locksFresh _ _ _ hfirst') (Nat.lt_irrefl _)
        · exact hreg.locks _ _ _ _ _ hfirst' hsecond'
    case locksFresh =>
      intro first key' lock hlock
      rcases hold hlock with ⟨-, -, rfl⟩ | hlock'
      · exact Nat.lt_succ_self _
      · exact Nat.lt_succ_of_lt (hreg.locksFresh _ _ _ hlock')

/-- A call arrives. -/
theorem arrive (hreg : system.Registered)
    (hcall : system.buckets call.identifier = some call.locks)
    (hturn : ∀ turn, call.stage.turn = some turn →
      system.locks call.locks turn.key = some turn.lock) :
    { system with calls := system.calls ++ [call] }.Registered := by
  refine { hreg with calls := ?_, turns := ?_ }
  · intro index other hother
    rcases getElem?_arrival.mp hother with hold | ⟨-, rfl⟩
    · exact hreg.calls index other hold
    · exact hcall
  · intro index other turn hother hstage
    rcases getElem?_arrival.mp hother with hold | ⟨-, rfl⟩
    · exact hreg.turns index other turn hold hstage
    · exact hturn turn hstage

/-- A call comes to another stage. -/
theorem move (hreg : system.Registered) (hcall : system.calls[place]? = some call)
    (hturn : ∀ turn, stage.turn = some turn →
      system.locks call.locks turn.key = some turn.lock) :
    (system.withStage place call stage).Registered := by
  refine { hreg with calls := ?_, turns := ?_ }
  · intro index other hother
    rcases (getElem?_move hcall).mp hother with ⟨-, rfl⟩ | ⟨-, hold⟩
    · exact hreg.calls place call hcall
    · exact hreg.calls index other hold
  · intro index other turn hother hstage
    rcases (getElem?_move hcall).mp hother with ⟨-, rfl⟩ | ⟨-, hold⟩
    · exact hturn turn hstage
    · exact hreg.turns index other turn hold hstage

/-- A lock is of one key of one bucket. -/
theorem key_eq (hreg : system.Registered) (hcall : system.calls[index]? = some call)
    (hturn : call.stage.turn = some turn) (hother : system.calls[place]? = some other)
    (hturn' : other.stage.turn = some turn') (hlock : turn.lock = turn'.lock) :
    call.identifier = other.identifier ∧ turn.key = turn'.key := by
  have hfirst := hreg.turns index call turn hcall hturn
  have hsecond := hreg.turns place other turn' hother hturn'
  rw [hlock] at hfirst
  obtain ⟨hlocks, hkey⟩ := hreg.locks _ _ _ _ _ hfirst hsecond
  have hbucket := hreg.calls index call hcall
  rw [hlocks] at hbucket
  exact ⟨hreg.buckets _ _ _ hbucket (hreg.calls place other hother), hkey⟩

/-- A key of a bucket has one lock, as long as a call holds it. -/
theorem lock_eq (hreg : system.Registered) (hcall : system.calls[index]? = some call)
    (hturn : call.stage.turn = some turn) (hother : system.calls[place]? = some other)
    (hturn' : other.stage.turn = some turn') (hidentifier : call.identifier = other.identifier)
    (hkey : turn.key = turn'.key) : turn.lock = turn'.lock := by
  have hbucket := hreg.calls index call hcall
  rw [hidentifier, hreg.calls place other hother, Option.some_inj] at hbucket
  have hfirst := hreg.turns index call turn hcall hturn
  rw [← hbucket, hkey, hreg.turns place other turn' hother hturn', Option.some_inj] at hfirst
  exact hfirst.symm

end System.Registered

/-! ### The guards -/

/-- No two calls have the guard of one lock. -/
def Exclusive (calls : List Call) : Prop :=
  ∀ (first second : ℕ) (call other : Call) (turn turn' : Turn), calls[first]? = some call →
    calls[second]? = some other → call.stage.guarded = some turn →
    other.stage.guarded = some turn' → turn.lock = turn'.lock → first = second

theorem Stage.turn_of_guarded (hguarded : stage.guarded = some turn) : stage.turn = some turn := by
  cases stage with
  | running => exact hguarded
  | waiting | listing | ended => cases hguarded

theorem Stage.running_of_guarded (hguarded : stage.guarded = some turn) :
    ∃ began rest, stage = .running turn began rest := by
  cases stage with
  | running _ began rest =>
    obtain rfl := Option.some.inj hguarded
    exact ⟨began, rest, rfl⟩
  | waiting | listing | ended => cases hguarded

variable {calls : List Call}

/-- A call arrives without a guard. -/
theorem Exclusive.arrive (hexclusive : Exclusive calls) (hcall : call.stage.guarded = none) :
    Exclusive (calls ++ [call]) := by
  intro first second one two turn turn' hone htwo hturn hturn' hlock
  rcases getElem?_arrival.mp hone with hone | ⟨-, rfl⟩
  · rcases getElem?_arrival.mp htwo with htwo | ⟨-, rfl⟩
    · exact hexclusive first second one two turn turn' hone htwo hturn hturn' hlock
    · rw [hcall] at hturn'
      cases hturn'
  · rw [hcall] at hturn
    cases hturn

/-- A call that moves has no other guard than before, or one that nobody has. -/
theorem Exclusive.move (hexclusive : Exclusive calls) (hcall : calls[place]? = some call)
    (hstage : ∀ turn, stage.guarded = some turn → call.stage.guarded = some turn ∨
      ∀ (index : ℕ) (other : Call) (turn' : Turn), calls[index]? = some other →
        other.stage.guarded = some turn' → turn'.lock ≠ turn.lock) :
    Exclusive (calls.set place { call with stage := stage }) := by
  intro first second one two turn turn' hone htwo hturn hturn' hlock
  rcases (getElem?_move hcall).mp hone with ⟨rfl, rfl⟩ | ⟨-, hone'⟩
  · rcases (getElem?_move hcall).mp htwo with ⟨rfl, rfl⟩ | ⟨-, htwo⟩
    · rfl
    · rcases hstage turn hturn with hold | hfree
      · exact hexclusive first second call two turn turn' hcall htwo hold hturn' hlock
      · exact absurd hlock.symm (hfree second two turn' htwo hturn')
  · rcases (getElem?_move hcall).mp htwo with ⟨rfl, rfl⟩ | ⟨-, htwo'⟩
    · rcases hstage turn' hturn' with hold | hfree
      · exact hexclusive first second one call turn turn' hone' hcall hturn hold hlock
      · exact absurd hlock (hfree first one turn hone' hturn)
    · exact hexclusive first second one two turn turn' hone' htwo' hturn hturn' hlock

/-! ### What was done -/

/-- Jobs done one after the other, each from the files that the one before has left. -/
def Linked : Cell → List Entry → Cell → Prop
  | before, [], after => after = before
  | before, entry :: entries, after => entry.began = before ∧ Linked entry.ended entries after

theorem Linked.concat {before middle : Cell} {entries : List Entry} {entry : Entry}
    (hlinked : Linked before entries middle) (hbegan : entry.began = middle) :
    Linked before (entries ++ [entry]) entry.ended := by
  induction entries generalizing before with
  | nil => exact ⟨hbegan.trans hlinked, rfl⟩
  | cons first entries ih => exact ⟨hlinked.1, ih hlinked.2⟩

/-- The jobs done on a key of a bucket. -/
def doneOn (log : List Entry) (identifier key : Bytes) : List Entry :=
  log.filter fun entry ↦ entry.identifier = identifier ∧ entry.key = key

/-- The files of a key are as the jobs done on it have left them, and a call that has the guard
began from there. -/
structure Accounted (start : Bytes → Files) (calls : List Call) (files : Bytes → Files)
    (log : List Entry) : Prop where
  running : ∀ (index : ℕ) (call : Call) (turn : Turn) (began : Cell) (rest : Operation Result),
    calls[index]? = some call → call.stage = .running turn began rest →
      Linked (cellOf (start call.identifier) turn.key) (doneOn log call.identifier turn.key) began ∧
      (∀ result after,
        Script.Ends Cell.Answers rest (cellOf (files call.identifier) turn.key) result after →
        Script.Ends Cell.Answers (turn.job.operation turn.key) began result after) ∧
      Script.Within (Request.OwnKey turn.key) rest
  idle : ∀ identifier key, (∀ (index : ℕ) (call : Call) (turn : Turn), calls[index]? = some call →
      call.stage.guarded = some turn → ¬ (call.identifier = identifier ∧ turn.key = key)) →
    Linked (cellOf (start identifier) key) (doneOn log identifier key)
      (cellOf (files identifier) key)
  entries : ∀ entry ∈ log,
    Script.Ends Cell.Answers (entry.job.operation entry.key) entry.began entry.result entry.ended

variable {start files : Bytes → Files} {log : List Entry}

/-- A call without the guard arrives. -/
theorem Accounted.arrive (hacc : Accounted start calls files log)
    (hcall : call.stage.guarded = none) : Accounted start (calls ++ [call]) files log where
  running index other turn began rest hother hstage := by
    rcases getElem?_arrival.mp hother with hold | ⟨-, rfl⟩
    · exact hacc.running index other turn began rest hold hstage
    · rw [hstage] at hcall
      cases hcall
  idle identifier key hidle :=
    hacc.idle identifier key fun index other turn hother ↦
      hidle index other turn (getElem?_append_of_some hother call)
  entries := hacc.entries

/-- A call without the guard moves and has none. -/
theorem Accounted.move (hacc : Accounted start calls files log) (hcall : calls[place]? = some call)
    (hbefore : call.stage.guarded = none) (hstage : stage.guarded = none) :
    Accounted start (calls.set place { call with stage := stage }) files log where
  running index other turn began rest hother hrunning := by
    rcases (getElem?_move hcall).mp hother with ⟨-, rfl⟩ | ⟨-, hold⟩
    · rw [show stage = .running turn began rest from hrunning] at hstage
      cases hstage
    · exact hacc.running index other turn began rest hold hrunning
  idle identifier key hidle :=
    hacc.idle identifier key fun index other turn hother hguarded ↦ by
      refine hidle index other turn ((getElem?_move hcall).mpr (Or.inr ⟨?_, hother⟩)) hguarded
      rintro rfl
      rw [hcall, Option.some_inj] at hother
      rw [← hother, hbefore] at hguarded
      cases hguarded
  entries := hacc.entries

theorem within_operation (key : Bytes) (job : Job) :
    Script.Within (Request.OwnKey key) (job.operation key) := by
  cases job with
  | act action now => exact own_ofKey fun path ↦ own_onPath now action
  | candidate now => exact (own_liveKey key now).bind fun _ ↦ trivial

theorem cellOf_handle_other {request : Request} {other : Bytes} (hown : request.OwnKey key)
    (hother : other ≠ key) (files : Files) :
    cellOf (Files.handle request files).2 other = cellOf files other := by
  obtain ⟨path, hkey, hown⟩ := hown
  unfold cellOf
  cases hpath : keyPath other with
  | error fault => rfl
  | ok otherPath =>
    refine Files.handle_other hown ?_ files
    rintro rfl
    exact hother ((of_keyPath hpath).2.symm.trans (of_keyPath hkey).2)

theorem answers_handle {request : Request} (hown : request.OwnKey key) (files : Files) :
    Cell.Answers request (cellOf files key) (Files.handle request files).1
      (cellOf (Files.handle request files).2 key) := by
  obtain ⟨path, hkey, hown⟩ := hown
  simp only [cellOf, hkey]
  exact Files.handle_own hown files

/-- A call gets the guard of a key that no call runs on. -/
theorem Accounted.guard (hacc : Accounted start calls files log)
    (hcall : calls[place]? = some call) (hbefore : call.stage.guarded = none)
    (hfree : ∀ (index : ℕ) (other : Call) (turn' : Turn), calls[index]? = some other →
      other.stage.guarded = some turn' →
      ¬ (other.identifier = call.identifier ∧ turn'.key = turn.key)) :
    Accounted start (calls.set place { call with
      stage := .running turn (cellOf (files call.identifier) turn.key)
        (turn.job.operation turn.key) }) files log where
  running index other turn' began rest hother hrunning := by
    rcases (getElem?_move hcall).mp hother with ⟨-, rfl⟩ | ⟨-, hold⟩
    · cases hrunning
      exact ⟨hacc.idle call.identifier turn.key hfree, fun _ _ hends ↦ hends,
        within_operation turn.key turn.job⟩
    · exact hacc.running index other turn' began rest hold hrunning
  idle identifier key hidle := by
    refine hacc.idle identifier key fun index other turn' hother hguarded hsame ↦ ?_
    by_cases hindex : index = place
    · rw [hindex, hcall, Option.some_inj] at hother
      rw [← hother, hbefore] at hguarded
      cases hguarded
    · exact hidle index other turn' ((getElem?_move hcall).mpr (Or.inr ⟨hindex, hother⟩)) hguarded
        hsame
  entries := hacc.entries

/-- A call that has the guard takes a step, by the files of its key or with a failure. -/
theorem Accounted.step {request : Request} {next : Except Fault request.Response → Operation Result}
    {response : Except Fault request.Response} {left : Files}
    (hacc : Accounted start calls files log) (hcall : calls[place]? = some call)
    (hstage : call.stage = .running turn began (.ask request next))
    (halone : ∀ (index : ℕ) (other : Call) (turn' : Turn), calls[index]? = some other →
      other.stage.guarded = some turn' → other.identifier = call.identifier →
      turn'.key = turn.key → index = place)
    (hanswers : Cell.Answers request (cellOf (files call.identifier) turn.key) response
      (cellOf left turn.key))
    (hother : ∀ other, other ≠ turn.key →
      cellOf left other = cellOf (files call.identifier) other) :
    Accounted start (calls.set place { call with stage := .running turn began (next response) })
      (Function.update files call.identifier left) log := by
  have hkept {identifier key : Bytes} (hne : ¬ (identifier = call.identifier ∧ key = turn.key)) :
      cellOf (Function.update files call.identifier left identifier) key =
        cellOf (files identifier) key := by
    by_cases hidentifier : identifier = call.identifier
    · rw [hidentifier, Function.update_self]
      exact hother key fun hkey ↦ hne ⟨hidentifier, hkey⟩
    · rw [Function.update_of_ne hidentifier]
  obtain ⟨hlinked, hleads, hown, hwithin⟩ := hacc.running place call turn began _ hcall hstage
  constructor
  case running =>
    intro index other turn' began' rest hcalls hrunning
    rcases (getElem?_move hcall).mp hcalls with ⟨-, rfl⟩ | ⟨hindex, hold⟩
    · cases hrunning
      refine ⟨hlinked, fun result after hends ↦ ?_, hwithin response⟩
      rw [Function.update_self] at hends
      exact hleads result after ⟨response, _, hanswers, hends⟩
    · have hne : ¬ (other.identifier = call.identifier ∧ turn'.key = turn.key) := fun hsame ↦
        hindex (halone index other turn' hold (by rw [hrunning]; rfl) hsame.1 hsame.2)
      rw [hkept hne]
      exact hacc.running index other turn' began' rest hold hrunning
  case idle =>
    intro identifier key hidle
    have hmoved :
        (calls.set place { call with stage := .running turn began (next response) })[place]? =
        some { call with stage := .running turn began (next response) } :=
      (getElem?_move hcall).mpr (Or.inl ⟨rfl, rfl⟩)
    have hne : ¬ (call.identifier = identifier ∧ turn.key = key) :=
      hidle place { call with stage := .running turn began (next response) } turn hmoved rfl
    rw [hkept fun hsame ↦ hne ⟨hsame.1.symm, hsame.2.symm⟩]
    refine hacc.idle identifier key fun index other turn' hcalls hguarded hsame ↦ ?_
    by_cases hindex : index = place
    · rw [hindex, hcall, Option.some_inj] at hcalls
      subst hcalls
      rw [hstage] at hguarded
      obtain rfl := Option.some.inj hguarded
      exact hne hsame
    · exact hidle index other turn' ((getElem?_move hcall).mpr (Or.inr ⟨hindex, hcalls⟩)) hguarded
        hsame
  case entries => exact hacc.entries

theorem doneOn_concat (log : List Entry) (entry : Entry) (identifier key : Bytes) :
    doneOn (log ++ [entry]) identifier key = doneOn log identifier key ++
      if entry.identifier = identifier ∧ entry.key = key then [entry] else [] := by
  rw [doneOn, List.filter_append, doneOn]
  congr 1
  by_cases hentry : entry.identifier = identifier ∧ entry.key = key <;> simp [hentry]

/-- A call has its result. -/
theorem Accounted.finish {result : Except Fault Result} (hacc : Accounted start calls files log)
    (hcall : calls[place]? = some call) (hstage : call.stage = .running turn began (.done result))
    (halone : ∀ (index : ℕ) (other : Call) (turn' : Turn), calls[index]? = some other →
      other.stage.guarded = some turn' → other.identifier = call.identifier →
      turn'.key = turn.key → index = place)
    (hnone : stage.guarded = none) :
    Accounted start (calls.set place { call with stage := stage }) files
      (log ++ [⟨call.identifier, turn.key, turn.job, began, result,
        cellOf (files call.identifier) turn.key⟩]) := by
  obtain ⟨hlinked, hleads, -⟩ := hacc.running place call turn began _ hcall hstage
  constructor
  case running =>
    intro index other turn' began' rest hcalls hrunning
    rcases (getElem?_move hcall).mp hcalls with ⟨-, rfl⟩ | ⟨hindex, hold⟩
    · rw [show stage = .running turn' began' rest from hrunning] at hnone
      cases hnone
    · have hne : ¬ (call.identifier = other.identifier ∧ turn.key = turn'.key) := fun hsame ↦
        hindex (halone index other turn' hold (by rw [hrunning]; rfl) hsame.1.symm hsame.2.symm)
      rw [doneOn_concat, if_neg hne, List.append_nil]
      exact hacc.running index other turn' began' rest hold hrunning
  case idle =>
    intro identifier key hidle
    rw [doneOn_concat]
    by_cases hsame : call.identifier = identifier ∧ turn.key = key
    · obtain ⟨rfl, rfl⟩ := hsame
      rw [if_pos ⟨rfl, rfl⟩]
      exact hlinked.concat rfl
    · rw [if_neg hsame, List.append_nil]
      refine hacc.idle identifier key fun index other turn' hcalls hguarded hkey ↦ ?_
      by_cases hindex : index = place
      · rw [hindex, hcall, Option.some_inj] at hcalls
        subst hcalls
        rw [hstage] at hguarded
        obtain rfl := Option.some.inj hguarded
        exact hsame hkey
      · exact hidle index other turn' ((getElem?_move hcall).mpr (Or.inr ⟨hindex, hcalls⟩)) hguarded
          hkey
  case entries =>
    intro entry hentry
    rcases List.mem_append.mp hentry with hold | hnew
    · exact hacc.entries entry hold
    · obtain rfl := List.mem_singleton.mp hnew
      exact hleads _ _ ⟨rfl, rfl⟩

/-! ### Runs -/

/-- What holds in every state of a client. -/
structure System.Kept (start : Bytes → Files) (system : System) : Prop where
  registered : system.Registered
  exclusive : Exclusive system.calls
  accounted : Accounted start system.calls system.files system.log

theorem keyLock_calls (system : System) (locks : ℕ) (key : Bytes) :
    (system.keyLock locks key).2.calls = system.calls ∧
      (system.keyLock locks key).2.files = system.files ∧
      (system.keyLock locks key).2.log = system.log ∧
      (system.keyLock locks key).2.buckets = system.buckets := by
  unfold System.keyLock
  split <;> exact ⟨rfl, rfl, rfl, rfl⟩

/-- A call that has the guard is alone on its key. -/
theorem System.Kept.alone (hkept : system.Kept start) (hcall : system.calls[place]? = some call)
    (hguarded : call.stage.guarded = some turn) (index : ℕ) (other : Call) (turn' : Turn)
    (hother : system.calls[index]? = some other) (hguarded' : other.stage.guarded = some turn')
    (hidentifier : other.identifier = call.identifier) (hkey : turn'.key = turn.key) :
    index = place :=
  hkept.exclusive index place other call turn' turn hother hcall hguarded' hguarded
    (hkept.registered.lock_eq hother (Stage.turn_of_guarded hguarded') hcall
      (Stage.turn_of_guarded hguarded) hidentifier hkey)

/-- Where a lock is not taken no call has the guard of its key. -/
theorem System.free_of_not_taken (htaken : system.taken turn.lock = false) (index : ℕ)
    (other : Call)
    (turn' : Turn) (hother : system.calls[index]? = some other)
    (hguarded : other.stage.guarded = some turn') : turn'.lock ≠ turn.lock := by
  intro hlock
  refine Bool.eq_false_iff.mp htaken (List.any_eq_true.mpr ⟨other, List.mem_of_getElem? hother, ?_⟩)
  simp [hguarded, hlock]

/-- A listing has no turn after its turn. -/
theorem Turn.next_turn (turn : Turn) (result : Except Fault Result) :
    (turn.next result).turn = none ∧ (turn.next result).guarded = none := by
  unfold Turn.next
  split <;> exact ⟨rfl, rfl⟩

/-- A call without the guard comes to a stage without it. -/
theorem System.Kept.move (hkept : system.Kept start) (hcall : system.calls[place]? = some call)
    (hbefore : call.stage.guarded = none) (hstage : stage.guarded = none)
    (hturn : ∀ turn, stage.turn = some turn → system.locks call.locks turn.key = some turn.lock) :
    (system.withStage place call stage).Kept start where
  registered := hkept.registered.move hcall hturn
  exclusive := hkept.exclusive.move hcall fun turn hturn ↦ by
    rw [hstage] at hturn
    cases hturn
  accounted := hkept.accounted.move hcall hbefore hstage

/-- A call without the guard arrives. -/
theorem System.Kept.arrive (hkept : system.Kept start)
    (hcall : system.buckets call.identifier = some call.locks) (hstage : call.stage.guarded = none)
    (hturn : ∀ turn, call.stage.turn = some turn →
      system.locks call.locks turn.key = some turn.lock) :
    { system with calls := system.calls ++ [call] }.Kept start where
  registered := hkept.registered.arrive hcall hturn
  exclusive := hkept.exclusive.arrive hstage
  accounted := hkept.accounted.arrive hstage

/-- A lock is found or made. -/
theorem System.Kept.keyLock (hkept : system.Kept start) (locks : ℕ) (key : Bytes) :
    (system.keyLock locks key).2.Kept start := by
  obtain ⟨hcalls, hfiles, hlog, -⟩ := keyLock_calls system locks key
  refine ⟨(hkept.registered.keyLock locks key).1, ?_, ?_⟩
  · rw [hcalls]
    exact hkept.exclusive
  · rw [hcalls, hfiles, hlog]
    exact hkept.accounted

/-- A bucket is opened. -/
theorem System.Kept.openBucket (hkept : system.Kept start) {identifier : Bytes}
    (hnext : system.next (.openBucket identifier) = some after) : after.Kept start := by
  have hreg := hkept.registered
  unfold System.next at hnext
  cases hbucket : system.buckets identifier with
  | some locks =>
    simp only [hbucket] at hnext
    obtain rfl := Option.some.inj hnext
    refine ⟨{ hreg with handles := fun handle hhandle ↦ ?_ }, hkept.exclusive, hkept.accounted⟩
    rcases List.mem_append.mp hhandle with hold | hnew
    · exact hreg.handles handle hold
    · rw [List.mem_singleton.mp hnew]
      exact hbucket
  | none =>
    simp only [hbucket] at hnext
    obtain rfl := Option.some.inj hnext
    -- a bucket that was registered keeps its locks
    have hold {other : Bytes} {locks : ℕ} (hother : system.buckets other = some locks) :
        Function.update system.buckets identifier (some system.fresh) other = some locks := by
      rw [Function.update_of_ne (by rintro rfl; rw [hbucket] at hother; cases hother), hother]
    have hcases {other : Bytes} {locks : ℕ}
        (hother : Function.update system.buckets identifier (some system.fresh) other =
          some locks) : (other = identifier ∧ locks = system.fresh) ∨
            system.buckets other = some locks := by
      by_cases hsame : other = identifier
      · rw [hsame, Function.update_self, Option.some_inj] at hother
        exact Or.inl ⟨hsame, hother.symm⟩
      · rw [Function.update_of_ne hsame] at hother
        exact Or.inr hother
    refine ⟨?_, hkept.exclusive, hkept.accounted⟩
    constructor
    case handles =>
      intro handle hhandle
      rcases List.mem_append.mp hhandle with hhandle | hnew
      · exact hold (hreg.handles handle hhandle)
      · rw [List.mem_singleton.mp hnew]
        exact Function.update_self _ _ _
    case calls => exact fun index call hcall ↦ hold (hreg.calls index call hcall)
    case buckets =>
      intro first second locks hfirst hsecond
      rcases hcases hfirst with ⟨rfl, rfl⟩ | hfirst'
      · rcases hcases hsecond with ⟨rfl, -⟩ | hsecond'
        · rfl
        · exact absurd (hreg.bucketsFresh _ _ hsecond') (Nat.lt_irrefl _)
      · rcases hcases hsecond with ⟨rfl, rfl⟩ | hsecond'
        · exact absurd (hreg.bucketsFresh _ _ hfirst') (Nat.lt_irrefl _)
        · exact hreg.buckets _ _ _ hfirst' hsecond'
    case bucketsFresh =>
      intro other locks hother
      rcases hcases hother with ⟨-, rfl⟩ | hother'
      · exact Nat.lt_succ_self _
      · exact Nat.lt_succ_of_lt (hreg.bucketsFresh _ _ hother')
    case turns => exact hreg.turns
    case locks => exact hreg.locks
    case locksFresh =>
      exact fun locks key lock hlock ↦ Nat.lt_succ_of_lt (hreg.locksFresh _ _ _ hlock)

/-- Every event keeps it. -/
theorem System.Kept.next (hkept : system.Kept start) {event : Event}
    (hnext : system.next event = some after) : after.Kept start := by
  cases event with
  | openBucket identifier => exact hkept.openBucket hnext
  | call handle key action now =>
    obtain ⟨⟨identifier, locks⟩, hhandle, rfl⟩ := Option.map_eq_some_iff.mp hnext
    obtain ⟨hcalls, -, -, hbuckets⟩ := keyLock_calls system locks key
    refine (hkept.keyLock locks key).arrive ?_ rfl fun turn hturn ↦ ?_
    · rw [hbuckets]
      exact hkept.registered.handles _ (List.mem_of_getElem? hhandle)
    · cases hturn
      exact (hkept.registered.keyLock locks key).2
  | list handle =>
    obtain ⟨⟨identifier, locks⟩, hhandle, rfl⟩ := Option.map_eq_some_iff.mp hnext
    exact hkept.arrive (hkept.registered.handles _ (List.mem_of_getElem? hhandle)) rfl
      fun turn hturn ↦ by cases hturn
  | collected index found =>
    obtain ⟨call, hcall, hnext⟩ := Option.bind_eq_some_iff.mp hnext
    split at hnext
    · rename_i live hstage
      obtain rfl := Option.some.inj hnext
      refine hkept.move hcall (by rw [hstage]; rfl) ?_ fun turn hturn ↦ ?_
      · cases found <;> rfl
      · cases found <;> cases hturn
    · cases hnext
  | candidate index now =>
    obtain ⟨call, hcall, hnext⟩ := Option.bind_eq_some_iff.mp hnext
    split at hnext
    · rename_i live key left hstage
      obtain rfl := Option.some.inj hnext
      obtain ⟨hcalls, -⟩ := keyLock_calls system call.locks key
      refine (hkept.keyLock call.locks key).move (by rw [hcalls, hcall]) (by rw [hstage]; rfl) rfl
        fun turn hturn ↦ ?_
      cases hturn
      exact (hkept.registered.keyLock call.locks key).2
    · rename_i live hstage
      obtain rfl := Option.some.inj hnext
      exact hkept.move hcall (by rw [hstage]; rfl) rfl fun turn hturn ↦ by cases hturn
    · cases hnext
  | guard index =>
    obtain ⟨call, hcall, hnext⟩ := Option.bind_eq_some_iff.mp hnext
    split at hnext
    · rename_i turn hstage
      split_ifs at hnext with htaken
      obtain rfl := Option.some.inj hnext
      rw [Bool.not_eq_true] at htaken
      have hturn : call.stage.turn = some turn := by rw [hstage]; rfl
      refine ⟨hkept.registered.move hcall ?_, hkept.exclusive.move hcall ?_,
        hkept.accounted.guard hcall (by rw [hstage]; rfl) ?_⟩
      · intro turn' hturn'
        cases hturn'
        exact hkept.registered.turns index call turn hcall hturn
      · intro turn' hturn'
        cases hturn'
        exact Or.inr fun place other turn' ↦ System.free_of_not_taken htaken place other turn'
      · intro place other turn' hother hguarded hsame
        exact System.free_of_not_taken htaken place other turn' hother hguarded
          (hkept.registered.lock_eq hother (Stage.turn_of_guarded hguarded) hcall hturn hsame.1
            hsame.2)
    · cases hnext
  | step index fails =>
    obtain ⟨call, hcall, hnext⟩ := Option.bind_eq_some_iff.mp hnext
    split at hnext
    · rename_i turn began request next hstage
      have hguarded : call.stage.guarded = some turn := by rw [hstage]; rfl
      have hown := (hkept.accounted.running index call turn began _ hcall hstage).2.2.1
      have hregistered (response : Except Fault request.Response) :
          (system.withStage index call (.running turn began (next response))).Registered :=
        hkept.registered.move hcall fun turn' hturn' ↦ by
          cases hturn'
          exact hkept.registered.turns index call turn hcall (Stage.turn_of_guarded hguarded)
      have hexclusive (response : Except Fault request.Response) :
          Exclusive (system.calls.set index
            { call with stage := .running turn began (next response) }) :=
        hkept.exclusive.move hcall fun turn' hturn' ↦ by
          cases hturn'
          exact Or.inl hguarded
      split_ifs at hnext
      · obtain rfl := Option.some.inj hnext
        refine ⟨hregistered _, hexclusive _, ?_⟩
        have hanswers : Cell.Answers request (cellOf (system.files call.identifier) turn.key)
            (.error .step) (cellOf (system.files call.identifier) turn.key) :=
          Or.inr ⟨rfl, .step, rfl, fun _ ↦ by decide⟩
        have hacc := hkept.accounted.step hcall hstage (hkept.alone hcall hguarded) hanswers
          fun _ _ ↦ rfl
        rwa [Function.update_eq_self] at hacc
      · obtain rfl := Option.some.inj hnext
        refine ⟨{ hregistered _ with }, hexclusive _, ?_⟩
        exact hkept.accounted.step hcall hstage (hkept.alone hcall hguarded)
          (answers_handle hown _) fun other hother ↦ cellOf_handle_other hown hother _
    · cases hnext
  | finish index =>
    obtain ⟨call, hcall, hnext⟩ := Option.bind_eq_some_iff.mp hnext
    split at hnext
    · rename_i turn began result hstage
      obtain rfl := Option.some.inj hnext
      have hguarded : call.stage.guarded = some turn := by rw [hstage]; rfl
      obtain ⟨hturn, hfree⟩ := turn.next_turn result
      refine ⟨{ hkept.registered.move hcall ?_ with }, hkept.exclusive.move hcall ?_,
        hkept.accounted.finish hcall hstage (hkept.alone hcall hguarded) hfree⟩
      · intro turn' hturn'
        rw [hturn] at hturn'
        cases hturn'
      · intro turn' hturn'
        rw [hfree] at hturn'
        cases hturn'
    · cases hnext
  | abandon index =>
    obtain ⟨call, hcall, hnext⟩ := Option.bind_eq_some_iff.mp hnext
    split at hnext
    · rename_i hstage
      obtain rfl := Option.some.inj hnext
      exact hkept.move hcall (by rw [hstage]; rfl) rfl fun turn hturn ↦ by cases hturn
    · rename_i hstage
      obtain rfl := Option.some.inj hnext
      exact hkept.move hcall (by rw [hstage]; rfl) rfl fun turn hturn ↦ by cases hturn
    · cases hnext

theorem System.kept_start (files : Bytes → Files) : (System.start files).Kept files where
  registered := by
    constructor <;> simp [System.start]
  exclusive first second call other turn turn' hfirst := by simp [System.start] at hfirst
  accounted := by
    constructor
    case running => simp [System.start]
    case idle => exact fun _ _ _ ↦ rfl
    case entries => simp [System.start]

/-- An operation on a key has done what its answer says. -/
theorem sound_of_job {action : Action} {now : ℕ} {result : Except Fault Result} {ended : Cell}
    (hends : Script.Ends Cell.Answers ((Job.act action now).operation key) began result ended) :
    Sound began now result ended action := by
  unfold Job.operation at hends
  cases hkey : keyPath key with
  | error fault =>
    rw [hkey] at hends
    obtain ⟨rfl, rfl⟩ := hends
    cases action <;> simp [Sound]
  | ok path =>
    rw [hkey] at hends
    exact sound_of_ends hends

/-- The calls of a client are serialised by key. -/
structure System.Serialised (start : Bytes → Files) (system : System) : Prop where
  /-- No two calls take file steps on one key. -/
  exclusive : ∀ (first second : ℕ) (call other : Call) (turn turn' : Turn),
    system.calls[first]? = some call → system.calls[second]? = some other →
    call.stage.guarded = some turn → other.stage.guarded = some turn' →
    call.identifier = other.identifier → turn.key = turn'.key → first = second
  /-- A call that waits may go on, unless another has the guard of its own key. -/
  unhindered : ∀ (index : ℕ) (call : Call) (turn : Turn), system.calls[index]? = some call →
    call.stage = .waiting turn → (system.next (.guard index)).isSome = true ∨
      ∃ (place : ℕ) (other : Call) (turn' : Turn), system.calls[place]? = some other ∧
        other.stage.guarded = some turn' ∧ other.identifier = call.identifier ∧ turn'.key = turn.key
  /-- A call that has the guard waits for nothing. -/
  going : ∀ (index : ℕ) (call : Call) (turn : Turn), system.calls[index]? = some call →
    call.stage.guarded = some turn →
      (system.next (.step index false)).isSome = true ∨ (system.next (.finish index)).isSome = true
  /-- What is done on a key is done one after the other, each from the files the one before has
  left. -/
  linked : ∀ identifier key, ∃ left,
    Linked (cellOf (start identifier) key) (doneOn system.log identifier key) left ∧
      (left = cellOf (system.files identifier) key ∨
        ∃ (index : ℕ) (call : Call) (turn : Turn) (rest : Operation Result),
          system.calls[index]? = some call ∧ call.stage = .running turn left rest ∧
            call.identifier = identifier ∧ turn.key = key)
  /-- An operation has done to the files what its answer says. -/
  sound : ∀ entry ∈ system.log, ∀ action now, entry.job = .act action now →
    Sound entry.began now entry.result entry.ended action
  /-- Of two `cas` that expect a value and go through, the first not to write it again, the second
  found it anew. -/
  once : ∀ (identifier key : Bytes) (before middle later : List Entry) (first second : Entry)
    (expected : Option Bytes) (value value' : Bytes) (now now' : ℕ),
    doneOn system.log identifier key = before ++ first :: middle ++ second :: later →
    first.job = .act (.cas expected value) now → first.result = .ok .swapped →
    second.job = .act (.cas expected value') now' → second.result = .ok .swapped →
    some value ≠ expected → ∃ entry ∈ first :: middle, entry.ended.value ≠ expected

variable {events : List Event}

/-- The calls of a client are serialised by key, in every state it reaches. -/
theorem serialised (hruns : Run (StepOf System.next) (System.start start) events system) :
    system.Serialised start := by
  have hkept : system.Kept start :=
    hruns.invariant (System.Kept start) (fun hkept hnext ↦ hkept.next hnext)
      (System.kept_start start)
  have hsound : ∀ entry ∈ system.log, ∀ action now, entry.job = .act action now →
      Sound entry.began now entry.result entry.ended action := by
    intro entry hentry action now hjob
    have hends := hkept.accounted.entries entry hentry
    rw [hjob] at hends
    exact sound_of_job hends
  constructor
  case exclusive =>
    intro first second call other turn turn' hfirst hsecond hturn hturn' hidentifier hkey
    exact hkept.alone hsecond hturn' first call turn hfirst hturn hidentifier hkey
  case unhindered =>
    intro index call turn hcall hstage
    have hturn : call.stage.turn = some turn := by rw [hstage]; rfl
    cases htaken : system.taken turn.lock with
    | false =>
      refine Or.inl ?_
      simp [System.next, hcall, hstage, htaken]
    | true =>
      obtain ⟨other, hother, hlock⟩ := List.any_eq_true.mp htaken
      obtain ⟨turn', hguarded, hlock⟩ := (Option.any_eq_true _ _).mp hlock
      obtain ⟨place, hplace⟩ := List.mem_iff_getElem?.mp hother
      obtain ⟨hidentifier, hkey⟩ := hkept.registered.key_eq hplace (Stage.turn_of_guarded hguarded)
        hcall hturn (of_decide_eq_true hlock)
      exact Or.inr ⟨place, other, turn', hplace, hguarded, hidentifier, hkey⟩
  case going =>
    intro index call turn hcall hguarded
    obtain ⟨began, rest, hstage⟩ := Stage.running_of_guarded hguarded
    cases rest with
    | done result =>
      refine Or.inr ?_
      simp [System.next, hcall, hstage]
    | ask request rest =>
      refine Or.inl ?_
      simp [System.next, hcall, hstage]
  case linked =>
    intro identifier key
    by_cases hrunning : ∃ (index : ℕ) (call : Call) (turn : Turn),
      system.calls[index]? = some call ∧
        call.stage.guarded = some turn ∧ call.identifier = identifier ∧ turn.key = key
    · obtain ⟨index, call, turn, hcall, hguarded, rfl, rfl⟩ := hrunning
      obtain ⟨began, rest, hstage⟩ := Stage.running_of_guarded hguarded
      exact ⟨began, (hkept.accounted.running index call turn began rest hcall hstage).1,
        Or.inr ⟨index, call, turn, rest, hcall, hstage, rfl, rfl⟩⟩
    · refine ⟨_, hkept.accounted.idle identifier key ?_, Or.inl rfl⟩
      intro index call turn hcall hguarded hsame
      exact hrunning ⟨index, call, turn, hcall, hguarded, hsame⟩
  case sound => exact hsound
  case once =>
    intro identifier key before middle later first second expected value value' now now' hdone hjob
      hresult _ _ hvalue
    refine ⟨first, List.mem_cons_self, ?_⟩
    have hmem : first ∈ system.log := by
      have hfirst : first ∈ doneOn system.log identifier key := by simp [hdone]
      exact List.mem_of_mem_filter hfirst
    have hcas := hsound first hmem _ _ hjob
    rw [hresult] at hcas
    rcases hcas with ⟨-, -, hended⟩ | ⟨-, hconflict, -⟩
    · rwa [hended]
    · cases hconflict

/-- Two increments of a key, the second called while the first runs. -/
def twoIncrements : List Event :=
  [Event.openBucket (text "b"), Event.call 0 (text "n") (.increment 1) 0, Event.guard 0,
    Event.step 0 false, Event.call 0 (text "n") (.increment 1) 0] ++
    List.replicate 6 (Event.step 0 false) ++ [Event.finish 0, Event.guard 1] ++
    List.replicate 7 (Event.step 1 false) ++ [Event.finish 1]

theorem serialised_two_increments :
    ((execute System.next (System.start fun _ ↦ opened) twoIncrements).get
      (by decide +kernel)).Serialised fun _ ↦ opened :=
  serialised (run_of_isSome (by decide +kernel))

/-- A key is set, and of two `cas` called together each expects that value and writes it again. -/
def twoSwaps : List Event :=
  [Event.openBucket (text "b"), Event.call 0 (text "k") (.set [1] none) 0, Event.guard 0] ++
    List.replicate 6 (Event.step 0 false) ++
    [Event.finish 0, Event.call 0 (text "k") (.cas (some [1]) [1]) 0,
      Event.call 0 (text "k") (.cas (some [1]) [1]) 0, Event.guard 1] ++
    List.replicate 7 (Event.step 1 false) ++ [Event.finish 1, Event.guard 2] ++
    List.replicate 7 (Event.step 2 false) ++ [Event.finish 2]

/-- Both go through, and the value has not changed. -/
theorem both_swap_unchanged :
    ∃ system, Run (StepOf System.next) (System.start fun _ ↦ opened) twoSwaps system ∧
      (doneOn system.log (text "b") (text "k")).map Entry.job =
        [.act (.set [1] none) 0, .act (.cas (some [1]) [1]) 0, .act (.cas (some [1]) [1]) 0] ∧
      (doneOn system.log (text "b") (text "k")).map (fun entry ↦ entry.result.toOption) =
        [some .done, some .swapped, some .swapped] ∧
      (doneOn system.log (text "b") (text "k")).map (fun entry ↦ entry.ended.value) =
        [some [1], some [1], some [1]] := by
  refine ⟨(execute System.next (System.start fun _ ↦ opened) twoSwaps).get (by decide +kernel),
    run_of_isSome _, ?_, ?_, ?_⟩ <;> decide +kernel

end OmniaBackends.Filesystem
