import OmniaBackends.Filesystem.Cell

/-!
# Operations that stop half-way

What a later `get` finds where the process stops in the middle of an operation, or where one of its
file steps fails: what it would have found without the operation, or after it (`AllOrNothing`). A
value and the time it expires at are two files that change one after the other, so what is between
may be neither. The result is `allOrNothing_iff`: for which stored values and operations it never
is.
-/

set_option autoImplicit false
set_option relaxedAutoImplicit false

namespace OmniaBackends.Filesystem

open Foundation KeyValue

/-! ### The parts of an operation, alone on the files of its key -/

section Parts

variable {path : Path} {tree : Tree} {cell left : Cell} {now : ℕ} {value : Bytes} {fault : Fault}

/-- What a removal makes of its step. -/
def removed : Except Fault Unit → Except Fault Unit
  | .ok () => .ok ()
  | .error (.disk .notFound) => .ok ()
  | .error fault => .error fault

/-- What `is_expired` makes of its step. -/
def expiredBy (now : ℕ) : Except Fault Bytes → Except Fault Bool
  | .ok bytes => .ok (bytes.length = 16 && ofBigEndian bytes ≤ now)
  | .error (.disk .notFound) => .ok false
  | .error fault => .error fault

/-- What `read_value` makes of its step. -/
def foundBy : Except Fault Bytes → Except Fault (Option Bytes)
  | .ok bytes => .ok (some bytes)
  | .error (.disk .notFound) => .ok none
  | .error fault => .error fault

theorem removeFile_eq (tree : Tree) (path : Path) : removeFile tree path =
    Script.attempt (remove tree path) >>= fun given ↦ Script.ofResult (removed given) := by
  unfold removeFile
  congr
  funext given
  rcases given with (_ | _ | _ | _) | _ <;> try rfl
  rename_i fault
  cases fault <;> rfl

theorem isExpired_eq (path : Path) (now : ℕ) : isExpired path now =
    Script.attempt (readFile .ttls path) >>= fun given ↦ Script.ofResult (expiredBy now given) := by
  unfold isExpired
  congr
  funext given
  rcases given with (fault | _ | _ | _) | _ <;> try rfl
  cases fault <;> rfl

theorem readValue_eq (path : Path) : readValue path =
    Script.attempt (readFile .values path) >>= fun given ↦ Script.ofResult (foundBy given) := by
  unfold readValue
  congr
  funext given
  rcases given with (fault | _ | _ | _) | _ <;> try rfl
  cases fault <;> rfl

/-- A step that fails is no step that finds nothing. -/
theorem removed_error (hfault : fault ≠ .disk .notFound) :
    removed (.error fault) = .error fault := by
  rcases fault with (_ | _ | _) | _ | _ | _ <;> first | rfl | exact absurd rfl hfault

theorem expiredBy_error (hfault : fault ≠ .disk .notFound) (now : ℕ) :
    expiredBy now (.error fault) = .error fault := by
  rcases fault with (_ | _ | _) | _ | _ | _ <;> first | rfl | exact absurd rfl hfault

theorem foundBy_error (hfault : fault ≠ .disk .notFound) :
    foundBy (.error fault) = .error fault := by
  rcases fault with (_ | _ | _) | _ | _ | _ <;> first | rfl | exact absurd rfl hfault

/-- A step that fails is all that has happened of it. -/
theorem fails_settled {Value Other : Type} {step : Operation Value}
    {settle : Except Fault Value → Except Fault Other} {outcome : Except Fault Other × Cell}
    (hstep : ∀ outcome, Script.Fails Cell.handle fault step cell outcome ↔
      outcome = (.error fault, cell)) (hsettle : settle (.error fault) = .error fault) :
    Script.Fails Cell.handle fault
        (Script.attempt step >>= fun given ↦ Script.ofResult (settle given)) cell outcome ↔
      outcome = (.error fault, cell) := by
  rw [Script.fails_settled_iff]
  constructor
  · rintro ⟨given, left, hfails, rfl⟩
    obtain ⟨rfl, rfl⟩ := Prod.mk.inj ((hstep _).mp hfails)
    rw [hsettle]
  · rintro rfl
    exact ⟨.error fault, cell, (hstep _).mpr rfl, by rw [hsettle]⟩

theorem run_removeFile (tree : Tree) (path : Path) (cell : Cell) :
    Script.run Cell.handle (removeFile tree path) cell = (.ok (), cell.withFile none tree) := by
  rw [removeFile_eq, Script.run_settled]
  change (removed (Cell.handle (.remove tree path) cell).1,
    (Cell.handle (.remove tree path) cell).2) = _
  cases hfile : cell.file tree with
  | none =>
    simp only [Cell.handle, hfile]
    rw [← hfile, Cell.withFile_self]
    rfl
  | some bytes =>
    simp only [Cell.handle, hfile]
    rfl

theorem stops_removeFile : Script.Stops Cell.handle (removeFile tree path) cell left ↔
    left = cell ∨ left = cell.withFile none tree := by
  have hrun := congrArg Prod.snd (run_removeFile tree path cell)
  rw [removeFile_eq, Script.run_settled] at hrun
  have hleft : (Cell.handle (.remove tree path) cell).2 = cell.withFile none tree := hrun
  rw [removeFile_eq, Script.stops_settled_iff, ← hleft]
  exact Script.stops_call_iff

theorem fails_removeFile {outcome : Except Fault Unit × Cell} (hfault : fault ≠ .disk .notFound) :
    Script.Fails Cell.handle fault (removeFile tree path) cell outcome ↔
      outcome = (.error fault, cell) := by
  rw [removeFile_eq]
  exact fails_settled (fun _ ↦ Script.fails_call_iff) (removed_error hfault)

theorem run_isExpired (path : Path) (now : ℕ) (cell : Cell) :
    Script.run Cell.handle (isExpired path now) cell = (.ok (cell.expired now), cell) := by
  rw [isExpired_eq, Script.run_settled]
  change (expiredBy now (cell.ttl.elim (.error (.disk .notFound)) .ok), cell) = _
  unfold Cell.expired
  cases cell.ttl <;> rfl

theorem stops_isExpired : Script.Stops Cell.handle (isExpired path now) cell left ↔
    left = cell := by
  rw [isExpired_eq, Script.stops_settled_iff]
  exact Script.stops_call_iff.trans (or_self_iff)

theorem fails_isExpired {outcome : Except Fault Bool × Cell} (hfault : fault ≠ .disk .notFound) :
    Script.Fails Cell.handle fault (isExpired path now) cell outcome ↔
      outcome = (.error fault, cell) := by
  rw [isExpired_eq]
  exact fails_settled (fun _ ↦ Script.fails_call_iff) (expiredBy_error hfault now)

theorem run_readValue (path : Path) (cell : Cell) :
    Script.run Cell.handle (readValue path) cell = (.ok cell.value, cell) := by
  rw [readValue_eq, Script.run_settled]
  change (foundBy (cell.value.elim (.error (.disk .notFound)) .ok), cell) = _
  cases cell.value <;> rfl

theorem stops_readValue : Script.Stops Cell.handle (readValue path) cell left ↔ left = cell := by
  rw [readValue_eq, Script.stops_settled_iff]
  exact Script.stops_call_iff.trans (or_self_iff)

theorem fails_readValue {outcome : Except Fault (Option Bytes) × Cell}
    (hfault : fault ≠ .disk .notFound) :
    Script.Fails Cell.handle fault (readValue path) cell outcome ↔
      outcome = (.error fault, cell) := by
  rw [readValue_eq]
  exact fails_settled (fun _ ↦ Script.fails_call_iff) (foundBy_error hfault)

/-- A step that changes no file: it is taken, or fails. -/
structure Idle (operation : Operation Unit) : Prop where
  run : ∀ cell, Script.run Cell.handle operation cell = (.ok (), cell)
  stops : ∀ cell left, Script.Stops Cell.handle operation cell left → left = cell
  fails : ∀ fault cell outcome, Script.Fails Cell.handle fault operation cell outcome →
    outcome = (.error fault, cell)

theorem idle_scratch (tree : Tree) : Idle (scratch tree) where
  run _ := rfl
  stops _ _ hstops := (Script.stops_call_iff.mp hstops).elim id id
  fails _ _ _ hfails := Script.fails_call_iff.mp hfails

theorem idle_mkdir (tree : Tree) (path : Path) : Idle (mkdir tree path) where
  run _ := rfl
  stops _ _ hstops := (Script.stops_call_iff.mp hstops).elim id id
  fails _ _ _ hfails := Script.fails_call_iff.mp hfails

theorem idle_createDirAll (tree : Tree) (path : Path) : Idle (createDirAll tree path) where
  run cell := Script.run_forEach_same _ (fun above ↦ (idle_mkdir tree above).run) cell
  stops _ _ hstops :=
    hstops.forEach_same (fun above ↦ (idle_mkdir tree above).run)
      fun above ↦ (idle_mkdir tree above).stops
  fails _ _ _ hfails :=
    hfails.forEach_same (fun above ↦ (idle_mkdir tree above).run)
      fun above ↦ (idle_mkdir tree above).fails _

/-- Before the rest such a step is not seen, but that it may fail. -/
theorem Idle.run_bind {operation : Operation Unit} {Value : Type} {rest : Unit → Operation Value}
    (hidle : Idle operation) (cell : Cell) :
    Script.run Cell.handle (operation >>= rest) cell = Script.run Cell.handle (rest ()) cell :=
  Script.run_bind_of_ok (hidle.run cell)

theorem Idle.stops_bind {operation : Operation Unit} {Value : Type} {rest : Unit → Operation Value}
    (hidle : Idle operation) :
    Script.Stops Cell.handle (operation >>= rest) cell left ↔
      Script.Stops Cell.handle (rest ()) cell left := by
  rw [Script.stops_bind_of_ok (hidle.run cell), or_iff_right_iff_imp]
  intro hstops
  rw [hidle.stops _ _ hstops]
  exact Script.Stops.refl _ _

theorem Idle.fails_bind {operation : Operation Unit} {Value : Type} {rest : Unit → Operation Value}
    {outcome : Except Fault Value × Cell} (hidle : Idle operation)
    (hrest : Script.Fails Cell.handle fault (rest ()) cell outcome ↔
      outcome = (.error fault, cell)) :
    Script.Fails Cell.handle fault (operation >>= rest) cell outcome ↔
      outcome = (.error fault, cell) := by
  rw [Script.fails_bind_of_ok (hidle.run cell), hrest, or_iff_right_iff_imp]
  rintro ⟨first, hfirst, rfl⟩
  rw [hidle.fails _ _ _ hfirst]
  rfl

theorem run_writeValue (tree : Tree) (path : Path) (value : Bytes) (cell : Cell) :
    Script.run Cell.handle (writeValue tree path value) cell =
      (.ok (), cell.withFile (some value) tree) := by
  rw [writeValue, (idle_createDirAll tree _).run_bind, (idle_scratch tree).run_bind,
    (idle_scratch tree).run_bind, (idle_scratch tree).run_bind]
  rfl

theorem stops_writeValue : Script.Stops Cell.handle (writeValue tree path value) cell left ↔
    left = cell ∨ left = cell.withFile (some value) tree := by
  rw [writeValue, (idle_createDirAll tree _).stops_bind, (idle_scratch tree).stops_bind,
    (idle_scratch tree).stops_bind, (idle_scratch tree).stops_bind]
  exact Script.stops_call_iff

theorem fails_writeValue {outcome : Except Fault Unit × Cell} :
    Script.Fails Cell.handle fault (writeValue tree path value) cell outcome ↔
      outcome = (.error fault, cell) := by
  refine (idle_createDirAll tree _).fails_bind ?_
  refine (idle_scratch tree).fails_bind ?_
  refine (idle_scratch tree).fails_bind ?_
  exact (idle_scratch tree).fails_bind Script.fails_call_iff

/-- The file of a time, if there is one. -/
def ttlFile (expiry : Option ℕ) : Option Bytes :=
  expiry.map (bigEndian 16)

theorem run_writeTtl (path : Path) (ttl : Option ℕ) (now : ℕ) (cell : Cell) :
    Script.run Cell.handle (writeTtl path ttl now) cell =
      (.ok (), cell.withFile (ttlFile (ttl.map (expiresAt now))) .ttls) := by
  cases ttl with
  | none => exact run_removeFile .ttls path cell
  | some ttl =>
    rw [writeTtl, (idle_createDirAll .ttls []).run_bind, run_writeValue]
    rfl

theorem stops_writeTtl {ttl : Option ℕ} :
    Script.Stops Cell.handle (writeTtl path ttl now) cell left ↔
      left = cell ∨ left = cell.withFile (ttlFile (ttl.map (expiresAt now))) .ttls := by
  cases ttl with
  | none => exact stops_removeFile
  | some ttl =>
    rw [writeTtl, (idle_createDirAll .ttls []).stops_bind, stops_writeValue]
    rfl

theorem fails_writeTtl {ttl : Option ℕ} {outcome : Except Fault Unit × Cell}
    (hfault : fault ≠ .disk .notFound) :
    Script.Fails Cell.handle fault (writeTtl path ttl now) cell outcome ↔
      outcome = (.error fault, cell) := by
  cases ttl with
  | none => exact fails_removeFile hfault
  | some ttl => exact (idle_createDirAll .ttls []).fails_bind fails_writeValue

theorem run_removeEntry (path : Path) (cell : Cell) :
    Script.run Cell.handle (removeEntry path) cell = (.ok (), ⟨none, none⟩) := by
  rw [removeEntry, Script.run_bind_of_ok
    (Script.run_attempt_of_eq (run_removeFile .ttls path cell)),
    run_removeFile]
  rfl

/-- The time goes first and then the value. -/
theorem stops_removeEntry : Script.Stops Cell.handle (removeEntry path) cell left ↔
    left = cell ∨ left = ⟨cell.value, none⟩ ∨ left = ⟨none, none⟩ := by
  rw [removeEntry,
    Script.stops_bind_of_ok (Script.run_attempt_of_eq (run_removeFile .ttls path cell)),
    Script.stops_attempt_iff, stops_removeFile, stops_removeFile, or_assoc]
  exact or_congr_right or_self_left

/-- That the time does not go is not told. -/
theorem fails_removeEntry {outcome : Except Fault Unit × Cell} (hfault : fault ≠ .disk .notFound) :
    Script.Fails Cell.handle fault (removeEntry path) cell outcome ↔
      outcome = (.ok (), ⟨none, cell.ttl⟩) ∨ outcome = (.error fault, ⟨cell.value, none⟩) := by
  have hfirst (first : Except Fault (Except Fault Unit) × Cell) :
      Script.Fails Cell.handle fault (Script.attempt (removeFile .ttls path)) cell first ↔
        first = (.ok (.error fault), cell) := by
    rw [Script.fails_attempt_iff]
    simp only [fails_removeFile hfault]
    constructor
    · rintro ⟨given, left, hgiven, rfl⟩
      cases hgiven
      rfl
    · rintro rfl
      exact ⟨_, _, rfl, rfl⟩
  rw [removeEntry,
    Script.fails_bind_of_ok (Script.run_attempt_of_eq (run_removeFile .ttls path cell)),
    fails_removeFile hfault]
  simp only [hfirst, exists_eq_left]
  refine or_congr_left ?_
  have hrest : Program.continueWith
      (fun _ : Except Fault Unit ↦ Script.run Cell.handle (removeFile .values path))
      (.ok (.error fault), cell) = (.ok (), ⟨none, cell.ttl⟩) := run_removeFile .values path cell
  rw [hrest]

/-- The files of a key after it was read. -/
def Cell.swept (cell : Cell) (now : ℕ) : Cell :=
  if cell.expired now then ⟨none, none⟩ else cell

theorem run_readLive (path : Path) (now : ℕ) (cell : Cell) :
    Script.run Cell.handle (readLive path now) cell = (.ok (cell.live now), cell.swept now) := by
  rw [readLive, Script.run_bind_of_ok (run_isExpired path now cell), Cell.live, Cell.swept]
  cases cell.expired now with
  | true => exact Script.run_bind_of_ok (run_removeEntry path cell)
  | false => exact run_readValue path cell

theorem stops_readLive : Script.Stops Cell.handle (readLive path now) cell left ↔
    left = cell ∨ cell.expired now = true ∧ (left = ⟨cell.value, none⟩ ∨ left = ⟨none, none⟩) := by
  rw [readLive, Script.stops_bind_of_ok (run_isExpired path now cell), stops_isExpired]
  cases cell.expired now with
  | true =>
    simp only [if_true]
    rw [Script.stops_bind_of_ok (run_removeEntry path cell), stops_removeEntry]
    change _ ∨ (_ ∨ left = ⟨none, none⟩) ↔ _
    tauto
  | false =>
    simp only [Bool.false_eq_true, if_false]
    rw [stops_readValue]
    tauto

theorem fails_readLive {outcome : Except Fault (Option Bytes) × Cell}
    (hfault : fault ≠ .disk .notFound) :
    Script.Fails Cell.handle fault (readLive path now) cell outcome ↔
      outcome = (.error fault, cell) ∨ cell.expired now = true ∧
        (outcome = (.ok none, ⟨none, cell.ttl⟩) ∨
          outcome = (.error fault, ⟨cell.value, none⟩)) := by
  rw [readLive, Script.fails_bind_of_ok (run_isExpired path now cell)]
  simp only [fails_isExpired hfault, exists_eq_left]
  change outcome = (.error fault, cell) ∨ _ ↔ _
  cases cell.expired now with
  | true =>
    simp only [if_true]
    rw [Script.fails_bind_of_ok (run_removeEntry path cell), true_and]
    refine or_congr_right ?_
    change (_ ∨ False) ↔ _
    simp only [fails_removeEntry hfault, or_false]
    constructor
    · rintro ⟨_, rfl | rfl, rfl⟩
      · exact Or.inl rfl
      · exact Or.inr rfl
    · rintro (rfl | rfl)
      · exact ⟨_, Or.inl rfl, rfl⟩
      · exact ⟨_, Or.inr rfl, rfl⟩
  | false =>
    simp only [Bool.false_eq_true, if_false, false_and, or_false]
    rw [fails_readValue hfault, or_self_iff]

end Parts

/-! ### What a later read finds -/

/-- What an operation may leave of a key: a value or none, and a time to expire at or none. -/
structure Stored where
  value : Option Bytes
  expiry : Option ℕ
  /-- Times are as wide as a `u128`. -/
  bounded : ∀ time ∈ expiry, time < 2 ^ 128

/-- The two files. -/
def Stored.cell (stored : Stored) : Cell where
  value := stored.value
  ttl := ttlFile stored.expiry

/-- Whether the time has come. -/
def Stored.expired (stored : Stored) (now : ℕ) : Bool :=
  stored.expiry.any (· ≤ now)

/-- What is held of the key from now on. -/
def Stored.held (stored : Stored) (now : ℕ) : Option Held :=
  if stored.expired now then none else stored.value.map fun value ↦ ⟨value, stored.expiry⟩

/-- Another value with the same time. -/
def Stored.withValue (stored : Stored) (value : Option Bytes) : Stored :=
  { stored with value }

/-- No time. -/
def Stored.bare (value : Option Bytes) : Stored where
  value
  expiry := none
  bounded := by simp

/-- A value that is set. -/
def Stored.written (value : Bytes) (ttl : Option ℕ) (now : ℕ) : Stored where
  value := some value
  expiry := ttl.map (expiresAt now)
  bounded := by
    intro time htime
    obtain ⟨ttl, -, rfl⟩ := Option.map_eq_some_iff.mp (Option.mem_def.mp htime)
    exact (min_le_right _ _).trans_lt (by norm_num)

variable {path : Path} {now : ℕ} {stored : Stored}

/-- Two states of a key are the same to every later `get`. -/
def Same (path : Path) (now : ℕ) (first second : Cell) : Prop :=
  ∀ later, now ≤ later →
    (Script.run Cell.handle (get path later) first).1 =
      (Script.run Cell.handle (get path later) second).1

theorem Stored.cell_expired (stored : Stored) (now : ℕ) :
    stored.cell.expired now = stored.expired now := by
  rw [Cell.expired, Stored.expired, Stored.cell, ttlFile]
  cases hexpiry : stored.expiry with
  | none => rfl
  | some time =>
    have htime : time < 256 ^ 16 := (stored.bounded time hexpiry).trans_eq (by norm_num)
    simp [length_bigEndian, ofBigEndian_bigEndian htime]

/-- A later read finds what is held, while it lives. -/
theorem Stored.live_cell {later : ℕ} (stored : Stored) (hlater : now ≤ later) :
    stored.cell.live later =
      ((stored.held now).filter fun held ↦ held.live later).map Held.value := by
  rw [Cell.live, Stored.cell_expired, Stored.held, Stored.expired, Stored.expired]
  cases hexpiry : stored.expiry with
  | none => cases hvalue : stored.value <;> simp [Stored.cell, hvalue, Held.live]
  | some time =>
    by_cases hnow : time ≤ now
    · simp [hnow, hnow.trans hlater]
    · by_cases hthen : time ≤ later
      · cases hvalue : stored.value <;> simp [hnow, hthen, Held.live, Option.filter,
          not_lt.mpr hthen]
      · cases hvalue : stored.value <;>
          simp [Stored.cell, hvalue, hnow, hthen, Held.live, Option.filter, not_le.mp hthen]

/-- What is held has not expired. -/
theorem Stored.held_live {held : Held} (hheld : stored.held now = some held) :
    held.live now = true := by
  rw [Stored.held] at hheld
  split_ifs at hheld with hexpired
  obtain ⟨value, -, rfl⟩ := Option.map_eq_some_iff.mp hheld
  rw [Stored.expired] at hexpired
  cases hexpiry : stored.expiry with
  | none => rfl
  | some time => simpa [Held.live, hexpiry] using hexpired

/-- Two values that live equally long to every later read expire at one time. -/
theorem Held.expiry_eq {held other : Held} (hheld : held.live now = true)
    (hother : other.live now = true) (hsame : ∀ later, now ≤ later →
      held.live later = other.live later) :
    held.expiry = other.expiry := by
  have hat {held other : Held} {time : ℕ} (hheld : held.live now = true)
      (hsame : ∀ later, now ≤ later → held.live later = other.live later)
      (htime : held.expiry = some time) : ∃ expiry ∈ other.expiry, expiry ≤ time := by
    have hlater : now ≤ time := by
      simp only [Held.live, htime, Option.all_some, decide_eq_true_eq] at hheld
      exact hheld.le
    have hend := hsame time hlater
    cases hexpiry : other.expiry with
    | none => simp [Held.live, htime, hexpiry] at hend
    | some expiry => simpa [Held.live, htime, hexpiry] using hend
  cases htime : held.expiry with
  | none =>
    cases hexpiry : other.expiry with
    | none => rfl
    | some expiry =>
      obtain ⟨_, hmem, -⟩ := hat hother (fun later hlater ↦ (hsame later hlater).symm) hexpiry
      simp [htime] at hmem
  | some time =>
    obtain ⟨expiry, hmem, hle⟩ := hat hheld hsame htime
    rw [Option.mem_def] at hmem
    obtain ⟨time', hmem', hge⟩ := hat hother (fun later hlater ↦ (hsame later hlater).symm) hmem
    rw [htime, Option.mem_some_iff] at hmem'
    rw [hmem]
    exact congrArg some (by omega)

/-- Two states are the same to every later read where they hold the same. -/
theorem same_iff (path : Path) (now : ℕ) (first second : Stored) :
    Same path now first.cell second.cell ↔ first.held now = second.held now := by
  have hget (stored : Stored) (later : ℕ) :
      (Script.run Cell.handle (get path later) stored.cell).1 =
      .ok (.value (stored.cell.live later)) := by
    rw [get, Script.run_bind_of_ok (run_readLive path later stored.cell)]
    rfl
  constructor
  · intro hsame
    have hlive (later : ℕ) (hlater : now ≤ later) :
        ((first.held now).filter fun held ↦ held.live later).map Held.value =
          ((second.held now).filter fun held ↦ held.live later).map Held.value := by
      have hread := hsame later hlater
      rw [hget, hget] at hread
      rw [← first.live_cell hlater, ← second.live_cell hlater]
      exact Result.value.inj (Except.ok.inj hread)
    have hnow := hlive now le_rfl
    cases hfirst : first.held now with
    | none =>
      cases hsecond : second.held now with
      | none => rfl
      | some other => simp [hfirst, hsecond, Option.filter, Stored.held_live hsecond] at hnow
    | some held =>
      cases hsecond : second.held now with
      | none => simp [hfirst, hsecond, Option.filter, Stored.held_live hfirst] at hnow
      | some other =>
        have hvalue : held.value = other.value := by
          simpa [hfirst, hsecond, Option.filter, Stored.held_live hfirst,
            Stored.held_live hsecond] using hnow
        have hexpiry : held.expiry = other.expiry := by
          refine Held.expiry_eq (Stored.held_live hfirst) (Stored.held_live hsecond) ?_
          intro later hlater
          have hthen := hlive later hlater
          rw [hfirst, hsecond] at hthen
          cases hheld : held.live later <;> cases hother : other.live later <;>
            simp [Option.filter, hheld, hother] at hthen ⊢
        cases held
        cases other
        simp_all
  · intro hsame later hlater
    rw [hget, hget, first.live_cell hlater, second.live_cell hlater, hsame]

/-! ### Operations that are all or nothing -/

/-- An operation that is stopped, or has a file step that fails, leaves what was there before or
what it leaves where it goes through; one that returns all the same leaves the latter. That a file
is missing is no step that fails. -/
structure AllOrNothing (path : Path) (now : ℕ) (operation : Operation Result) (stored : Stored) :
    Prop where
  stopped : ∀ left, Script.Stops Cell.handle operation stored.cell left →
    Same path now left stored.cell ∨
      Same path now left (Script.run Cell.handle operation stored.cell).2
  failed : ∀ fault result left, fault ≠ .disk .notFound →
    Script.Fails Cell.handle fault operation stored.cell (result, left) →
    Same path now left stored.cell ∨
      Same path now left (Script.run Cell.handle operation stored.cell).2
  returned : ∀ fault answer left, fault ≠ .disk .notFound →
    Script.Fails Cell.handle fault operation stored.cell (.ok answer, left) →
    Same path now left (Script.run Cell.handle operation stored.cell).2

/-- What is stored of a key when an action on it is all or nothing. -/
def Stored.Safe (stored : Stored) (now : ℕ) : Action → Prop
  | .get | .exists_ => stored.expired now = false ∨ stored.value = none
  | .delete => stored.value = none ∨ stored.expiry = none
  | .set value ttl => stored.expired now = true ∨ stored.value = some value ∨
    stored.expiry = ttl.map (expiresAt now)
  | .increment _ => stored.expired now = false
  | .cas expected _ => stored.expired now = false ∨ stored.value = none ∧ expected ≠ none

instance (stored : Stored) (now : ℕ) (action : Action) : Decidable (stored.Safe now action) := by
  cases action <;> unfold Stored.Safe <;> infer_instance

/-- The files with a value written, if one is. -/
def Stored.rewritten (stored : Stored) (wrote : Option Bytes) : Stored :=
  wrote.elim stored fun value ↦ { stored with value := some value }

/-- The rest of an operation after a read: it writes a value or none. -/
structure Finishes (operation : Operation Result) (wrote : Option Bytes)
    (result : Except Fault Result) : Prop where
  run : ∀ stored : Stored,
    Script.run Cell.handle operation stored.cell = (result, (stored.rewritten wrote).cell)
  stops : ∀ (stored : Stored) left, Script.Stops Cell.handle operation stored.cell left →
    left = stored.cell ∨ left = (stored.rewritten wrote).cell
  fails : ∀ fault (stored : Stored) outcome,
    Script.Fails Cell.handle fault operation stored.cell outcome →
    outcome = (.error fault, stored.cell)

theorem finishes_ofResult (result : Except Fault Result) :
    Finishes (Script.ofResult result) none result where
  run _ := rfl
  stops _ _ hstops := Or.inl hstops
  fails _ _ _ hfails := hfails.elim

theorem finishes_writeValue (path : Path) (value : Bytes) (answer : Result) :
    Finishes (writeValue .values path value >>= fun _ ↦ pure answer) (some value) (.ok answer) where
  run stored := Script.run_bind_of_ok (run_writeValue .values path value stored.cell)
  stops stored left hstops := by
    rw [Script.stops_bind_of_ok (run_writeValue .values path value stored.cell),
      stops_writeValue] at hstops
    rcases hstops with hstops | rfl
    · exact hstops
    · exact Or.inr rfl
  fails fault stored outcome hfails := by
    rw [Script.fails_bind_of_ok (run_writeValue .values path value stored.cell)] at hfails
    rcases hfails with ⟨first, hfirst, rfl⟩ | hfails
    · rw [fails_writeValue.mp hfirst]
      rfl
    · exact hfails.elim

theorem finishes_increment (path : Path) (delta : Int64) (found : Option Bytes) :
    Finishes
      (match addI64 found delta.toInt with
        | some incremented => do
          writeValue .values path (toBeBytes incremented)
          pure (.incremented incremented)
        | none => Script.fail .increment)
      ((addI64 found delta.toInt).map toBeBytes)
      ((addI64 found delta.toInt).elim (.error .increment) fun sum ↦ .ok (.incremented sum)) := by
  cases addI64 found delta.toInt with
  | none => exact finishes_ofResult _
  | some sum => exact finishes_writeValue path (toBeBytes sum) (.incremented sum)

theorem finishes_cas (path : Path) (expected : Option Bytes) (value : Bytes)
    (found : Option Bytes) :
    Finishes
      (if found = expected then do
        writeValue .values path value
        pure .swapped
      else pure (.conflict found))
      (if found = expected then some value else none)
      (if found = expected then .ok .swapped else .ok (.conflict found)) := by
  split_ifs with hsame
  · exact finishes_writeValue path value .swapped
  · exact finishes_ofResult _

/-- What is left of a key after it was read. -/
def Stored.swept (stored : Stored) (now : ℕ) : Stored :=
  if stored.expired now then Stored.bare none else stored

theorem Stored.cell_swept (stored : Stored) (now : ℕ) :
    stored.cell.swept now = (stored.swept now).cell := by
  rw [Cell.swept, Stored.swept, Stored.cell_expired]
  split_ifs <;> rfl

theorem Stored.held_of_expired (hexpired : stored.expired now = true) : stored.held now = none := by
  rw [Stored.held, if_pos hexpired]

theorem Stored.held_of_not_expired (hexpired : stored.expired now = false) :
    stored.held now = stored.value.map fun value ↦ ⟨value, stored.expiry⟩ := by
  rw [Stored.held, hexpired]
  rfl

theorem Stored.held_bare (value : Option Bytes) (now : ℕ) :
    (Stored.bare value).held now = value.map fun value ↦ ⟨value, none⟩ :=
  Stored.held_of_not_expired rfl

section Read

variable {next : Option Bytes → Operation Result} {wrote : Option Bytes → Option Bytes}
variable {result : Option Bytes → Except Fault Result}

/-- An operation that reads and then may write is all or nothing but on a value that has expired,
and there where no value is left and it writes none. -/
theorem allOrNothing_read_iff (hnext : ∀ found, Finishes (next found) (wrote found) (result found))
    (hresult : ∀ found, wrote found ≠ none → ∃ answer, result found = .ok answer) :
    AllOrNothing path now (readLive path now >>= next) stored ↔
      stored.expired now = false ∨ stored.value = none ∧ wrote none = none := by
  have hfirst := run_readLive path now stored.cell
  rw [Stored.cell_swept] at hfirst
  have hrun : (Script.run Cell.handle (readLive path now >>= next) stored.cell).2 =
      ((stored.swept now).rewritten (wrote (stored.cell.live now))).cell := by
    rw [Script.run_bind_of_ok hfirst, (hnext _).run]
  have hstops (left : Cell) :
      Script.Stops Cell.handle (readLive path now >>= next) stored.cell left ↔ _ :=
    Script.stops_bind_of_ok hfirst
  have hfails (fault : Fault) (outcome : Except Fault Result × Cell) :
      Script.Fails Cell.handle fault (readLive path now >>= next) stored.cell outcome ↔ _ :=
    Script.fails_bind_of_ok hfirst
  cases hexpired : stored.expired now with
  | false =>
    refine iff_of_true ?_ (Or.inl rfl)
    have hswept : stored.swept now = stored := by rw [Stored.swept, hexpired]; rfl
    rw [hswept] at hrun hstops hfails
    have hleft (left : Cell)
        (hstop : Script.Stops Cell.handle (readLive path now >>= next) stored.cell left) :
        left = stored.cell ∨
          left = (Script.run Cell.handle (readLive path now >>= next) stored.cell).2 := by
      rw [hrun]
      rcases (hstops left).mp hstop with hread | hrest
      · rw [stops_readLive, Stored.cell_expired, hexpired] at hread
        exact Or.inl (hread.resolve_right fun h ↦ by cases h.1)
      · exact (hnext _).stops stored left hrest
    have hfail (fault : Fault) (outcome : Except Fault Result × Cell)
        (hfault : fault ≠ .disk .notFound)
        (hfail : Script.Fails Cell.handle fault (readLive path now >>= next) stored.cell outcome) :
        outcome = (.error fault, stored.cell) := by
      rcases (hfails fault outcome).mp hfail with ⟨first, hread, rfl⟩ | hrest
      · rw [fails_readLive hfault, Stored.cell_expired, hexpired] at hread
        rw [hread.resolve_right fun h ↦ by cases h.1]
        rfl
      · exact (hnext _).fails fault stored outcome hrest
    constructor
    · intro left hstop
      rcases hleft left hstop with rfl | rfl
      · exact Or.inl fun _ _ ↦ rfl
      · exact Or.inr fun _ _ ↦ rfl
    · intro fault result left hfault hgiven
      obtain ⟨-, rfl⟩ := Prod.mk.inj (hfail fault _ hfault hgiven)
      exact Or.inl fun _ _ ↦ rfl
    · intro fault answer left hfault hgiven
      exact absurd (Prod.mk.inj (hfail fault _ hfault hgiven)).1 (by simp)
  | true =>
    simp only [Bool.true_eq_false, false_or]
    have hswept : stored.swept now = Stored.bare none := by rw [Stored.swept, hexpired]; rfl
    have hlive : stored.cell.live now = none := by
      rw [Cell.live, Stored.cell_expired, hexpired]
      rfl
    have hheld := Stored.held_of_expired hexpired
    rw [hswept, hlive] at hrun hstops hfails
    have hread : stored.cell.expired now = true := by rw [Stored.cell_expired, hexpired]
    constructor
    · intro hall
      -- a step on the time that fails leaves it to a value that is written
      have hnone : wrote none = none := by
        by_contra hwrote
        obtain ⟨value, hvalue⟩ := Option.ne_none_iff_exists'.mp hwrote
        obtain ⟨answer, hanswer⟩ := hresult none hwrote
        have hrest := (hnext none).run (stored.withValue none)
        rw [hanswer, hvalue] at hrest
        have hgiven := hall.returned .step answer _ (by decide) ((hfails _ _).mpr (Or.inl
          ⟨(.ok none, ⟨none, stored.cell.ttl⟩),
            (fails_readLive (by decide)).mpr (Or.inr ⟨hread, Or.inl rfl⟩), hrest.symm⟩))
        rw [hrun, hvalue, same_iff] at hgiven
        have hlost : ((stored.withValue none).rewritten (some value)).expired now = true := hexpired
        rw [Stored.held_of_expired hlost] at hgiven
        cases hgiven
      refine ⟨?_, hnone⟩
      -- once the time is gone the value is back
      by_contra hvalue
      obtain ⟨value, hvalue⟩ := Option.ne_none_iff_exists'.mp hvalue
      have hstop := hall.stopped (Stored.bare stored.value).cell ((hstops _).mpr (Or.inl
        (stops_readLive.mpr (Or.inr ⟨hread, Or.inl rfl⟩))))
      rw [hrun, hnone, same_iff, same_iff, Stored.held_bare, hvalue, hheld] at hstop
      rcases hstop with hstop | hstop
      · cases hstop
      · cases hstop
    · rintro ⟨hvalue, hnone⟩
      rw [hnone] at hrun
      have hnothing {left : Stored} (hleft : left.value = none) :
          Same path now left.cell stored.cell ∧
            Same path now left.cell
              (Script.run Cell.handle (readLive path now >>= next) stored.cell).2 := by
        have hempty : left.held now = none := by
          rw [Stored.held, hleft]
          split_ifs <;> rfl
        rw [hrun, same_iff, same_iff, hempty, hheld]
        exact ⟨rfl, rfl⟩
      have hleft (left : Cell)
          (hstop : Script.Stops Cell.handle (readLive path now >>= next) stored.cell left) :
          ∃ given : Stored, given.value = none ∧ left = given.cell := by
        rcases (hstops left).mp hstop with hgiven | hrest
        · rcases stops_readLive.mp hgiven with rfl | ⟨-, rfl | rfl⟩
          · exact ⟨stored, hvalue, rfl⟩
          · exact ⟨Stored.bare stored.value, hvalue, rfl⟩
          · exact ⟨Stored.bare none, rfl, rfl⟩
        · have hend := (hnext none).stops (Stored.bare none) left hrest
          rw [hnone] at hend
          exact ⟨Stored.bare none, rfl, hend.elim id id⟩
      have hfail (fault : Fault) (outcome : Except Fault Result × Cell)
          (hfault : fault ≠ .disk .notFound)
          (hfail : Script.Fails Cell.handle fault
            (readLive path now >>= next) stored.cell outcome) :
          ∃ given : Stored, given.value = none ∧ outcome.2 = given.cell := by
        rcases (hfails fault outcome).mp hfail with ⟨first, hgiven, rfl⟩ | hrest
        · rcases (fails_readLive hfault).mp hgiven with rfl | ⟨-, rfl | rfl⟩
          · exact ⟨stored, hvalue, rfl⟩
          · have hend := (hnext none).run (stored.withValue none)
            rw [hnone] at hend
            exact ⟨stored.withValue none, rfl, congrArg Prod.snd hend⟩
          · exact ⟨Stored.bare stored.value, hvalue, rfl⟩
        · rw [(hnext none).fails fault (Stored.bare none) outcome hrest]
          exact ⟨Stored.bare none, rfl, rfl⟩
      constructor
      · intro left hstop
        obtain ⟨given, hgiven, rfl⟩ := hleft left hstop
        exact Or.inl (hnothing hgiven).1
      · intro fault result left hfault hgiven
        obtain ⟨given, hempty, rfl⟩ := hfail fault _ hfault hgiven
        exact Or.inl (hnothing hempty).1
      · intro fault answer left hfault hgiven
        obtain ⟨given, hempty, rfl⟩ := hfail fault _ hfault hgiven
        exact (hnothing hempty).2

end Read

/-- A removal is all or nothing where there is no value, or no time to go before it. -/
theorem allOrNothing_delete_iff :
    AllOrNothing path now (delete path) stored ↔ stored.value = none ∨ stored.expiry = none := by
  have hfirst := run_removeEntry path stored.cell
  have hrun : (Script.run Cell.handle (delete path) stored.cell).2 = (Stored.bare none).cell :=
    congrArg Prod.snd (Script.run_bind_of_ok hfirst)
  have hstops (left : Cell) : Script.Stops Cell.handle (delete path) stored.cell left ↔
      left = stored.cell ∨ left = (Stored.bare stored.value).cell ∨
        left = (Stored.bare none).cell := by
    rw [delete, Script.stops_bind_of_ok hfirst, stops_removeEntry]
    change (_ ∨ _ ∨ left = (Stored.bare none).cell) ∨ left = (Stored.bare none).cell ↔ _
    tauto
  have hfails (fault : Fault) (hfault : fault ≠ .disk .notFound)
      (outcome : Except Fault Result × Cell) :
      Script.Fails Cell.handle fault (delete path) stored.cell outcome ↔
        outcome = (.ok .done, (stored.withValue none).cell) ∨
          outcome = (.error fault, (Stored.bare stored.value).cell) := by
    rw [delete, Script.fails_bind_of_ok hfirst]
    simp only [fails_removeEntry hfault]
    change _ ∨ False ↔ _
    rw [or_false]
    constructor
    · rintro ⟨_, rfl | rfl, rfl⟩
      · exact Or.inl rfl
      · exact Or.inr rfl
    · rintro (rfl | rfl)
      · exact ⟨_, Or.inl rfl, rfl⟩
      · exact ⟨_, Or.inr rfl, rfl⟩
  have hgone : (stored.withValue none).held now = none := by
    rw [Stored.held]
    split_ifs <;> rfl
  have hempty : (Stored.bare none).held now = none := Stored.held_bare none now
  constructor
  · intro hall
    by_contra hneither
    rw [not_or] at hneither
    obtain ⟨value, hvalue⟩ := Option.ne_none_iff_exists'.mp hneither.1
    obtain ⟨time, htime⟩ := Option.ne_none_iff_exists'.mp hneither.2
    have hstop := hall.stopped _ ((hstops _).mpr (Or.inr (Or.inl rfl)))
    rw [hrun, same_iff, same_iff, Stored.held_bare, hempty, hvalue, Stored.held, hvalue, htime]
      at hstop
    split_ifs at hstop <;> simp at hstop
  · intro hnone
    have hbare : (Stored.bare stored.value).held now = stored.held now := by
      rcases hnone with hvalue | hexpiry
      · rw [Stored.held_bare, Stored.held, hvalue]
        split_ifs <;> rfl
      · rw [Stored.held_bare, Stored.held, Stored.expired, hexpiry]
        rfl
    constructor
    · intro left hstop
      rcases (hstops left).mp hstop with rfl | rfl | rfl
      · exact Or.inl fun _ _ ↦ rfl
      · exact Or.inl ((same_iff _ _ _ _).mpr hbare)
      · exact Or.inr (hrun ▸ fun _ _ ↦ rfl)
    · intro fault result left hfault hgiven
      rcases (hfails fault hfault _).mp hgiven with hend | hend
      · obtain ⟨-, rfl⟩ := Prod.mk.inj hend
        rw [hrun, same_iff, same_iff]
        exact Or.inr (hgone.trans hempty.symm)
      · obtain ⟨-, rfl⟩ := Prod.mk.inj hend
        exact Or.inl ((same_iff _ _ _ _).mpr hbare)
    · intro fault answer left hfault hgiven
      rcases (hfails fault hfault _).mp hgiven with hend | hend
      · obtain ⟨-, rfl⟩ := Prod.mk.inj hend
        rw [hrun, same_iff]
        exact hgone.trans hempty.symm
      · cases (Prod.mk.inj hend).1

/-- A value that is set has the old time for a while: that is nothing new where the old value has
expired, is the same, or has the time that is set. -/
theorem allOrNothing_set_iff {value : Bytes} {ttl : Option ℕ} :
    AllOrNothing path now (set path value ttl now) stored ↔
      stored.expired now = true ∨ stored.value = some value ∨
        stored.expiry = ttl.map (expiresAt now) := by
  have hfirst := run_writeValue .values path value stored.cell
  have hmiddle : stored.cell.withFile (some value) .values = (stored.withValue (some value)).cell :=
    rfl
  rw [hmiddle] at hfirst
  have hsecond := run_writeTtl path ttl now (stored.withValue (some value)).cell
  have hlast : (stored.withValue (some value)).cell.withFile
      (ttlFile (ttl.map (expiresAt now))) .ttls =
      (Stored.written value ttl now).cell := rfl
  rw [hlast] at hsecond
  have hrun : (Script.run Cell.handle (set path value ttl now) stored.cell).2 =
      (Stored.written value ttl now).cell := by
    rw [set, Script.run_bind_of_ok hfirst, Script.run_bind_of_ok hsecond]
    rfl
  have hstops (left : Cell) : Script.Stops Cell.handle (set path value ttl now) stored.cell left ↔
      left = stored.cell ∨ left = (stored.withValue (some value)).cell ∨
        left = (Stored.written value ttl now).cell := by
    rw [set, Script.stops_bind_of_ok hfirst, Script.stops_bind_of_ok hsecond, stops_writeValue,
      stops_writeTtl, hlast, hmiddle]
    change (_ ∨ _) ∨ (_ ∨ _) ∨ left = (Stored.written value ttl now).cell ↔ _
    tauto
  have hfails (fault : Fault) (hfault : fault ≠ .disk .notFound)
      (outcome : Except Fault Result × Cell)
      (hgiven : Script.Fails Cell.handle fault (set path value ttl now) stored.cell outcome) :
      outcome = (.error fault, stored.cell) ∨
        outcome = (.error fault, (stored.withValue (some value)).cell) := by
    rw [set, Script.fails_bind_of_ok hfirst, Script.fails_bind_of_ok hsecond] at hgiven
    rcases hgiven with ⟨first, hend, rfl⟩ | ⟨second, hend, rfl⟩ | hend
    · rw [fails_writeValue.mp hend]
      exact Or.inl rfl
    · rw [(fails_writeTtl hfault).mp hend]
      exact Or.inr rfl
    · exact hend.elim
  -- whether the value with the old time is the old value or the new one
  have hbetween : (stored.withValue (some value)).held now = stored.held now ∨
      (stored.withValue (some value)).held now = (Stored.written value ttl now).held now ↔
      stored.expired now = true ∨ stored.value = some value ∨
        stored.expiry = ttl.map (expiresAt now) := by
    cases hexpired : stored.expired now with
    | true =>
      have hlost : (stored.withValue (some value)).expired now = true := hexpired
      rw [Stored.held_of_expired hexpired, Stored.held_of_expired hlost]
      exact iff_of_true (Or.inl rfl) (Or.inl rfl)
    | false =>
      have hkept : (stored.withValue (some value)).held now = some ⟨value, stored.expiry⟩ :=
        have hnot : (stored.withValue (some value)).expired now = false := hexpired
        Stored.held_of_not_expired hnot
      rw [hkept, Stored.held_of_not_expired hexpired]
      simp only [Bool.false_eq_true, false_or]
      refine or_congr ?_ ⟨fun hsame ↦ ?_, fun hsame ↦ ?_⟩
      · cases hvalue : stored.value <;> simp [eq_comm]
      · rw [Stored.held] at hsame
        split_ifs at hsame with hwritten
        exact (Held.mk.inj (Option.some.inj hsame)).2
      · have hwritten : (Stored.written value ttl now).expired now = false := by
          rw [← hexpired, Stored.expired, Stored.expired, hsame]
          rfl
        rw [Stored.held_of_not_expired hwritten, hsame]
        rfl
  rw [← hbetween]
  constructor
  · intro hall
    have hstop := hall.stopped _ ((hstops _).mpr (Or.inr (Or.inl rfl)))
    rwa [hrun, same_iff, same_iff] at hstop
  · intro hsame
    constructor
    · intro left hstop
      rcases (hstops left).mp hstop with rfl | rfl | rfl
      · exact Or.inl fun _ _ ↦ rfl
      · rw [hrun, same_iff, same_iff]
        exact hsame
      · exact Or.inr (hrun ▸ fun _ _ ↦ rfl)
    · intro fault result left hfault hgiven
      rcases hfails fault hfault _ hgiven with hend | hend
      · obtain ⟨-, rfl⟩ := Prod.mk.inj hend
        exact Or.inl fun _ _ ↦ rfl
      · obtain ⟨-, rfl⟩ := Prod.mk.inj hend
        rw [hrun, same_iff, same_iff]
        exact hsame
    · intro fault answer left hfault hgiven
      rcases hfails fault hfault _ hgiven with hend | hend
      · cases (Prod.mk.inj hend).1
      · cases (Prod.mk.inj hend).1

/-- Which actions are all or nothing on which stored states. -/
theorem allOrNothing_iff (path : Path) (now : ℕ) (action : Action) (stored : Stored) :
    AllOrNothing path now (onPath path now action) stored ↔ stored.Safe now action := by
  cases action with
  | get =>
    have hread : AllOrNothing path now (get path now) stored ↔ _ :=
      allOrNothing_read_iff (fun found ↦ finishes_ofResult (.ok (.value found)))
        fun _ hwrote ↦ absurd rfl hwrote
    exact hread.trans (or_congr_right (and_iff_left rfl))
  | exists_ =>
    have hread : AllOrNothing path now (exists_ path now) stored ↔ _ :=
      allOrNothing_read_iff (fun found ↦ finishes_ofResult (.ok (.present found.isSome)))
        fun _ hwrote ↦ absurd rfl hwrote
    exact hread.trans (or_congr_right (and_iff_left rfl))
  | delete => exact allOrNothing_delete_iff
  | set value ttl => exact allOrNothing_set_iff
  | increment delta =>
    have hresult (found : Option Bytes)
        (hwrote : (addI64 found delta.toInt).map toBeBytes ≠ none) :
        ∃ answer, (addI64 found delta.toInt).elim (Except.error Fault.increment)
          (fun sum ↦ .ok (Result.incremented sum)) = .ok answer := by
      cases hsum : addI64 found delta.toInt with
      | none => exact absurd (by rw [hsum]; rfl) hwrote
      | some sum => exact ⟨.incremented sum, rfl⟩
    refine (allOrNothing_read_iff (finishes_increment path delta) hresult).trans (or_iff_left ?_)
    have hnone : (addI64 none delta.toInt).map toBeBytes ≠ none := by
      have hrange : InI64 delta.toInt := ⟨delta.le_toInt, delta.toInt_lt⟩
      simp [addI64, checkedAdd, hrange]
    exact fun hempty ↦ hnone hempty.2
  | cas expected value =>
    have hread : AllOrNothing path now (cas path expected value now) stored ↔ _ :=
      allOrNothing_read_iff (finishes_cas path expected value) fun found hwrote ↦ ?_
    · refine hread.trans (or_congr_right (and_congr_right fun _ ↦ ?_))
      by_cases hexpected : none = expected
      · simp [← hexpected]
      · simp [hexpected, Ne.symm hexpected]
    · by_cases hsame : found = expected
      · exact ⟨.swapped, by rw [if_pos hsame]⟩
      · exact absurd (if_neg hsame) hwrote

/-- A value that expires at 100 is set to another one without a time. Stopped in the middle, the new
value expires at 100. -/
theorem not_allOrNothing_set :
    ¬AllOrNothing [text "k"] 0 (onPath [text "k"] 0 (.set [2] none))
      ⟨some [1], some 100, by decide⟩ :=
  allOrNothing_set_iff.not.mpr (by decide)

end OmniaBackends.Filesystem
