import OmniaBackends.Filesystem.MapRefinement
import OmniaBackends.Nats.Sequential
import OmniaBackends.Redis.KeyValue

/-!
# One guest on three key-value backends

The filesystem, NATS and Redis implement the same bucket over files, a stream and the server's
commands. A guest calls one operation at a time on a bucket of each, without a time to live, under
keys that all three accept and of which none is a path above another.

The filesystem answers as a map does whatever the calls (`outputs_onFiles`), and so does NATS while
its server has room for each write and no message grows to the bucket's max age
(`outputs_onStream_iff`): they keep a counter as eight bytes. Redis keeps it as decimal text, and no
value reads as one number in both forms (`ne_of_fromBeBytes_of_parseInteger`). So the three answer
alike exactly where no call tells the two forms apart (`interchangeable_iff`): a counter is neither
read nor swapped, and what was set or swapped in is not counted on from, unless an increment of it
is refused in both.

What a key holds is kept by a `ledger`: the bytes that the guest gave, or a number that was counted,
whatever it is written as. What a server of NATS has room for is a parameter, a predicate on the
stream that a write would leave: the bucket's 100 MiB are part of it, and so is what the server
takes as one message.
-/

set_option autoImplicit false
set_option relaxedAutoImplicit false

namespace OmniaBackends.KeyValue

open Foundation

/-! ### The forms of a counter -/

variable {value : Option Bytes} {bytes : Bytes} {number other delta : ℤ}

/-- `add_i64` refuses a value where it is no counter or the sum is out of range. -/
theorem addI64_some_eq_none_iff : addI64 (some bytes) delta = none ↔
    ∀ number, fromBeBytes bytes = some number → ¬ InI64 (number + delta) := by
  simp [addI64, checkedAdd]

/-- `INCRBY` refuses one where it is no integer or the sum is out of range. -/
theorem incrBy_some_eq_none_iff : Redis.incrBy (some bytes) delta = none ↔
    ∀ number, Redis.parseInteger bytes = some number → ¬ InI64 (number + delta) := by
  simp [Redis.incrBy, checkedAdd]

/-- The server reads an integer as it has written it. -/
theorem parseInteger_decimalOf (hnumber : InI64 number) :
    Redis.parseInteger (decimalOf number) = some number := by
  rw [Redis.parseInteger, parseSigned_decimalOf, Option.filter_some]
  exact if_pos (decide_eq_true ⟨rfl, hnumber⟩)

/-- No value reads as one number in both forms: eight bytes of decimal text are a number below
`10 ^ 8`, and the first of them alone makes the number that they are in binary larger. -/
theorem ne_of_fromBeBytes_of_parseInteger (hbytes : fromBeBytes bytes = some number)
    (htext : Redis.parseInteger bytes = some other) : number ≠ other := by
  simp only [fromBeBytes, Option.ite_none_right_eq_some, Option.some.injEq] at hbytes
  obtain ⟨hlength, rfl⟩ := hbytes
  obtain ⟨hsigned, -⟩ := Option.filter_eq_some_iff.mp htext
  obtain ⟨first, rest, rfl⟩ := List.exists_cons_of_length_eq_add_one hlength
  have hrest : rest.length = 7 := by simpa using hlength
  obtain ⟨hlow, hhigh⟩ := head_of_parseSigned hsigned
  have hshort := natAbs_lt_of_parseSigned hsigned
  have hbelow := ofBigEndian_lt rest
  rw [hlength] at hshort
  rw [hrest] at hbelow
  rw [ofBigEndian_cons, hrest, Int.bmod_def]
  split_ifs <;> omega

/-- A counter is not the same bytes in both forms. -/
theorem toBeBytes_ne_decimalOf (hnumber : InI64 number) : toBeBytes number ≠ decimalOf number := by
  intro hsame
  refine ne_of_fromBeBytes_of_parseInteger (fromBeBytes_toBeBytes hnumber) ?_ rfl
  rw [hsame, parseInteger_decimalOf hnumber]

/-! ### What a key holds -/

/-- Where what a key holds is from. -/
inductive Origin where
  /-- The guest gave it. -/
  | given (value : Bytes)
  /-- It was counted. -/
  | counted (number : ℤ) (inRange : InI64 number)

/-- What is held where counters are eight bytes. -/
def Origin.inBytes : Origin → Bytes
  | given value => value
  | counted number _ => toBeBytes number

/-- What is held where counters are decimal text. -/
def Origin.inText : Origin → Bytes
  | given value => value
  | counted number _ => decimalOf number

/-- A number that a delta is added to where the sum is in range. -/
def Origin.add (number : ℤ) (inRange : InI64 number) (delta : ℤ) : Origin :=
  if hsum : InI64 (number + delta) then .counted (number + delta) hsum else .counted number inRange

/-- What an action leaves. -/
def Origin.next (origin : Option Origin) : Action → Option Origin
  | .get | .exists_ => origin
  | .set value _ => some (.given value)
  | .delete => none
  | .increment delta =>
    match origin with
    | none => some (.counted delta.toInt ⟨delta.le_toInt, delta.toInt_lt⟩)
    | some (.given value) => some (.given value)
    | some (.counted number inRange) => some (.add number inRange delta.toInt)
  | .cas expected value =>
    match origin with
    | none => if expected = none then some (.given value) else none
    | some (.given held) => if expected = some held then some (.given value) else some (.given held)
    | some (.counted number inRange) => some (.counted number inRange)

/-- An action does not tell the forms of a counter apart: it neither reads nor swaps what was
counted, and what was given it does not count on from in either form. -/
def Alike (origin : Option Origin) : Action → Prop
  | .get => ∀ number inRange, origin ≠ some (.counted number inRange)
  | .cas _ _ => ∀ number inRange, origin ≠ some (.counted number inRange)
  | .increment delta => ∀ value, origin = some (.given value) →
    ∀ number, fromBeBytes value = some number ∨ Redis.parseInteger value = some number →
      ¬ InI64 (number + delta.toInt)
  | .set _ _ | .delete | .exists_ => True

/-- A value that stays. -/
def lasting (value : Option Bytes) : Option Held :=
  value.map fun value ↦ ⟨value, none⟩

@[simp]
theorem lasting_filter_live (value : Option Bytes) (now : ℕ) :
    (lasting value).filter (fun held ↦ held.live now) = lasting value := by
  cases value <;> rfl

@[simp]
theorem lasting_map_value (value : Option Bytes) : (lasting value).map Held.value = value := by
  cases value <;> rfl

@[simp]
theorem lasting_bind_expiry (value : Option Bytes) : (lasting value).bind Held.expiry = none := by
  cases value <;> rfl

@[simp]
theorem isNone_lasting (value : Option Bytes) : (lasting value).isNone = value.isNone := by
  cases value <;> rfl

@[simp]
theorem isSome_lasting (value : Option Bytes) : (lasting value).isSome = value.isSome := by
  cases value <;> rfl

/-! ### What an action answers and leaves of values that stay -/

variable {action : Action} {origin : Option Origin}

/-- A count of the map. -/
theorem Action.run_increment (delta : Int64) (now : ℕ) (value : Option Bytes) :
    (Action.increment delta).run now (lasting value) =
      (addI64 value delta.toInt).elim (.failed, lasting value) fun sum ↦
        (.incremented sum, lasting (some (toBeBytes sum))) := by
  simp only [Action.run, lasting_filter_live, lasting_map_value, lasting_bind_expiry]
  cases addI64 value delta.toInt <;> rfl

/-- A count of the server. -/
theorem run_increment (delta : Int64) (now : ℕ) (value : Option Bytes) :
    Redis.run (.increment delta) now (lasting value) =
      (Redis.incrBy value delta.toInt).elim (.failed, lasting value) fun sum ↦
        (.incremented sum, lasting (some (decimalOf sum))) := by
  simp only [Redis.run, lasting_filter_live, lasting_map_value, lasting_bind_expiry]
  cases Redis.incrBy value delta.toInt <;> rfl

/-- A swap of the map. -/
theorem Action.run_cas (expected : Option Bytes) (payload : Bytes) (now : ℕ)
    (value : Option Bytes) : (Action.cas expected payload).run now (lasting value) =
      if expected = value then (.swapped, lasting (some payload))
      else (.conflict value, lasting value) := by
  simp only [Action.run, lasting_filter_live, lasting_map_value, lasting_bind_expiry, eq_comm]
  rfl

/-- A swap of the server. -/
theorem run_cas (expected : Option Bytes) (payload : Bytes) (now : ℕ) (value : Option Bytes) :
    Redis.run (.cas expected payload) now (lasting value) =
      if expected = value then (.swapped, lasting (some payload))
      else (.conflict value, lasting value) := by
  simp only [Redis.run, lasting_filter_live, Redis.casScript, lasting_map_value,
    lasting_bind_expiry, isNone_lasting]
  cases expected with
  | none =>
    cases value with
    | none => rfl
    | some held => rfl
  | some payload' =>
    cases value with
    | none => rfl
    | some held =>
      by_cases hsame : payload' = held
      · subst hsame
        simp [Redis.casResult, lasting]
      · simp [Redis.casResult, lasting, hsame, Ne.symm hsame]

/-- What counting on from eight bytes comes to. -/
theorem addI64_counted (inRange : InI64 number) (delta : ℤ) :
    addI64 (some (toBeBytes number)) delta = checkedAdd number delta := by
  rw [addI64, Option.elim_some, fromBeBytes_toBeBytes inRange, Option.bind_some]

/-- What counting on from decimal text comes to. -/
theorem incrBy_counted (inRange : InI64 number) (delta : ℤ) :
    Redis.incrBy (some (decimalOf number)) delta = checkedAdd number delta := by
  rw [Redis.incrBy, Option.elim_some, parseInteger_decimalOf inRange, Option.bind_some]

/-- Two counts of what the guest gave come to the same where both are refused. -/
theorem addI64_eq_incrBy_iff : addI64 (some bytes) delta = Redis.incrBy (some bytes) delta ↔
    addI64 (some bytes) delta = none ∧ Redis.incrBy (some bytes) delta = none := by
  refine ⟨fun hsame ↦ ?_, fun hrefused ↦ hrefused.1.trans hrefused.2.symm⟩
  suffices hnone : addI64 (some bytes) delta = none from ⟨hnone, hsame ▸ hnone⟩
  by_contra hsome
  obtain ⟨sum, hsum⟩ := Option.ne_none_iff_exists'.mp hsome
  have hsum' := hsum
  rw [hsame] at hsum'
  obtain ⟨number, hbytes, hadd⟩ := Option.bind_eq_some_iff.mp hsum
  obtain ⟨other, htext, hadd'⟩ := Option.bind_eq_some_iff.mp hsum'
  have heq := (of_checkedAdd hadd).1
  have heq' := (of_checkedAdd hadd').1
  exact ne_of_fromBeBytes_of_parseInteger hbytes htext (by omega)

/-- Two counts are answered alike where they come to the same. -/
theorem count_eq_iff {count count' : Option ℤ} {left left' : Option Held}
    {write write' : ℤ → Option Held} :
    (count.elim (Result.failed, left) fun sum ↦ (.incremented sum, write sum)).1 =
        (count'.elim (Result.failed, left') fun sum ↦ (.incremented sum, write' sum)).1 ↔
      count = count' := by
  cases count <;> cases count' <;> simp

/-- A swap is not answered alike where the values differ. -/
theorem swap_ne {expected value other : Option Bytes} {payload : Bytes} (hne : value ≠ other) :
    (if expected = value then (Result.swapped, lasting (some payload))
      else (.conflict value, lasting value)).1 ≠
    (if expected = other then (Result.swapped, lasting (some payload))
      else (.conflict other, lasting other)).1 := by
  split_ifs with hvalue hother hother
  · exact absurd (hvalue.symm.trans hother) hne
  · exact fun hsame ↦ by cases hsame
  · exact fun hsame ↦ by cases hsame
  · exact fun hsame ↦ hne (Result.conflict.inj hsame)

/-- Both forms of a bucket give one answer where an action does not tell them apart, and no other
one. -/
theorem run_eq_run_iff (origin : Option Origin)
    (hunexpiring : ∀ value ttl, action ≠ .set value (some ttl)) (now later : ℕ) :
    (action.run now (lasting (origin.map Origin.inBytes))).1 =
        (Redis.run action later (lasting (origin.map Origin.inText))).1 ↔ Alike origin action := by
  cases action with
  | get =>
    simp only [Action.run, Redis.run, lasting_filter_live, lasting_map_value, Result.value.injEq,
      Alike]
    rcases origin with - | value | ⟨number, inRange⟩
    · simp
    · simp [Origin.inBytes, Origin.inText]
    · simp [Origin.inBytes, Origin.inText, toBeBytes_ne_decimalOf inRange, inRange]
  | exists_ => simp [Action.run, Redis.run, Alike]
  | set value ttl =>
    cases ttl with
    | none => exact iff_of_true rfl trivial
    | some ttl => exact absurd rfl (hunexpiring value ttl)
  | delete => exact iff_of_true rfl trivial
  | increment delta =>
    rw [Action.run_increment, run_increment]
    refine count_eq_iff.trans ?_
    rcases origin with - | value | ⟨number, inRange⟩
    · exact iff_of_true rfl fun value horigin ↦ by cases horigin
    · rw [Option.map_some, Option.map_some, Origin.inBytes, Origin.inText, addI64_eq_incrBy_iff,
        addI64_some_eq_none_iff, incrBy_some_eq_none_iff, Alike]
      simp only [Option.some.injEq, Origin.given.injEq, forall_eq', or_imp, forall_and]
    · rw [Option.map_some, Option.map_some, Origin.inBytes, Origin.inText,
        addI64_counted inRange, incrBy_counted inRange]
      exact iff_of_true rfl fun value horigin ↦ by cases horigin
  | cas expected payload =>
    rw [Action.run_cas, run_cas, Alike]
    rcases origin with - | value | ⟨number, inRange⟩
    · simp
    · refine iff_of_true rfl ?_
      simp
    · refine iff_of_false (swap_ne ?_) fun halike ↦ halike number inRange rfl
      simp [Origin.inBytes, Origin.inText, toBeBytes_ne_decimalOf inRange]

/-- What it leaves is of one origin then. -/
theorem run_next (hunexpiring : ∀ value ttl, action ≠ .set value (some ttl))
    (halike : Alike origin action) (now later : ℕ) :
    (action.run now (lasting (origin.map Origin.inBytes))).2 =
        lasting ((Origin.next origin action).map Origin.inBytes) ∧
      (Redis.run action later (lasting (origin.map Origin.inText))).2 =
        lasting ((Origin.next origin action).map Origin.inText) := by
  cases action with
  | get | exists_ =>
    simp only [Action.run, Redis.run, lasting_filter_live]
    exact ⟨rfl, rfl⟩
  | set value ttl =>
    cases ttl with
    | none => exact ⟨rfl, rfl⟩
    | some ttl => exact absurd rfl (hunexpiring value ttl)
  | delete => exact ⟨rfl, rfl⟩
  | increment delta =>
    rw [Action.run_increment, run_increment]
    rcases origin with - | value | ⟨number, inRange⟩
    · have hsum : checkedAdd 0 delta.toInt = some delta.toInt := by
        rw [checkedAdd, Int.zero_add, if_pos ⟨delta.le_toInt, delta.toInt_lt⟩]
      have hbytes : addI64 none delta.toInt = some delta.toInt := hsum
      have htext : Redis.incrBy none delta.toInt = some delta.toInt := hsum
      rw [Option.map_none, Option.map_none, hbytes, htext]
      exact ⟨rfl, rfl⟩
    · have hbytes : addI64 (some value) delta.toInt = none :=
        addI64_some_eq_none_iff.mpr fun number hnumber ↦
          halike value rfl number (Or.inl hnumber)
      have htext : Redis.incrBy (some value) delta.toInt = none :=
        incrBy_some_eq_none_iff.mpr fun number hnumber ↦
          halike value rfl number (Or.inr hnumber)
      rw [Option.map_some, Option.map_some, Origin.inBytes, Origin.inText, hbytes, htext]
      exact ⟨rfl, rfl⟩
    · rw [Option.map_some, Option.map_some, Origin.inBytes, Origin.inText,
        addI64_counted inRange, incrBy_counted inRange, Origin.next, checkedAdd, Origin.add]
      split_ifs with hsum
      · exact ⟨rfl, rfl⟩
      · exact ⟨rfl, rfl⟩
  | cas expected payload =>
    rw [Action.run_cas, run_cas]
    rcases origin with - | value | ⟨number, inRange⟩
    · rw [Option.map_none, Option.map_none, Origin.next]
      split_ifs
      · exact ⟨rfl, rfl⟩
      · exact ⟨rfl, rfl⟩
    · rw [Option.map_some, Option.map_some, Origin.inBytes, Origin.inText, Origin.next]
      split_ifs
      · exact ⟨rfl, rfl⟩
      · exact ⟨rfl, rfl⟩
    · exact absurd rfl (halike number inRange)

/-! ### Calls on a bucket of each backend -/

/-- Keys that all three backends accept, none a path above another. -/
structure SharedKeys where
  keys : Set Bytes
  accepted : ∀ key ∈ keys, Filesystem.accepts key = true
  validated : ∀ key ∈ keys, Nats.validateKey key = true
  apart : ∀ key ∈ keys, ∀ above ∈ keys, ∀ path shorter, Filesystem.keyPath key = .ok path →
    Filesystem.keyPath above = .ok shorter → shorter <+: path → shorter = path

/-- A call of the guest, without a time to live. -/
structure Call (shared : SharedKeys) where
  key : Bytes
  action : Action
  /-- What the clock of the host reads. -/
  now : ℕ
  /-- How much time has passed on the servers since the call before. -/
  passed : ℕ
  mem : key ∈ shared.keys
  unexpiring : ∀ value ttl, action ≠ .set value (some ttl)

variable {shared : SharedKeys}

/-- What a call asks of a bucket in a directory tree. -/
def Call.op (call : Call shared) : Op :=
  .on call.key call.action call.now

/-- What a bucket in a directory tree makes of a call. -/
def onFiles (files : Filesystem.Files) (call : Call shared) : Filesystem.Files × Output :=
  Filesystem.next files call.op

/-- The stream that a call finds. -/
def Call.finds (call : Call shared) (kvMaxAge : Option ℕ) (stream : Nats.Stream) : Nats.Stream :=
  (stream.advance call.passed).retire (Nats.config kvMaxAge) call.key

/-- What a bucket of a stream makes of a call, where `fits` says which streams the server holds
within a number of bytes. -/
def onStream (fits : ℕ → Nats.Stream → Bool) (kvMaxAge : Option ℕ) (stream : Nats.Stream)
    (call : Call shared) : Nats.Stream × Output :=
  let (after, result) := Nats.perform (fits (Nats.config kvMaxAge).maxBytes)
    (call.finds kvMaxAge stream) call.key call.action
  (after, .result result)

/-- The server holds what a call writes. -/
def Roomy (fits : ℕ → Nats.Stream → Bool) (kvMaxAge : Option ℕ) (stream : Nats.Stream)
    (call : Call shared) : Prop :=
  ∀ after, (call.finds kvMaxAge stream).written call.key call.action = some after →
    fits (Nats.config kvMaxAge).maxBytes after = true

/-- What a bucket of the server of Redis makes of one. -/
def onServer (identifier : Bytes) (server : Redis.Space Bytes) (call : Call shared) :
    Redis.Space Bytes × Output :=
  let later := (server.next Redis.address (.elapse call.passed)).1
  let (after, result) := later.next Redis.address (.call identifier call.key call.action)
  (after, .result (result.getD .failed))

/-- What a map makes of one. -/
def onMap (map : Map) (call : Call shared) : Map × Output :=
  (Function.update map call.key (call.action.run call.now (map call.key)).2,
    .result (call.action.run call.now (map call.key)).1)

/-- The stream of a bucket that has just been made. -/
def created : Nats.Stream := ⟨0, 0, fun _ ↦ none⟩

/-- Where what the keys hold is from, after calls. -/
def ledger (before : List (Call shared)) : Bytes → Option Origin :=
  before.foldl (fun ledger call ↦
    Function.update ledger call.key (Origin.next (ledger call.key) call.action)) fun _ ↦ none

/-! ### What the backends answer -/

/-- On a key of the bucket a map does what the call is. -/
theorem next_op (map : Map) (call : Call shared) :
    Map.next Filesystem.accepts Filesystem.lists map call.op =
      ((onMap map call).1, .result (call.action.run call.now (map call.key)).1) := by
  rw [Call.op, Map.next, if_pos (shared.accepted call.key call.mem)]
  rfl

/-- An answer matches a result where it is that result. -/
theorem matches_result_iff {output : Output} {result : Result} :
    output.Matches (.result result) ↔ output = .result result := by
  cases output with
  | result given => simp [Output.Matches]
  | listed keys => cases keys <;> simp [Output.Matches]

/-- Nothing is held but under the keys of the bucket. -/
theorem mem_of_mapAfter {before : List (Call shared)} {key : Bytes}
    (hheld : Filesystem.mapAfter (before.map Call.op) key ≠ none) : key ∈ shared.keys := by
  induction before using List.reverseRecOn with
  | nil => exact absurd rfl hheld
  | append_singleton before call ih =>
    rw [List.map_append, List.map_singleton, Filesystem.mapAfter_concat, next_op] at hheld
    by_cases hkey : key = call.key
    · exact hkey ▸ call.mem
    · exact ih fun hnone ↦ hheld ((Function.update_of_ne hkey _ _).trans hnone)

/-- Nothing is in the way of a call: no key is a path above another. -/
theorem fits (before : List (Call shared)) (call : Call shared) :
    Filesystem.Fits (before.map Call.op) call.op := by
  intro path hpath
  constructor
  · intro other above hother hinitial hne
    by_contra hheld
    exact hne (shared.apart call.key call.mem other (mem_of_mapAfter hheld) path above hpath hother
      hinitial)
  · rintro other ⟨earlier, key, action, now, later, hsplit, hother, -⟩ hinitial
    have hmem : Op.on key action now ∈ before.map Call.op := by
      rw [hsplit]
      simp
    obtain ⟨written, -, hwritten⟩ := List.mem_map.mp hmem
    obtain ⟨rfl, -, -⟩ := Op.on.inj hwritten
    exact (shared.apart written.key written.mem call.key call.mem other path hother hpath
      hinitial).symm

/-- A bucket in a directory tree answers as a map does. -/
theorem outputs_onFiles (calls : List (Call shared)) :
    outputs onFiles Filesystem.opened calls = outputs onMap (fun _ ↦ none) calls := by
  have hstart : Filesystem.Follows (([] : List (Call shared)).map Call.op) Filesystem.opened
      (fun _ ↦ none) := Filesystem.follows_opened
  rw [← List.forall₂_eq_eq_eq]
  refine (forall₂_outputs_iff
    (fun before files map ↦ Filesystem.Follows (before.map Call.op) files map)
    (fun _ _ ↦ True) (· = ·) ?_ ?_ hstart calls).mpr fun _ _ _ _ ↦ trivial
  · intro before files map call hfollows _
    have hnext := hfollows.next (fits before call)
    rw [next_op] at hnext
    rwa [List.map_append]
  · intro before files map call hfollows
    have hmatch := (hfollows.matches_iff call.op).mpr (fits before call)
    rw [next_op, matches_result_iff] at hmatch
    exact iff_of_true hmatch trivial

/-- A stream holds what a map does, under the keys of a bucket. -/
def Carries (shared : SharedKeys) (stream : Nats.Stream) (map : Map) : Prop :=
  ∀ key ∈ shared.keys, ∃ value, map key = lasting value ∧ stream.Holds key value

variable {fits : ℕ → Nats.Stream → Bool} {kvMaxAge : Option ℕ} {stream : Nats.Stream} {map : Map}

/-- Without a max age a call finds what is there. -/
theorem Call.finds_none (call : Call shared) (stream : Nats.Stream) :
    call.finds none stream = stream.advance call.passed :=
  Nats.Stream.retire_of_now_lt (Or.inl rfl)

/-- A call that the server has room for keeps it so, and answers as the map. -/
theorem Carries.next (hcarries : Carries shared stream map) (call : Call shared)
    (hroom : Roomy fits none stream call) :
    Carries shared (onStream fits none stream call).1 (onMap map call).1 ∧
      (onStream fits none stream call).2 = (onMap map call).2 := by
  obtain ⟨value, hvalue, hholds⟩ := hcarries call.key call.mem
  rw [Roomy, call.finds_none] at hroom
  obtain ⟨left, hperformed⟩ := Nats.perform_spec (shared.validated call.key call.mem)
    (hholds.advance call.passed) call.unexpiring hroom call.now
  rw [onStream, call.finds_none]
  constructor
  · intro key hkey
    by_cases hsame : key = call.key
    · subst hsame
      refine ⟨left, ?_, hperformed.holds⟩
      dsimp only [onMap]
      rw [Function.update_self, hvalue]
      exact hperformed.left
    · obtain ⟨other, hother, hholds'⟩ := hcarries key hkey
      refine ⟨other, ?_, hholds'.of_last_eq (hperformed.others key hsame)⟩
      dsimp only [onMap]
      rw [Function.update_of_ne hsame, hother]
  · rw [onMap, hvalue]
    exact congrArg Output.result hperformed.result

/-- One that it has no room for fails, where the map does not. -/
theorem Carries.answer_iff (hcarries : Carries shared stream map) (call : Call shared) :
    (onStream fits none stream call).2 = (onMap map call).2 ↔ Roomy fits none stream call := by
  refine ⟨fun hsame after hwritten ↦ ?_, fun hroom ↦ (hcarries.next call hroom).2⟩
  obtain ⟨value, hvalue, hholds⟩ := hcarries call.key call.mem
  rw [call.finds_none] at hwritten
  rw [onStream, onMap, call.finds_none, hvalue] at hsame
  by_contra hfull
  obtain ⟨hfailed, hanswered⟩ := Nats.perform_refused (shared.validated call.key call.mem)
    (hholds.advance call.passed) call.unexpiring hwritten (Bool.eq_false_iff.mpr hfull) call.now
  exact hanswered ((Output.result.inj hsame).symm.trans hfailed)

/-- A bucket of a stream without a max age answers as a map does exactly where the server has room
for each write. -/
theorem outputs_onStream_iff (calls : List (Call shared)) :
    outputs (onStream fits none) created calls = outputs onMap (fun _ ↦ none) calls ↔
      ∀ before call after, calls = before ++ call :: after →
        Roomy fits none (finalState (onStream fits none) created before) call := by
  have hstart : Carries shared created (fun _ ↦ none) := by
    intro key _
    refine ⟨none, rfl, ?_⟩
    rw [Nats.Stream.Holds, created]
  have hrelated : created = finalState (onStream fits none) created ([] : List (Call shared)) ∧
      Carries shared created (fun _ ↦ none) := ⟨rfl, hstart⟩
  rw [← List.forall₂_eq_eq_eq]
  refine forall₂_outputs_iff
    (fun before stream map ↦
      stream = finalState (onStream fits none) created before ∧ Carries shared stream map)
    (fun before call ↦ Roomy fits none (finalState (onStream fits none) created before) call)
    (· = ·) ?_ ?_ hrelated calls
  · rintro before _ map call ⟨rfl, hcarries⟩ hroom
    rw [finalState_append]
    exact ⟨rfl, (hcarries.next call hroom).1⟩
  · rintro before _ map call ⟨rfl, hcarries⟩
    exact hcarries.answer_iff call

/-- The clock of a stream is past the calls. -/
theorem now_finalState (calls : List (Call shared)) :
    (finalState (onStream fits none) stream calls).now =
      stream.now + (calls.map Call.passed).sum := by
  induction calls generalizing stream with
  | nil => rfl
  | cons call calls ih =>
    rw [finalState, ih, onStream, call.finds_none, Nats.now_perform, Nats.now_advance,
      List.map_cons, List.sum_cons, Nat.add_assoc]

/-- A call that comes before a message has grown to the max age finds what is there. -/
theorem Call.finds_of_young (call : Call shared)
    (hyoung : (Nats.config kvMaxAge).maxAge = 0 ∨
      stream.now + call.passed < (Nats.config kvMaxAge).maxAge) :
    call.finds kvMaxAge stream = call.finds none stream := by
  rw [call.finds_none]
  exact Nats.Stream.retire_of_now_lt hyoung

/-- Before that, time enough is left for each of the calls. -/
theorem young_of_split {before after : List (Call shared)} {call : Call shared}
    (hyoung : (Nats.config kvMaxAge).maxAge = 0 ∨
      ((before ++ call :: after).map Call.passed).sum < (Nats.config kvMaxAge).maxAge) :
    (Nats.config kvMaxAge).maxAge = 0 ∨
      (finalState (onStream fits none) created before).now + call.passed <
        (Nats.config kvMaxAge).maxAge := by
  refine hyoung.imp_right fun hsum ↦ ?_
  rw [List.map_append, List.sum_append, List.map_cons, List.sum_cons] at hsum
  rw [now_finalState, show created.now = 0 from rfl]
  omega

/-- Calls that are over by then find a bucket as without a max age. -/
theorem onStream_of_young (calls : List (Call shared))
    (hyoung : (Nats.config kvMaxAge).maxAge = 0 ∨
      (calls.map Call.passed).sum < (Nats.config kvMaxAge).maxAge) :
    finalState (onStream fits kvMaxAge) created calls =
        finalState (onStream fits none) created calls ∧
      outputs (onStream fits kvMaxAge) created calls =
        outputs (onStream fits none) created calls := by
  rw [← List.forall₂_eq_eq_eq]
  refine forall₂_outputs Eq (fun stream call ↦ (Nats.config kvMaxAge).maxAge = 0 ∨
    stream.now + call.passed < (Nats.config kvMaxAge).maxAge) Eq ?_ rfl calls ?_
  · rintro stream _ call rfl hcall
    rw [onStream, onStream, call.finds_of_young hcall]
    exact ⟨rfl, rfl⟩
  · rintro before call after rfl
    exact young_of_split hyoung

/-- What there is room for is then the same. -/
theorem roomy_of_young {before after : List (Call shared)} {call : Call shared}
    (hyoung : (Nats.config kvMaxAge).maxAge = 0 ∨
      ((before ++ call :: after).map Call.passed).sum < (Nats.config kvMaxAge).maxAge) :
    Roomy fits kvMaxAge (finalState (onStream fits kvMaxAge) created before) call ↔
      Roomy fits none (finalState (onStream fits none) created before) call := by
  have hbefore : (Nats.config kvMaxAge).maxAge = 0 ∨
      (before.map Call.passed).sum < (Nats.config kvMaxAge).maxAge := by
    refine hyoung.imp_right fun hsum ↦ ?_
    rw [List.map_append, List.sum_append] at hsum
    omega
  rw [(onStream_of_young before hbefore).1, Roomy, Roomy,
    call.finds_of_young (young_of_split hyoung)]
  rfl

/-- The ledger after one more call. -/
theorem ledger_concat (before : List (Call shared)) (call : Call shared) :
    ledger (before ++ [call]) = Function.update (ledger before) call.key
      (Origin.next (ledger before call.key) call.action) := by
  rw [ledger, List.foldl_append]
  rfl

/-- A server and a map hold what the ledger says, each in its own form. -/
structure Accounts (identifier : Bytes) (origins : Bytes → Option Origin)
    (server : Redis.Space Bytes) (map : Map) : Prop where
  inText : ∀ key, server.held (Redis.address (identifier, key)) =
    lasting ((origins key).map Origin.inText)
  inBytes : ∀ key, map key = lasting ((origins key).map Origin.inBytes)

variable {identifier : Bytes} {origins : Bytes → Option Origin} {server : Redis.Space Bytes}

/-- What a call is answered by the server. -/
theorem Accounts.onServer_eq (haccounts : Accounts identifier origins server map)
    (call : Call shared) :
    onServer identifier server call =
      (⟨server.now + call.passed, Function.update server.held
          (Redis.address (identifier, call.key))
          (Redis.run call.action (server.now + call.passed)
            (lasting ((origins call.key).map Origin.inText))).2⟩,
        .result (Redis.run call.action (server.now + call.passed)
          (lasting ((origins call.key).map Origin.inText))).1) := by
  rw [← haccounts.inText]
  rfl

/-- The address of a key in a bucket is that of no other. -/
theorem address_inj {key other : Bytes} :
    Redis.address (identifier, key) = Redis.address (identifier, other) ↔ key = other := by
  simp [Redis.address]

/-- A call that does not tell the forms apart keeps the accounts. -/
theorem Accounts.next (haccounts : Accounts identifier origins server map) (call : Call shared)
    (halike : Alike (origins call.key) call.action) :
    Accounts identifier
      (Function.update origins call.key (Origin.next (origins call.key) call.action))
      (onServer identifier server call).1 (onMap map call).1 := by
  obtain ⟨hbytes, htext⟩ := run_next call.unexpiring halike call.now (server.now + call.passed)
  rw [haccounts.onServer_eq, onMap, haccounts.inBytes, hbytes, htext]
  constructor
  · intro key
    dsimp only
    by_cases hkey : key = call.key
    · subst hkey
      rw [Function.update_self, Function.update_self]
    · rw [Function.update_of_ne hkey, Function.update_of_ne fun hsame ↦ hkey (address_inj.mp hsame),
        haccounts.inText]
  · intro key
    dsimp only
    by_cases hkey : key = call.key
    · subst hkey
      rw [Function.update_self, Function.update_self]
    · rw [Function.update_of_ne hkey, Function.update_of_ne hkey, haccounts.inBytes]

/-- A call is answered alike where it does not tell the forms apart, and nowhere else. -/
theorem Accounts.answer_iff (haccounts : Accounts identifier origins server map)
    (call : Call shared) : (onServer identifier server call).2 = (onMap map call).2 ↔
      Alike (origins call.key) call.action := by
  rw [haccounts.onServer_eq, onMap, haccounts.inBytes, Output.result.injEq, eq_comm]
  exact run_eq_run_iff _ call.unexpiring _ _

/-- A bucket of the server of Redis answers as a map does exactly where no call tells the forms
apart. -/
theorem outputs_onServer_iff (identifier : Bytes) (calls : List (Call shared)) :
    outputs (onServer identifier) Redis.Space.empty calls = outputs onMap (fun _ ↦ none) calls ↔
      ∀ before call after, calls = before ++ call :: after →
        Alike (ledger before call.key) call.action := by
  rw [← List.forall₂_eq_eq_eq]
  refine forall₂_outputs_iff
    (fun before server map ↦ Accounts identifier (ledger before) server map)
    (fun before call ↦ Alike (ledger before call.key) call.action) (· = ·) ?_ ?_
    (⟨fun _ ↦ rfl, fun _ ↦ rfl⟩ : Accounts identifier (ledger []) _ _) calls
  · intro before server map call haccounts halike
    rw [ledger_concat]
    exact haccounts.next call halike
  · exact fun before server map call haccounts ↦ haccounts.answer_iff call

/-- The filesystem, NATS and Redis answer one sequence of calls alike exactly where no call tells
the forms of a counter apart and the server of NATS has room for each write, on a bucket without a
max age or by calls that are over before it has passed. -/
theorem interchangeable_iff (fits : ℕ → Nats.Stream → Bool) (kvMaxAge : Option ℕ)
    (identifier : Bytes) (calls : List (Call shared))
    (hyoung : (Nats.config kvMaxAge).maxAge = 0 ∨
      (calls.map Call.passed).sum < (Nats.config kvMaxAge).maxAge) :
    (outputs onFiles Filesystem.opened calls = outputs (onStream fits kvMaxAge) created calls ∧
        outputs (onStream fits kvMaxAge) created calls =
          outputs (onServer identifier) Redis.Space.empty calls) ↔
      ∀ before call after, calls = before ++ call :: after →
        Alike (ledger before call.key) call.action ∧
          Roomy fits kvMaxAge (finalState (onStream fits kvMaxAge) created before) call := by
  have hroomy :
      outputs (onStream fits kvMaxAge) created calls = outputs onMap (fun _ ↦ none) calls ↔
      ∀ before call after, calls = before ++ call :: after →
        Roomy fits kvMaxAge (finalState (onStream fits kvMaxAge) created before) call := by
    rw [(onStream_of_young calls hyoung).2, outputs_onStream_iff]
    refine forall₃_congr fun before call after ↦ forall_congr' ?_
    rintro rfl
    exact (roomy_of_young hyoung).symm
  have halike := outputs_onServer_iff identifier calls
  rw [outputs_onFiles]
  constructor
  · rintro ⟨hstream, hserver⟩ before call after hsplit
    rw [← hstream] at hserver
    exact ⟨halike.mp hserver.symm before call after hsplit,
      hroomy.mp hstream.symm before call after hsplit⟩
  · intro hcalls
    have hstream := hroomy.mpr fun before call after hsplit ↦ (hcalls before call after hsplit).2
    have hserver := halike.mpr fun before call after hsplit ↦ (hcalls before call after hsplit).1
    exact ⟨hstream.symm, hstream.trans hserver.symm⟩

/-- A bucket of one key. -/
def single : SharedKeys where
  keys := {text "a"}
  accepted := by
    rintro key rfl
    decide
  validated := by
    rintro key rfl
    decide
  apart := by
    rintro key rfl above rfl path shorter hpath hshorter -
    exact Except.ok.inj (hshorter.symm.trans hpath)

/-- A key is set, counted on though it holds no number, and swapped. -/
def setAndSwap : List (Call single) :=
  [⟨text "a", .set (text "x") none, 0, 1, rfl, fun _ _ hset ↦ by cases hset⟩,
    ⟨text "a", .increment 1, 0, 1, rfl, fun _ _ hset ↦ by cases hset⟩,
    ⟨text "a", .cas (some (text "x")) (text "y"), 0, 1, rfl, fun _ _ hset ↦ by cases hset⟩]

/-- A server that holds 100 MiB of the key. -/
def holdsOne (maxBytes : ℕ) (stream : Nats.Stream) : Bool :=
  (stream.last (text "a")).all fun message ↦ message.payload.length ≤ maxBytes

/-- The three answer it alike on a bucket with a max age of a second. -/
theorem interchangeable_setAndSwap :
    outputs onFiles Filesystem.opened setAndSwap =
        outputs (onStream holdsOne (some Nats.second)) created setAndSwap ∧
      outputs (onStream holdsOne (some Nats.second)) created setAndSwap =
        outputs (onServer (text "b")) Redis.Space.empty setAndSwap := by
  refine (interchangeable_iff holdsOne (some Nats.second) (text "b") setAndSwap ?_).mpr ?_
  · exact Or.inr (by decide +kernel)
  · have hroomy : ∀ {stream : Nats.Stream} {call : Call single},
        ((call.finds (some Nats.second) stream).written call.key call.action).all
          (holdsOne (Nats.config none).maxBytes) = true →
        Roomy holdsOne (some Nats.second) stream call := by
      intro stream call hall after hwritten
      rwa [hwritten] at hall
    intro before call after hsplit
    rcases before with - | ⟨first, - | ⟨second, - | ⟨third, before⟩⟩⟩
    · obtain ⟨rfl, -⟩ := List.cons.inj hsplit
      exact ⟨trivial, hroomy (by decide +kernel)⟩
    · obtain ⟨rfl, hrest⟩ := List.cons.inj hsplit
      obtain ⟨rfl, -⟩ := List.cons.inj hrest
      refine ⟨fun value hgiven number hreads ↦ ?_, hroomy (by decide +kernel)⟩
      obtain rfl := Origin.given.inj (Option.some.inj hgiven)
      rcases hreads with hbytes | htext
      · cases hbytes
      · cases htext
    · obtain ⟨rfl, hrest⟩ := List.cons.inj hsplit
      obtain ⟨rfl, hlast⟩ := List.cons.inj hrest
      obtain ⟨rfl, -⟩ := List.cons.inj hlast
      exact ⟨fun number inRange hcounted ↦ (by cases hcounted), hroomy (by decide +kernel)⟩
    · have hlength := congrArg List.length hsplit
      simp [setAndSwap] at hlength

/-- A key is counted on from nothing, and read. -/
def countAndRead : List (Call single) :=
  [⟨text "a", .increment 32, 0, 0, rfl, fun _ _ hset ↦ by cases hset⟩,
    ⟨text "a", .get, 0, 0, rfl, fun _ _ hset ↦ by cases hset⟩]

/-- What was counted reads as eight bytes from the filesystem and from NATS, and as text from
Redis. -/
theorem countAndRead_apart :
    outputs onFiles Filesystem.opened countAndRead =
        [.result (.incremented 32), .result (.value (some [0, 0, 0, 0, 0, 0, 0, 32]))] ∧
      outputs (onStream holdsOne none) created countAndRead =
        [.result (.incremented 32), .result (.value (some [0, 0, 0, 0, 0, 0, 0, 32]))] ∧
      outputs (onServer (text "b")) Redis.Space.empty countAndRead =
        [.result (.incremented 32), .result (.value (some (text "32")))] := by
  refine ⟨?_, ?_, ?_⟩
  · decide +kernel
  · decide +kernel
  · decide +kernel

/-- The backends are not interchangeable, though NATS has room for each write and no max age. -/
theorem not_interchangeable_countAndRead :
    ¬ (outputs onFiles Filesystem.opened countAndRead =
        outputs (onStream holdsOne none) created countAndRead ∧
      outputs (onStream holdsOne none) created countAndRead =
        outputs (onServer (text "b")) Redis.Space.empty countAndRead) := by
  rintro ⟨-, hsame⟩
  rw [countAndRead_apart.2.1, countAndRead_apart.2.2] at hsame
  exact absurd hsame (by decide)

end OmniaBackends.KeyValue
