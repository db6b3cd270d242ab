import OmniaBackends.Blobstore.Ranges
import OmniaBackends.Foundation.Run
import Mathlib.Logic.Function.Basic

/-!
# A MongoDB container

`MongoDbContainer` of `crates/mongodb/src/blobstore.rs`: a container is a collection with a document
for each object, and each call is a command of the store. The commands of any number of clients
interleave. Those that touch one document are atomic, but for an upserting replace that finds
nothing to replace, which inserts in a second step, whatever was inserted since: no index forbids
two documents of one name. A find returns a cursor, which reads on from the last document it gave
and may fail at any.

Where no two writes of a name both find nothing and no find fails at a document, a container holds
one object per name, a deleted object stays away, and a listing is complete (`one_per_name`).
-/

set_option autoImplicit false
set_option relaxedAutoImplicit false

namespace OmniaBackends.Blobstore

open Foundation

/-- `Blob`, and where the store keeps it. -/
structure Blob (usizeMax : ℕ) where
  place : ℕ
  name : Bytes
  data : Object usizeMax

/-- A call of `Container`. -/
inductive Call (usizeMax : ℕ) where
  | writeData (name : Bytes) (data : Object usizeMax)
  | deleteObject (name : Bytes)
  | getData (name : Bytes) (start stop : UInt64)
  | hasObject (name : Bytes)
  | listObjects

/-- What a call returns. -/
inductive Reply where
  | done
  | data (outcome : Outcome (Option Bytes))
  | has (found : Bool)
  | names (names : List Bytes)
  /-- A command of the store failed. -/
  | failed

/-- Where a client is in a call. -/
inductive Phase (usizeMax : ℕ) where
  | idle
  /-- Before its command. -/
  | called (call : Call usizeMax)
  /-- In a replace that found nothing, before it inserts. -/
  | inserting (name : Bytes) (data : Object usizeMax)
  /-- With a cursor that reads on from a place, and the names it gave. -/
  | listing (names : List Bytes) (place : ℕ)
  | returning (reply : Reply)

/-- A collection and the clients that use it. -/
structure Collection (Client : Type) (usizeMax : ℕ) where
  blobs : List (Blob usizeMax)
  /-- Where the next document goes. -/
  fresh : ℕ
  phase : Client → Phase usizeMax

/-- What happens to a collection. -/
inductive Event (Client : Type) (usizeMax : ℕ) where
  | call (client : Client) (call : Call usizeMax)
  /-- A replace finds a document, or nothing. -/
  | replace (client : Client)
  /-- A replace that found nothing inserts. -/
  | insert (client : Client)
  | delete (client : Client)
  | findOne (client : Client)
  /-- A find returns its cursor. -/
  | find (client : Client)
  /-- A cursor gives a document, or is at its end. -/
  | next (client : Client)
  /-- A cursor fails at a document, and ends or reads on behind it. -/
  | err (client : Client) (ends : Bool)
  /-- A command fails, or its answer is lost. -/
  | fail (client : Client)
  | return_ (client : Client)

variable {Client : Type} [DecidableEq Client] {usizeMax : ℕ}

namespace Collection

/-- `create_container`. -/
def created : Collection Client usizeMax where
  blobs := []
  fresh := 0
  phase _ := .idle

/-- A client goes on. -/
def become (collection : Collection Client usizeMax) (client : Client) (phase : Phase usizeMax) :
    Collection Client usizeMax :=
  { collection with phase := Function.update collection.phase client phase }

/-- The document of a name that a command finds. -/
def stored (collection : Collection Client usizeMax) (name : Bytes) : Option (Blob usizeMax) :=
  collection.blobs.find? (·.name = name)

/-- The documents with the one that a replace finds replaced. -/
def replaced (blobs : List (Blob usizeMax)) (name : Bytes) (data : Object usizeMax) :
    List (Blob usizeMax) :=
  match blobs with
  | [] => []
  | blob :: blobs =>
    if blob.name = name then { blob with data } :: blobs else blob :: replaced blobs name data

/-- One step; none where it cannot happen. -/
def step (collection : Collection Client usizeMax) :
    Event Client usizeMax → Option (Collection Client usizeMax)
  | .call client call =>
    match collection.phase client with
    | .idle => some (collection.become client (.called call))
    | _ => none
  | .replace client =>
    match collection.phase client with
    | .called (.writeData name data) =>
      match collection.stored name with
      | some _ =>
        some { collection.become client (.returning .done) with
          blobs := replaced collection.blobs name data }
      | none => some (collection.become client (.inserting name data))
    | _ => none
  | .insert client =>
    match collection.phase client with
    | .inserting name data =>
      some { collection.become client (.returning .done) with
        blobs := collection.blobs ++ [⟨collection.fresh, name, data⟩]
        fresh := collection.fresh + 1 }
    | _ => none
  | .delete client =>
    match collection.phase client with
    | .called (.deleteObject name) =>
      some { collection.become client (.returning .done) with
        blobs := collection.blobs.eraseP (·.name = name) }
    | _ => none
  | .findOne client =>
    match collection.phase client with
    | .called (.getData name start stop) =>
      some (collection.become client
        (.returning (.data (mongodb ((collection.stored name).map Blob.data) start stop))))
    | .called (.hasObject name) =>
      some (collection.become client (.returning (.has (collection.stored name).isSome)))
    | _ => none
  | .find client =>
    match collection.phase client with
    | .called .listObjects => some (collection.become client (.listing [] 0))
    | _ => none
  | .next client =>
    match collection.phase client with
    | .listing names place =>
      match collection.blobs.find? (place ≤ ·.place) with
      | some blob =>
        some (collection.become client (.listing (names ++ [blob.name]) (blob.place + 1)))
      | none => some (collection.become client (.returning (.names names)))
    | _ => none
  | .err client ends =>
    match collection.phase client with
    | .listing names place =>
      -- logged, and left out of the names
      if ends then some (collection.become client (.returning (.names names)))
      else
        match collection.blobs.find? (place ≤ ·.place) with
        | some blob => some (collection.become client (.listing names (blob.place + 1)))
        | none => none
    | _ => none
  | .fail client =>
    match collection.phase client with
    | .called _ | .inserting _ _ | .returning .done =>
      some (collection.become client (.returning .failed))
    | _ => none
  | .return_ client =>
    match collection.phase client with
    | .returning _ => some (collection.become client .idle)
    | _ => none

/-! ### What a container is for -/

/-- The names of the documents. -/
def names (collection : Collection Client usizeMax) : List Bytes := collection.blobs.map Blob.name

/-- A client writes an object. -/
def Writing (collection : Collection Client usizeMax) (name : Bytes) (client : Client) : Prop :=
  ∃ data, collection.phase client = .called (.writeData name data) ∨
    collection.phase client = .inserting name data

/-- What is promised of a run from a new container on. -/
structure OnePerName
    (stepping : Collection Client usizeMax → Event Client usizeMax → Collection Client usizeMax →
      Prop)
    (events : List (Event Client usizeMax)) (final : Collection Client usizeMax) : Prop where
  /-- One document has a name at most. -/
  unique : final.names.Nodup
  /-- A deleted object that is not written then or later is not there. -/
  deleted : ∀ earlier client later before middle name,
    events = earlier ++ .delete client :: later → Run stepping created earlier before →
      before.phase client = .called (.deleteObject name) →
        (∀ other, ¬ before.Writing name other) → stepping before (.delete client) middle →
          Run stepping middle later final →
            (∀ other data, .call other (.writeData name data) ∉ later) →
              (∀ other after, final.phase other = .called (.hasObject name) →
                final.step (.findOne other) = some after →
                  after.phase other = .returning (.has false)) ∧
              (∀ other after start stop, final.phase other = .called (.getData name start stop) →
                final.step (.findOne other) = some after →
                  after.phase other = .returning (.data (.ok none)))
  /-- A list of a container that does not change names each of its objects once. -/
  listed : ∀ earlier client during before opened names,
    events = earlier ++ .find client :: during → Run stepping created earlier before →
      stepping before (.find client) opened → Run stepping opened during final →
        (∀ first last middle, during = first ++ last → Run stepping opened first middle →
          middle.blobs = opened.blobs) →
          .return_ client ∉ during → final.phase client = .returning (.names names) →
            names.Nodup ∧ ∀ name, name ∈ names ↔ ∃ blob ∈ final.blobs, blob.name = name

/-- What a step must meet for that: a replace finds nothing only while no other write of its name
is to insert, and no find fails at a document. -/
def Meets (collection : Collection Client usizeMax) : Event Client usizeMax → Prop
  | .replace client =>
    ∀ name data, collection.phase client = .called (.writeData name data) →
      collection.stored name = none → ∀ other data, collection.phase other ≠ .inserting name data
  | .err _ _ => False
  | _ => True

/-- A step that meets it. -/
def MetStep (before : Collection Client usizeMax) (event : Event Client usizeMax)
    (after : Collection Client usizeMax) : Prop :=
  before.step event = some after ∧ before.Meets event

/-! ### Steps -/

variable {collection before after : Collection Client usizeMax} {event : Event Client usizeMax}
  {client other : Client} {name : Bytes} {data : Object usizeMax} {phase : Phase usizeMax}

@[simp] theorem blobs_become : (collection.become client phase).blobs = collection.blobs := rfl

@[simp] theorem fresh_become : (collection.become client phase).fresh = collection.fresh := rfl

@[simp] theorem phase_become_self : (collection.become client phase).phase client = phase :=
  Function.update_self _ _ _

theorem phase_become_of_ne (hother : other ≠ client) :
    (collection.become client phase).phase other = collection.phase other :=
  Function.update_of_ne hother _ _

/-- A replaced document keeps its name and its place. -/
theorem map_replaced {Field : Type} (field : Blob usizeMax → Field)
    (hfield : ∀ blob data, field { blob with data } = field blob) (blobs : List (Blob usizeMax)) :
    (replaced blobs name data).map field = blobs.map field := by
  induction blobs with
  | nil => rfl
  | cons blob blobs ih =>
    rw [replaced]
    split
    · rw [List.map_cons, List.map_cons, hfield]
    · rw [List.map_cons, List.map_cons, ih]

omit [DecidableEq Client] in
/-- Nothing of a name is stored exactly if no document has it. -/
theorem stored_eq_none_iff :
    collection.stored name = none ↔ name ∉ collection.names := by
  rw [stored, List.find?_eq_none, names, List.mem_map]
  simp

/-- What a step does: a replace replaces or is to insert, an insert and a delete do what they say,
and every other step changes no document and is not of a write. -/
theorem step_cases (hstep : collection.step event = some after) :
    (∃ client name data, collection.phase client = .called (.writeData name data) ∧
      after = { collection.become client (.returning .done) with
        blobs := replaced collection.blobs name data }) ∨
    (∃ client name data, event = .replace client ∧
      collection.phase client = .called (.writeData name data) ∧
        collection.stored name = none ∧ after = collection.become client (.inserting name data)) ∨
    (∃ client name data, collection.phase client = .inserting name data ∧
      after = { collection.become client (.returning .done) with
        blobs := collection.blobs ++ [⟨collection.fresh, name, data⟩]
        fresh := collection.fresh + 1 }) ∨
    (∃ client name, event = .delete client ∧
      collection.phase client = .called (.deleteObject name) ∧
        after = { collection.become client (.returning .done) with
          blobs := collection.blobs.eraseP (·.name = name) }) ∨
    (∃ client phase, after = collection.become client phase ∧
      (∀ name data, phase ≠ .inserting name data) ∧
        ∀ call, phase = .called call → event = .call client call) := by
  have hother : ∀ {client phase}, (∀ name data, phase ≠ .inserting name data) →
      (∀ call, phase = .called call → event = .call client call) →
        some (collection.become client phase) = some after →
          ∃ client phase, after = collection.become client phase ∧
            (∀ name data, phase ≠ .inserting name data) ∧
              ∀ call, phase = .called call → event = .call client call :=
    fun hinserting hcalled hafter ↦ ⟨_, _, (Option.some.inj hafter).symm, hinserting, hcalled⟩
  cases event with
  | call client call =>
    rw [step] at hstep
    split at hstep
    · refine Or.inr (Or.inr (Or.inr (Or.inr (hother (by simp) (fun other hcall ↦ ?_) hstep))))
      rw [Phase.called.inj hcall]
    · exact absurd hstep (by simp)
  | replace client =>
    rw [step] at hstep
    split at hstep
    · next name data hphase =>
      split at hstep
      · exact Or.inl ⟨client, name, data, hphase, (Option.some.inj hstep).symm⟩
      · next hnone =>
        exact Or.inr (Or.inl ⟨client, name, data, rfl, hphase, hnone,
          (Option.some.inj hstep).symm⟩)
    · exact absurd hstep (by simp)
  | insert client =>
    rw [step] at hstep
    split at hstep
    · next name data hphase =>
      exact Or.inr (Or.inr (Or.inl ⟨client, name, data, hphase, (Option.some.inj hstep).symm⟩))
    · exact absurd hstep (by simp)
  | delete client =>
    rw [step] at hstep
    split at hstep
    · next name hphase =>
      exact Or.inr (Or.inr (Or.inr (Or.inl ⟨client, name, rfl, hphase,
        (Option.some.inj hstep).symm⟩)))
    · exact absurd hstep (by simp)
  | findOne client | find client | next client | fail client | return_ client =>
    refine Or.inr (Or.inr (Or.inr (Or.inr ?_)))
    rw [step] at hstep
    split at hstep <;> (try split at hstep) <;>
      first
        | exact hother (by simp) (by simp) hstep
        | exact absurd hstep (by simp)
  | err client ends =>
    refine Or.inr (Or.inr (Or.inr (Or.inr ?_)))
    rw [step] at hstep
    split at hstep
    · split at hstep
      · exact hother (by simp) (by simp) hstep
      · split at hstep
        · exact hother (by simp) (by simp) hstep
        · exact absurd hstep (by simp)
    · exact absurd hstep (by simp)

/-! ### What holds between steps -/

/-- What holds of a collection all of whose steps met the condition. -/
structure Sound (collection : Collection Client usizeMax) : Prop where
  /-- One document has a name at most. -/
  nodup : collection.names.Nodup
  /-- Nothing has a name that is to be inserted. -/
  pending : ∀ client name data, collection.phase client = .inserting name data →
    name ∉ collection.names
  /-- One client at most is to insert a name. -/
  alone : ∀ client other name data others, collection.phase client = .inserting name data →
    collection.phase other = .inserting name others → client = other
  /-- Documents are kept in the order of their places. -/
  sorted : (collection.blobs.map Blob.place).Pairwise (· < ·)
  /-- They are where no new one goes. -/
  bounded : ∀ blob ∈ collection.blobs, blob.place < collection.fresh

omit [DecidableEq Client] in
/-- A new collection holds nothing. -/
theorem sound_created : (created : Collection Client usizeMax).Sound where
  nodup := List.nodup_nil
  pending _ _ _ hphase := nomatch hphase
  alone _ _ _ _ _ hphase := nomatch hphase
  sorted := List.Pairwise.nil
  bounded _ hblob := absurd hblob List.not_mem_nil

/-- A client that goes on, to insert nothing, changes nothing of it. -/
theorem Sound.become (hsound : collection.Sound) (client : Client)
    (hphase : ∀ name data, phase ≠ .inserting name data) :
    (collection.become client phase).Sound := by
  have hold : ∀ {other name data},
      (collection.become client phase).phase other = .inserting name data →
        collection.phase other = .inserting name data := by
    intro other name data hinserting
    by_cases hother : other = client
    · subst hother
      rw [phase_become_self] at hinserting
      exact absurd hinserting (hphase name data)
    · rwa [phase_become_of_ne hother] at hinserting
  exact ⟨hsound.nodup, fun other name data hinserting ↦
    hsound.pending other name data (hold hinserting),
    fun first second name data others hfirst hsecond ↦
      hsound.alone first second name data others (hold hfirst) (hold hsecond),
    hsound.sorted, hsound.bounded⟩

omit [DecidableEq Client] in
/-- Documents that go leave it so. -/
theorem Sound.sublist (hsound : collection.Sound) {blobs : List (Blob usizeMax)}
    (hblobs : blobs.Sublist collection.blobs) : Sound { collection with blobs } where
  nodup := hsound.nodup.sublist (hblobs.map _)
  pending client name data hphase hname :=
    hsound.pending client name data hphase ((hblobs.map _).subset hname)
  alone := hsound.alone
  sorted := hsound.sorted.sublist (hblobs.map _)
  bounded blob hblob := hsound.bounded blob (hblobs.subset hblob)

omit [DecidableEq Client] in
/-- A replace changes no name and no place. -/
theorem Sound.replaced (hsound : collection.Sound) (name : Bytes) (data : Object usizeMax) :
    Sound { collection with blobs := replaced collection.blobs name data } := by
  have hnames : (Collection.replaced collection.blobs name data).map Blob.name =
      collection.blobs.map Blob.name := map_replaced Blob.name (fun _ _ ↦ rfl) _
  have hplaces : (Collection.replaced collection.blobs name data).map Blob.place =
      collection.blobs.map Blob.place := map_replaced Blob.place (fun _ _ ↦ rfl) _
  refine ⟨?_, fun client other data hphase ↦ ?_, hsound.alone, ?_, fun blob hblob ↦ ?_⟩
  · rw [names, hnames]
    exact hsound.nodup
  · rw [names, hnames]
    exact hsound.pending client other data hphase
  · rw [hplaces]
    exact hsound.sorted
  · have hplace := List.mem_map_of_mem (f := Blob.place) hblob
    rw [hplaces] at hplace
    obtain ⟨old, hold, heq⟩ := List.mem_map.mp hplace
    exact heq ▸ hsound.bounded old hold

/-- A replace that finds nothing, alone with its name, leaves it so. -/
theorem Sound.inserting (hsound : collection.Sound) (client : Client)
    (hnone : collection.stored name = none)
    (halone : ∀ other data, collection.phase other ≠ .inserting name data) :
    (collection.become client (.inserting name data)).Sound := by
  refine ⟨hsound.nodup, fun other later data hphase ↦ ?_, fun first second later data others
    hfirst hsecond ↦ ?_, hsound.sorted, hsound.bounded⟩
  · by_cases hother : other = client
    · subst hother
      rw [phase_become_self] at hphase
      rw [← (Phase.inserting.inj hphase).1]
      exact stored_eq_none_iff.mp hnone
    · rw [phase_become_of_ne hother] at hphase
      exact hsound.pending other later data hphase
  · by_cases hone : first = client
    · by_cases htwo : second = client
      · rw [hone, htwo]
      · rw [hone, phase_become_self] at hfirst
        rw [phase_become_of_ne htwo, ← (Phase.inserting.inj hfirst).1] at hsecond
        exact absurd hsecond (halone second others)
    · rw [phase_become_of_ne hone] at hfirst
      by_cases htwo : second = client
      · rw [htwo, phase_become_self] at hsecond
        rw [← (Phase.inserting.inj hsecond).1] at hfirst
        exact absurd hfirst (halone first data)
      · rw [phase_become_of_ne htwo] at hsecond
        exact hsound.alone first second later data others hfirst hsecond

/-- An insert leaves it so. -/
theorem Sound.insert (hsound : collection.Sound)
    (hphase : collection.phase client = .inserting name data) :
    Sound { collection.become client (.returning .done) with
      blobs := collection.blobs ++ [⟨collection.fresh, name, data⟩]
      fresh := collection.fresh + 1 } := by
  have hnew := hsound.pending client name data hphase
  have hbecome : (collection.become client (.returning .done)).Sound :=
    hsound.become client (by simp)
  refine ⟨?_, fun other later data hlater ↦ ?_, hbecome.alone, ?_, fun blob hblob ↦ ?_⟩
  · rw [names, List.map_append]
    refine List.nodup_append.mpr ⟨hsound.nodup, List.pairwise_singleton _ _, ?_⟩
    rintro first hfirst second hsecond rfl
    obtain rfl : first = name := List.mem_singleton.mp hsecond
    exact hnew hfirst
  · rw [names, List.map_append, List.mem_append]
    rintro (hmem | hmem)
    · exact hbecome.pending other later data hlater hmem
    · obtain rfl : later = name := List.mem_singleton.mp hmem
      by_cases hother : other = client
      · subst hother
        exact absurd (phase_become_self.symm.trans hlater) (by simp)
      · have hsame := (phase_become_of_ne hother).symm.trans hlater
        exact hother (hsound.alone other client later _ _ hsame hphase)
  · rw [List.map_append, List.pairwise_append]
    refine ⟨hsound.sorted, List.pairwise_singleton _ _, fun first hfirst second hsecond ↦ ?_⟩
    obtain ⟨blob, hblob, rfl⟩ := List.mem_map.mp hfirst
    rw [List.mem_singleton.mp hsecond]
    exact hsound.bounded blob hblob
  · rcases List.mem_append.mp hblob with hblob | hblob
    · exact Nat.lt_succ_of_lt (hsound.bounded blob hblob)
    · rw [List.mem_singleton.mp hblob]
      exact Nat.lt_succ_self _

/-- Every step that meets the condition keeps it so. -/
theorem sound_step (hsound : collection.Sound) (hstep : collection.MetStep event after) :
    after.Sound := by
  obtain ⟨hstep, hmeets⟩ := hstep
  obtain ⟨client, name, data, hphase, rfl⟩ | ⟨client, name, data, rfl, hphase, hnone, rfl⟩ |
    ⟨client, name, data, hphase, rfl⟩ | ⟨client, name, rfl, hphase, rfl⟩ |
    ⟨client, phase, rfl, hphase, -⟩ := step_cases hstep
  · exact (hsound.become client (by simp)).replaced name data
  · exact hsound.inserting client hnone (hmeets name data hphase hnone)
  · exact hsound.insert hphase
  · exact (hsound.become client (by simp)).sublist List.eraseP_sublist
  · exact hsound.become client hphase

/-- What holds after every run of such steps. -/
theorem sound_run {events : List (Event Client usizeMax)}
    (hrun : Run MetStep created events collection) : collection.Sound :=
  hrun.invariant Sound (fun hsound hstep ↦ sound_step hsound hstep) sound_created

/-! ### Deleted objects -/

/-- Nothing has a name, and no client writes it. -/
def Gone (collection : Collection Client usizeMax) (name : Bytes) : Prop :=
  name ∉ collection.names ∧ ∀ client, ¬ collection.Writing name client

/-- A client that goes on without a write of a name writes it no more than before. -/
theorem not_writing_become (hother : ¬ collection.Writing name other)
    (hphase : ∀ data, phase ≠ .called (.writeData name data) ∧ phase ≠ .inserting name data) :
    ¬ (collection.become client phase).Writing name other := by
  rintro ⟨data, hwriting⟩
  by_cases hsame : other = client
  · subst hsame
    rw [phase_become_self] at hwriting
    exact hwriting.elim (hphase data).1 (hphase data).2
  · rw [phase_become_of_ne hsame] at hwriting
    exact hother ⟨data, hwriting⟩

omit [DecidableEq Client] in
/-- Where names differ, one document is all there is of a name. -/
theorem not_mem_names_eraseP (hnodup : collection.names.Nodup) :
    name ∉ (collection.blobs.eraseP (·.name = name)).map Blob.name := by
  rw [names] at hnodup
  generalize collection.blobs = blobs at hnodup
  induction blobs with
  | nil => exact List.not_mem_nil
  | cons blob blobs ih =>
    obtain ⟨hblob, hblobs⟩ := List.nodup_cons.mp hnodup
    by_cases hname : blob.name = name
    · rw [List.eraseP_cons_of_pos (by simpa using hname)]
      exact hname ▸ hblob
    · rw [List.eraseP_cons_of_neg (by simpa using hname), List.map_cons, List.mem_cons]
      rintro (heq | hmem)
      · exact hname heq.symm
      · exact ih hblobs hmem

/-- A delete of a name that no client writes takes the only document of it away. -/
theorem gone_delete (hsound : collection.Sound)
    (hphase : collection.phase client = .called (.deleteObject name))
    (hwriting : ∀ other, ¬ collection.Writing name other)
    (hstep : collection.step (.delete client) = some after) : after.Gone name := by
  have hafter : after = { collection.become client (.returning .done) with
      blobs := collection.blobs.eraseP (·.name = name) } := by
    rw [step, hphase] at hstep
    exact (Option.some.inj hstep).symm
  subst hafter
  exact ⟨not_mem_names_eraseP hsound.nodup, fun other ↦
    not_writing_become (hwriting other) (by simp)⟩

/-- It stays away until a write of it is called. -/
theorem gone_step (hgone : collection.Gone name) (hstep : collection.step event = some after)
    (hevent : ∀ other data, event ≠ .call other (.writeData name data)) : after.Gone name := by
  obtain ⟨hmem, hwriting⟩ := hgone
  obtain ⟨client, other, data, hphase, rfl⟩ | ⟨client, other, data, rfl, hphase, hnone, rfl⟩ |
    ⟨client, other, data, hphase, rfl⟩ | ⟨client, other, rfl, hphase, rfl⟩ |
    ⟨client, phase, rfl, hphase, hcalled⟩ := step_cases hstep
  · refine ⟨?_, fun later ↦ not_writing_become (hwriting later) (by simp)⟩
    rw [names, map_replaced Blob.name fun _ _ ↦ rfl]
    exact hmem
  · refine ⟨hmem, fun later ↦ not_writing_become (hwriting later) fun data ↦ ⟨by simp, ?_⟩⟩
    rintro ⟨⟩
    exact hwriting client ⟨_, Or.inl hphase⟩
  · refine ⟨?_, fun later ↦ not_writing_become (hwriting later) (by simp)⟩
    rw [names, List.map_append, List.mem_append]
    rintro (hold | hnew)
    · exact hmem hold
    · obtain rfl : name = other := List.mem_singleton.mp hnew
      exact hwriting client ⟨_, Or.inr hphase⟩
  · refine ⟨fun hold ↦ hmem ?_, fun later ↦ not_writing_become (hwriting later) (by simp)⟩
    exact (List.eraseP_sublist.map _).subset hold
  · refine ⟨hmem, fun later ↦ not_writing_become (hwriting later) fun data ↦
      ⟨fun hwrite ↦ ?_, hphase _ _⟩⟩
    exact hevent client data (hcalled _ hwrite)

/-- What is gone is not found. -/
theorem findOne_gone (hgone : collection.Gone name)
    (hstep : collection.step (.findOne other) = some after) :
    (collection.phase other = .called (.hasObject name) →
      after.phase other = .returning (.has false)) ∧
    ∀ start stop, collection.phase other = .called (.getData name start stop) →
      after.phase other = .returning (.data (.ok none)) := by
  have hnone : collection.stored name = none := stored_eq_none_iff.mpr hgone.1
  refine ⟨fun hphase ↦ ?_, fun start stop hphase ↦ ?_⟩
  · rw [step, hphase] at hstep
    obtain rfl := Option.some.inj hstep
    rw [phase_become_self, hnone]
    rfl
  · rw [step, hphase] at hstep
    obtain rfl := Option.some.inj hstep
    rw [phase_become_self, hnone]
    rfl

/-! ### Lists -/

/-- Where a list of some documents is: it has the names of those before its place, or of all. -/
def ListingOf (blobs : List (Blob usizeMax)) (phase : Phase usizeMax) : Prop :=
  (∃ place, phase = .listing ((blobs.filter (·.place < place)).map Blob.name) place) ∨
    phase = .returning (.names (blobs.map Blob.name))

omit [DecidableEq Client] in
/-- The next document of a cursor goes behind those before its place. -/
theorem filter_of_find? {place : ℕ} {blob : Blob usizeMax} {blobs : List (Blob usizeMax)}
    (hsorted : (blobs.map Blob.place).Pairwise (· < ·))
    (hfind : blobs.find? (place ≤ ·.place) = some blob) :
    blobs.filter (·.place < blob.place + 1) = blobs.filter (·.place < place) ++ [blob] := by
  induction blobs with
  | nil => exact absurd hfind (by simp)
  | cons first blobs ih =>
    rw [List.map_cons, List.pairwise_cons] at hsorted
    by_cases hfirst : place ≤ first.place
    · rw [List.find?_cons_of_pos (by simpa using hfirst)] at hfind
      obtain rfl := Option.some.inj hfind
      have hnone : ∀ bound, bound ≤ first.place + 1 → blobs.filter (·.place < bound) = [] := by
        intro bound hbound
        rw [List.filter_eq_nil_iff]
        intro later hlater
        have hlt := hsorted.1 _ (List.mem_map_of_mem hlater)
        simp only [decide_eq_true_eq]
        omega
      rw [List.filter_cons_of_pos (by simp), List.filter_cons_of_neg (by simpa using hfirst),
        hnone _ le_rfl, hnone _ (by omega)]
      rfl
    · rw [List.find?_cons_of_neg (by simpa using hfirst)] at hfind
      have hmem := List.mem_of_find?_eq_some hfind
      have hlt := hsorted.1 _ (List.mem_map_of_mem hmem)
      rw [List.filter_cons_of_pos (by simp; omega), List.filter_cons_of_pos
        (by simpa using hfirst), ih hsorted.2 hfind, List.cons_append]

/-- The client an event is of. -/
def clientOf : Event Client usizeMax → Client
  | .call client _ | .replace client | .insert client | .delete client | .findOne client
  | .find client | .next client | .err client _ | .fail client | .return_ client => client

/-- The others stay where they are. -/
theorem phase_of_ne (hstep : collection.step event = some after) (hother : other ≠ clientOf event) :
    after.phase other = collection.phase other := by
  cases event <;> rw [step] at hstep <;> repeat' split at hstep
  all_goals
    first
      | obtain rfl := Option.some.inj hstep
        exact phase_become_of_ne hother
      | exact absurd hstep (by simp)

/-- A step that changes no document, fails at none and is not the list's return keeps it so. -/
theorem listingOf_step (hsorted : (collection.blobs.map Blob.place).Pairwise (· < ·))
    (hlisting : ListingOf collection.blobs (collection.phase client))
    (hstep : collection.MetStep event after) (hevent : event ≠ .return_ client) :
    ListingOf collection.blobs (after.phase client) := by
  obtain ⟨hstep, hmeets⟩ := hstep
  by_cases hclient : client = clientOf event
  · subst hclient
    rcases hlisting with ⟨place, hphase⟩ | hphase
    · cases event with
      | next client =>
        rw [step, show collection.phase client = _ from hphase] at hstep
        dsimp only at hstep
        split at hstep
        · next blob hfind =>
          obtain rfl := Option.some.inj hstep
          refine Or.inl ⟨blob.place + 1, ?_⟩
          rw [clientOf, phase_become_self, filter_of_find? hsorted hfind, List.map_append,
            List.map_singleton]
        · next hfind =>
          obtain rfl := Option.some.inj hstep
          refine Or.inr ?_
          have hall : collection.blobs.filter (·.place < place) = collection.blobs := by
            rw [List.filter_eq_self]
            intro blob hblob
            simpa using List.find?_eq_none.mp hfind blob hblob
          rw [clientOf, phase_become_self, hall]
      | err client ends => exact hmeets.elim
      | call client | replace client | insert client | delete client | findOne client | find client
      | fail client | return_ client =>
        rw [step, show collection.phase client = _ from hphase] at hstep
        exact absurd hstep (by simp)
    · cases event with
      | err client ends => exact hmeets.elim
      | return_ client => exact absurd rfl hevent
      | call client | replace client | insert client | delete client | findOne client | find client
      | next client | fail client =>
        rw [step, show collection.phase client = _ from hphase] at hstep
        exact absurd hstep (by simp)
  · rw [phase_of_ne hstep hclient]
    exact hlisting

/-- A list during which no document changes goes through them all. -/
theorem listingOf_run {during : List (Event Client usizeMax)} {opened : Collection Client usizeMax}
    (hsorted : (opened.blobs.map Blob.place).Pairwise (· < ·))
    (hopened : ListingOf opened.blobs (opened.phase client))
    (hrun : Run MetStep opened during after) (hevents : .return_ client ∉ during)
    (hblobs : ∀ first last middle, during = first ++ last → Run MetStep opened first middle →
      middle.blobs = opened.blobs) : ListingOf opened.blobs (after.phase client) := by
  induction hrun with
  | nil => exact hopened
  | @snoc events event middle final hrun hstep ih =>
    have hmiddle := hblobs events [event] middle rfl hrun
    have hlisting := ih (fun hmem ↦ hevents (List.mem_append_left _ hmem))
      (fun first last state hsplit ↦ hblobs first (last ++ [event]) state
        (by rw [hsplit, List.append_assoc]))
    rw [← hmiddle] at hsorted hlisting ⊢
    refine listingOf_step hsorted hlisting hstep fun heq ↦ hevents ?_
    rw [heq]
    exact List.mem_append_right _ List.mem_cons_self

/-! ### Every run -/

/-- A container all of whose steps meet the condition holds one object per name. -/
theorem one_per_name {events : List (Event Client usizeMax)} {final : Collection Client usizeMax}
    (hrun : Run MetStep created events final) : OnePerName MetStep events final where
  unique := (sound_run hrun).nodup
  deleted := by
    intro earlier client later before middle name hsplit hearlier hphase hwriting hdelete hlater
      hevents
    have hgone : final.Gone name := by
      refine hlater.invariant_of_events (fun event ↦ ∀ other data,
        event ≠ .call other (.writeData name data)) (Gone · name) ?_ ?_ ?_
      · exact fun hevent hgone hstep ↦ gone_step hgone hstep.1 hevent
      · exact gone_delete (sound_run hearlier) hphase hwriting hdelete.1
      · exact fun event hmem other data heq ↦ hevents other data (heq ▸ hmem)
    exact ⟨fun other after hcalled hstep ↦ (findOne_gone hgone hstep).1 hcalled,
      fun other after start stop hcalled hstep ↦ (findOne_gone hgone hstep).2 start stop hcalled⟩
  listed := by
    intro earlier client during before opened names hsplit hearlier hopen hduring hblobs hevents
      hnames
    have hsound := sound_step (sound_run hearlier) hopen
    have hopened : ListingOf opened.blobs (opened.phase client) := by
      have hstep := hopen.1
      rw [step] at hstep
      split at hstep
      · obtain rfl := Option.some.inj hstep
        refine Or.inl ⟨0, ?_⟩
        rw [phase_become_self]
        simp
      · exact absurd hstep (by simp)
    have hfinal := hblobs during [] final (by rw [List.append_nil]) hduring
    rcases listingOf_run hsound.sorted hopened hduring hevents hblobs with ⟨place, hphase⟩ | hphase
    · exact absurd (hphase.symm.trans hnames) (by simp)
    · obtain rfl : opened.blobs.map Blob.name = names :=
        Reply.names.inj (Phase.returning.inj (hphase.symm.trans hnames))
      refine ⟨hsound.nodup, fun name ↦ ?_⟩
      rw [hfinal, List.mem_map]

/-- An object of one byte. -/
def oneByte : Object 0xFFFFFFFFFFFFFFFF := ⟨[1], by decide⟩

/-- One client writes an object, another deletes it while the first lists it no more. -/
def writtenAndDeleted : List (Event Bool 0xFFFFFFFFFFFFFFFF) :=
  [.call false (.writeData (text "a") oneByte), .replace false, .insert false, .return_ false,
    .call true (.deleteObject (text "a")), .delete true, .call false .listObjects, .find false,
    .next false]

/-- Its container holds nothing then. -/
theorem one_per_name_writtenAndDeleted :
    ∃ final, final.names = [] ∧ OnePerName MetStep writtenAndDeleted final := by
  refine ⟨_, ?_, one_per_name (Run.cons ⟨rfl, trivial⟩ (Run.cons ⟨rfl, ?_⟩ (Run.cons ⟨rfl, trivial⟩
    (Run.cons ⟨rfl, trivial⟩ (Run.cons ⟨rfl, trivial⟩ (Run.cons ⟨rfl, trivial⟩
      (Run.cons ⟨rfl, trivial⟩ (Run.cons ⟨rfl, trivial⟩ (Run.single ⟨rfl, trivial⟩)))))))))⟩
  · rfl
  · rintro name data - - other later hinserting
    cases other <;> exact absurd hinserting (by simp [become, created, Function.update])

/-- Two clients write a new object at once. -/
def racingWrites : List (Event Bool 0xFFFFFFFFFFFFFFFF) :=
  [.call false (.writeData (text "a") oneByte), .call true (.writeData (text "a") oneByte),
    .replace false, .replace true, .insert false, .insert true]

/-- The container then holds two of its name. -/
theorem not_onePerName_racingWrites :
    ∃ final, Run (StepOf step) created racingWrites final ∧
      ¬ OnePerName (StepOf step) racingWrites final :=
  ⟨_, run_of_isSome rfl, fun hone ↦ absurd hone.unique (by decide)⟩

end Collection

end OmniaBackends.Blobstore
