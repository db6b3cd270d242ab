import Mathlib.Data.List.Basic

/-!
# Programs over a state that may fail

A `Program` takes a state to a result and the state it left, which a failure leaves too: what was
done before it stays done. Programs are composed in the usual notation, `attempt` goes on after a
failure with its error as a value, and `forEach` runs over a list up to the first failure.

`loop` repeats a body until it has a value, which it must within what a measure of the state bounds.

`Keeps` says that a program leaves the state in a relation to what it was, whatever it returns.
It is proved of a whole program from its steps: of a reflexive and transitive relation, every
combinator keeps what its parts keep. `Meets` says that from a state of a precondition a program
returns into a postcondition or fails into another, and composes by its rules in the same way: a
loop meets what its body leads to from an invariant that the body keeps.
-/

set_option autoImplicit false
set_option relaxedAutoImplicit false

namespace OmniaBackends.Foundation

universe u v w

/-- A program over a state: what it returns or fails with, and the state it leaves. -/
def Program (State : Type u) (Error : Type v) (Value : Type w) := State → Except Error Value × State

namespace Program

variable {State : Type u} {Error : Type v} {Value Other : Type w}

/-- The rest of a program after a result. -/
def continueWith (next : Value → Program State Error Other) :
    Except Error Value × State → Except Error Other × State
  | (.ok value, state) => next value state
  | (.error error, state) => (.error error, state)

instance : Monad (Program State Error) where
  pure value := fun state ↦ (.ok value, state)
  bind program next := fun state ↦ continueWith next (program state)

/-- A failure that leaves the state. -/
def fail (error : Error) : Program State Error Value := fun state ↦ (.error error, state)

/-- A program whose failure is a value. -/
def attempt (program : Program State Error Value) : Program State Error (Except Error Value) :=
  fun state ↦ (.ok (program state).1, (program state).2)

/-- A result as a program. -/
def ofResult (result : Except Error Value) : Program State Error Value :=
  fun state ↦ (result, state)

/-- A program for each item of a list, in order, up to the first failure. -/
def forEach {Item : Type*} (items : List Item) (body : Item → Program State Error Unit) :
    Program State Error Unit :=
  match items with
  | [] => fun state ↦ (.ok (), state)
  | item :: items => fun state ↦ continueWith (fun _ ↦ forEach items body) (body item state)

/-- A body repeated until it has a value. Each time it has none, a measure of the state falls. -/
def loop (measure : State → Nat) (body : Program State Error (Option Value))
    (hmeasure : ∀ state, (body state).1 = .ok none → measure (body state).2 < measure state)
    (state : State) : Except Error Value × State :=
  match _hresult : body state with
  | (.ok none, after) => loop measure body hmeasure after
  | (.ok (some value), after) => (.ok value, after)
  | (.error error, after) => (.error error, after)
termination_by measure state
decreasing_by
  have hfalls := hmeasure state
  rw [_hresult] at hfalls
  exact hfalls rfl

variable {program : Program State Error Value} {next : Value → Program State Error Other}
variable {state after : State} {value : Value} {error : Error}

@[simp] theorem pure_apply (value : Value) (state : State) :
    (pure value : Program State Error Value) state = (.ok value, state) :=
  rfl

@[simp] theorem fail_apply (error : Error) (state : State) :
    (fail error : Program State Error Value) state = (.error error, state) :=
  rfl

@[simp] theorem ofResult_apply (result : Except Error Value) (state : State) :
    (ofResult result : Program State Error Value) state = (result, state) :=
  rfl

/-- A failure is a value once attempted. -/
theorem attempt_apply_of_eq {result : Except Error Value}
    (hprogram : program state = (result, after)) :
    attempt program state = (.ok result, after) := by
  rw [attempt, hprogram]

/-- A program goes on where its first part returned. -/
theorem bind_apply_of_ok (hfirst : program state = (.ok value, after)) :
    (program >>= next) state = next value after := by
  change continueWith next (program state) = _
  rw [hfirst]
  rfl

/-- A program fails where its first part did. -/
theorem bind_apply_of_error (hfirst : program state = (.error error, after)) :
    (program >>= next) state = (.error error, after) := by
  change continueWith next (program state) = _
  rw [hfirst]
  rfl

/-- A program returns exactly when both parts do. -/
theorem bind_eq_ok_iff {result : Other} {final : State} :
    (program >>= next) state = (.ok result, final) ↔
      ∃ value middle, program state = (.ok value, middle) ∧
        next value middle = (.ok result, final) := by
  change continueWith next (program state) = _ ↔ _
  rcases program state with ⟨_ | value, middle⟩ <;> simp [continueWith]

/-- A loop returns exactly when its body does for the first item and the loop for the rest. -/
theorem forEach_cons_eq_ok_iff {Item : Type*} {item : Item} {items : List Item}
    {body : Item → Program State Error Unit} :
    forEach (item :: items) body state = (.ok (), after) ↔
      ∃ middle, body item state = (.ok (), middle) ∧
        forEach items body middle = (.ok (), after) := by
  change continueWith _ (body item state) = _ ↔ _
  rcases body item state with ⟨_ | value, middle⟩ <;> simp [continueWith]

/-- A loop over one item is its body. -/
theorem forEach_singleton {Item : Type*} (item : Item)
    (body : Item → Program State Error Unit) (state : State) :
    forEach [item] body state = body item state := by
  change continueWith _ (body item state) = _
  rcases body item state with ⟨_ | _, after⟩ <;> rfl

/-- A loop over a concatenation runs over its parts, one after the other. -/
theorem forEach_append {Item : Type*} (items later : List Item)
    (body : Item → Program State Error Unit) (state : State) :
    forEach (items ++ later) body state =
      continueWith (fun _ ↦ forEach later body) (forEach items body state) := by
  induction items generalizing state with
  | nil => rfl
  | cons item items ih =>
    change continueWith _ (body item state) = continueWith _ (continueWith _ (body item state))
    rcases body item state with ⟨_ | value, middle⟩
    · rfl
    · exact ih middle

/-! ### What a program keeps -/

/-- A program may return a value. -/
def Returns (program : Program State Error Value) (value : Value) : Prop :=
  ∃ state after, program state = (.ok value, after)

/-- A program that leaves the state in a relation to what it was. -/
def Keeps (relation : State → State → Prop) (program : Program State Error Value) : Prop :=
  ∀ state, relation state (program state).2

variable {relation : State → State → Prop}

theorem Keeps.pure (hrefl : ∀ state, relation state state) (value : Value) :
    Keeps relation (pure value : Program State Error Value) :=
  hrefl

theorem Keeps.fail (hrefl : ∀ state, relation state state) (error : Error) :
    Keeps relation (fail error : Program State Error Value) :=
  hrefl

theorem Keeps.ofResult (hrefl : ∀ state, relation state state) (result : Except Error Value) :
    Keeps relation (ofResult result : Program State Error Value) :=
  hrefl

theorem Keeps.attempt (hprogram : Keeps relation program) :
    Keeps relation (attempt program) :=
  hprogram

/-- A composition keeps what both parts keep. -/
theorem Keeps.bind (htrans : ∀ {first second third}, relation first second →
      relation second third → relation first third)
    (hprogram : Keeps relation program) (hnext : ∀ value, Keeps relation (next value)) :
    Keeps relation (program >>= next) := by
  intro state
  have hfirst := hprogram state
  change relation state (continueWith next (program state)).2
  rcases hresult : program state with ⟨_ | value, middle⟩
  · rwa [hresult] at hfirst
  · rw [hresult] at hfirst
    exact htrans hfirst (hnext value middle)

/-- So it does where the second part keeps it after each value that the first may return. -/
theorem Keeps.bind_of (htrans : ∀ {first second third}, relation first second →
      relation second third → relation first third)
    (hprogram : Keeps relation program)
    (hnext : ∀ value, Returns program value → Keeps relation (next value)) :
    Keeps relation (program >>= next) := by
  intro state
  have hfirst := hprogram state
  rcases hresult : program state with ⟨error | value, middle⟩
  · rw [hresult] at hfirst
    rwa [bind_apply_of_error hresult]
  · rw [hresult] at hfirst
    rw [bind_apply_of_ok hresult]
    exact htrans hfirst (hnext value ⟨state, middle, hresult⟩ middle)

/-- What the rest of a program keeps is kept from where its first part left off. -/
theorem Keeps.rest (hrefl : ∀ state, relation state state)
    (hnext : ∀ value, Keeps relation (next value)) (state : State) :
    relation (program state).2 ((program >>= next) state).2 := by
  change relation (program state).2 (continueWith next (program state)).2
  rcases program state with ⟨_ | value, middle⟩
  · exact hrefl middle
  · exact hnext value middle

/-- A loop keeps what its body keeps. -/
theorem Keeps.forEach {Item : Type*} (hrefl : ∀ state, relation state state)
    (htrans : ∀ {first second third}, relation first second → relation second third →
      relation first third)
    {body : Item → Program State Error Unit} {items : List Item}
    (hbody : ∀ item ∈ items, Keeps relation (body item)) :
    Keeps relation (Program.forEach items body) := by
  induction items with
  | nil => exact hrefl
  | cons item items ih =>
    exact Keeps.bind htrans (hbody item List.mem_cons_self) fun _ ↦
      ih fun other hother ↦ hbody other (List.mem_cons_of_mem _ hother)

/-! ### What a program meets -/

/-- From a state of a precondition, a program returns into a postcondition or fails into another. -/
def Meets (before : State → Prop) (program : Program State Error Value)
    (after : Value → State → Prop) (failed : Error → State → Prop) : Prop :=
  ∀ state, before state →
    (∀ value, (program state).1 = .ok value → after value (program state).2) ∧
      ∀ error, (program state).1 = .error error → failed error (program state).2

variable {before : State → Prop} {middle : Value → State → Prop} {left : Other → State → Prop}
variable {failed : Error → State → Prop}

theorem Meets.pure {value : Value} (hafter : ∀ state, before state → middle value state) :
    Meets before (pure value : Program State Error Value) middle failed := by
  intro state hbefore
  refine ⟨fun found hfound ↦ ?_, fun error herror ↦ (by cases herror)⟩
  rw [← Except.ok.inj hfound]
  exact hafter state hbefore

theorem Meets.fail {error : Error} (hfailed : ∀ state, before state → failed error state) :
    Meets before (fail error : Program State Error Value) middle failed := by
  intro state hbefore
  refine ⟨fun found hfound ↦ (by cases hfound), fun other hother ↦ ?_⟩
  rw [← Except.error.inj hother]
  exact hfailed state hbefore

/-- A composition meets what its second part leads to from where its first part does. -/
theorem Meets.bind (hprogram : Meets before program middle failed)
    (hnext : ∀ value, Meets (middle value) (next value) left failed) :
    Meets before (program >>= next) left failed := by
  intro state hbefore
  obtain ⟨hok, herror⟩ := hprogram state hbefore
  rcases hresult : program state with ⟨error | value, reached⟩
  · rw [bind_apply_of_error hresult]
    rw [hresult] at herror
    refine ⟨fun found hfound ↦ (by cases hfound), fun other hother ↦ ?_⟩
    rw [← Except.error.inj hother]
    exact herror error rfl
  · rw [bind_apply_of_ok hresult]
    rw [hresult] at hok
    exact hnext value reached (hok value rfl)

/-- What a precondition says whatever the state is a hypothesis. -/
theorem Meets.of_fact {fact : Prop}
    (hprogram : fact → Meets before program middle failed) :
    Meets (fun state ↦ fact ∧ before state) program middle failed :=
  fun state hbefore ↦ hprogram hbefore.1 state hbefore.2

/-- A loop meets what its body leads to from an invariant that the body keeps. -/
theorem Meets.loop {measure : State → Nat} {body : Program State Error (Option Value)}
    {hmeasure : ∀ state, (body state).1 = .ok none → measure (body state).2 < measure state}
    (hbody : Meets before body (fun found state ↦ found.elim (before state) (middle · state))
      failed) :
    Meets before (loop measure body hmeasure) middle failed := by
  intro state hbefore
  induction hvalue : measure state using Nat.strongRecOn generalizing state with
  | _ bound ih
  obtain ⟨hok, herror⟩ := hbody state hbefore
  have hfalls := hmeasure state
  rw [Program.loop]
  split
  next after hresult =>
    rw [hresult] at hok hfalls
    exact ih (measure after) (hvalue ▸ hfalls rfl) after (hok none rfl) rfl
  next value after hresult =>
    rw [hresult] at hok
    refine ⟨fun found hfound ↦ ?_, fun other hother ↦ (by cases hother)⟩
    rw [← Except.ok.inj hfound]
    exact hok (some value) rfl
  next error after hresult =>
    rw [hresult] at herror
    refine ⟨fun found hfound ↦ (by cases hfound), fun other hother ↦ ?_⟩
    rw [← Except.error.inj hother]
    exact herror error rfl

/-- A precondition may be strengthened and the postconditions weakened. -/
theorem Meets.imp {stronger : State → Prop} {weaker : Value → State → Prop}
    {milder : Error → State → Prop} (hprogram : Meets before program middle failed)
    (hbefore : ∀ state, stronger state → before state)
    (hafter : ∀ value state, middle value state → weaker value state)
    (hfailed : ∀ error state, failed error state → milder error state) :
    Meets stronger program weaker milder := by
  intro state hstronger
  obtain ⟨hok, herror⟩ := hprogram state (hbefore state hstronger)
  exact ⟨fun value hvalue ↦ hafter value _ (hok value hvalue),
    fun error hfailure ↦ hfailed error _ (herror error hfailure)⟩

end Program

end OmniaBackends.Foundation
