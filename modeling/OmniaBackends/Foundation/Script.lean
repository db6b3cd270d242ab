import OmniaBackends.Foundation.Program

/-!
# Scripts: programs as their requests

A `Script` is a program as the requests it makes of its surroundings: it is done, or it makes a
request and goes on as it is answered. So it can be run alone, as a `Program` over the state that a
handler of the requests keeps (`run`), or request for request, up to where it is stopped (`Stops`),
with a request that fails (`Fails`), or beside others.

`Ends` says how a script may end where requests are answered by a relation, which leaves open what
others do; its rules take such an end apart. `Within` says that all requests of a script are of a
kind.
-/

set_option autoImplicit false
set_option relaxedAutoImplicit false

namespace OmniaBackends.Foundation

/-- A program as its requests; a request is answered or fails. -/
inductive Script (Request : Type) (Response : Request → Type) (Error Value : Type) : Type
  | done (result : Except Error Value)
  | ask (request : Request) (next : Except Error (Response request) →
    Script Request Response Error Value)

namespace Script

variable {Request : Type} {Response : Request → Type} {Error Value Other State : Type}

/-- The rest of a script after its result. -/
def andThen (next : Value → Script Request Response Error Other) :
    Script Request Response Error Value → Script Request Response Error Other
  | .done (.ok value) => next value
  | .done (.error error) => .done (.error error)
  | .ask request after => .ask request fun response ↦ andThen next (after response)

instance : Monad (Script Request Response Error) where
  pure value := .done (.ok value)
  bind script next := andThen next script

/-- A failure. -/
def fail (error : Error) : Script Request Response Error Value :=
  .done (.error error)

/-- A result as a script. -/
def ofResult (result : Except Error Value) : Script Request Response Error Value :=
  .done result

/-- One request. -/
def call (request : Request) : Script Request Response Error (Response request) :=
  .ask request .done

/-- A script whose failure is a value. -/
def attempt : Script Request Response Error Value →
    Script Request Response Error (Except Error Value)
  | .done result => .done (.ok result)
  | .ask request after => .ask request fun response ↦ attempt (after response)

/-- A script for each item of a list, in order, up to the first failure. -/
def forEach {Item : Type} (items : List Item) (body : Item → Script Request Response Error Unit) :
    Script Request Response Error Unit :=
  match items with
  | [] => .done (.ok ())
  | item :: items => andThen (fun _ ↦ forEach items body) (body item)

/-! ### A script alone -/

/-- A script on a state, its requests answered by a handler. -/
def run (handle : (request : Request) → Program State Error (Response request)) :
    Script Request Response Error Value → Program State Error Value
  | .done result => fun state ↦ (result, state)
  | .ask request after => fun state ↦
    run handle (after (handle request state).1) (handle request state).2

variable {handle : (request : Request) → Program State Error (Response request)}
variable {script : Script Request Response Error Value} {state after final : State}
variable {next : Value → Script Request Response Error Other} {value : Value} {error : Error}

@[simp] theorem run_pure (value : Value) :
    run handle (pure value : Script Request Response Error Value) state = (.ok value, state) :=
  rfl

@[simp] theorem run_fail (error : Error) :
    run handle (fail error : Script Request Response Error Value) state = (.error error, state) :=
  rfl

@[simp] theorem run_ofResult (result : Except Error Value) :
    run handle (ofResult result : Script Request Response Error Value) state = (result, state) :=
  rfl

@[simp] theorem run_call (request : Request) :
    run handle (call request) state = handle request state :=
  rfl

/-- A script and its rest, run alone. -/
theorem run_bind (script : Script Request Response Error Value)
    (next : Value → Script Request Response Error Other) :
    run handle (script >>= next) state =
      Program.continueWith (fun value ↦ run handle (next value)) (run handle script state) := by
  change run handle (andThen next script) state = _
  induction script generalizing state with
  | done result => cases result <;> rfl
  | ask request after ih => exact ih _

/-- A script goes on where its first part returned. -/
theorem run_bind_of_ok (hfirst : run handle script state = (.ok value, after)) :
    run handle (script >>= next) state = run handle (next value) after := by
  rw [run_bind, hfirst]
  rfl

/-- A script fails where its first part did. -/
theorem run_bind_of_error (hfirst : run handle script state = (.error error, after)) :
    run handle (script >>= next) state = (.error error, after) := by
  rw [run_bind, hfirst]
  rfl

/-- A failure is a value once attempted. -/
theorem run_attempt_of_eq {result : Except Error Value}
    (hscript : run handle script state = (result, after)) :
    run handle (attempt script) state = (.ok result, after) := by
  induction script generalizing state with
  | done result' =>
    obtain ⟨rfl, rfl⟩ := Prod.mk.inj hscript
    rfl
  | ask request next ih => exact ih _ hscript

/-- A loop alone is the loop of its body alone. -/
theorem run_forEach {Item : Type} (items : List Item)
    (body : Item → Script Request Response Error Unit) :
    run handle (forEach items body) state =
      Program.forEach items (fun item ↦ run handle (body item)) state := by
  induction items generalizing state with
  | nil => rfl
  | cons item items ih =>
    change run handle (body item >>= fun _ ↦ forEach items body) state = _
    rw [run_bind, Program.forEach]
    congr 1
    funext _ after
    exact ih

/-! ### A script that is stopped, or of which a request fails -/

/-- A state in which a script may be stopped: before a request, or at its end. -/
def Stops (handle : (request : Request) → Program State Error (Response request)) :
    Script Request Response Error Value → State → State → Prop
  | .done _, state, left => left = state
  | .ask request after, state, left =>
    left = state ∨ Stops handle (after (handle request state).1) (handle request state).2 left

/-- How a script may end where one of its requests fails and changes nothing. -/
def Fails (handle : (request : Request) → Program State Error (Response request)) (error : Error) :
    Script Request Response Error Value → State → Except Error Value × State → Prop
  | .done _, _, _ => False
  | .ask request after, state, outcome =>
    outcome = run handle (after (.error error)) state ∨
      Fails handle error (after (handle request state).1) (handle request state).2 outcome

/-- A script may be stopped before it has done anything. -/
theorem Stops.refl (script : Script Request Response Error Value) (state : State) :
    Stops handle script state state := by
  cases script with
  | done result => rfl
  | ask request after => exact Or.inl rfl

/-- A script may be stopped at its end. -/
theorem stops_run (script : Script Request Response Error Value) (state : State) :
    Stops handle script state (run handle script state).2 := by
  induction script generalizing state with
  | done result => rfl
  | ask request after ih => exact Or.inr (ih _ _)

/-- Where a script and its rest may be stopped. -/
theorem stops_bind_iff {left : State} :
    Stops handle (script >>= next) state left ↔
      Stops handle script state left ∨
        ∃ value middle, run handle script state = (.ok value, middle) ∧
          Stops handle (next value) middle left := by
  change Stops handle (andThen next script) state left ↔ _
  induction script generalizing state with
  | done result =>
    cases result with
    | error error => exact ⟨Or.inl, fun h ↦ h.resolve_right fun ⟨_, _, hrun, _⟩ ↦ by cases hrun⟩
    | ok value =>
      constructor
      · exact fun hstops ↦ Or.inr ⟨value, state, rfl, hstops⟩
      · rintro (rfl | ⟨_, _, hrun, hstops⟩)
        · exact Stops.refl _ _
        · cases hrun
          exact hstops
  | ask request after ih =>
    change left = state ∨ Stops handle (andThen next _) _ left ↔ (left = state ∨ _) ∨ _
    rw [ih, or_assoc]
    rfl

/-- Where a script may be stopped whose first part returns. -/
theorem stops_bind_of_ok {left : State} (hfirst : run handle script state = (.ok value, after)) :
    Stops handle (script >>= next) state left ↔
      Stops handle script state left ∨ Stops handle (next value) after left := by
  rw [stops_bind_iff]
  refine or_congr_right ⟨?_, fun hstops ↦ ⟨value, after, hfirst, hstops⟩⟩
  rintro ⟨_, middle, hmiddle, hstops⟩
  rw [hfirst] at hmiddle
  cases hmiddle
  exact hstops

/-- An attempt may be stopped where the script may. -/
theorem stops_attempt_iff {left : State} :
    Stops handle (attempt script) state left ↔ Stops handle script state left := by
  induction script generalizing state with
  | done result => rfl
  | ask request after ih => exact or_congr_right (ih _)

/-- How a script and its rest may end where a request fails. -/
theorem fails_bind_iff {outcome : Except Error Other × State} :
    Fails handle error (script >>= next) state outcome ↔
      (∃ first, Fails handle error script state first ∧
        outcome = Program.continueWith (fun value ↦ run handle (next value)) first) ∨
        ∃ value middle, run handle script state = (.ok value, middle) ∧
          Fails handle error (next value) middle outcome := by
  change Fails handle error (andThen next script) state outcome ↔ _
  induction script generalizing state with
  | done result =>
    cases result with
    | error given =>
      refine iff_of_false id ?_
      rintro (⟨_, hfails, -⟩ | ⟨_, _, hrun, -⟩)
      · exact hfails
      · cases hrun
    | ok value =>
      constructor
      · exact fun hfails ↦ Or.inr ⟨value, state, rfl, hfails⟩
      · rintro (⟨_, hfails, -⟩ | ⟨_, _, hrun, hfails⟩)
        · exact hfails.elim
        · cases hrun
          exact hfails
  | ask request after ih =>
    have hrest : run handle (andThen next (after (.error error))) state =
        Program.continueWith (fun value ↦ run handle (next value))
          (run handle (after (.error error)) state) := run_bind _ _
    constructor
    · rintro (rfl | hlater)
      · exact Or.inl ⟨_, Or.inl rfl, hrest⟩
      · rcases (ih _).mp hlater with ⟨first, hfirst, rfl⟩ | ⟨value, middle, hrun, hfails⟩
        · exact Or.inl ⟨first, Or.inr hfirst, rfl⟩
        · exact Or.inr ⟨value, middle, hrun, hfails⟩
    · rintro (⟨first, rfl | hfirst, rfl⟩ | ⟨value, middle, hrun, hfails⟩)
      · exact Or.inl hrest.symm
      · exact Or.inr ((ih _).mpr (Or.inl ⟨first, hfirst, rfl⟩))
      · exact Or.inr ((ih _).mpr (Or.inr ⟨value, middle, hrun, hfails⟩))

/-- How a script may end whose first part returns, where a request fails. -/
theorem fails_bind_of_ok {outcome : Except Error Other × State}
    (hfirst : run handle script state = (.ok value, after)) :
    Fails handle error (script >>= next) state outcome ↔
      (∃ first, Fails handle error script state first ∧
        outcome = Program.continueWith (fun value ↦ run handle (next value)) first) ∨
        Fails handle error (next value) after outcome := by
  rw [fails_bind_iff]
  refine or_congr_right ⟨?_, fun hfails ↦ ⟨value, after, hfirst, hfails⟩⟩
  rintro ⟨_, middle, hmiddle, hfails⟩
  rw [hfirst] at hmiddle
  cases hmiddle
  exact hfails

/-- How an attempt may end where a request fails. -/
theorem fails_attempt_iff {outcome : Except Error (Except Error Value) × State} :
    Fails handle error (attempt script) state outcome ↔
      ∃ given left, Fails handle error script state (given, left) ∧
        outcome = (.ok given, left) := by
  induction script generalizing state with
  | done result => exact iff_of_false id fun ⟨_, _, hfails, _⟩ ↦ hfails
  | ask request after ih =>
    have hrest : run handle (attempt (after (.error error))) state =
        (.ok (run handle (after (.error error)) state).1,
          (run handle (after (.error error)) state).2) := run_attempt_of_eq rfl
    constructor
    · rintro (rfl | hlater)
      · exact ⟨_, _, Or.inl rfl, hrest⟩
      · obtain ⟨given, left, hgiven, rfl⟩ := (ih _).mp hlater
        exact ⟨given, left, Or.inr hgiven, rfl⟩
    · rintro ⟨given, left, hgiven | hgiven, rfl⟩
      · refine Or.inl ?_
        rw [hrest, ← hgiven]
      · exact Or.inr ((ih _).mpr ⟨given, left, hgiven, rfl⟩)

theorem stops_call_iff {request : Request} {left : State} :
    Stops handle (call request) state left ↔ left = state ∨ left = (handle request state).2 :=
  Iff.rfl

theorem fails_call_iff {request : Request} {outcome : Except Error (Response request) × State} :
    Fails handle error (call request) state outcome ↔ outcome = (.error error, state) :=
  or_iff_left id

/-! An attempt whose result is settled without another request. -/

section Settled

variable (settle : Except Error Value → Except Error Other)

theorem run_settled (script : Script Request Response Error Value) (state : State) :
    run handle (attempt script >>= fun given ↦ ofResult (settle given)) state =
      (settle (run handle script state).1, (run handle script state).2) := by
  rw [run_bind_of_ok (run_attempt_of_eq (rfl : _ = ((run handle script state).1, _)))]
  rfl

theorem stops_settled_iff {left : State} :
    Stops handle (attempt script >>= fun given ↦ ofResult (settle given)) state left ↔
      Stops handle script state left := by
  rw [stops_bind_iff, stops_attempt_iff, or_iff_left_iff_imp]
  rintro ⟨given, middle, hrun, rfl⟩
  rw [run_attempt_of_eq (rfl : _ = ((run handle script state).1, _))] at hrun
  obtain ⟨-, rfl⟩ := Prod.mk.inj hrun
  exact stops_run script state

theorem fails_settled_iff {outcome : Except Error Other × State} :
    Fails handle error (attempt script >>= fun given ↦ ofResult (settle given)) state outcome ↔
      ∃ given left, Fails handle error script state (given, left) ∧
        outcome = (settle given, left) := by
  rw [fails_bind_iff, or_iff_left (by rintro ⟨_, _, -, hfails⟩; exact hfails)]
  simp only [fails_attempt_iff]
  constructor
  · rintro ⟨_, ⟨given, left, hfails, rfl⟩, rfl⟩
    exact ⟨given, left, hfails, rfl⟩
  · rintro ⟨given, left, hfails, rfl⟩
    exact ⟨_, ⟨given, left, hfails, rfl⟩, rfl⟩

end Settled

/-- A loop whose body does nothing but may fail does the same. -/
theorem Fails.forEach_same {Item : Type} {items : List Item}
    {body : Item → Script Request Response Error Unit} {outcome : Except Error Unit × State}
    (hfails : Fails handle error (forEach items body) state outcome)
    (hrun : ∀ item state, run handle (body item) state = (.ok (), state))
    (hbody : ∀ item state outcome, Fails handle error (body item) state outcome →
      outcome = (.error error, state)) : outcome = (.error error, state) := by
  induction items with
  | nil => exact hfails.elim
  | cons item items ih =>
    have hbind : Fails handle error (body item >>= fun _ ↦ forEach items body) state outcome :=
      hfails
    rcases fails_bind_iff.mp hbind with
      ⟨first, hfirst, rfl⟩ | ⟨_, middle, hmiddle, hrest⟩
    · rw [hbody item state first hfirst]
      rfl
    · rw [hrun item state] at hmiddle
      obtain ⟨-, rfl⟩ := Prod.mk.inj hmiddle
      exact ih hrest

/-- A loop whose body does nothing does nothing. -/
theorem run_forEach_same {Item : Type} (items : List Item)
    {body : Item → Script Request Response Error Unit}
    (hrun : ∀ item state, run handle (body item) state = (.ok (), state)) (state : State) :
    run handle (forEach items body) state = (.ok (), state) := by
  induction items with
  | nil => rfl
  | cons item items ih =>
    change run handle (body item >>= fun _ ↦ forEach items body) state = _
    rw [run_bind_of_ok (hrun item state), ih]

/-- Nor does it where it is stopped. -/
theorem Stops.forEach_same {Item : Type} {items : List Item}
    {body : Item → Script Request Response Error Unit} {left : State}
    (hstops : Stops handle (forEach items body) state left)
    (hrun : ∀ item state, run handle (body item) state = (.ok (), state))
    (hbody : ∀ item state left, Stops handle (body item) state left → left = state) :
    left = state := by
  induction items with
  | nil => exact hstops
  | cons item items ih =>
    have hbind : Stops handle (body item >>= fun _ ↦ forEach items body) state left := hstops
    rcases stops_bind_iff.mp hbind with
      hfirst | ⟨_, middle, hmiddle, hrest⟩
    · exact hbody item state left hfirst
    · rw [hrun item state] at hmiddle
      obtain ⟨-, rfl⟩ := Prod.mk.inj hmiddle
      exact ih hrest

/-! ### A script among others -/

/-- How a script may end from a state where its requests are answered by a relation. -/
def Ends (answers : (request : Request) → State → Except Error (Response request) → State → Prop) :
    Script Request Response Error Value → State → Except Error Value → State → Prop
  | .done given, state, result, final => result = given ∧ final = state
  | .ask request after, state, result, final =>
    ∃ response middle, answers request state response middle ∧
      Ends answers (after response) middle result final

variable {answers : (request : Request) → State → Except Error (Response request) → State → Prop}

/-- How a script and its rest may end. -/
theorem ends_bind_iff {script : Script Request Response Error Value} {result : Except Error Other} :
    Ends answers (script >>= next) state result final ↔
      ∃ first middle, Ends answers script state first middle ∧
        match first with
        | .ok value => Ends answers (next value) middle result final
        | .error error => result = .error error ∧ final = middle := by
  change Ends answers (andThen next script) state result final ↔ _
  induction script generalizing state with
  | done given =>
    constructor
    · intro hends
      refine ⟨given, state, ⟨rfl, rfl⟩, ?_⟩
      cases given <;> exact hends
    · rintro ⟨first, middle, ⟨rfl, rfl⟩, hrest⟩
      cases first <;> exact hrest
  | ask request after ih =>
    constructor
    · rintro ⟨response, middle, hanswer, hends⟩
      obtain ⟨first, last, hfirst, hrest⟩ := (ih response).mp hends
      exact ⟨first, last, ⟨response, middle, hanswer, hfirst⟩, hrest⟩
    · rintro ⟨first, last, ⟨response, middle, hanswer, hfirst⟩, hrest⟩
      exact ⟨response, middle, hanswer, (ih response).mpr ⟨first, last, hfirst, hrest⟩⟩

/-- How an attempt may end. -/
theorem ends_attempt_iff {result : Except Error (Except Error Value)} :
    Ends answers (attempt script) state result final ↔
      ∃ given, result = .ok given ∧ Ends answers script state given final := by
  induction script generalizing state with
  | done given =>
    constructor
    · rintro ⟨rfl, rfl⟩
      exact ⟨given, rfl, rfl, rfl⟩
    · rintro ⟨_, rfl, rfl, rfl⟩
      exact ⟨rfl, rfl⟩
  | ask request after ih =>
    constructor
    · rintro ⟨response, middle, hanswer, hends⟩
      obtain ⟨given, rfl, hgiven⟩ := (ih response).mp hends
      exact ⟨given, rfl, response, middle, hanswer, hgiven⟩
    · rintro ⟨given, rfl, response, middle, hanswer, hgiven⟩
      exact ⟨response, middle, hanswer, (ih response).mpr ⟨given, rfl, hgiven⟩⟩

/-- How one request may end. -/
theorem ends_call_iff {request : Request} {result : Except Error (Response request)} :
    Ends answers (call request) state result final ↔ answers request state result final := by
  constructor
  · rintro ⟨response, middle, hanswer, rfl, rfl⟩
    exact hanswer
  · exact fun hanswer ↦ ⟨result, final, hanswer, rfl, rfl⟩

/-- A loop leaves the state where its body does. -/
theorem Ends.forEach_same {Item : Type} {items : List Item}
    {body : Item → Script Request Response Error Unit} {result : Except Error Unit}
    (hends : Ends answers (forEach items body) state result final)
    (hbody : ∀ item state result final, Ends answers (body item) state result final →
      final = state) : final = state := by
  induction items generalizing state with
  | nil => exact hends.2
  | cons item items ih =>
    have hbind : Ends answers (body item >>= fun _ ↦ forEach items body) state result final :=
      hends
    obtain ⟨first, middle, hfirst, hrest⟩ := ends_bind_iff.mp hbind
    obtain rfl := hbody item state first middle hfirst
    cases first with
    | ok _ => exact ih hrest
    | error _ => exact hrest.2

/-- All requests of a script are of a kind. -/
def Within (allowed : Request → Prop) : Script Request Response Error Value → Prop
  | .done _ => True
  | .ask request after => allowed request ∧ ∀ response, Within allowed (after response)

variable {allowed : Request → Prop}

theorem Within.imp {permitted : Request → Prop} (hscript : Within allowed script)
    (himp : ∀ request, allowed request → permitted request) : Within permitted script := by
  induction script with
  | done result => trivial
  | ask request after ih =>
    exact ⟨himp request hscript.1, fun response ↦ ih response (hscript.2 response)⟩

theorem Within.bind (hscript : Within allowed script)
    (hnext : ∀ value, Within allowed (next value)) :
    Within allowed (script >>= next) := by
  change Within allowed (andThen next script)
  induction script with
  | done result =>
    cases result with
    | ok value => exact hnext value
    | error error => trivial
  | ask request after ih => exact ⟨hscript.1, fun response ↦ ih response (hscript.2 response)⟩

theorem Within.attempt (hscript : Within allowed script) : Within allowed (attempt script) := by
  induction script with
  | done result => trivial
  | ask request after ih => exact ⟨hscript.1, fun response ↦ ih response (hscript.2 response)⟩

theorem Within.call {request : Request} (hrequest : allowed request) :
    Within allowed (call request : Script Request Response Error _) :=
  ⟨hrequest, fun _ ↦ trivial⟩

theorem Within.forEach {Item : Type} {items : List Item}
    {body : Item → Script Request Response Error Unit}
    (hbody : ∀ item, Within allowed (body item)) :
    Within allowed (forEach items body) := by
  induction items with
  | nil => trivial
  | cons item items ih => exact (hbody item).bind fun _ ↦ ih

end Script

end OmniaBackends.Foundation
