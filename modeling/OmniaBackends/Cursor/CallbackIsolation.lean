import OmniaBackends.Cursor.Callback

/-!
# Callbacks reach the completion they belong to

What a run of the callback server keeps: the tables lead to the routes that are attached and to no
other (`Tables`), what happened is what the registrations and the routes show (`Logged`), and a
request stands where its own happenings put it (`Asked`). `Kept` is all of it, with the trace
permitted so far.
-/

set_option autoImplicit false
set_option relaxedAutoImplicit false

namespace OmniaBackends.Cursor

open Foundation

namespace Callback

/-- The tables lead to the routes whose guards live. -/
structure Tables (state : State) : Prop where
  entries : ∀ registration agentId target, state.entry registration agentId = some target →
    ∃ route, state.routes[target.route]? = some route ∧ route.registration = registration ∧
      route.agentId = agentId ∧ route.toolHost = target.toolHost ∧
      route.declared = target.declared ∧ route.held = true ∧
      (target.abort = true ↔ route.aborted = none)
  held : ∀ index route, state.routes[index]? = some route → route.held = true →
    ∃ target, state.entry route.registration route.agentId = some target ∧ target.route = index

/-- What happened is what the registrations and the routes show. -/
structure Logged (state : State) : Prop where
  registered : ∀ index registration, state.registrations[index]? = some registration →
    .registered index registration.token ∈ state.history
  revoked : ∀ index, .revoked index ∈ state.history →
    index < state.registrations.length ∧ state.live index = false
  attached : ∀ index route, state.routes[index]? = some route →
    .attached index route.registration route.agentId route.toolHost route.declared ∈ state.history
  released : ∀ index, .released index ∈ state.history →
    ∃ route, state.routes[index]? = some route ∧ route.held = false
  aborted : ∀ index request reason, .aborted index request reason ∈ state.history →
    ∃ route, state.routes[index]? = some route ∧ route.aborted ≠ none

/-- A request that was neither refused nor dispatched. -/
def Untouched (history : List Happening) (request : Nat) : Prop :=
  (∀ refusal, .refused request refusal ∉ history) ∧
    ∀ registration route agentId toolHost tool,
      .dispatched request registration route agentId toolHost tool ∉ history

/-- Where the requests stand. -/
structure Asked (state : State) : Prop where
  admitted : ∀ request registration contentType,
    state.requests[request]? = some (.admitted registration contentType) →
      (∃ token, .admitted request token registration ∈ state.history ∧
        .registered registration token ∈ state.history) ∧ Untouched state.history request
  called : ∀ request registration route call,
    state.requests[request]? = some (.called registration route call) →
      ∃ toolHost, .dispatched request registration route call.agentId toolHost call.toolName ∈
        state.history
  fresh : ∀ request, state.requests.length ≤ request → Untouched state.history request
  /-- With a registration dropped, no request is to be read that a route is attached for. -/
  quiet : ∀ registration, state.live registration = false →
    (∀ agentId, state.entry registration agentId = none) ∨
      ∀ (request : Nat) (contentType : Option Bytes),
        state.requests[request]? ≠ some (.admitted registration contentType)

structure Kept (state : State) : Prop where
  tables : Tables state
  logged : Logged state
  asked : Asked state
  lawful : Lawful Permitted state.history

variable {state after : State} {decode : Codec → Bytes → Except Bytes ToolCall}

theorem Kept.start : Kept .start where
  tables := ⟨fun _ _ _ hentry ↦ (by cases hentry), fun _ _ hroute ↦ (by cases hroute)⟩
  logged := {
    registered := fun _ _ hfound ↦ (by cases hfound)
    revoked := fun _ hmember ↦ (by cases hmember)
    attached := fun _ _ hroute ↦ (by cases hroute)
    released := fun _ hmember ↦ (by cases hmember)
    aborted := fun _ _ _ hmember ↦ (by cases hmember) }
  asked := {
    admitted := fun _ _ _ hstage ↦ (by cases hstage)
    called := fun _ _ _ _ hstage ↦ (by cases hstage)
    fresh := fun _ _ ↦ ⟨fun _ hmember ↦ (by cases hmember),
      fun _ _ _ _ _ hmember ↦ (by cases hmember)⟩
    quiet := fun _ _ ↦ .inl fun _ ↦ rfl }
  lawful := trivial

/-! ### What happens -/

/-- The request that a happening answers or dispatches. -/
def Happening.request? : Happening → Option Nat
  | .dispatched request _ _ _ _ _ | .refused request _ => some request
  | _ => none

/-- Whether a happening ends a registration or a route, or aborts one. -/
def Happening.ends : Happening → Bool
  | .revoked _ | .released _ | .aborted _ _ _ => true
  | _ => false

theorem Untouched.cons {history : List Happening} {request : Nat}
    (huntouched : Untouched history request) {happening : Happening}
    (hother : happening.request? ≠ some request) : Untouched (happening :: history) request := by
  refine ⟨fun refusal hmember ↦ ?_, fun registration route agentId toolHost tool hmember ↦ ?_⟩
  · rcases List.mem_cons.mp hmember with rfl | hmember
    · exact hother rfl
    · exact huntouched.1 refusal hmember
  · rcases List.mem_cons.mp hmember with rfl | hmember
    · exact hother rfl
    · exact huntouched.2 registration route agentId toolHost tool hmember

theorem Logged.happen (hlogged : Logged state) (happening : Happening)
    (hends : happening.ends = false) : Logged (state.happen happening) where
  registered index registration hfound :=
    List.mem_cons_of_mem _ (hlogged.registered index registration hfound)
  revoked index hmember := by
    rcases List.mem_cons.mp hmember with rfl | hmember
    · cases hends
    · exact hlogged.revoked index hmember
  attached index route hroute := List.mem_cons_of_mem _ (hlogged.attached index route hroute)
  released index hmember := by
    rcases List.mem_cons.mp hmember with rfl | hmember
    · cases hends
    · exact hlogged.released index hmember
  aborted index request reason hmember := by
    rcases List.mem_cons.mp hmember with rfl | hmember
    · cases hends
    · exact hlogged.aborted index request reason hmember

theorem Asked.happen (hasked : Asked state) (happening : Happening)
    (hrequest : happening.request? = none) : Asked (state.happen happening) where
  admitted request registration contentType hstage := by
    obtain ⟨⟨token, hadmitted, hregistered⟩, huntouched⟩ :=
      hasked.admitted request registration contentType hstage
    exact ⟨⟨token, List.mem_cons_of_mem _ hadmitted, List.mem_cons_of_mem _ hregistered⟩,
      huntouched.cons (by rw [hrequest]; exact (Option.some_ne_none _).symm)⟩
  called request registration route call hstage := by
    obtain ⟨toolHost, hdispatched⟩ := hasked.called request registration route call hstage
    exact ⟨toolHost, List.mem_cons_of_mem _ hdispatched⟩
  fresh request hlength :=
    (hasked.fresh request hlength).cons (by rw [hrequest]; exact (Option.some_ne_none _).symm)
  quiet := hasked.quiet

/-! ### Registrations -/

/-- With a registration added the tables of the others are as they were. -/
theorem State.entry_concat (state : State) (token : Bytes) :
    ({ state with registrations := state.registrations ++ [⟨token, true, fun _ ↦ none⟩] } :
      State).entry = state.entry := by
  funext index agentId
  unfold State.entry
  dsimp only
  rcases Nat.lt_trichotomy index state.registrations.length with hlt | rfl | hgt
  · rw [List.getElem?_append_left hlt]
  · simp
  · simp [List.getElem?_eq_none hgt.le, List.getElem?_append_right hgt.le,
      Nat.sub_ne_zero_of_lt hgt]

theorem State.live_concat (state : State) (token : Bytes) (index : Nat) :
    ({ state with registrations := state.registrations ++ [⟨token, true, fun _ ↦ none⟩] } :
      State).live index = (state.live index || decide (index = state.registrations.length)) := by
  unfold State.live
  dsimp only
  rcases Nat.lt_trichotomy index state.registrations.length with hlt | rfl | hgt
  · rw [List.getElem?_append_left hlt]
    simp [hlt.ne]
  · simp
  · simp [List.getElem?_eq_none hgt.le, hgt.ne', List.getElem?_append_right hgt.le,
      Nat.sub_ne_zero_of_lt hgt]

theorem Kept.register (hkept : Kept state) {token : Bytes}
    (hstep : state.step decode (.register token) = some after) : Kept after := by
  obtain ⟨-, hafter⟩ := Option.ite_none_left_eq_some.mp hstep
  obtain rfl := (Option.some.inj hafter).symm
  have hlogged := hkept.logged.happen (.registered state.registrations.length token) rfl
  have hasked := hkept.asked.happen (.registered state.registrations.length token) rfl
  have hentry := State.entry_concat state token
  have hlive := State.live_concat state token
  refine ⟨⟨fun registration agentId target htarget ↦ ?_, fun index route hroute hheld ↦ ?_⟩,
    { hlogged with registered := fun index registration hfound ↦ ?_
                   revoked := fun index hmember ↦ ?_ },
    { hasked with quiet := fun registration hdead ↦ ?_ }, ⟨trivial, hkept.lawful⟩⟩
  · exact hkept.tables.entries registration agentId target (hentry ▸ htarget)
  · obtain ⟨target, htarget, hindex⟩ := hkept.tables.held index route hroute hheld
    exact ⟨target, hentry.symm ▸ htarget, hindex⟩
  · rcases getElem?_arrival.mp hfound with hold | ⟨rfl, rfl⟩
    · exact hlogged.registered index registration hold
    · exact List.mem_cons_self
  · obtain ⟨hlt, hdead⟩ := hlogged.revoked index hmember
    refine ⟨?_, (hlive index).trans ?_⟩
    · simpa [State.happen] using Nat.lt_succ_of_lt hlt
    · rw [show state.live index = false from hdead]
      simp [(show index < state.registrations.length from hlt).ne]
  · have hbefore : state.live registration = false :=
      (Bool.or_eq_false_iff.mp ((hlive registration).symm.trans hdead)).1
    refine (hkept.asked.quiet registration hbefore).imp (fun hnone agentId ↦ ?_) id
    exact (congrFun (congrFun hentry registration) agentId).trans (hnone agentId)

/-! ### Routes -/

theorem State.registrations_setEntry {index : Nat} {agentId : Bytes} {entry : Option Target}
    {other : Nat} {registration : Registration}
    (hfound : (state.setEntry index agentId entry).registrations[other]? = some registration) :
    ∃ before, state.registrations[other]? = some before ∧ registration.token = before.token := by
  unfold State.setEntry at hfound
  dsimp only at hfound
  rw [List.getElem?_modify] at hfound
  cases hbefore : state.registrations[other]? with
  | none =>
    rw [hbefore] at hfound
    cases hfound
  | some before =>
    rw [hbefore] at hfound
    refine ⟨before, rfl, ?_⟩
    rw [← Option.some.inj hfound]
    dsimp only
    split_ifs
    · rfl
    · rfl

theorem State.length_setEntry (state : State) (index : Nat) (agentId : Bytes)
    (entry : Option Target) :
    (state.setEntry index agentId entry).registrations.length = state.registrations.length :=
  List.length_modify _ _ _

/-- A table that changes at an agent changes nothing that is logged. -/
theorem Logged.setEntry (hlogged : Logged state) (index : Nat) (agentId : Bytes)
    (entry : Option Target) : Logged (state.setEntry index agentId entry) :=
  { hlogged with
    registered := fun other registration hfound ↦ by
      obtain ⟨before, hbefore, htoken⟩ := State.registrations_setEntry hfound
      rw [htoken]
      exact hlogged.registered other before hbefore
    revoked := fun other hmember ↦ by
      obtain ⟨hlt, hdead⟩ := hlogged.revoked other hmember
      rw [State.length_setEntry, State.live_setEntry]
      exact ⟨hlt, hdead⟩ }

/-- A registration with a live guard among its routes has one for each of its agents at most. -/
theorem Kept.attach (hkept : Kept state) {index : Nat} {agentId : Bytes} {toolHost : Nat}
    {declared : List Bytes}
    (hstep : state.step decode (.attach index agentId toolHost declared) = some after) :
    Kept after := by
  simp only [State.step] at hstep
  cases hfound : state.registrations[index]? with
  | none =>
    rw [hfound] at hstep
    cases hstep
  | some found =>
    rw [hfound] at hstep
    obtain ⟨hfree, hafter⟩ := Option.ite_none_left_eq_some.mp hstep
    obtain rfl := (Option.some.inj hafter).symm
    obtain ⟨hfoundLive, hnone⟩ := not_or.mp hfree
    have hlt := lt_length_of_getElem? hfound
    have hlive : state.live index = true := by
      unfold State.live
      rw [hfound]
      simpa using hfoundLive
    have hunheld (place : Nat) (route : Route) (hroute : state.routes[place]? = some route)
        (hregistration : route.registration = index) : route.held ≠ true := by
      intro hheld
      refine hnone (List.any_eq_true.mpr ⟨route, List.mem_of_getElem? hroute, ?_⟩)
      simp [hregistration, hheld]
    set target : Target := ⟨state.routes.length, toolHost, declared, true⟩ with htarget
    have hentry := State.entry_setEntry state index agentId (some target)
    have hlogged := (hkept.logged.setEntry index agentId (some target)).happen
      (.attached state.routes.length index agentId toolHost declared) rfl
    have hasked := hkept.asked.happen
      (.attached state.routes.length index agentId toolHost declared) rfl
    refine ⟨⟨fun other named found' hfound' ↦ ?_, fun place route hroute hheld ↦ ?_⟩,
      { hlogged with
        attached := fun place route hroute ↦ ?_
        released := fun place hmember ↦ ?_
        aborted := fun place request reason hmember ↦ ?_ },
      { hasked with quiet := fun registration hdead ↦ ?_ }, ⟨trivial, hkept.lawful⟩⟩
    · replace hfound' := (hentry other named).symm.trans hfound'
      split_ifs at hfound' with hhere
      · obtain ⟨rfl, rfl, -⟩ := hhere
        obtain rfl := Option.some.inj hfound'
        exact ⟨_, List.getElem?_concat_length, rfl, rfl, rfl, rfl, rfl, fun _ ↦ rfl, fun _ ↦ rfl⟩
      · obtain ⟨route, hroute, hrest⟩ := hkept.tables.entries other named found' hfound'
        exact ⟨route, getElem?_append_of_some hroute _, hrest⟩
    · rcases getElem?_arrival.mp hroute with hold | ⟨rfl, rfl⟩
      · obtain ⟨found', hfound', hplace⟩ := hkept.tables.held place route hold hheld
        have hother : route.registration ≠ index :=
          fun hregistration ↦ hunheld place route hold hregistration hheld
        refine ⟨found', (hentry _ _).trans ?_, hplace⟩
        rw [if_neg fun hhere ↦ hother hhere.1]
        exact hfound'
      · exact ⟨target, (hentry _ _).trans (if_pos ⟨rfl, rfl, hlt⟩), rfl⟩
    · rcases getElem?_arrival.mp hroute with hold | ⟨rfl, rfl⟩
      · exact List.mem_cons_of_mem _ (hkept.logged.attached place route hold)
      · exact List.mem_cons_self
    · obtain ⟨route, hroute, hreleased⟩ := hlogged.released place hmember
      exact ⟨route, getElem?_append_of_some hroute _, hreleased⟩
    · obtain ⟨route, hroute, haborted⟩ := hlogged.aborted place request reason hmember
      exact ⟨route, getElem?_append_of_some hroute _, haborted⟩
    · have hbefore : state.live registration = false := by
        rw [← State.live_setEntry state index agentId (some target)]
        exact hdead
      have hother : registration ≠ index := fun hsame ↦ by
        rw [hsame, hlive] at hbefore
        cases hbefore
      refine (hkept.asked.quiet registration hbefore).imp (fun hempty named ↦ ?_) id
      refine (hentry registration named).trans ?_
      rw [if_neg fun hhere ↦ hother hhere.1]
      exact hempty named

/-- A route that is released is no longer led to. -/
theorem Kept.releaseRoute (hkept : Kept state) {index : Nat}
    (hstep : state.step decode (.releaseRoute index) = some after) : Kept after := by
  simp only [State.step] at hstep
  cases hroute : state.routes[index]? with
  | none =>
    rw [hroute] at hstep
    cases hstep
  | some route =>
    rw [hroute] at hstep
    obtain ⟨hheld, hafter⟩ := Option.ite_none_left_eq_some.mp hstep
    obtain rfl := (Option.some.inj hafter).symm
    replace hheld : route.held = true := not_not.mp hheld
    have hentry := State.entry_setEntry state route.registration route.agentId none
    obtain ⟨target, htarget, htargetRoute⟩ := hkept.tables.held index route hroute hheld
    have hlt : route.registration < state.registrations.length := by
      unfold State.entry at htarget
      obtain ⟨found, hfound, -⟩ := Option.bind_eq_some_iff.mp htarget
      exact lt_length_of_getElem? hfound
    have hset := hkept.logged.setEntry route.registration route.agentId none
    have hasked := hkept.asked.happen (.released index) rfl
    refine ⟨⟨fun other named found hfound ↦ ?_, fun place route' hroute' hheld' ↦ ?_⟩,
      ⟨fun other registration hfound ↦ ?_, fun other hmember ↦ ?_, fun place route' hroute' ↦ ?_,
        fun place hmember ↦ ?_, fun place request reason hmember ↦ ?_⟩,
      { hasked with quiet := fun registration hdead ↦ ?_ }, ⟨trivial, hkept.lawful⟩⟩
    · replace hfound := (hentry other named).symm.trans hfound
      split_ifs at hfound with hhere
      obtain ⟨found', hfound', hregistration, hagentId, hrest⟩ :=
        hkept.tables.entries other named found hfound
      have hother : found.route ≠ index := fun hsame ↦ by
        rw [hsame, hroute] at hfound'
        obtain rfl := Option.some.inj hfound'
        exact hhere ⟨hregistration.symm, hagentId.symm, hlt⟩
      exact ⟨found', (getElem?_move hroute).mpr (.inr ⟨hother, hfound'⟩), hregistration, hagentId,
        hrest⟩
    · rcases (getElem?_move hroute).mp hroute' with ⟨-, rfl⟩ | ⟨hother, hold⟩
      · cases hheld'
      · obtain ⟨found, hfound, hplace⟩ := hkept.tables.held place route' hold hheld'
        refine ⟨found, (hentry _ _).trans ?_, hplace⟩
        rw [if_neg fun hhere ↦ ?_]
        · exact hfound
        · rw [hhere.1, hhere.2.1, htarget] at hfound
          rw [← Option.some.inj hfound, htargetRoute] at hplace
          exact hother hplace.symm
    · exact List.mem_cons_of_mem _ (hset.registered other registration hfound)
    · exact hset.revoked other ((List.mem_cons.mp hmember).resolve_left Happening.noConfusion)
    · rcases (getElem?_move hroute).mp hroute' with ⟨rfl, rfl⟩ | ⟨-, hold⟩
      · exact List.mem_cons_of_mem _ (hkept.logged.attached place route hroute)
      · exact List.mem_cons_of_mem _ (hkept.logged.attached place route' hold)
    · rcases eq_or_ne place index with rfl | hother
      · exact ⟨_, (getElem?_move hroute).mpr (.inl ⟨rfl, rfl⟩), rfl⟩
      · have hbefore : .released place ∈ state.history :=
          (List.mem_cons.mp hmember).resolve_left fun hsame ↦ hother (Happening.released.inj hsame)
        obtain ⟨route', hroute', hreleased⟩ := hkept.logged.released place hbefore
        exact ⟨route', (getElem?_move hroute).mpr (.inr ⟨hother, hroute'⟩), hreleased⟩
    · have hbefore : .aborted place request reason ∈ state.history :=
        (List.mem_cons.mp hmember).resolve_left Happening.noConfusion
      obtain ⟨route', hroute', haborted⟩ := hkept.logged.aborted place request reason hbefore
      rcases eq_or_ne place index with rfl | hother
      · rw [hroute] at hroute'
        obtain rfl := Option.some.inj hroute'
        exact ⟨_, (getElem?_move hroute).mpr (.inl ⟨rfl, rfl⟩), haborted⟩
      · exact ⟨route', (getElem?_move hroute).mpr (.inr ⟨hother, hroute'⟩), haborted⟩
    · have hbefore : state.live registration = false := by
        rw [← State.live_setEntry state route.registration route.agentId none]
        exact hdead
      refine (hkept.asked.quiet registration hbefore).imp (fun hempty named ↦ ?_) id
      refine (hentry registration named).trans ?_
      rw [hempty named, ite_self]

/-- A registration is dropped where no route is attached that a request is to be read for. -/
theorem Kept.revoke (hkept : Kept state) {index : Nat} (hsparing : Sparing state (.revoke index))
    (hstep : state.step decode (.revoke index) = some after) : Kept after := by
  simp only [State.step] at hstep
  cases hfound : state.registrations[index]? with
  | none =>
    rw [hfound] at hstep
    cases hstep
  | some found =>
    rw [hfound] at hstep
    obtain ⟨hlive, hafter⟩ := Option.ite_none_left_eq_some.mp hstep
    obtain rfl := (Option.some.inj hafter).symm
    have hlt := lt_length_of_getElem? hfound
    have hentry (other : Nat) (named : Bytes) : (State.mk
        (state.registrations.set index { found with live := false }) state.routes state.requests
        (.revoked index :: state.history)).entry other named = state.entry other named := by
      unfold State.entry
      dsimp only
      rcases eq_or_ne other index with rfl | hother
      · rw [(getElem?_move hfound).mpr (.inl ⟨rfl, rfl⟩), hfound]
        rfl
      · rw [List.getElem?_set_ne hother.symm]
    have hdead (other : Nat) : (State.mk
        (state.registrations.set index { found with live := false }) state.routes state.requests
        (.revoked index :: state.history)).live other =
          if other = index then false else state.live other := by
      unfold State.live
      dsimp only
      split_ifs with hother
      · rw [hother, (getElem?_move hfound).mpr (.inl ⟨rfl, rfl⟩)]
        rfl
      · rw [List.getElem?_set_ne (Ne.symm hother)]
    have hasked := hkept.asked.happen (.revoked index) rfl
    refine ⟨⟨fun other named target htarget ↦ ?_, fun place route hroute hheld ↦ ?_⟩,
      ⟨fun other registration hregistration ↦ ?_, fun other hmember ↦ ?_,
        fun place route hroute ↦ ?_,
        fun place hmember ↦ ?_, fun place request reason hmember ↦ ?_⟩,
      { hasked with quiet := fun registration hquiet ↦ ?_ }, ⟨trivial, hkept.lawful⟩⟩
    · exact hkept.tables.entries other named target ((hentry other named).symm.trans htarget)
    · obtain ⟨target, htarget, hplace⟩ := hkept.tables.held place route hroute hheld
      exact ⟨target, (hentry _ _).trans htarget, hplace⟩
    · rcases (getElem?_move hfound).mp hregistration with ⟨rfl, rfl⟩ | ⟨-, hold⟩
      · exact List.mem_cons_of_mem _ (hkept.logged.registered other found hfound)
      · exact List.mem_cons_of_mem _ (hkept.logged.registered other registration hold)
    · rcases eq_or_ne other index with rfl | hother
      · exact ⟨(List.length_set ..).symm ▸ hlt, (hdead other).trans (if_pos rfl)⟩
      · have hbefore : .revoked other ∈ state.history :=
          (List.mem_cons.mp hmember).resolve_left fun hsame ↦ hother (Happening.revoked.inj hsame)
        obtain ⟨hbelow, hrevoked⟩ := hkept.logged.revoked other hbefore
        exact ⟨(List.length_set ..).symm ▸ hbelow, (hdead other).trans
          ((if_neg hother).trans hrevoked)⟩
    · exact List.mem_cons_of_mem _ (hkept.logged.attached place route hroute)
    · exact hkept.logged.released place ((List.mem_cons.mp hmember).resolve_left
        Happening.noConfusion)
    · exact hkept.logged.aborted place request reason ((List.mem_cons.mp hmember).resolve_left
        Happening.noConfusion)
    · rcases eq_or_ne registration index with rfl | hother
      · exact hsparing.imp (fun hempty named ↦ (hentry registration named).trans (hempty named)) id
      · have hbefore : state.live registration = false :=
          (if_neg hother).symm.trans ((hdead registration).symm.trans hquiet)
        exact (hkept.asked.quiet registration hbefore).imp
          (fun hempty named ↦ (hentry registration named).trans (hempty named)) id

/-! ### Requests -/

/-- The registration that a head leads to is live, and the head carries its token. -/
theorem State.authorize_eq_some {head : Head} {index : Nat}
    (hauthorize : state.authorize head = some index) :
    ∃ registration, state.registrations[index]? = some registration ∧ registration.live = true ∧
      State.tokenOf head = some registration.token := by
  obtain ⟨token, htoken, hfind⟩ := Option.bind_eq_some_iff.mp hauthorize
  obtain ⟨hlt, hmatch, -⟩ := List.findIdx?_eq_some_iff_getElem.mp hfind
  obtain ⟨hlive, hsame⟩ := Bool.and_eq_true_iff.mp hmatch
  refine ⟨state.registrations[index], List.getElem?_eq_getElem hlt, hlive, ?_⟩
  rw [of_decide_eq_true hsame, htoken]

/-- A request that was admitted carries the token of a live registration. -/
theorem State.admission_eq_ok {head : Head} {index : Nat}
    (hadmission : state.admission head = .ok index) :
    state.authorize head = some index := by
  unfold State.admission at hadmission
  split_ifs at hadmission
  cases hauthorize : state.authorize head with
  | none =>
    rw [hauthorize] at hadmission
    cases hadmission
  | some registration =>
    rw [hauthorize] at hadmission
    rw [Except.ok.inj hadmission]

/-- A request is admitted for its body, or refused on its head. -/
theorem Kept.request (hkept : Kept state) {head : Head}
    (hstep : state.step decode (.request head) = some after) : Kept after := by
  have hfresh := hkept.asked.fresh state.requests.length (Nat.le_refl _)
  simp only [State.step] at hstep
  cases hadmission : state.admission head with
  | error refusal =>
    rw [hadmission] at hstep
    obtain rfl := (Option.some.inj hstep).symm
    refine ⟨⟨hkept.tables.entries, hkept.tables.held⟩,
      { hkept.logged.happen (.refused state.requests.length refusal) rfl with },
      ⟨fun request registration contentType hstage ↦ ?_,
        fun request registration route call hstage ↦ ?_, fun request hlength ↦ ?_,
        fun registration hdead ↦ ?_⟩, ⟨hfresh.2, hkept.lawful⟩⟩
    · rcases getElem?_arrival.mp hstage with hold | ⟨-, hsame⟩
      · obtain ⟨⟨token, hadmitted, hregistered⟩, huntouched⟩ :=
          hkept.asked.admitted request registration contentType hold
        refine ⟨⟨token, List.mem_cons_of_mem _ hadmitted, List.mem_cons_of_mem _ hregistered⟩,
          huntouched.cons fun hsame ↦ ?_⟩
        exact (lt_length_of_getElem? hold).ne' (Option.some.inj hsame)
      · cases hsame
    · rcases getElem?_arrival.mp hstage with hold | ⟨-, hsame⟩
      · obtain ⟨toolHost, hdispatched⟩ := hkept.asked.called request registration route call hold
        exact ⟨toolHost, List.mem_cons_of_mem _ hdispatched⟩
      · cases hsame
    · have hbeyond : state.requests.length < request :=
        Nat.lt_of_succ_le (by simpa [State.happen] using hlength)
      exact (hkept.asked.fresh request hbeyond.le).cons
        fun hsame ↦ hbeyond.ne (Option.some.inj hsame)
    · refine (hkept.asked.quiet registration hdead).imp id fun hnone request contentType hstage ↦ ?_
      rcases getElem?_arrival.mp hstage with hold | ⟨-, hsame⟩
      · exact hnone request contentType hold
      · cases hsame
  | ok index =>
    rw [hadmission] at hstep
    obtain rfl := (Option.some.inj hstep).symm
    obtain ⟨found, hfound, hlive, htoken⟩ :=
      State.authorize_eq_some (State.admission_eq_ok hadmission)
    rw [htoken]
    refine ⟨⟨hkept.tables.entries, hkept.tables.held⟩,
      { hkept.logged.happen (.admitted state.requests.length found.token index) rfl with },
      ⟨fun request registration contentType hstage ↦ ?_,
        fun request registration route call hstage ↦ ?_, fun request hlength ↦ ?_,
        fun registration hdead ↦ ?_⟩, ⟨trivial, hkept.lawful⟩⟩
    · rcases getElem?_arrival.mp hstage with hold | ⟨rfl, hsame⟩
      · obtain ⟨⟨token, hadmitted, hregistered⟩, huntouched⟩ :=
          hkept.asked.admitted request registration contentType hold
        exact ⟨⟨token, List.mem_cons_of_mem _ hadmitted, List.mem_cons_of_mem _ hregistered⟩,
          huntouched.cons fun hsame ↦ (by cases hsame)⟩
      · obtain ⟨rfl, -⟩ := Stage.admitted.inj hsame
        exact ⟨⟨found.token, List.mem_cons_self,
          List.mem_cons_of_mem _ (hkept.logged.registered registration found hfound)⟩,
          hfresh.cons fun hsame ↦ (by cases hsame)⟩
    · rcases getElem?_arrival.mp hstage with hold | ⟨-, hsame⟩
      · obtain ⟨toolHost, hdispatched⟩ := hkept.asked.called request registration route call hold
        exact ⟨toolHost, List.mem_cons_of_mem _ hdispatched⟩
      · cases hsame
    · have hbeyond : state.requests.length < request :=
        Nat.lt_of_succ_le (by simpa [State.happen] using hlength)
      exact (hkept.asked.fresh request hbeyond.le).cons fun hsame ↦ by cases hsame
    · refine (hkept.asked.quiet registration hdead).imp id fun hnone request contentType hstage ↦ ?_
      rcases getElem?_arrival.mp hstage with hold | ⟨-, hsame⟩
      · exact hnone request contentType hold
      · obtain ⟨rfl, -⟩ := Stage.admitted.inj hsame
        have halive : state.live registration = true := by
          unfold State.live
          rw [hfound]
          exact hlive
        rw [show state.live registration = false from hdead] at halive
        cases halive

/-- A request that is answered leaves the others where they stand. -/
theorem Asked.answer (hasked : Asked state) {index : Nat} {stage : Stage}
    (hstage : state.requests[index]? = some stage) :
    Asked { state with requests := state.requests.set index .answered } where
  admitted request registration contentType hother := by
    rcases (getElem?_move hstage).mp hother with ⟨-, hsame⟩ | ⟨-, hold⟩
    · cases hsame
    · exact hasked.admitted request registration contentType hold
  called request registration route call hother := by
    rcases (getElem?_move hstage).mp hother with ⟨-, hsame⟩ | ⟨-, hold⟩
    · cases hsame
    · exact hasked.called request registration route call hold
  fresh request hlength := hasked.fresh request (by simpa using hlength)
  quiet registration hdead := by
    refine (hasked.quiet registration hdead).imp id fun hnone request contentType hother ↦ ?_
    rcases (getElem?_move hstage).mp hother with ⟨-, hsame⟩ | ⟨-, hold⟩
    · cases hsame
    · exact hnone request contentType hold

/-- What a table leads to is declared there. -/
theorem State.target_eq_ok {entries : Bytes → Option Target} {call : ToolCall} {found : Target}
    (htarget : State.target entries call = .ok found) :
    entries call.agentId = some found ∧ call.toolName ∈ found.declared := by
  unfold State.target at htarget
  cases hentry : entries call.agentId with
  | none =>
    rw [hentry] at htarget
    cases htarget
  | some target =>
    rw [hentry] at htarget
    dsimp only at htarget
    split_ifs at htarget with hdeclared
    obtain rfl := Except.ok.inj htarget
    exact ⟨rfl, hdeclared⟩

/-- A call is dispatched where its registration leads to, or refused. -/
theorem Kept.body (hkept : Kept state) {index : Nat} {body : Body}
    (hstep : state.step decode (.body index body) = some after) : Kept after := by
  simp only [State.step] at hstep
  split at hstep
  · rename_i registration contentType hstage
    obtain ⟨⟨token, hadmitted, hregistered⟩, huntouched⟩ :=
      hkept.asked.admitted index registration contentType hstage
    have hlt := lt_length_of_getElem? hstage
    cases hfound : state.registrations[registration]? with
    | none =>
      rw [hfound] at hstep
      cases hstep
    | some found =>
      rw [hfound] at hstep
      dsimp only at hstep
      split at hstep
      · rename_i refusal hrefusal
        obtain rfl := (Option.some.inj hstep).symm
        have hanswered := hkept.asked.answer hstage
        refine ⟨⟨hkept.tables.entries, hkept.tables.held⟩,
          { hkept.logged.happen (.refused index refusal) rfl with },
          ⟨fun request other contentType' hother ↦ ?_, fun request other route call hother ↦ ?_,
            fun request hlength ↦ ?_, hanswered.quiet⟩, ⟨huntouched.2, hkept.lawful⟩⟩
        · obtain ⟨⟨token, hadmitted, hregistered⟩, hothers⟩ :=
            hanswered.admitted request other contentType' hother
          refine ⟨⟨token, List.mem_cons_of_mem _ hadmitted, List.mem_cons_of_mem _ hregistered⟩,
            hothers.cons fun hsame ↦ ?_⟩
          obtain rfl := Option.some.inj hsame
          rcases (getElem?_move hstage).mp hother with ⟨-, hanswer⟩ | ⟨hne, -⟩
          · cases hanswer
          · exact hne rfl
        · obtain ⟨toolHost, hdispatched⟩ := hanswered.called request other route call hother
          exact ⟨toolHost, List.mem_cons_of_mem _ hdispatched⟩
        · refine (hanswered.fresh request hlength).cons fun hsame ↦ ?_
          obtain rfl := Option.some.inj hsame
          have hbeyond : state.requests.length ≤ index := by simpa [State.happen] using hlength
          omega
      · rename_i call target hcall
        obtain rfl := (Option.some.inj hstep).symm
        obtain ⟨htarget, hdeclared⟩ : found.entries call.agentId = some target ∧
            call.toolName ∈ target.declared := by
          cases hread : State.read decode contentType body with
          | error refusal =>
            rw [hread] at hcall
            cases hcall
          | ok read =>
            rw [hread] at hcall
            cases hlooked : State.target found.entries read with
            | error refusal =>
              simp [Except.bind, Except.map, hlooked] at hcall
            | ok looked =>
              simp only [Except.bind, Except.map, hlooked, Except.ok.injEq, Prod.mk.injEq] at hcall
              obtain ⟨rfl, rfl⟩ := hcall
              exact State.target_eq_ok hlooked
        have hentry : state.entry registration call.agentId = some target := by
          unfold State.entry
          rw [hfound]
          exact htarget
        obtain ⟨route, hroute, rfl, hagentId, hhost, hroutes, hheld, -⟩ :=
          hkept.tables.entries registration call.agentId target hentry
        have hlive : state.live route.registration = true := by
          by_contra hdead
          rcases hkept.asked.quiet _ (Bool.eq_false_iff.mpr hdead) with hempty | hnone
          · rw [hempty] at hentry
            cases hentry
          · exact hnone index contentType hstage
        have hattached := hkept.logged.attached target.route route hroute
        rw [hagentId, hhost, hroutes] at hattached
        refine ⟨⟨hkept.tables.entries, hkept.tables.held⟩,
          { hkept.logged.happen (.dispatched index route.registration target.route call.agentId
              target.toolHost call.toolName) rfl with },
          ⟨fun request other contentType' hother ↦ ?_, fun request other place asked hother ↦ ?_,
            fun request hlength ↦ ?_, fun other hdead ↦ ?_⟩,
          ⟨⟨⟨token, hadmitted, hregistered⟩, fun hrevoked ↦ ?_,
            ⟨target.declared, hattached, hdeclared⟩, fun hreleased ↦ ?_, huntouched⟩,
            hkept.lawful⟩⟩
        · rcases (getElem?_move hstage).mp hother with ⟨-, hsame⟩ | ⟨hne, hold⟩
          · cases hsame
          · obtain ⟨⟨token, hadmitted, hregistered⟩, hothers⟩ :=
              hkept.asked.admitted request other contentType' hold
            exact ⟨⟨token, List.mem_cons_of_mem _ hadmitted, List.mem_cons_of_mem _ hregistered⟩,
              hothers.cons fun hsame ↦ hne (Option.some.inj hsame).symm⟩
        · rcases (getElem?_move hstage).mp hother with ⟨rfl, hsame⟩ | ⟨-, hold⟩
          · obtain ⟨rfl, rfl, rfl⟩ := Stage.called.inj hsame
            exact ⟨target.toolHost, List.mem_cons_self⟩
          · obtain ⟨toolHost, hdispatched⟩ := hkept.asked.called request other place asked hold
            exact ⟨toolHost, List.mem_cons_of_mem _ hdispatched⟩
        · have hbeyond : state.requests.length ≤ request := by
            simpa [State.happen] using hlength
          refine (hkept.asked.fresh request hbeyond).cons fun hsame ↦ ?_
          obtain rfl := Option.some.inj hsame
          omega
        · refine (hkept.asked.quiet other hdead).imp id fun hnone request contentType' hother ↦ ?_
          rcases (getElem?_move hstage).mp hother with ⟨-, hsame⟩ | ⟨-, hold⟩
          · cases hsame
          · exact hnone request contentType' hold
        · rw [(hkept.logged.revoked _ hrevoked).2] at hlive
          cases hlive
        · obtain ⟨released, hreleased, hunheld⟩ := hkept.logged.released _ hreleased
          rw [hroute] at hreleased
          rw [← Option.some.inj hreleased, hheld] at hunheld
          cases hunheld
  · cases hstep

/-! ### Failures -/

/-- A failure aborts the completion that its call was dispatched for, where no other is attached by
then. -/
theorem Kept.abort (hkept : Kept state) {request index place : Nat} {call : ToolCall}
    {error : Bytes}
    (hdispatched : ∃ toolHost,
      .dispatched request index place call.agentId toolHost call.toolName ∈ state.history)
    (hsame : ∀ target, state.entry index call.agentId = some target → target.abort = true →
      target.route = place) : Kept (state.abort request index call error) := by
  unfold State.abort
  cases hentryCall : state.entry index call.agentId with
  | none =>
    rw [State.entry] at hentryCall
    rw [hentryCall]
    exact hkept
  | some target =>
    have hlooked := hentryCall
    rw [State.entry] at hlooked
    rw [hlooked]
    clear hlooked
    dsimp only
    split_ifs with habort
    · obtain rfl := hsame target hentryCall habort
      obtain ⟨toolHost, hdispatched⟩ := hdispatched
      obtain ⟨route, hroute, hregistration, hagentId, hhost, hdeclared, hheld, hsend⟩ :=
        hkept.tables.entries index call.agentId target hentryCall
      have hunsent : route.aborted = none := hsend.mp habort
      have hlt : index < state.registrations.length := by
        unfold State.entry at hentryCall
        obtain ⟨found, hfound, -⟩ := Option.bind_eq_some_iff.mp hentryCall
        exact lt_length_of_getElem? hfound
      have hentry := State.entry_setEntry state index call.agentId
        (some { target with abort := false })
      have hset := hkept.logged.setEntry index call.agentId (some { target with abort := false })
      have hasked := hkept.asked.happen (.aborted target.route request (State.failure call error))
          rfl
      have hmove (other : Nat) (moved : Route) : (state.routes.modify target.route fun route ↦
            { route with aborted := some (State.failure call error) })[other]? = some moved ↔
          (other = target.route ∧ moved =
            { route with aborted := some (State.failure call error) }) ∨
            (other ≠ target.route ∧ state.routes[other]? = some moved) := by
        rw [List.getElem?_modify]
        rcases eq_or_ne other target.route with rfl | hother
        · simp [hroute, eq_comm]
        · simp [hother, hother.symm]
      refine ⟨⟨fun other named found hfound ↦ ?_, fun other moved hmoved hheld' ↦ ?_⟩,
        ⟨fun other registration hfound ↦ ?_, fun other hmember ↦ ?_, fun other moved hmoved ↦ ?_,
          fun other hmember ↦ ?_, fun other request' reason hmember ↦ ?_⟩,
        { hasked with quiet := fun registration hdead ↦ ?_ },
        ⟨⟨⟨index, call.agentId, toolHost, call.toolName, hdispatched⟩,
          fun other reason hmember ↦ ?_⟩,
          hkept.lawful⟩⟩
      · replace hfound := (hentry other named).symm.trans hfound
        split_ifs at hfound with hhere
        · obtain ⟨rfl, rfl, -⟩ := hhere
          rw [← Option.some.inj hfound]
          exact ⟨_, (hmove _ _).mpr (.inl ⟨rfl, rfl⟩), hregistration, hagentId, hhost, hdeclared,
            hheld, fun hsent ↦ (by cases hsent), fun hnone ↦ (by cases hnone)⟩
        · obtain ⟨found', hfound', hregistration', hagentId', hrest⟩ :=
            hkept.tables.entries other named found hfound
          have hother : found.route ≠ target.route := fun heq ↦ by
            rw [heq, hroute] at hfound'
            obtain rfl := Option.some.inj hfound'
            exact hhere ⟨hregistration'.symm.trans hregistration,
              hagentId'.symm.trans hagentId, hlt⟩
          exact ⟨found', (hmove _ _).mpr (.inr ⟨hother, hfound'⟩), hregistration', hagentId', hrest⟩
      · rcases (hmove _ _).mp hmoved with ⟨rfl, rfl⟩ | ⟨hother, hold⟩
        · refine ⟨_, (hentry _ _).trans (if_pos ⟨hregistration, hagentId, hlt⟩), rfl⟩
        · obtain ⟨found, hfound, hplace⟩ := hkept.tables.held other moved hold hheld'
          refine ⟨found, (hentry _ _).trans ?_, hplace⟩
          rw [if_neg fun hhere ↦ ?_]
          · exact hfound
          · rw [hhere.1, hhere.2.1, hentryCall] at hfound
            exact hother (hplace.symm.trans (congrArg Target.route (Option.some.inj hfound).symm))
      · exact List.mem_cons_of_mem _ (hset.registered other registration hfound)
      · exact hset.revoked other ((List.mem_cons.mp hmember).resolve_left Happening.noConfusion)
      · rcases (hmove _ _).mp hmoved with ⟨rfl, rfl⟩ | ⟨-, hold⟩
        · exact List.mem_cons_of_mem _ (hkept.logged.attached _ route hroute)
        · exact List.mem_cons_of_mem _ (hkept.logged.attached other moved hold)
      · obtain ⟨released, hreleased, hunheld⟩ := hkept.logged.released other
          ((List.mem_cons.mp hmember).resolve_left Happening.noConfusion)
        rcases eq_or_ne other target.route with rfl | hother
        · rw [hroute] at hreleased
          obtain rfl := Option.some.inj hreleased
          exact ⟨_, (hmove _ _).mpr (.inl ⟨rfl, rfl⟩), hunheld⟩
        · exact ⟨released, (hmove _ _).mpr (.inr ⟨hother, hreleased⟩), hunheld⟩
      · rcases eq_or_ne other target.route with rfl | hother
        · exact ⟨_, (hmove _ _).mpr (.inl ⟨rfl, rfl⟩), Option.some_ne_none _⟩
        · have hbefore : .aborted other request' reason ∈ state.history :=
            (List.mem_cons.mp hmember).resolve_left fun heq ↦ hother (Happening.aborted.inj heq).1
          obtain ⟨moved, hmoved, haborted⟩ := hkept.logged.aborted other request' reason hbefore
          exact ⟨moved, (hmove _ _).mpr (.inr ⟨hother, hmoved⟩), haborted⟩
      · have hbefore : state.live registration = false := by
          rw [← State.live_setEntry state index call.agentId (some { target with abort := false })]
          exact hdead
        refine (hkept.asked.quiet registration hbefore).imp (fun hempty named ↦ ?_) id
        refine (hentry registration named).trans ?_
        rw [if_neg fun hhere ↦ ?_]
        · exact hempty named
        · have hnone := hempty call.agentId
          rw [hhere.1, hentryCall] at hnone
          cases hnone
      · obtain ⟨moved, hmoved, haborted⟩ := hkept.logged.aborted target.route other reason hmember
        rw [hroute] at hmoved
        rw [← Option.some.inj hmoved] at haborted
        exact haborted hunsent
    · exact hkept

/-- A tool that answered, or failed. -/
theorem Kept.outcome (hkept : Kept state) {index : Nat} {outcome : Outcome}
    (hsparing : Sparing state (.outcome index outcome))
    (hstep : state.step decode (.outcome index outcome) = some after) : Kept after := by
  simp only [State.step] at hstep
  split at hstep
  · rename_i registration route call hstage
    have hanswered : Kept { state with requests := state.requests.set index .answered } :=
      ⟨⟨hkept.tables.entries, hkept.tables.held⟩, { hkept.logged with },
        hkept.asked.answer hstage, hkept.lawful⟩
    cases outcome with
    | output output =>
      obtain rfl := (Option.some.inj hstep).symm
      exact hanswered
    | repairable failure =>
      obtain rfl := (Option.some.inj hstep).symm
      exact hanswered
    | hard error =>
      obtain rfl := (Option.some.inj hstep).symm
      exact hanswered.abort (hkept.asked.called index registration route call hstage)
        (hsparing registration route call hstage)
  · cases hstep

/-- Every sparing step keeps the tables, the log and the trace. -/
theorem Kept.step (hkept : Kept state) {event : Event} (hsparing : Sparing state event)
    (hstep : state.step decode event = some after) : Kept after := by
  cases event with
  | register token => exact hkept.register hstep
  | attach registration agentId toolHost declared => exact hkept.attach hstep
  | request head => exact hkept.request hstep
  | body request body => exact hkept.body hstep
  | outcome request outcome => exact hkept.outcome hsparing hstep
  | releaseRoute route => exact hkept.releaseRoute hstep
  | revoke registration => exact hkept.revoke hsparing hstep

/-- The tables know of every route whose guard lives whether its abort was sent. -/
theorem Kept.heard (hkept : Kept state) : Heard state := by
  intro index route hroute hheld
  obtain ⟨target, htarget, rfl⟩ := hkept.tables.held index route hroute hheld
  obtain ⟨found, hfound, -, -, -, -, -, hsend⟩ := hkept.tables.entries _ _ target htarget
  rw [hroute] at hfound
  obtain rfl := Option.some.inj hfound
  rcases eq_or_ne route.aborted none with hnone | hsome
  · exact .inr ⟨target, htarget, rfl, hsend.mpr hnone⟩
  · exact .inl hsome

/-- Where no registration is dropped with a route attached and a request of it unread, and no hard
failure comes back to another route than its call was dispatched for, every call is dispatched to
the completion it belongs to while its token is live, every failure ends that completion alone and
once, a call that is refused reaches no tool host, and the abort of a route whose guard lives is
never lost. -/
theorem callbacks_reach {events : List Event} (hruns : SparingRuns decode events state) :
    (∀ newer happening older, state.history = newer ++ happening :: older →
      Permitted older happening) ∧ Heard state := by
  have hkept : Kept state := hruns.invariant Kept
      (fun hkept hstep ↦ hkept.step hstep.1 hstep.2) .start
  refine ⟨fun newer happening older hhistory ↦ ?_, hkept.heard⟩
  have hlawful := hkept.lawful
  rw [hhistory] at hlawful
  exact hlawful.allowed_of_append

/-- Every body is a call of one tool by one agent. -/
def greps (_ : Codec) (_ : Bytes) : Except Bytes ToolCall := .ok ⟨text "grep", [], text "agent"⟩

def grepHead : Head := ⟨true, PATH, some (text "Bearer t"), some (text "application/json")⟩

/-- A call that fails hard, and after it the end of its completion and of its worker. -/
def failedCall : List Event :=
  [.register (text "t"), .attach 0 (text "agent") 1 [text "grep"], .request grepHead,
    .body 0 (.content []), .outcome 0 (.hard (text "gone")), .releaseRoute 0, .revoke 0]

/-- What the failure comes back to. -/
theorem called_failedCall :
    (Foundation.execute (State.step greps) .start (failedCall.take 4)).map (fun state ↦
      (state.requests[0]?, state.entry 0 (text "agent"))) =
      some (some (.called 0 0 ⟨text "grep", [], text "agent"⟩),
        some ⟨0, 1, [text "grep"], true⟩) := by
  decide +kernel

/-- What the drop of the registration comes to. -/
theorem answered_failedCall :
    (Foundation.execute (State.step greps) .start (failedCall.take 6)).map State.requests =
      some [.answered] := by
  decide +kernel

theorem history_failedCall :
    (Foundation.execute (State.step greps) .start failedCall).map State.history =
      some [.revoked 0, .released 0, .aborted 0 0 (text "tool `grep` failed: gone"),
        .dispatched 0 0 0 (text "agent") 1 (text "grep"), .admitted 0 (text "t") 0,
        .attached 0 0 (text "agent") 1 [text "grep"], .registered 0 (text "t")] := by
  decide +kernel

theorem runs_failedCall : ∃ state, SparingRuns greps failedCall state ∧
    state.history = [.revoked 0, .released 0, .aborted 0 0 (text "tool `grep` failed: gone"),
      .dispatched 0 0 0 (text "agent") 1 (text "grep"), .admitted 0 (text "t") 0,
      .attached 0 0 (text "agent") 1 [text "grep"], .registered 0 (text "t")] := by
  obtain ⟨state, hexecute, hhistory⟩ := Option.map_eq_some_iff.mp history_failedCall
  refine ⟨state, run_and_of_execute hexecute fun index event hevent middle hmiddle ↦ ?_, hhistory⟩
  match index with
  | 0 | 1 | 2 | 3 | 5 =>
    obtain rfl := Option.some.inj hevent
    trivial
  | 4 =>
    obtain rfl := Option.some.inj hevent
    have hfound := called_failedCall
    rw [hmiddle] at hfound
    obtain ⟨hcalled, hentry⟩ := Prod.mk.inj (Option.some.inj hfound)
    intro registration route call hstage target htarget _
    obtain ⟨rfl, rfl, rfl⟩ := Stage.called.inj (Option.some.inj (hstage.symm.trans hcalled))
    obtain rfl := Option.some.inj (htarget.symm.trans hentry)
    rfl
  | 6 =>
    obtain rfl := Option.some.inj hevent
    have hanswered := answered_failedCall
    rw [hmiddle] at hanswered
    refine .inr fun request contentType hadmitted ↦ ?_
    rw [Option.some.inj hanswered] at hadmitted
    rcases request with _ | request <;> cases hadmitted
  | index + 7 => cases hevent

/-- The failure of the call aborts the completion it was dispatched for, before either is gone. -/
theorem callbacks_reach_failedCall : ∃ state, SparingRuns greps failedCall state ∧
    Permitted [.dispatched 0 0 0 (text "agent") 1 (text "grep"), .admitted 0 (text "t") 0,
      .attached 0 0 (text "agent") 1 [text "grep"], .registered 0 (text "t")]
      (.aborted 0 0 (text "tool `grep` failed: gone")) ∧
    Permitted [.admitted 0 (text "t") 0, .attached 0 0 (text "agent") 1 [text "grep"],
      .registered 0 (text "t")] (.dispatched 0 0 0 (text "agent") 1 (text "grep")) ∧
    Heard state := by
  obtain ⟨state, hruns, hhistory⟩ := runs_failedCall
  obtain ⟨hpermitted, hheard⟩ := callbacks_reach hruns
  exact ⟨state, hruns, hpermitted [.revoked 0, .released 0] _ _ hhistory,
    hpermitted [.revoked 0, .released 0, .aborted 0 0 (text "tool `grep` failed: gone")] _ _
      hhistory, hheard⟩

/-- A call that its completion does not live to see fail. -/
def lateFailure : List Event :=
  [.register (text "t"), .attach 0 (text "agent") 1 [text "grep"], .request grepHead,
    .body 0 (.content []), .releaseRoute 0, .attach 0 (text "agent") 2 [text "grep"],
    .outcome 0 (.hard (text "gone"))]

theorem runs_lateFailure :
    (Foundation.execute (State.step greps) .start lateFailure).isSome = true := by
  decide +kernel

/-- A hard failure of a call ends a completion that the call was not dispatched for. -/
theorem failure_ends_another : ∃ state, State.Runs greps lateFailure state ∧
    state.history.head? = some (.aborted 1 0 (text "tool `grep` failed: gone")) ∧
    .dispatched 0 0 0 (text "agent") 1 (text "grep") ∈ state.history :=
  ⟨_, run_of_isSome runs_lateFailure, by decide +kernel, by decide +kernel⟩

/-- A request that its registration does not live to see read. -/
def lateBody : List Event :=
  [.register (text "t"), .attach 0 (text "agent") 1 [text "grep"], .request grepHead, .revoke 0,
    .body 0 (.content [])]

theorem runs_lateBody :
    (Foundation.execute (State.step greps) .start lateBody).isSome = true := by
  decide +kernel

/-- A call is dispatched after the registration of its token was dropped. -/
theorem dispatched_though_revoked :
    ¬ ∀ (decode : Codec → Bytes → Except Bytes ToolCall) (events : List Event) (state : State),
      State.Runs decode events state →
        ∀ newer happening older, state.history = newer ++ happening :: older →
          Permitted older happening := by
  intro hclaim
  have hpermitted := hclaim greps lateBody _ (run_of_isSome runs_lateBody) []
    (.dispatched 0 0 0 (text "agent") 1 (text "grep"))
    [.revoked 0, .admitted 0 (text "t") 0, .attached 0 0 (text "agent") 1 [text "grep"],
      .registered 0 (text "t")] (by decide +kernel)
  exact hpermitted.2.1 List.mem_cons_self

end Callback

end OmniaBackends.Cursor
