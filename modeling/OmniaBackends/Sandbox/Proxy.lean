import OmniaBackends.Sandbox.Address

/-!
# The egress proxy

One `CONNECT` request over the proxy (`handle`): its host is looked up in the grant's list, the
addresses it stands for are vetted, and those that pass are tried in order. What the system answers
is an `Environment`, which may answer anything given what it was asked before, and what was asked
is the list of `Event`s that a request adds to.

`handle_permits` is what the proxy is for: an address that is connected belongs to a host that the
list names and is none of those denied, loopback only as a listed literal, and the host that was
vetted is the one that was resolved, once.
-/

set_option autoImplicit false
set_option relaxedAutoImplicit false

namespace OmniaBackends.Sandbox

/-! ### The list of hosts -/

/-- White space, as the standard library trims it. -/
def isWhitespace (char : Char) : Bool :=
  let code := char.toNat
  (0x9 ≤ code ∧ code ≤ 0xd) ∨ (0x2000 ≤ code ∧ code ≤ 0x200a) ∨
    code ∈ [0x20, 0x85, 0xa0, 0x1680, 0x2028, 0x2029, 0x202f, 0x205f, 0x3000]

/-- A text without the characters around it that a condition holds of. -/
def trimMatches (condition : Char → Bool) (input : Text) : Text :=
  ((input.dropWhile condition).reverse.dropWhile condition).reverse

/-- The brackets that an address of version 6 is written in. -/
def isBracket (char : Char) : Bool := char = '[' ∨ char = ']'

def toAsciiLowercase (input : Text) : Text := input.map Char.toLower

/-- One entry of the list as the grant spelled it. -/
inductive Entry where
  /-- A host name, matched whole and without regard to case. -/
  | exact (name : Text)
  /-- `*.suffix`: the suffix and every name beneath it. -/
  | suffix (suffix : Text)
  /-- An IP literal, vetted as written: how a grant names a loopback mirror. -/
  | literal (address : IpAddr)
  deriving DecidableEq, Repr

namespace Entry

def parse (input : Text) : Entry :=
  let name := toAsciiLowercase (trimMatches isBracket (trimMatches isWhitespace input))
  match parseIpAddr name, name.dropPrefix? ['*', '.'] with
  | some address, _ => literal address
  | none, some beneath => suffix beneath
  | none, none => exact name

def admits (host : Text) : Entry → Bool
  | exact name => host = name
  | suffix beneath =>
    host = beneath ∨ (host.dropSuffix? beneath).any fun rest ↦ rest.getLast? = some '.'
  | literal _ => false

end Entry

/-- What the list says of one `CONNECT` host. -/
inductive Admission where
  /-- A listed name: resolve and vet every address. -/
  | name
  /-- A listed literal: vet as written. -/
  | literal (address : IpAddr)
  deriving DecidableEq, Repr

/-- What the list says of a host. -/
def admits (allowlist : List Entry) (host : Text) : Option Admission :=
  let host := toAsciiLowercase (trimMatches isBracket host)
  match parseIpAddr host with
  | some address => if .literal address ∈ allowlist then some (.literal address) else none
  | none => if allowlist.any (Entry.admits host) then some .name else none

/-! ### One request -/

/-- What the proxy asked of the system, and was answered. -/
inductive Event where
  /-- The addresses of the host's own interfaces, none where they cannot be read. -/
  | enumerated (own : Option (List IpAddr))
  /-- What a host resolved to, none where the lookup failed. -/
  | resolved (host : Text) (port : UInt16) (answer : Option (List SocketAddr))
  /-- A connection was tried. -/
  | connecting (address : SocketAddr)
  deriving DecidableEq, Repr

/-- What the system answers, given what it was asked before. -/
structure Environment where
  own : List Event → Option (List IpAddr)
  lookup : List Event → Text → UInt16 → Option (List SocketAddr)
  /-- Whether a connection is made within the bound. -/
  connect : List Event → SocketAddr → Bool

/-- A request, as far as the proxy reads it: whether it is a `CONNECT`, and its authority. -/
structure Request where
  connect : Bool
  authority : Option (Text × Option UInt16)

/-- An answer to a request, and the address of the tunnel it opened. -/
structure Response where
  status : Nat
  reason : Text
  tunnel : Option SocketAddr
  deriving DecidableEq, Repr

variable (environment : Environment)

/-- The host's own addresses, or none where they cannot be read. -/
def own : StateM (List Event) (List IpAddr) := fun events ↦
  (((environment.own events).getD []), events ++ [.enumerated (environment.own events)])

/-- What a host resolves to. -/
def lookupHost (host : Text) (port : UInt16) : StateM (List Event) (Option (List SocketAddr)) :=
  fun events ↦
    (environment.lookup events host port,
      events ++ [.resolved host port (environment.lookup events host port)])

/-- A listed literal as written, unless it is of a denied class. Loopback is admitted: the mirror a
literal exists to name. -/
def vetLiteral (own : List IpAddr) (address : IpAddr) (port : UInt16) :
    Except DeniedAddress (List SocketAddr) :=
  match DeniedAddress.of address own with
  | none | some .loopback => .ok [⟨address, port⟩]
  | some denied => .error denied

/-- A listed literal vetted. -/
def literal (address : IpAddr) (port : UInt16) :
    StateM (List Event) (Except DeniedAddress (List SocketAddr)) := do
  let own ← own environment
  pure (vetLiteral own address port)

/-- One address of an answer vetted, beside those admitted before it and the last class denied. -/
def vetNext (own : List IpAddr) (seen : List SocketAddr × Option DeniedAddress)
    (address : SocketAddr) : List SocketAddr × Option DeniedAddress :=
  match DeniedAddress.of address.ip own with
  | some class_ => (seen.1, some class_)
  | none => (seen.1 ++ [address], seen.2)

/-- The addresses of an answer that pass the vetting, and the class of the last that does not. -/
def vet (own : List IpAddr) (resolved : List SocketAddr) :
    List SocketAddr × Option DeniedAddress :=
  resolved.foldl (vetNext own) ([], none)

/-- The addresses of an answer that pass the vetting. When none pass, the class of the last denied
one. -/
def vetAnswer (own : List IpAddr) (resolved : List SocketAddr) :
    Except DeniedAddress (List SocketAddr) :=
  match vet own resolved with
  | ([], some denied) => .error denied
  | (admitted, _) => .ok admitted

/-- The addresses a listed name resolved to that pass the vetting. -/
def vetted (host : Text) (port : UInt16) :
    StateM (List Event) (Except DeniedAddress (List SocketAddr)) := do
  let own ← own environment
  let resolved ← lookupHost environment host port
  pure (vetAnswer own (resolved.getD []))

/-- The first of some addresses that is connected. -/
def connect : List SocketAddr → StateM (List Event) (Option SocketAddr)
  | [] => pure none
  | address :: addresses => fun events ↦
    if environment.connect events address then (some address, events ++ [.connecting address])
    else connect addresses (events ++ [.connecting address])

/-- The addresses an admitted host stands for, or why it is refused. -/
def admitted (allowlist : List Entry) (host : Text) (port : UInt16) :
    StateM (List Event) (Except Text (List SocketAddr)) :=
  match admits allowlist host with
  | none => pure (.error "is not on the allowlist".toList)
  | some (.literal address) => do
    let addresses ← literal environment address port
    pure (addresses.mapError fun denied ↦ "is ".toList ++ denied.display)
  | some .name => do
    let addresses ← vetted environment host port
    pure (addresses.mapError fun denied ↦ "resolves to ".toList ++ denied.display)

/-- A host between the marks it is quoted in. -/
def quoted (host : Text) : Text := '\x60' :: host ++ ['\x60']

/-- Connect the addresses a host stands for. -/
def tunnel (host : Text) (port : UInt16) (addresses : List SocketAddr) :
    StateM (List Event) Response := do
  match ← connect environment addresses with
  | none =>
    pure ⟨502, quoted (host ++ ':' :: (toString port).toList) ++ " is unreachable".toList, none⟩
  | some upstream => pure ⟨200, [], some upstream⟩

/-- Answer one request. -/
def handle (allowlist : List Entry) (request : Request) : StateM (List Event) Response :=
  if ¬ request.connect then pure ⟨405, "only CONNECT is proxied".toList, none⟩
  else
    match request.authority with
    | some (host, some port) => do
      match ← admitted environment allowlist host port with
      | .error why => pure ⟨403, quoted host ++ ' ' :: why, none⟩
      | .ok addresses => tunnel environment host port addresses
    | _ => pure ⟨400, "CONNECT needs host:port".toList, none⟩

/-! ### What a list names -/

/-- A text as a host is compared: without the brackets around it. -/
def bare (host : Text) : Text := trimMatches isBracket host

/-- An entry as a host is compared with it. -/
def bareEntry (entry : Text) : Text := bare (trimMatches isWhitespace entry)

/-- Two names are the same without regard to case. -/
def SameName (first second : Text) : Prop := toAsciiLowercase first = toAsciiLowercase second

/-- An entry names a host: by an equal name, or as `*.suffix` by the suffix or by what ends in a dot
and the suffix. -/
def Names (entry host : Text) : Prop :=
  SameName (bare host) (bareEntry entry) ∨
    ∃ suffix, SameName (bareEntry entry) ('*' :: '.' :: suffix) ∧
      (SameName (bare host) suffix ∨ ∃ rest, SameName (bare host) (rest ++ '.' :: suffix))

/-- An entry and a host spell one address. -/
def NamesLiteral (entry host : Text) (address : IpAddr) : Prop :=
  parseIpAddr (toAsciiLowercase (bareEntry entry)) = some address ∧
    parseIpAddr (toAsciiLowercase (bare host)) = some address

/-- A lower case character has no other. -/
theorem toLower_toLower (char : Char) : char.toLower.toLower = char.toLower := by
  by_cases hupper : char.val ≥ 'A'.val ∧ char.val ≤ 'Z'.val
  · have hlower : ¬ (char.toLower.val ≥ 'A'.val ∧ char.toLower.val ≤ 'Z'.val) := by
      rw [Char.toLower.eq_def, dif_pos hupper]
      obtain ⟨hlow, hhigh⟩ := hupper
      rintro ⟨-, habove⟩
      rw [UInt32.le_iff_toNat_le] at habove hhigh
      rw [ge_iff_le, UInt32.le_iff_toNat_le] at hlow
      simp only [UInt32.toNat_add] at habove
      change _ ≤ 90 at hhigh
      change 65 ≤ _ at hlow
      change (_ + 32) % _ ≤ 90 at habove
      omega
    rw [Char.toLower.eq_def char.toLower, dif_neg hlower]
  · rw [Char.toLower.eq_def char, dif_neg hupper, Char.toLower.eq_def, dif_neg hupper]

theorem toAsciiLowercase_idem (input : Text) :
    toAsciiLowercase (toAsciiLowercase input) = toAsciiLowercase input := by
  rw [toAsciiLowercase, toAsciiLowercase, List.map_map]
  exact List.map_congr_left fun char _ ↦ toLower_toLower char

/-- A text that another is lower case of is lower case. -/
theorem toAsciiLowercase_of_eq {input lower : Text} (hlower : toAsciiLowercase input = lower) :
    toAsciiLowercase lower = lower := by
  rw [← hlower, toAsciiLowercase_idem]

/-- A name that an entry admits is one that it names. -/
theorem Entry.names_of_admits {entry host : Text}
    (hadmits : (Entry.parse entry).admits (toAsciiLowercase (bare host))) : Names entry host := by
  have hparse : Entry.parse entry =
      match parseIpAddr (toAsciiLowercase (bareEntry entry)),
          (toAsciiLowercase (bareEntry entry)).dropPrefix? ['*', '.'] with
        | some address, _ => literal address
        | none, some beneath => suffix beneath
        | none, none => exact (toAsciiLowercase (bareEntry entry)) := rfl
  rw [hparse] at hadmits
  split at hadmits
  next => cases hadmits
  next beneath _ hinitial =>
    obtain ⟨star, hname, hstar⟩ := List.dropPrefix?_eq_some_iff.mp hinitial
    obtain rfl : star = ['*', '.'] := by simpa using hstar
    have hlower : toAsciiLowercase beneath = beneath := by
      simpa [toAsciiLowercase] using toAsciiLowercase_of_eq hname
    refine Or.inr ⟨beneath, hname.trans (toAsciiLowercase_of_eq hname).symm, ?_⟩
    simp only [admits, decide_eq_true_eq, Option.any_eq_true] at hadmits
    rcases hadmits with hsame | ⟨rest, hrest, hdot⟩
    · exact Or.inl (hsame.trans hlower.symm)
    · obtain ⟨tail, hhost, htail⟩ := List.dropSuffix?_eq_some_iff.mp hrest
      obtain rfl : tail = beneath := by simpa using htail
      obtain ⟨front, rfl⟩ := List.getLast?_eq_some_iff.mp hdot
      rw [List.append_assoc] at hhost
      exact Or.inr ⟨front, hhost.trans (toAsciiLowercase_of_eq hhost).symm⟩
  next =>
    simp only [admits, decide_eq_true_eq] at hadmits
    exact Or.inl hadmits

/-- An entry that is an address spells it. -/
theorem Entry.parse_eq_literal_iff {entry : Text} {address : IpAddr} :
    Entry.parse entry = .literal address ↔
      parseIpAddr (toAsciiLowercase (bareEntry entry)) = some address := by
  rw [Entry.parse, bareEntry, bare]
  split <;> simp_all

/-- A literal that a list admits is one that it has. -/
theorem literal_of_admits {hosts : List Text} {host : Text} {address : IpAddr}
    (hadmits : admits (hosts.map Entry.parse) host = some (.literal address)) :
    ∃ entry ∈ hosts, NamesLiteral entry host address := by
  rw [admits] at hadmits
  split at hadmits
  next listed hparse =>
    split at hadmits
    next hlisted =>
      obtain rfl : listed = address := by simpa using hadmits
      obtain ⟨entry, hentry, hliteral⟩ := List.mem_map.mp hlisted
      exact ⟨entry, hentry, Entry.parse_eq_literal_iff.mp hliteral, hparse⟩
    next => cases hadmits
  next => split at hadmits <;> simp at hadmits

/-- A name that a list admits is one that it names. -/
theorem names_of_admits {hosts : List Text} {host : Text}
    (hadmits : admits (hosts.map Entry.parse) host = some .name) :
    ∃ entry ∈ hosts, Names entry host := by
  rw [admits] at hadmits
  split at hadmits
  next => split at hadmits <;> simp at hadmits
  next =>
    split at hadmits
    next hany =>
      obtain ⟨parsed, hparsed, hadmitted⟩ := List.any_eq_true.mp hany
      obtain ⟨entry, hentry, rfl⟩ := List.mem_map.mp hparsed
      exact ⟨entry, hentry, Entry.names_of_admits hadmitted⟩
    next => cases hadmits

/-! ### What a request connects -/

/-- The host's own addresses were asked for. -/
def Event.isEnumeration : Event → Bool
  | .enumerated _ => true
  | _ => false

/-- A host was resolved. -/
def Event.isResolution : Event → Bool
  | .resolved _ _ _ => true
  | _ => false

/-- The addresses that pass the vetting are those that passed before, or of no class. -/
theorem mem_foldl_vetNext {own : List IpAddr} {resolved : List SocketAddr} {address : SocketAddr}
    {seen : List SocketAddr × Option DeniedAddress}
    (hmem : address ∈ (resolved.foldl (vetNext own) seen).1) :
    address ∈ seen.1 ∨ address ∈ resolved ∧ DeniedAddress.of address.ip own = none := by
  induction resolved generalizing seen with
  | nil => exact Or.inl hmem
  | cons first resolved ih =>
    rcases ih hmem with hseen | ⟨hrest, hnone⟩
    · rw [vetNext] at hseen
      split at hseen
      next => exact Or.inl hseen
      next hnone =>
        rcases List.mem_append.mp hseen with hbefore | hfirst
        · exact Or.inl hbefore
        · obtain rfl := List.mem_singleton.mp hfirst
          exact Or.inr ⟨List.mem_cons_self, hnone⟩
    · exact Or.inr ⟨List.mem_cons_of_mem _ hrest, hnone⟩

/-- The addresses that pass the vetting are of the answer, and of no class. -/
theorem mem_vet {own : List IpAddr} {resolved : List SocketAddr} {address : SocketAddr}
    (hmem : address ∈ (vet own resolved).1) :
    address ∈ resolved ∧ DeniedAddress.of address.ip own = none := by
  rcases mem_foldl_vetNext hmem with hnone | hvetted
  · cases hnone
  · exact hvetted

/-- Addresses are tried in order. -/
theorem connect_events (addresses : List SocketAddr) (events : List Event) :
    ∃ tried, tried <+: addresses ∧
      (connect environment addresses events).2 = events ++ tried.map Event.connecting := by
  induction addresses generalizing events with
  | nil => exact ⟨[], List.prefix_rfl, (List.append_nil events).symm⟩
  | cons address addresses ih =>
    simp only [connect]
    split
    · exact ⟨[address], by simp, rfl⟩
    · obtain ⟨tried, htried, hevents⟩ := ih (events ++ [.connecting address])
      exact ⟨address :: tried, by simpa using htried, by simp [hevents]⟩

/-- An admitted host stands for itself where it is a literal, and for vetted addresses of the one
resolution of it where it is a name. -/
inductive Admitted (hosts : List Text) (host : Text) (port : UInt16) :
    List Event → List SocketAddr → Prop
  | literal {entry : Text} {address : IpAddr} {own : Option (List IpAddr)}
      (hentry : entry ∈ hosts) (hnames : NamesLiteral entry host address)
      (hclass : DeniedAddress.of address (own.getD []) = none ∨
        DeniedAddress.of address (own.getD []) = some .loopback) :
      Admitted hosts host port [.enumerated own] [⟨address, port⟩]
  | name {entry : Text} {own : Option (List IpAddr)} {answer : Option (List SocketAddr)}
      {addresses : List SocketAddr} (hentry : entry ∈ hosts) (hnames : Names entry host)
      (hvetted : ∀ address ∈ addresses,
        address ∈ answer.getD [] ∧ DeniedAddress.of address.ip (own.getD []) = none) :
      Admitted hosts host port [.enumerated own, .resolved host port answer] addresses

/-- A literal that passes is itself, of no class but perhaps loopback. -/
theorem of_vetLiteral {own : List IpAddr} {address : IpAddr} {port : UInt16}
    {addresses : List SocketAddr} (hok : vetLiteral own address port = .ok addresses) :
    addresses = [⟨address, port⟩] ∧
      (DeniedAddress.of address own = none ∨
        DeniedAddress.of address own = some .loopback) := by
  rw [vetLiteral] at hok
  split at hok
  next hclass => exact ⟨(Except.ok.inj hok).symm, Or.inl hclass⟩
  next hclass => exact ⟨(Except.ok.inj hok).symm, Or.inr hclass⟩
  next => cases hok

/-- The addresses of an answer that pass are of the answer, and of no class. -/
theorem of_vetAnswer {own : List IpAddr} {resolved addresses : List SocketAddr}
    (hok : vetAnswer own resolved = .ok addresses) {address : SocketAddr}
    (hmem : address ∈ addresses) :
    address ∈ resolved ∧ DeniedAddress.of address.ip own = none := by
  rw [vetAnswer] at hok
  split at hok
  next => cases hok
  next admitted denied _ hvet =>
    obtain rfl := Except.ok.inj hok
    exact mem_vet (by rwa [hvet])

theorem mapError_eq_ok {Error Other Value : Type} {change_ : Error → Other}
    {result : Except Error Value} {value : Value}
    (hok : result.mapError change_ = .ok value) : result = .ok value := by
  cases result with
  | error error => cases hok
  | ok found => rw [← Except.ok.inj hok]

/-- What an admitted host stands for, and the events that told. -/
theorem admitted_events (hosts : List Text) (host : Text) (port : UInt16) (events : List Event) :
    ∃ new, (admitted environment (hosts.map Entry.parse) host port events).2 = events ++ new ∧
      (∀ address, .connecting address ∉ new) ∧
      ∀ addresses, (admitted environment (hosts.map Entry.parse) host port events).1 =
        .ok addresses → Admitted hosts host port new addresses := by
  rw [admitted]
  cases hadmits : admits (hosts.map Entry.parse) host with
  | none =>
    exact ⟨[], (List.append_nil events).symm, by simp, fun addresses hok ↦ by cases hok⟩
  | some admission =>
    cases admission with
    | literal address =>
      refine ⟨[.enumerated (environment.own events)], rfl, by simp, fun addresses hok ↦ ?_⟩
      obtain ⟨rfl, hclass⟩ := of_vetLiteral (mapError_eq_ok hok)
      obtain ⟨entry, hentry, hnames⟩ := literal_of_admits hadmits
      exact .literal hentry hnames hclass
    | name =>
      refine ⟨[.enumerated (environment.own events), .resolved host port
        (environment.lookup (events ++ [.enumerated (environment.own events)]) host port)],
        ?_, by simp, fun addresses hok ↦ ?_⟩
      · change events ++ [_] ++ [_] = _
        rw [List.append_assoc]
        rfl
      · obtain ⟨entry, hentry, hnames⟩ := names_of_admits hadmits
        exact .name hentry hnames fun address hmem ↦ of_vetAnswer (mapError_eq_ok hok) hmem

/-- What an address that a request connected is held to, of the events the request added: it
belongs to a host that the list names, which was vetted and resolved once, is none of those denied,
and loopback only as a listed literal. -/
def Permits (hosts : List Text) (request : Request) (new : List Event) (address : SocketAddr) :
    Prop :=
  ∃ host port own, request.connect ∧ request.authority = some (host, some port) ∧
    new.filter Event.isEnumeration = [.enumerated own] ∧
    address.ip.counted.Public ∧
    (address.ip.counted.isLoopback ∨ address.ip.counted ∉ own.getD []) ∧
    ((∃ entry ∈ hosts, NamesLiteral entry host address.ip) ∧ address.port = port ∧
        new.filter Event.isResolution = [] ∨
      (∃ entry ∈ hosts, Names entry host) ∧ ¬ address.ip.counted.isLoopback ∧
        ∃ answer, address ∈ answer ∧
          new.filter Event.isResolution = [.resolved host port (some answer)])

/-- A tunnel asks no more than connecting does. -/
theorem tunnel_events (host : Text) (port : UInt16) (addresses : List SocketAddr)
    (events : List Event) :
    (tunnel environment host port addresses events).2 =
      (connect environment addresses events).2 := by
  change ((match (connect environment addresses events).1 with
    | none => _
    | some upstream => pure ⟨200, [], some upstream⟩ : StateM (List Event) Response) _).2 = _
  cases (connect environment addresses events).1 <;> rfl

/-- A `CONNECT` to a host and port connects only addresses that its host was admitted for. -/
theorem handle_events {allowlist : List Entry} {host : Text} {port : UInt16} {request : Request}
    {events : List Event} (hconnect : request.connect)
    (hauthority : request.authority = some (host, some port)) :
    ∃ tried : List SocketAddr, (handle environment allowlist request events).2 =
        (admitted environment allowlist host port events).2 ++ tried.map Event.connecting ∧
      ∀ address ∈ tried, ∃ addresses,
        (admitted environment allowlist host port events).1 = .ok addresses ∧
          address ∈ addresses := by
  rw [handle, if_neg (not_not.mpr hconnect), hauthority]
  change ∃ tried : List SocketAddr,
    ((match (admitted environment allowlist host port events).1 with
      | .error why => pure ⟨403, quoted host ++ ' ' :: why, none⟩
      | .ok addresses => tunnel environment host port addresses :
        StateM (List Event) Response) (admitted environment allowlist host port events).2).2 = _ ∧
      _
  cases hadmitted : (admitted environment allowlist host port events).1 with
  | error why =>
    exact ⟨[], (List.append_nil _).symm, fun address hmem ↦ (List.not_mem_nil hmem).elim⟩
  | ok addresses =>
    obtain ⟨tried, htried, hevents⟩ :=
      connect_events environment addresses (admitted environment allowlist host port events).2
    exact ⟨tried, (tunnel_events environment host port addresses _).trans hevents,
      fun address hmem ↦ ⟨addresses, rfl, htried.subset hmem⟩⟩

/-- An address that an admitted host stands for is permitted to be connected. -/
theorem Admitted.permits {hosts : List Text} {host : Text} {port : UInt16} {request : Request}
    {new : List Event} {addresses : List SocketAddr} (hconnect : request.connect)
    (hauthority : request.authority = some (host, some port))
    (hadmitted : Admitted hosts host port new addresses) {address : SocketAddr}
    (hmem : address ∈ addresses) (tried : List SocketAddr) :
    Permits hosts request (new ++ tried.map Event.connecting) address := by
  have htried (condition : Event → Bool)
      (hcondition : ∀ address, condition (.connecting address) = false) :
      (new ++ tried.map Event.connecting).filter condition = new.filter condition := by
    rw [List.filter_append, List.filter_map]
    simp [Function.comp_def, hcondition]
  rw [Permits, htried _ fun _ ↦ rfl, htried _ fun _ ↦ rfl]
  cases hadmitted with
  | @literal entry literal own hentry hnames hclass =>
    obtain rfl := List.mem_singleton.mp hmem
    rcases hclass with hnone | hloopback
    · obtain ⟨hpublic, -, hown⟩ := DeniedAddress.public_of_of hnone
      exact ⟨host, port, own, hconnect, hauthority, rfl, hpublic, Or.inr hown,
        Or.inl ⟨⟨entry, hentry, hnames⟩, rfl, rfl⟩⟩
    · have hloop := DeniedAddress.isLoopback_of_of hloopback
      exact ⟨host, port, own, hconnect, hauthority, rfl, IpAddr.public_of_isLoopback hloop,
        Or.inl hloop, Or.inl ⟨⟨entry, hentry, hnames⟩, rfl, rfl⟩⟩
  | @name entry own answer _ hentry hnames hvetted =>
    obtain ⟨hanswer, hnone⟩ := hvetted address hmem
    obtain ⟨hpublic, hloopback, hown⟩ := DeniedAddress.public_of_of hnone
    cases answer with
    | none => cases hanswer
    | some answer =>
      exact ⟨host, port, own, hconnect, hauthority, rfl, hpublic, Or.inr hown,
        Or.inr ⟨⟨entry, hentry, hnames⟩, by simp [hloopback], answer, hanswer, rfl⟩⟩

/-- An address that a request connects is one that the list permits, whatever the system answers
and was asked before. -/
theorem handle_permits (hosts : List Text) (request : Request) (events : List Event) :
    ∃ new, (handle environment (hosts.map Entry.parse) request events).2 = events ++ new ∧
      ∀ address, .connecting address ∈ new → Permits hosts request new address := by
  by_cases hconnect : request.connect
  · rcases hauthority : request.authority with _ | ⟨host, _ | port⟩
    · refine ⟨[], ?_, by simp⟩
      rw [handle, if_neg (not_not.mpr hconnect), hauthority, List.append_nil]
      rfl
    · refine ⟨[], ?_, by simp⟩
      rw [handle, if_neg (not_not.mpr hconnect), hauthority, List.append_nil]
      rfl
    · obtain ⟨new, hnew, hquiet, hstands⟩ := admitted_events environment hosts host port events
      obtain ⟨tried, hevents, htried⟩ := handle_events environment hconnect hauthority
      refine ⟨new ++ tried.map Event.connecting, ?_, fun address hmem ↦ ?_⟩
      · rw [hevents, hnew, List.append_assoc]
      · rcases List.mem_append.mp hmem with hbefore | hafter
        · exact (hquiet address hbefore).elim
        · obtain ⟨found, hfound, heq⟩ := List.mem_map.mp hafter
          obtain rfl : found = address := Event.connecting.inj heq
          obtain ⟨addresses, hok, hin⟩ := htried found hfound
          exact (hstands addresses hok).permits hconnect hauthority hin tried
  · refine ⟨[], ?_, by simp⟩
    rw [handle, if_pos hconnect, List.append_nil]
    rfl

/-- A listed `127.0.0.1` is connected on a host whose loopback interface holds it, as any does. -/
theorem own_loopback_connected :
    let mirror : SocketAddr := ⟨.v4 ⟨127, 0, 0, 1⟩, 8080⟩
    let environment : Environment :=
      ⟨fun _ ↦ some [.v4 ⟨127, 0, 0, 1⟩], fun _ _ _ ↦ none, fun _ _ ↦ true⟩
    let request : Request := ⟨true, some ("127.0.0.1".toList, some 8080)⟩
    let new := (handle environment [Entry.parse "127.0.0.1".toList] request []).2
    .connecting mirror ∈ new ∧
      ∃ own, .enumerated (some own) ∈ new ∧ mirror.ip.counted ∈ own := by
  intro mirror environment request new
  have hnew : new = [.enumerated (some [.v4 ⟨127, 0, 0, 1⟩]), .connecting mirror] := by
    decide +kernel
  rw [hnew]
  exact ⟨by simp, [.v4 ⟨127, 0, 0, 1⟩], by simp, List.mem_singleton.mpr rfl⟩

end OmniaBackends.Sandbox
