import Mathlib.Data.List.TakeWhile
import Mathlib.Logic.Function.Basic
import OmniaBackends.Foundation.Base64
import OmniaBackends.Foundation.Decimal
import OmniaBackends.Foundation.Settings

/-!
# The names of a locker's secrets

`crates/azure-vault/src/key_vault.rs`. A secret of a locker is held under one name, made of the
locker's identifier, which its length goes before, and the secret's id, in base64 for URLs
(`encodeSecretName`). `decodeSecretId` takes the id out of a name of that locker, in whatever form
the vault shows it.

Key Vault takes names of letters, digits and dashes alone, and two names in which only the case of
letters differs are one name to it. The first refuses some pairs of an identifier and an id; the
second makes one secret of two, and even one locker of two. The lockers keep to themselves exactly
when no two of the pairs that are in use have texts whose groups of six bits are, pairwise, of one
letter (`names_separate_iff`).
-/

set_option autoImplicit false
set_option relaxedAutoImplicit false

namespace OmniaBackends.AzureVault

open Foundation Base64

/-! ### Names -/

/-- The byte between the parts of a name's text. -/
def colon : UInt8 := 0x3A

/-- The byte between the parts of a URL. -/
def slash : UInt8 := 0x2F

/-- A secret as the guests know it: a locker's identifier and an id, both of them texts. -/
structure SecretPath where
  /-- The locker's identifier. -/
  identifier : Bytes
  /-- The secret's id. -/
  secretId : Bytes
  identifier_valid : Utf8.Valid identifier
  secretId_valid : Utf8.Valid secretId
  deriving DecidableEq

/-- The text that a name is made of. -/
def secretText (identifier secretId : Bytes) : Bytes :=
  digitsOf identifier.length ++ colon :: (identifier ++ colon :: secretId)

/-- `encode_secret_name`: the name of a secret. -/
def encodeSecretName (identifier secretId : Bytes) : Bytes :=
  encodeUrl (secretText identifier secretId)

/-- The name of a secret. -/
def SecretPath.name (path : SecretPath) : Bytes := encodeSecretName path.identifier path.secretId

/-- A number as a `usize`, with or without a plus sign. -/
def parseUsize (content : Bytes) : Option ℕ :=
  (match content with
    | 0x2B :: digits => parseNat digits
    | digits => parseNat digits).filter fun number ↦ number < 2 ^ 64

/-- A text cut after a number of bytes, if a character ends there. -/
def splitAtChecked (length : ℕ) (content : Bytes) : Option (Bytes × Bytes) :=
  if length ≤ content.length ∧ (content.drop length).head?.all fun byte ↦ !Utf8.continues byte then
    some (content.take length, content.drop length)
  else none

/-- What comes after a byte at the start. -/
def stripPrefix (byte : UInt8) : Bytes → Option Bytes
  | first :: rest => if first = byte then some rest else none
  | [] => none

/-- `decode_secret_id`: the id of a locker's secret, from its name or from a URL with the name. -/
def decodeSecretId (identifier secretIdOrUrl : Bytes) : Option Bytes := do
  let encoded :=
    match rsplitPattern (text "/secrets/") secretIdOrUrl with
    | some (_, tail) => tail.takeWhile fun byte ↦ byte ≠ slash
    | none => secretIdOrUrl
  let decoded ← (decodeUrl encoded).filter fun bytes ↦ Utf8.Valid bytes
  let (length, rest) ← splitOnce colon decoded
  let length ← parseUsize length
  let (locker, rest) ← splitAtChecked length rest
  let secretId ← stripPrefix colon rest
  if locker = identifier then some secretId else none

/-! ### The vault -/

/-- A character of a name: a letter, a digit or a dash. -/
def isNameCharacter (byte : UInt8) : Bool :=
  0x41 ≤ byte && byte ≤ 0x5A || 0x61 ≤ byte && byte ≤ 0x7A || 0x30 ≤ byte && byte ≤ 0x39 ||
    byte = 0x2D

/-- A name that Key Vault takes. -/
def Legal (name : Bytes) : Prop :=
  1 ≤ name.length ∧ name.length ≤ 127 ∧ ∀ byte ∈ name, isNameCharacter byte

instance (name : Bytes) : Decidable (Legal name) :=
  haveI : Decidable (∀ byte ∈ name, isNameCharacter byte) := List.decidableBAll _ name
  inferInstanceAs (Decidable (_ ∧ _ ∧ ∀ byte ∈ name, isNameCharacter byte))

/-- A name without its case: names that agree in it are one name to Key Vault. -/
def folded (name : Bytes) : Bytes := name.map asciiLower

/-- The secrets of a vault: their values by their names without case. -/
abbrev Vault := Bytes → Option Bytes

namespace AzLocker

/-- `set`: the vault with a secret's value set. The vault refuses a name that is not legal. -/
def set (vault : Vault) (path : SecretPath) (value : Bytes) : Option Vault :=
  if Legal path.name then
    some (Function.update vault (folded path.name) (some (encodeUrl value)))
  else none

/-- `get`: a secret's value, if there is one. -/
def get (vault : Vault) (path : SecretPath) : Option (Option Bytes) :=
  if Legal path.name then
    match vault (folded path.name) with
    | some stored => (decodeUrl stored).map some
    | none => some none
  else none

/-- `delete`: the vault without a secret, which has to be there. -/
def delete (vault : Vault) (path : SecretPath) : Option Vault :=
  if Legal path.name ∧ vault (folded path.name) ≠ none then
    some (Function.update vault (folded path.name) none)
  else none

/-- `exists`: whether there is a secret. -/
def exists_ (vault : Vault) (path : SecretPath) : Option Bool :=
  (get vault path).map Option.isSome

/-- `list_ids`: a locker's ids among the ids that the vault lists, which are URLs. -/
def listIds (identifier : Bytes) (listed : List (Option Bytes)) : List Bytes :=
  listed.filterMap fun id ↦ id.bind (decodeSecretId identifier)

end AzLocker

/-- The forms in which a name is shown: alone, and in a URL with or without a version. -/
inductive Shown (name : Bytes) : Bytes → Prop
  /-- The name alone. -/
  | alone : Shown name name
  /-- A URL that ends in the name. -/
  | url (vault : Bytes) : Shown name (vault ++ (text "/secrets/" ++ name))
  /-- A URL in which a version comes after the name. -/
  | version (vault version : Bytes) : slash ∉ version →
    Shown name (vault ++ (text "/secrets/" ++ (name ++ slash :: version)))

/-! ### The text of a name -/

/-- The digits of a number hold no colon. -/
theorem colon_notMem_digitsOf (number : ℕ) : colon ∉ digitsOf number := by
  intro hcolon
  obtain ⟨digit, hdigit⟩ := digitOf_of_mem_digitsOf colon hcolon
  exact absurd hdigit (by decide +revert)

/-- A digit is ASCII and not a plus sign, and its first six bits are not the letter `s`. -/
theorem digit_facts : ∀ byte : UInt8, (digitOf byte).isSome →
    byte ≤ 0x7F ∧ byte ≠ 0x2B ∧ character (byte.toNat / 4) ≠ 0x73 := by
  have hall : ∀ number < 256, (digitOf (UInt8.ofNat number)).isSome →
      UInt8.ofNat number ≤ 0x7F ∧ UInt8.ofNat number ≠ 0x2B ∧
        character ((UInt8.ofNat number).toNat / 4) ≠ 0x73 := by
    decide +kernel
  intro byte
  have hbyte := hall byte.toNat byte.toNat_lt
  rwa [UInt8.ofNat_toNat] at hbyte

/-- A length is read as it was written. -/
theorem parseUsize_digitsOf {number : ℕ} (hnumber : number < 2 ^ 64) :
    parseUsize (digitsOf number) = some number := by
  unfold parseUsize
  split
  · rename_i digits hdigits
    have hplus : (0x2B : UInt8) ∈ digitsOf number := by simp [hdigits]
    obtain ⟨digit, hdigit⟩ := digitOf_of_mem_digitsOf _ hplus
    exact absurd rfl (digit_facts 0x2B (by simp [hdigit])).2.1
  · rw [parseNat_digitsOf, Option.filter_some, if_pos (by simpa using hnumber)]

/-- The text of a name is a text. -/
theorem secretText_valid (path : SecretPath) :
    Utf8.Valid (secretText path.identifier path.secretId) := by
  have hcolon : Utf8.Valid [colon] := by decide
  have hdigits : Utf8.Valid (digitsOf path.identifier.length) := by
    refine Utf8.valid_of_ascii fun byte hbyte ↦ ?_
    obtain ⟨digit, hdigit⟩ := digitOf_of_mem_digitsOf byte hbyte
    exact (digit_facts byte (by simp [hdigit])).1
  exact hdigits.append (hcolon.append
    (path.identifier_valid.append (hcolon.append path.secretId_valid)))

/-- A text is cut behind its first part when a colon follows. -/
theorem splitAtChecked_append (first rest : Bytes) :
    splitAtChecked first.length (first ++ colon :: rest) = some (first, colon :: rest) := by
  have hboundary : (!Utf8.continues colon) = true := by decide
  simp [splitAtChecked, hboundary]

/-! ### The name in the forms in which it is shown -/

/-- No character of a name is a slash. -/
theorem slash_notMem_encodeUrl (bytes : Bytes) : slash ∉ encodeUrl bytes := by
  have hall : ∀ sextet < 64, character sextet ≠ slash := by decide
  intro hslash
  obtain ⟨sextet, hsextet, hcharacter⟩ := List.mem_map.mp hslash
  exact hall sextet (lt_of_mem_sextets sextet hsextet) hcharacter

/-- A name does not begin as `secrets` does. -/
theorem head_encodeSecretName (identifier secretId : Bytes) :
    ∃ first rest, encodeSecretName identifier secretId = first :: rest ∧ first ≠ 0x73 := by
  obtain ⟨digit, digits, hdigits⟩ := List.exists_cons_of_ne_nil (digitsOf_ne_nil identifier.length)
  obtain ⟨number, hnumber⟩ := digitOf_of_mem_digitsOf digit (by rw [hdigits]; simp)
  have hhead : ∃ rest, sextets (digit :: (digits ++ colon :: (identifier ++ colon :: secretId))) =
      digit.toNat / 4 :: rest := by
    match digits ++ colon :: (identifier ++ colon :: secretId) with
    | [] => exact ⟨_, rfl⟩
    | [second] => exact ⟨_, rfl⟩
    | second :: third :: more => exact ⟨_, rfl⟩
  obtain ⟨rest, hrest⟩ := hhead
  refine ⟨character (digit.toNat / 4), rest.map character, ?_,
    (digit_facts digit (by simp [hnumber])).2.2⟩
  rw [encodeSecretName, encodeUrl, secretText, hdigits, List.cons_append, hrest, List.map_cons]

/-- The text in base64 that `decode_secret_id` takes from what it is given. -/
def encodedPart (secretIdOrUrl : Bytes) : Bytes :=
  match rsplitPattern (text "/secrets/") secretIdOrUrl with
  | some (_, tail) => tail.takeWhile fun byte ↦ byte ≠ slash
  | none => secretIdOrUrl

/-- Nothing that the rest of a URL holds is taken for the place before the name. -/
theorem rsplitPattern_rest {rest : Bytes} {first : UInt8} (hfirst : first ≠ 0x73)
    (hcount : (first :: rest).count slash < 2) :
    rsplitPattern (text "/secrets/") (text "secrets/" ++ first :: rest) = none := by
  have hrest : rsplitPattern (text "/secrets/") (first :: rest) = none :=
    rsplitPattern_eq_none_of_count (by rwa [show (text "/secrets/").count slash = 2 by decide])
  have hpattern : text "/secrets/" = [0x2F, 0x73, 0x65, 0x63, 0x72, 0x65, 0x74, 0x73, 0x2F] := by
    decide
  have htext : text "secrets/" = [0x73, 0x65, 0x63, 0x72, 0x65, 0x74, 0x73, 0x2F] := by decide
  have hhead : ¬ [0x73, 0x65, 0x63, 0x72, 0x65, 0x74, 0x73, 0x2F] <+: first :: rest := by
    simp [List.cons_prefix_cons, Ne.symm hfirst]
  rw [hpattern] at hrest ⊢
  rw [htext]
  generalize first :: rest = items at hrest hhead ⊢
  simp [rsplitPattern, hrest, hhead]

/-- The name is taken from every form in which it is shown. -/
theorem encodedPart_shown {identifier secretId shown : Bytes}
    (hshown : Shown (encodeSecretName identifier secretId) shown) :
    encodedPart shown = encodeSecretName identifier secretId := by
  obtain ⟨first, rest, hname, hfirst⟩ := head_encodeSecretName identifier secretId
  have hslash : slash ∉ encodeSecretName identifier secretId :=
    slash_notMem_encodeUrl (secretText identifier secretId)
  have htake : ∀ byte ∈ encodeSecretName identifier secretId, decide (byte ≠ slash) = true := by
    intro byte hbyte
    exact decide_eq_true fun hsame ↦ hslash (hsame ▸ hbyte)
  have hnone : (encodeSecretName identifier secretId).count slash = 0 :=
    List.count_eq_zero.mpr hslash
  have hsplit (vault after : Bytes)
      (hcount : (encodeSecretName identifier secretId ++ after).count slash < 2) :
      rsplitPattern (text "/secrets/")
          (vault ++ (text "/secrets/" ++ (encodeSecretName identifier secretId ++ after))) =
        some (vault, encodeSecretName identifier secretId ++ after) := by
    rw [hname] at hcount ⊢
    exact rsplitPattern_append (rsplitPattern_rest hfirst hcount)
  cases hshown with
  | alone =>
    have hcut : rsplitPattern (text "/secrets/") (encodeSecretName identifier secretId) = none :=
      rsplitPattern_eq_none_of_count (by rw [hnone]; decide)
    rw [encodedPart, hcut]
  | url vault =>
    have hcut := hsplit vault [] (by rw [List.append_nil, hnone]; decide)
    rw [List.append_nil] at hcut
    rw [encodedPart, hcut]
    exact List.takeWhile_eq_self_iff.mpr htake
  | version vault version hversion =>
    have hcut := hsplit vault (slash :: version) (by
      rw [List.count_append, hnone, List.count_cons_self, List.count_eq_zero.mpr hversion]
      decide)
    rw [encodedPart, hcut]
    change (encodeSecretName identifier secretId ++ slash :: version).takeWhile _ = _
    rw [List.takeWhile_append_of_pos htake, List.takeWhile_cons_of_neg (by simp), List.append_nil]

/-- The pair that a name was made of is read off every form in which it is shown. -/
theorem decodeSecretId_shown (path : SecretPath) (hlength : path.identifier.length < 2 ^ 64)
    (identifier : Bytes) {shown : Bytes} (hshown : Shown path.name shown) :
    decodeSecretId identifier shown =
      if path.identifier = identifier then some path.secretId else none := by
  have hpart : encodedPart shown = encodeSecretName path.identifier path.secretId :=
    encodedPart_shown hshown
  have hread : ((decodeUrl (encodedPart shown)).filter fun bytes ↦ Utf8.Valid bytes) =
      some (secretText path.identifier path.secretId) := by
    rw [hpart, encodeSecretName, decodeUrl_encodeUrl, Option.filter_some,
      if_pos (by simpa using secretText_valid path)]
  have hcolon : splitOnce colon (secretText path.identifier path.secretId) =
      some (digitsOf path.identifier.length, path.identifier ++ colon :: path.secretId) :=
    splitOnce_eq_some_iff.mpr ⟨rfl, colon_notMem_digitsOf path.identifier.length⟩
  change (((decodeUrl (encodedPart shown)).filter fun bytes ↦ Utf8.Valid bytes).bind _) = _
  rw [hread, Option.bind_some, hcolon]
  simp [parseUsize_digitsOf hlength, splitAtChecked_append, stripPrefix]

/-! ### Lockers that keep to themselves -/

/-- A vault takes the name of a secret. -/
def Settable (path : SecretPath) : Prop :=
  ∃ vault value after, AzLocker.set vault path value = some after

/-- A secret that can be set has a legal name. -/
theorem Settable.legal {path : SecretPath} (hset : Settable path) : Legal path.name := by
  obtain ⟨vault, value, after, hafter⟩ := hset
  exact (Option.ite_none_right_eq_some.mp hafter).1

/-- A name that is legal is of a short identifier. -/
theorem length_lt_of_legal {path : SecretPath} (hlegal : Legal path.name) :
    path.identifier.length < 2 ^ 64 := by
  have hname : (secretText path.identifier path.secretId).length ≤ path.name.length :=
    length_le_length_encodeUrl _
  have hshort := hlegal.2.1
  rw [secretText, List.length_append, List.length_cons, List.length_append] at hname
  omega

/-- Two secrets' texts whose groups of six bits are, pairwise, of one letter. -/
def Collide (path other : SecretPath) : Prop :=
  List.Forall₂ SameLetter (sextets (secretText path.identifier path.secretId))
    (sextets (secretText other.identifier other.secretId))

/-- Two secrets are one to the vault exactly when their texts collide. -/
theorem folded_name_eq_iff (path other : SecretPath) :
    folded path.name = folded other.name ↔ Collide path other :=
  lower_encodeUrl_eq_iff _ _

namespace AzLocker

variable {vault after : Vault} {path other : SecretPath} {value : Bytes}

/-- What is set is got, as it was. -/
theorem get_set_self (hset : set vault path value = some after) :
    get after path = some (some value) := by
  obtain ⟨hlegal, hafter⟩ := Option.ite_none_right_eq_some.mp hset
  obtain rfl := Option.some.inj hafter
  rw [get, if_pos hlegal, Function.update_self]
  simp [decodeUrl_encodeUrl]

/-- What is set changes no secret of another name. -/
theorem get_set_of_ne (hname : folded path.name ≠ folded other.name)
    (hset : set vault path value = some after) : get after other = get vault other := by
  obtain ⟨-, hafter⟩ := Option.ite_none_right_eq_some.mp hset
  obtain rfl := Option.some.inj hafter
  rw [get, get, Function.update_of_ne (Ne.symm hname)]

/-- What is deleted is not there. -/
theorem get_delete_self (hdelete : delete vault path = some after) :
    get after path = some none := by
  obtain ⟨⟨hlegal, -⟩, hafter⟩ := Option.ite_none_right_eq_some.mp hdelete
  obtain rfl := Option.some.inj hafter
  rw [get, if_pos hlegal, Function.update_self]

/-- What is deleted changes no secret of another name. -/
theorem get_delete_of_ne (hname : folded path.name ≠ folded other.name)
    (hdelete : delete vault path = some after) : get after other = get vault other := by
  obtain ⟨-, hafter⟩ := Option.ite_none_right_eq_some.mp hdelete
  obtain rfl := Option.some.inj hafter
  rw [get, get, Function.update_of_ne (Ne.symm hname)]

/-- A locker lists its own among the secrets that are shown. -/
theorem listIds_shown {paths : List SecretPath} {shown : List Bytes}
    (hlegal : ∀ path ∈ paths, Legal path.name)
    (hshown : List.Forall₂ (fun path id ↦ Shown path.name id) paths shown) (identifier : Bytes) :
    listIds identifier (shown.map some) =
      (paths.filter fun path ↦ path.identifier = identifier).map SecretPath.secretId := by
  induction hshown with
  | nil => rfl
  | @cons path id paths shown hfirst _ ih =>
    obtain ⟨hpath, hrest⟩ := List.forall_mem_cons.mp hlegal
    have hid := decodeSecretId_shown path (length_lt_of_legal hpath) identifier hfirst
    have hmore := ih hrest
    rw [listIds] at hmore ⊢
    by_cases hsame : path.identifier = identifier
    · simp [hid, hsame, hmore]
    · simp [hid, hsame, hmore]

end AzLocker

/-- What the names of some secrets do: they are legal, no two secrets share one, so that nothing set
or deleted changes another secret, and each locker reads its own ids, and no other's, off them. -/
structure Separate (paths : List SecretPath) : Prop where
  /-- The names are legal. -/
  legal : ∀ path ∈ paths, Legal path.name
  /-- Two secrets have two names. -/
  distinct : ∀ path ∈ paths, ∀ other ∈ paths, path ≠ other → folded path.name ≠ folded other.name
  /-- What is set is there, and changes no other secret. -/
  set : ∀ path ∈ paths, ∀ (vault : Vault) (value : Bytes) (after : Vault),
    AzLocker.set vault path value = some after →
    AzLocker.get after path = some (some value) ∧
      ∀ other ∈ paths, path ≠ other → AzLocker.get after other = AzLocker.get vault other
  /-- What is deleted is gone, and changes no other secret. -/
  delete : ∀ path ∈ paths, ∀ vault after : Vault, AzLocker.delete vault path = some after →
    AzLocker.get after path = some none ∧
      ∀ other ∈ paths, path ≠ other → AzLocker.get after other = AzLocker.get vault other
  /-- The locker reads the id off the name. -/
  recovered : ∀ path ∈ paths, ∀ shown, Shown path.name shown →
    decodeSecretId path.identifier shown = some path.secretId
  /-- Another locker reads nothing off it. -/
  foreign : ∀ path ∈ paths, ∀ identifier ≠ path.identifier, ∀ shown, Shown path.name shown →
    decodeSecretId identifier shown = none
  /-- A locker lists its own ids. -/
  listed : ∀ (identifier : Bytes) (shown : List Bytes),
    List.Forall₂ (fun path id ↦ Shown path.name id) paths shown →
    AzLocker.listIds identifier (shown.map some) =
      (paths.filter fun path ↦ path.identifier = identifier).map SecretPath.secretId

/-- The names of secrets that can be set do what they are for exactly when no two of the secrets
have texts that collide. -/
theorem names_separate_iff (paths : List SecretPath) (hset : ∀ path ∈ paths, Settable path) :
    Separate paths ↔ ∀ path ∈ paths, ∀ other ∈ paths, path ≠ other → ¬ Collide path other := by
  have hlegal : ∀ path ∈ paths, Legal path.name := fun path hpath ↦ (hset path hpath).legal
  constructor
  · intro hseparate path hpath other hother hne
    rw [← folded_name_eq_iff]
    exact hseparate.distinct path hpath other hother hne
  · intro hcollide
    have hdistinct : ∀ path ∈ paths, ∀ other ∈ paths, path ≠ other →
        folded path.name ≠ folded other.name := by
      intro path hpath other hother hne
      rw [ne_eq, folded_name_eq_iff]
      exact hcollide path hpath other hother hne
    refine ⟨hlegal, hdistinct, ?_, ?_, ?_, ?_, fun identifier shown hshown ↦
      AzLocker.listIds_shown hlegal hshown identifier⟩
    · intro path hpath vault value after hafter
      exact ⟨AzLocker.get_set_self hafter, fun other hother hne ↦
        AzLocker.get_set_of_ne (hdistinct path hpath other hother hne) hafter⟩
    · intro path hpath vault after hafter
      exact ⟨AzLocker.get_delete_self hafter, fun other hother hne ↦
        AzLocker.get_delete_of_ne (hdistinct path hpath other hother hne) hafter⟩
    · intro path hpath shown hshown
      rw [decodeSecretId_shown path (length_lt_of_legal (hlegal path hpath)) _ hshown, if_pos rfl]
    · intro path hpath identifier hother shown hshown
      rw [decodeSecretId_shown path (length_lt_of_legal (hlegal path hpath)) _ hshown,
        if_neg (Ne.symm hother)]

/-- A secret of the locker `G`. -/
def upper : SecretPath := ⟨text "G", text "k", by decide, by decide⟩

/-- The secret of that id of the locker `a`. -/
def lower : SecretPath := ⟨text "a", text "k", by decide, by decide⟩

/-- A secret of a locker whose letters no other's collide with. -/
def apart : SecretPath := ⟨text "b", text "k", by decide, by decide⟩

/-- A secret with a legal name can be set. -/
theorem settable_of_legal {path : SecretPath} (hlegal : Legal path.name) : Settable path :=
  ⟨fun _ ↦ none, [], _, if_pos hlegal⟩

/-- Two secrets of two lockers keep to themselves, their texts differing in more than case. -/
theorem separate_apart : Separate [upper, apart] := by
  refine (names_separate_iff [upper, apart] ?_).mpr ?_
  · intro path hpath
    refine settable_of_legal ?_
    revert path
    decide
  · simp only [Collide]
    decide

/-- The locker `a` gets what the locker `G` set. -/
theorem not_separate_case : Settable upper ∧ Settable lower ∧ ¬ Separate [upper, lower] := by
  refine ⟨settable_of_legal (by decide), settable_of_legal (by decide), fun hseparate ↦ ?_⟩
  exact absurd (show folded upper.name = folded lower.name by decide)
    (hseparate.distinct upper (by simp) lower (by simp) (by decide))

end OmniaBackends.AzureVault
