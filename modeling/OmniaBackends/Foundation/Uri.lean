import OmniaBackends.Foundation.Percent
import OmniaBackends.Foundation.Settings

/-!
# URIs

A URI is read into its scheme, its authority, its path and its query, and a query into its
parameters, whose values are percent-encoded. What is written of well formed parts is read back to
them (`Uri.read_write`, `Uri.parameters_queryOf`).

`splitAtText` cuts a text at a separator of several bytes. A text with the separator in one place is
cut into two (`splitAtText_append`).
-/

set_option autoImplicit false
set_option relaxedAutoImplicit false

namespace OmniaBackends.Foundation

/-! ### Cutting at a text -/

section Cutting

variable (separator : Bytes)

/-- The pieces of a text after some of it was read: the bytes still to be passed over are counted,
and `before` is the piece so far. -/
def splitAtTextFrom : ℕ → Bytes → Bytes → List Bytes
  | _, before, [] => [before]
  | skipped + 1, before, _ :: rest => splitAtTextFrom skipped before rest
  | 0, before, byte :: rest =>
    if separator.isPrefixOf (byte :: rest) then
      before :: splitAtTextFrom (separator.length - 1) [] rest
    else splitAtTextFrom 0 (before ++ [byte]) rest

/-- The pieces of a text between the places of a separator. -/
def splitAtText (content : Bytes) : List Bytes := splitAtTextFrom separator 0 [] content

/-- The separator stands nowhere in a text. -/
def Uncut : Bytes → Prop
  | [] => True
  | byte :: rest => separator.isPrefixOf (byte :: rest) = false ∧ Uncut rest

variable {separator}

/-- A text without the separator is one piece. -/
theorem splitAtTextFrom_of_uncut {content : Bytes} (huncut : Uncut separator content)
    (before : Bytes) : splitAtTextFrom separator 0 before content = [before ++ content] := by
  induction content generalizing before with
  | nil => rw [splitAtTextFrom, List.append_nil]
  | cons byte rest ih =>
    rw [splitAtTextFrom, if_neg (by simp [huncut.1]), ih huncut.2, List.append_assoc,
      List.singleton_append]

/-- As many bytes as there are to pass over are passed over. -/
theorem splitAtTextFrom_skip (skipped rest before : Bytes) :
    splitAtTextFrom separator skipped.length before (skipped ++ rest) =
      splitAtTextFrom separator 0 before rest := by
  induction skipped with
  | nil => rfl
  | cons byte skipped ih => exact ih

/-- A text is cut at a separator whose first byte stands nowhere before. -/
theorem splitAtText_append {lead : UInt8} {more : Bytes} (hseparator : separator = lead :: more)
    {first : Bytes} (hfirst : lead ∉ first) (last : Bytes) :
    splitAtText separator (first ++ (separator ++ last)) = first :: splitAtText separator last := by
  have hcut (before : Bytes) : splitAtTextFrom separator 0 before (first ++ (separator ++ last)) =
      (before ++ first) :: splitAtText separator last := by
    induction first generalizing before with
    | nil =>
      subst hseparator
      rw [List.nil_append, List.cons_append, splitAtTextFrom,
        if_pos (by simp [List.isPrefixOf]), List.length_cons, Nat.add_sub_cancel,
        splitAtTextFrom_skip, List.append_nil]
      rfl
    | cons byte first ih =>
      obtain ⟨hbyte, hmore⟩ := not_or.mp (mt List.mem_cons.mpr hfirst)
      have hnot : separator.isPrefixOf (byte :: (first ++ (separator ++ last))) = false := by
        rw [hseparator, List.isPrefixOf, beq_eq_false_iff_ne.mpr hbyte, Bool.false_and]
      rw [List.cons_append, splitAtTextFrom, if_neg (by simp [hnot]), ih hmore, List.append_assoc,
        List.singleton_append]
  exact hcut []

end Cutting

/-! ### The parts of a URI -/

/-- A URI with an authority. -/
structure Uri where
  scheme : Bytes
  authority : Bytes
  path : Bytes
  query : Option Bytes
  deriving DecidableEq

namespace Uri

/-- The bytes between the parts of a URI. -/
def colon : UInt8 := 0x3A
def slash : UInt8 := 0x2F
def question : UInt8 := 0x3F
def ampersand : UInt8 := 0x26
def equals : UInt8 := 0x3D

/-- The two halves of a text about a byte, or all of it where the byte is not in it. -/
def cutAt (byte : UInt8) (content : Bytes) : Bytes × Option Bytes :=
  match splitOnce byte content with
  | some (first, last) => (first, some last)
  | none => (content, none)

/-- The parts of a URI. -/
def read (content : Bytes) : Option Uri :=
  match splitOnce colon content with
  | some (scheme, 0x2F :: 0x2F :: rest) =>
    let hierarchy := cutAt question rest
    let located := cutAt slash hierarchy.1
    some ⟨scheme, located.1, located.2.elim [] (slash :: ·), hierarchy.2⟩
  | _ => none

/-- A URI from its parts. -/
def write (uri : Uri) : Bytes :=
  uri.scheme ++ (text "://" ++ (uri.authority ++ (uri.path ++ uri.query.elim [] (question :: ·))))

/-- Parts of a URI: a path starts with a slash where there is one, and no part holds the byte that
ends it. -/
structure WellFormed (uri : Uri) : Prop where
  scheme_colon : colon ∉ uri.scheme
  authority_slash : slash ∉ uri.authority
  authority_question : question ∉ uri.authority
  path_rooted : uri.path = [] ∨ ∃ rest, uri.path = slash :: rest
  path_question : question ∉ uri.path

theorem cutAt_of_not_mem {byte : UInt8} {content : Bytes} (hnot : byte ∉ content) :
    cutAt byte content = (content, none) := by
  rw [cutAt, splitOnce_eq_none_iff.mpr hnot]

theorem cutAt_append {byte : UInt8} {first : Bytes} (hnot : byte ∉ first) (last : Bytes) :
    cutAt byte (first ++ byte :: last) = (first, some last) := by
  rw [cutAt, splitOnce_eq_some_iff.mpr ⟨rfl, hnot⟩]

/-- A URI is read as the parts it was written of. -/
theorem read_write {uri : Uri} (hformed : uri.WellFormed) : read uri.write = some uri := by
  obtain ⟨scheme, authority, path, query⟩ := uri
  obtain ⟨hscheme, hslash, hquestion, hrooted, hpath⟩ := hformed
  dsimp only at hscheme hslash hquestion hrooted hpath
  have hmark : text "://" = [colon, 0x2F, 0x2F] := by decide
  have hscheme' : splitOnce colon (write ⟨scheme, authority, path, query⟩) =
      some (scheme, 0x2F :: 0x2F :: (authority ++ (path ++ query.elim [] (question :: ·)))) :=
    splitOnce_eq_some_iff.mpr ⟨by rw [write, hmark]; rfl, hscheme⟩
  have hhierarchy : cutAt question (authority ++ (path ++ query.elim [] (question :: ·))) =
      (authority ++ path, query) := by
    have hnot : question ∉ authority ++ path := by simp [hquestion, hpath]
    cases query with
    | none => simpa using cutAt_of_not_mem hnot
    | some query => simpa using cutAt_append hnot query
  have hlocated : ∀ found, cutAt slash (authority ++ path) = found →
      found.1 = authority ∧ found.2.elim [] (slash :: ·) = path := by
    rintro _ rfl
    rcases hrooted with rfl | ⟨rest, rfl⟩
    · rw [List.append_nil, cutAt_of_not_mem hslash]
      exact ⟨rfl, rfl⟩
    · rw [cutAt_append hslash]
      exact ⟨rfl, rfl⟩
  obtain ⟨hauthority, hfound⟩ := hlocated _ rfl
  rw [read, hscheme']
  change some (Uri.mk scheme _ _ _) = _
  rw [hhierarchy]
  rw [Option.some.injEq, Uri.mk.injEq]
  exact ⟨rfl, hauthority, hfound, rfl⟩

/-! ### Parameters -/

/-- A parameter of a query. -/
def parameter (name value : Bytes) : Bytes := name ++ equals :: Percent.encode value

/-- The parameters of a query. -/
def parameters (query : Bytes) : Option (List (Bytes × Bytes)) :=
  (query.splitOn ampersand).mapM fun given ↦
    (splitOnce equals given).bind fun halves ↦
      (Percent.decode halves.2).map fun value ↦ (halves.1, value)

/-- A name that a query may have as it is. -/
def IsName (name : Bytes) : Prop := ampersand ∉ name ∧ equals ∉ name

instance (name : Bytes) : Decidable (IsName name) := inferInstanceAs (Decidable (_ ∧ _))

theorem splitOnce_parameter {name : Bytes} (hname : IsName name) (value : Bytes) :
    splitOnce equals (parameter name value) = some (name, Percent.encode value) :=
  splitOnce_eq_some_iff.mpr ⟨rfl, hname.2⟩

theorem ampersand_not_mem_parameter {name : Bytes} (hname : IsName name) (value : Bytes) :
    ampersand ∉ parameter name value := by
  have hvalue : ampersand ∉ Percent.encode value :=
    Percent.not_mem_encode (by decide) (by decide) value
  have hequals : ampersand ≠ equals := by decide
  simp [parameter, hname.1, hvalue, hequals]

/-- A query of parameters. -/
def queryOf (given : List (Bytes × Bytes)) : Bytes :=
  [ampersand].intercalate (given.map fun pair ↦ parameter pair.1 pair.2)

/-- A byte with a meaning of its own, but for those between parameters, is in a query where it is in
a name. -/
theorem not_mem_queryOf {byte : UInt8} (hreserved : Percent.isUnreserved byte = false)
    (hbyte : byte ≠ Percent.percent ∧ byte ≠ ampersand ∧ byte ≠ equals)
    {given : List (Bytes × Bytes)} (hgiven : ∀ pair ∈ given, byte ∉ pair.1) :
    byte ∉ queryOf given := by
  induction given with
  | nil => exact List.not_mem_nil
  | cons pair given ih =>
    obtain ⟨hpair, hmore⟩ := List.forall_mem_cons.mp hgiven
    have hwritten : byte ∉ parameter pair.1 pair.2 := by
      have hvalue := Percent.not_mem_encode hreserved hbyte.1 pair.2
      simp [parameter, hpair, hvalue, hbyte.2.2]
    cases given with
    | nil => simpa [queryOf] using hwritten
    | cons next given =>
      have hrest := ih hmore
      rw [queryOf, List.map_cons] at hrest
      rw [queryOf, List.map_cons, List.map_cons, List.intercalate_cons_cons]
      simp [hwritten, hbyte.2.1, hrest]

/-- A query is read as the parameters it was written of. -/
theorem parameters_queryOf {given : List (Bytes × Bytes)} (hgiven : given ≠ [])
    (hnames : ∀ pair ∈ given, IsName pair.1) : parameters (queryOf given) = some given := by
  have hsplit : (queryOf given).splitOn ampersand =
      given.map fun pair ↦ parameter pair.1 pair.2 := by
    refine List.splitOn_intercalate ampersand (fun written hwritten ↦ ?_) (by simpa using hgiven)
    obtain ⟨pair, hpair, rfl⟩ := List.mem_map.mp hwritten
    exact ampersand_not_mem_parameter (hnames pair hpair) pair.2
  rw [parameters, hsplit]
  clear hsplit hgiven
  induction given with
  | nil => rfl
  | cons pair given ih =>
    obtain ⟨hpair, hmore⟩ := List.forall_mem_cons.mp hnames
    rw [List.map_cons, List.mapM_cons, splitOnce_parameter hpair, ih hmore]
    change ((Percent.decode (Percent.encode pair.2)).map fun value ↦ (pair.1, value)).bind _ = _
    rw [Percent.decode_encode]
    rfl

end Uri

end OmniaBackends.Foundation
