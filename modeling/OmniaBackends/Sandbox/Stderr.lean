import OmniaBackends.Foundation.CharBoundary
import OmniaBackends.Foundation.LineReader

/-!
# What a child writes to stderr

`read_stderr`, `each_line` and `Tail` of `crates/sandbox/src/child.rs`. A child's stderr is read to
its end in lines, each cut after `LINE_BYTES` bytes. What starts with the ready prefix is the
handshake, which `Child::ready` resolves with and which is never logged; what does not is logged,
and the last of it kept as the child's tail.

The cut is made before the prefix is looked for, so a line over the bound is several to the reader.
A line within the bound is handled as `Command::ready_prefix` says, a longer one only where nothing
comes of the cuts (`Harmless`), and a child's stderr exactly where that is so of each of its lines
(`handshake_iff`).
-/

set_option autoImplicit false
set_option relaxedAutoImplicit false

namespace OmniaBackends.Sandbox

open Foundation Foundation.LineReader

/-- `LINE_BYTES`. -/
def lineBytes : ℕ := 64 * 1024

/-- `TAIL_LINES`. -/
def tailLines : ℕ := 20

/-- A line without what ends it, a newline or a carriage return and a newline. -/
def content (line : Bytes) : Bytes :=
  if line.getLast? = some newline then
    let line := line.dropLast
    if line.getLast? = some 0x0D then line.dropLast else line
  else line

/-- The text of a line. -/
def shown (line : Bytes) : Bytes := Utf8.lossy (content line)

/-- What follows the ready prefix in a text that starts with it. -/
def payloadOf (ready : Option Bytes) (line : Bytes) : Option Bytes :=
  ready.bind fun start ↦ start.isPrefixOf? line

/-- `Tail::push`. -/
def Tail.push (lines : List Bytes) (line : Bytes) : List Bytes :=
  (if lines.length = tailLines then lines.tail else lines) ++ [line]

/-- The stderr of a child so far: what its ready channel was sent, what was logged, and the tail. -/
structure Stderr where
  payload : Option Bytes
  logged : List Bytes
  tail : List Bytes
  deriving DecidableEq, Repr

namespace Stderr

/-- Nothing was read. -/
def start : Stderr where
  payload := none
  logged := []
  tail := []

/-- One line of `read_stderr`. -/
def each (ready : Option Bytes) (stderr : Stderr) (line : Bytes) : Stderr :=
  match payloadOf ready line with
  | some payload =>
    -- the sender is taken by the first
    if stderr.payload.isNone then { stderr with payload := some payload } else stderr
  | none =>
    { stderr with logged := stderr.logged ++ [line], tail := Tail.push stderr.tail line }

end Stderr

/-- `read_stderr` over `each_line`: what became of a stream that came in chunks, and of it what was
not read. -/
def readStderr (failing : Bool) (ready : Option Bytes) (chunks : List Chunk) :
    Stderr × List Chunk :=
  let (pieces, left) := eachPiece failing lineBytes chunks
  ((pieces.map shown).foldl (Stderr.each ready) Stderr.start, left)

/-! ### What the reader is for -/

variable {failing : Bool} {ready : Option Bytes} {chunks : List Chunk} {line : Bytes}

/-- A line that starts with the ready prefix. -/
def IsReady (ready : Option Bytes) (line : Bytes) : Prop := (payloadOf ready (shown line)).isSome

instance (ready : Option Bytes) (line : Bytes) : Decidable (IsReady ready line) :=
  inferInstanceAs (Decidable (_ = true))

/-- The lines of a stream, as far as it was handed over. -/
def linesOf (failing : Bool) (chunks : List Chunk) : List Bytes :=
  lines (handed failing lineBytes (bytesOf chunks))

/-- The bytes of a line that are logged. -/
def loggedOf (ready : Option Bytes) (line : Bytes) : List Bytes :=
  (pieces lineBytes line).filter fun piece ↦ ¬ IsReady ready piece

/-- What is promised of one line: nothing of it is logged if it starts with the prefix, it is
logged once if it does not, and in parts that make it up if it is longer than the bound. -/
def Accounted (ready : Option Bytes) (line : Bytes) : Prop :=
  if IsReady ready line then loggedOf ready line = []
  else if (content line).length ≤ lineBytes then
    (loggedOf ready line).map shown = [shown line]
  else
    (loggedOf ready line).flatten = line ∧
      ((loggedOf ready line).map shown).flatten = shown line ∧
        [] ∉ (loggedOf ready line).map shown

/-- What is promised of a stream. -/
structure Handshake (failing : Bool) (ready : Option Bytes) (chunks : List Chunk) : Prop where
  /-- The payload is the first ready line's. -/
  payload : (readStderr failing ready chunks).1.payload =
    (linesOf failing chunks).findSome? fun line ↦ payloadOf ready (shown line)
  accounted : ∀ line ∈ linesOf failing chunks, Accounted ready line
  /-- What is logged is what is logged of each line, in order. -/
  logged : (readStderr failing ready chunks).1.logged =
    (linesOf failing chunks).flatMap fun line ↦ (loggedOf ready line).map shown
  /-- The tail is the last of what is logged. -/
  tail : (readStderr failing ready chunks).1.tail =
    (readStderr failing ready chunks).1.logged.drop
      ((readStderr failing ready chunks).1.logged.length - tailLines)
  /-- The stream is read to its end. -/
  ended : (readStderr failing ready chunks).2 = []

/-- A line is cut between two characters wherever it is, and in front of what ends it. -/
def CutCleanly (line : Bytes) : Prop :=
  ∀ cut, 0 < cut → lineBytes ∣ cut → cut < line.length →
    cut < (content line).length ∧
      Utf8.Joined ((content line).take cut) ((content line).drop cut)

/-- Nothing comes of the cuts in a line: it is within the bound; or it is longer and starts with the
prefix, as every piece of it, and a line before it was the handshake or its first piece has its
payload; or it is longer, no piece of it starts with the prefix, and it is cut cleanly. -/
def Harmless (ready : Option Bytes) (before : List Bytes) (line : Bytes) : Prop :=
  line.length ≤ lineBytes ∨
    if IsReady ready line then
      (∀ piece ∈ pieces lineBytes line, IsReady ready piece) ∧
        ((∃ earlier ∈ before, IsReady ready earlier) ∨
          payloadOf ready (shown (line.take lineBytes)) = payloadOf ready (shown line))
    else (∀ piece ∈ pieces lineBytes line, ¬ IsReady ready piece) ∧ CutCleanly line

/-! ### What the reader does -/

/-- The payload of texts is the first there is. -/
theorem payload_foldl (texts : List Bytes) (stderr : Stderr) :
    (texts.foldl (Stderr.each ready) stderr).payload =
      stderr.payload.or (texts.findSome? (payloadOf ready)) := by
  induction texts generalizing stderr with
  | nil => rw [List.foldl_nil, List.findSome?_nil, Option.or_none]
  | cons text texts ih =>
    rw [List.foldl_cons, ih, Stderr.each, List.findSome?_cons]
    cases hpayload : payloadOf ready text with
    | none => rfl
    | some payload => cases hfirst : stderr.payload <;> simp [hfirst]

/-- The texts that do not start with the prefix are logged. -/
theorem logged_foldl (texts : List Bytes) (stderr : Stderr) :
    (texts.foldl (Stderr.each ready) stderr).logged =
      stderr.logged ++ texts.filter fun text ↦ (payloadOf ready text).isNone := by
  induction texts generalizing stderr with
  | nil => rw [List.foldl_nil, List.filter_nil, List.append_nil]
  | cons text texts ih =>
    rw [List.foldl_cons, ih, Stderr.each, List.filter_cons]
    cases hpayload : payloadOf ready text with
    | none => simp
    | some payload => cases hfirst : stderr.payload <;> simp

/-- The tail keeps the last of what was logged. -/
def Stderr.TailKept (stderr : Stderr) : Prop :=
  stderr.tail = stderr.logged.drop (stderr.logged.length - tailLines)

/-- A line keeps it so. -/
theorem tailKept_each {stderr : Stderr} (hkept : stderr.TailKept) (text : Bytes) :
    (stderr.each ready text).TailKept := by
  rw [Stderr.each]
  cases hpayload : payloadOf ready text with
  | some payload =>
    dsimp only
    split <;> exact hkept
  | none =>
    have hlength : stderr.tail.length = min stderr.logged.length tailLines := by
      rw [hkept, List.length_drop]
      omega
    change Tail.push stderr.tail text = (stderr.logged ++ [text]).drop _
    rw [Tail.push, List.length_append, List.length_singleton,
      List.drop_append_of_le_length (by simp [tailLines])]
    refine congrArg (· ++ [text]) ?_
    split
    · next hfull =>
      rw [hkept, List.tail_drop]
      exact congrArg (stderr.logged.drop ·) (by omega)
    · next hroom =>
      rw [hkept]
      exact congrArg (stderr.logged.drop ·) (by omega)

/-- The tail of texts. -/
theorem tailKept_foldl (texts : List Bytes) {stderr : Stderr} (hkept : stderr.TailKept) :
    (texts.foldl (Stderr.each ready) stderr).TailKept := by
  induction texts generalizing stderr with
  | nil => exact hkept
  | cons text texts ih => exact ih (tailKept_each hkept text)

theorem lineBytes_pos : 0 < lineBytes := by decide

/-- What is read is the pieces of each line. -/
theorem eachPiece_linesOf :
    eachPiece failing lineBytes chunks =
      ((linesOf failing chunks).flatMap (pieces lineBytes), []) := by
  rw [eachPiece_eq lineBytes_pos, pieces_eq_flatMap lineBytes_pos, linesOf]

/-- What is read of a stream, line by line. -/
theorem readStderr_eq :
    readStderr failing ready chunks =
      ((((linesOf failing chunks).flatMap (pieces lineBytes)).map shown).foldl
        (Stderr.each ready) Stderr.start, []) := by
  rw [readStderr, eachPiece_linesOf]

/-- What is logged is what is logged of each line. -/
theorem logged_readStderr :
    (readStderr failing ready chunks).1.logged =
      (linesOf failing chunks).flatMap fun line ↦ (loggedOf ready line).map shown := by
  have hnone : ∀ piece, (payloadOf ready (shown piece)).isNone =
      decide (¬ IsReady ready piece) := by
    intro piece
    cases hpayload : payloadOf ready (shown piece) <;> simp [IsReady, hpayload]
  rw [readStderr_eq, logged_foldl, List.filter_map, List.filter_flatMap, List.map_flatMap]
  refine congrArg ((linesOf failing chunks).flatMap ·) (funext fun line ↦ ?_)
  refine congrArg (List.map shown) (List.filter_congr fun piece _ ↦ hnone piece)

/-- What is found first among what items bring is found first in an item. -/
theorem findSome?_flatMap {Item Part Found : Type} (items : List Item) (parts : Item → List Part)
    (find : Part → Option Found) :
    (items.flatMap parts).findSome? find = items.findSome? fun item ↦
      (parts item).findSome? find := by
  induction items with
  | nil => rfl
  | cons item items ih =>
    rw [List.flatMap_cons, List.findSome?_append, ih, List.findSome?_cons]
    cases (parts item).findSome? find <;> rfl

/-- What the reader does whatever the lines. -/
theorem handshake_iff_payload_and_accounted :
    Handshake failing ready chunks ↔
      ((linesOf failing chunks).findSome? (fun line ↦
          (pieces lineBytes line).findSome? fun piece ↦ payloadOf ready (shown piece)) =
        (linesOf failing chunks).findSome? fun line ↦ payloadOf ready (shown line)) ∧
      ∀ line ∈ linesOf failing chunks, Accounted ready line := by
  have hpayload : (readStderr failing ready chunks).1.payload =
      (linesOf failing chunks).findSome? fun line ↦
        (pieces lineBytes line).findSome? fun piece ↦ payloadOf ready (shown piece) := by
    rw [readStderr_eq, payload_foldl, List.findSome?_map, findSome?_flatMap]
    rfl
  refine ⟨fun hshake ↦ ⟨hpayload.symm.trans hshake.payload, hshake.accounted⟩, ?_⟩
  rintro ⟨hfirst, haccounted⟩
  refine ⟨hpayload.trans hfirst, haccounted, logged_readStderr, ?_, ?_⟩
  · rw [readStderr_eq]
    exact tailKept_foldl _ rfl
  · rw [readStderr_eq]

/-! ### One line -/

/-- The end of a line ends it: what comes before is not touched, unless it is what is cut off. -/
theorem content_append (front : Bytes) {back : Bytes} (hback : back ≠ []) :
    content (front ++ back) = front ++ content back ∨
      content back = [] ∧ (content (front ++ back)).length ≤ front.length := by
  have hlast : (front ++ back).getLast? = back.getLast? := List.getLast?_append_of_ne_nil _ hback
  by_cases hnewline : back.getLast? = some newline
  · obtain ⟨body, rfl⟩ := List.getLast?_eq_some_iff.mp hnewline
    rw [content, if_pos (hlast.trans hnewline), content, if_pos hnewline, ← List.append_assoc,
      List.dropLast_concat, List.dropLast_concat]
    by_cases hbody : body = []
    · refine Or.inr ?_
      subst hbody
      rw [List.append_nil]
      refine ⟨rfl, ?_⟩
      dsimp only
      split
      · rw [List.length_dropLast]
        omega
      · exact le_rfl
    · refine Or.inl ?_
      dsimp only
      rw [List.getLast?_append_of_ne_nil _ hbody]
      split
      · rw [List.dropLast_append_of_ne_nil hbody]
      · rfl
  · refine Or.inl ?_
    rw [content, if_neg (hlast ▸ hnewline), content, if_neg hnewline]

/-- A line is at most two bytes longer than its content. -/
theorem length_le_content (line : Bytes) : line.length ≤ (content line).length + 2 := by
  rw [content]
  split
  · dsimp only
    split <;> simp only [List.length_dropLast] <;> omega
  · omega

/-- Bytes without a newline at the end are their content. -/
theorem content_eq_self (hlast : line.getLast? ≠ some newline) : content line = line := by
  rw [content, if_neg hlast]

/-- A line that is cut is cut within its content, or the last piece is nothing but its end. -/
theorem content_take_drop (hlong : lineBytes < line.length) :
    (lineBytes < (content line).length ∧
      content (line.drop lineBytes) = (content line).drop lineBytes ∧
        line.take lineBytes = (content line).take lineBytes) ∨
    ((content line).length ≤ lineBytes ∧ content (line.drop lineBytes) = []) := by
  have hback : line.drop lineBytes ≠ [] := by
    rw [Ne, List.drop_eq_nil_iff]
    omega
  have hlength : (line.take lineBytes).length = lineBytes := by
    rw [List.length_take, Nat.min_eq_left hlong.le]
  have happend := content_append (line.take lineBytes) hback
  rw [List.take_append_drop] at happend
  rcases Nat.lt_or_ge lineBytes (content line).length with hwithin | hshort
  · refine Or.inl ⟨hwithin, ?_⟩
    rcases happend with hcontent | ⟨-, hle⟩
    · rw [hcontent, List.drop_left' hlength, List.take_left' hlength]
      exact ⟨rfl, rfl⟩
    · omega
  · refine Or.inr ⟨hshort, ?_⟩
    rcases happend with hcontent | ⟨hnil, -⟩
    · rw [hcontent, List.length_append] at hshort
      exact List.length_eq_zero_iff.mp (by omega)
    · exact hnil

/-- A piece in front of others does not end its line. -/
theorem shown_take (hnewline : newline ∉ line.dropLast) (hlong : lineBytes < line.length) :
    shown (line.take lineBytes) = Utf8.lossy (line.take lineBytes) := by
  refine congrArg Utf8.lossy (content_eq_self fun hlast ↦ hnewline ?_)
  have hwithin : lineBytes ≤ line.length - 1 := by omega
  rw [List.dropLast_eq_take]
  exact (List.take_prefix_take_left hwithin).subset (List.mem_of_getLast? hlast)

/-- A line is cut cleanly if its first cut is clean, and those of what follows. -/
theorem cutCleanly_iff (hlong : lineBytes < line.length) :
    CutCleanly line ↔
      lineBytes < (content line).length ∧
        Utf8.Joined ((content line).take lineBytes) ((content line).drop lineBytes) ∧
          CutCleanly (line.drop lineBytes) := by
  constructor
  · intro hclean
    obtain ⟨hwithin, hjoined⟩ := hclean lineBytes lineBytes_pos (Nat.dvd_refl _) hlong
    refine ⟨hwithin, hjoined, fun cut hpos hdvd hcut ↦ ?_⟩
    obtain ⟨-, hcontent, -⟩ := (content_take_drop hlong).resolve_right fun hend ↦ by omega
    rw [List.length_drop] at hcut
    obtain ⟨hlt, hlater⟩ := hclean (lineBytes + cut) (by omega) (Nat.dvd_add (Nat.dvd_refl _) hdvd)
        (by omega)
    rw [hcontent, List.length_drop]
    refine ⟨by omega, ?_⟩
    rw [List.take_add, ← List.drop_drop] at hlater
    exact (Utf8.Joined.append_iff (by rwa [List.take_append_drop])).mp hlater
  · rintro ⟨hwithin, hjoined, hclean⟩ cut hpos hdvd hcut
    obtain ⟨-, hcontent, -⟩ := (content_take_drop hlong).resolve_right fun hend ↦ by omega
    obtain ⟨later, rfl⟩ := Nat.exists_eq_add_of_le (Nat.le_of_dvd hpos hdvd)
    rcases Nat.eq_zero_or_pos later with rfl | hlater
    · exact ⟨hwithin, hjoined⟩
    · have hdrop : later < (line.drop lineBytes).length := by
        rw [List.length_drop]
        omega
      obtain ⟨hlt, hsecond⟩ := hclean later hlater
          ((Nat.dvd_add_right (Nat.dvd_refl _)).mp hdvd) hdrop
      rw [hcontent, List.length_drop] at hlt
      rw [hcontent] at hsecond
      refine ⟨by omega, ?_⟩
      rw [List.take_add, ← List.drop_drop]
      exact (Utf8.Joined.append_iff (by rwa [List.take_append_drop])).mpr hsecond

/-- A line within the bound is cut nowhere. -/
theorem cutCleanly_of_length_le (hshort : line.length ≤ lineBytes) : CutCleanly line := by
  intro cut hpos hdvd hcut
  have hle := Nat.le_of_dvd hpos hdvd
  omega

/-- The texts of the pieces of a line. -/
def textsOf (line : Bytes) : List Bytes := (pieces lineBytes line).map shown

/-- The text of a line within the bound. -/
theorem textsOf_of_length_le (hline : line ≠ []) (hnewline : newline ∉ line.dropLast)
    (hshort : line.length ≤ lineBytes) : textsOf line = [shown line] := by
  rw [textsOf, pieces_of_length_le lineBytes_pos hline hnewline hshort, List.map_singleton]

/-- The texts of a longer one. -/
theorem textsOf_of_lt_length (hnewline : newline ∉ line.dropLast)
    (hlong : lineBytes < line.length) :
    textsOf line = Utf8.lossy (line.take lineBytes) :: textsOf (line.drop lineBytes) := by
  rw [textsOf, pieces_of_lt_length lineBytes_pos hnewline hlong, List.map_cons,
    shown_take hnewline hlong, textsOf]

/-- What a line of nothing but its end is read as. -/
theorem textsOf_of_content_eq_nil (hline : line ≠ []) (hnewline : newline ∉ line.dropLast)
    (hcontent : content line = []) : textsOf line = [[]] := by
  have hlength := length_le_content line
  rw [hcontent, List.length_nil] at hlength
  have hshort : line.length ≤ lineBytes := hlength.trans (by decide)
  rw [textsOf_of_length_le hline hnewline hshort, shown, hcontent]
  rfl

/-- What follows a cut is something. -/
theorem drop_ne_nil (hlong : lineBytes < line.length) : line.drop lineBytes ≠ [] := by
  rw [Ne, List.drop_eq_nil_iff]
  omega

/-- The texts of a line's pieces are together no shorter than its own, unless one is empty. -/
theorem length_shown_le (hnewline : newline ∉ line.dropLast) (hempty : [] ∉ textsOf line) :
    (shown line).length ≤ (textsOf line).flatten.length := by
  induction line using cut_induction lineBytes_pos with
  | hshort line hshort =>
    by_cases hline : line = []
    · rw [hline]
      exact Nat.zero_le _
    · rw [textsOf_of_length_le hline hnewline hshort, List.flatten_singleton]
  | hlong line hlong ih =>
    have hdrop := newline_not_mem_drop hnewline lineBytes
    rw [textsOf_of_lt_length hnewline hlong] at hempty ⊢
    obtain ⟨-, hlater⟩ := not_or.mp (mt List.mem_cons.mpr hempty)
    rcases content_take_drop hlong with ⟨-, hcontent, htake⟩ | ⟨-, hend⟩
    · have hrest := ih hdrop hlater
      have happend := Utf8.length_lossy_append_le ((content line).take lineBytes)
        ((content line).drop lineBytes)
      rw [List.take_append_drop, ← hcontent, ← htake] at happend
      rw [List.flatten_cons, List.length_append]
      exact happend.trans (Nat.add_le_add_left hrest _)
    · rw [textsOf_of_content_eq_nil (drop_ne_nil hlong) hdrop hend] at hlater
      exact absurd List.mem_cons_self hlater

/-- The texts of a line's pieces make up its own, and none is empty, exactly if the line is not
empty and is cut cleanly. -/
theorem textsOf_iff (hline : line ≠ []) (hnewline : newline ∉ line.dropLast) :
    (textsOf line).flatten = shown line ∧ [] ∉ textsOf line ↔
      content line ≠ [] ∧ CutCleanly line := by
  induction line using cut_induction lineBytes_pos with
  | hshort line hshort =>
    rw [textsOf_of_length_le hline hnewline hshort, List.flatten_singleton, List.mem_singleton]
    refine ⟨fun hshown ↦ ⟨fun hnil ↦ hshown.2 ?_, cutCleanly_of_length_le hshort⟩,
      fun hclean ↦ ⟨rfl, fun hnil ↦ hclean.1 (Utf8.lossy_eq_nil_iff.mp hnil.symm)⟩⟩
    rw [shown, hnil]
    rfl
  | hlong line hlong ih =>
    have hdrop := newline_not_mem_drop hnewline lineBytes
    have hrest := ih (drop_ne_nil hlong) hdrop
    rw [cutCleanly_iff hlong, textsOf_of_lt_length hnewline hlong, List.flatten_cons,
      List.mem_cons, not_or]
    rcases content_take_drop hlong with ⟨hwithin, hcontent, htake⟩ | ⟨hend, hnil⟩
    · have hfront : [] ≠ Utf8.lossy (line.take lineBytes) := by
        intro hempty
        have hzero := congrArg List.length (Utf8.lossy_eq_nil_iff.mp hempty.symm)
        rw [List.length_take, Nat.min_eq_left hlong.le] at hzero
        exact absurd hzero (by decide)
      have hsome : content line ≠ [] := by
        intro hnone
        rw [hnone] at hwithin
        exact absurd hwithin (Nat.not_lt_zero _)
      have hsomeRest : content (line.drop lineBytes) ≠ [] := by
        rw [hcontent, Ne, List.drop_eq_nil_iff]
        omega
      have hsplit : shown line =
          Utf8.lossy (line.take lineBytes ++ content (line.drop lineBytes)) := by
        rw [hcontent, htake, List.take_append_drop, shown]
      rw [hsplit, ← htake, ← hcontent]
      constructor
      · rintro ⟨htexts, -, hempty⟩
        have hle := length_shown_le hdrop hempty
        have hjoined : Utf8.Joined (line.take lineBytes) (content (line.drop lineBytes)) := by
          refine (Utf8.joined_or_lt _ _).resolve_right fun hlt ↦ ?_
          rw [← htexts, List.length_append] at hlt
          rw [shown] at hle
          omega
        rw [Utf8.lossy_append_iff.mpr hjoined] at htexts
        have hlater := hrest.mp ⟨List.append_cancel_left htexts, hempty⟩
        exact ⟨hsome, hwithin, hjoined, hlater.2⟩
      · rintro ⟨-, -, hjoined, hclean⟩
        obtain ⟨htexts, hempty⟩ := hrest.mpr ⟨hsomeRest, hclean⟩
        rw [Utf8.lossy_append_iff.mpr hjoined, htexts]
        exact ⟨rfl, hfront, hempty⟩
    · rw [textsOf_of_content_eq_nil (drop_ne_nil hlong) hdrop hnil]
      constructor
      · rintro ⟨-, -, hempty⟩
        exact absurd List.mem_cons_self hempty
      · rintro ⟨-, hwithin, -⟩
        omega

/-- The pieces of a line are what starts at its cuts. -/
theorem forall_pieces_iff (hnewline : newline ∉ line.dropLast) {Holds : Bytes → Prop} :
    (∀ piece ∈ pieces lineBytes line, Holds piece) ↔
      ∀ cut, lineBytes ∣ cut → cut < line.length → Holds ((line.drop cut).take lineBytes) := by
  simp only [mem_pieces_iff lineBytes_pos hnewline]
  exact ⟨fun hall cut hdvd hcut ↦ hall _ ⟨cut, hdvd, hcut, rfl⟩,
    fun hall piece ⟨cut, hdvd, hcut, hpiece⟩ ↦ hpiece ▸ hall cut hdvd hcut⟩

/-- A line within the bound but for its end, which is cut off from it, is logged with a line that
is not there. -/
theorem map_shown_loggedOf_ne (hnewline : newline ∉ line.dropLast)
    (hlong : lineBytes < line.length) (hshort : (content line).length ≤ lineBytes)
    (hready : ¬ IsReady ready line) : (loggedOf ready line).map shown ≠ [shown line] := by
  have hend : content (line.drop lineBytes) = [] := by
    rcases content_take_drop hlong with ⟨hwithin, -⟩ | ⟨-, hnil⟩
    · omega
    · exact hnil
  have hshown : shown (line.drop lineBytes) = [] := by
    rw [shown, hend]
    rfl
  have hlength := length_le_content (line.drop lineBytes)
  rw [hend, List.length_nil] at hlength
  have hpieces : pieces lineBytes (line.drop lineBytes) = [line.drop lineBytes] :=
    pieces_of_length_le lineBytes_pos (drop_ne_nil hlong)
      (newline_not_mem_drop hnewline lineBytes) (hlength.trans (by decide))
  -- only the empty prefix starts nothing, and it starts everything
  have hnot : ¬ IsReady ready (line.drop lineBytes) := by
    intro hdrop
    rw [IsReady, hshown] at hdrop
    refine hready ?_
    cases ready with
    | none => exact absurd hdrop (by simp [payloadOf])
    | some start =>
      cases start with
      | nil => rfl
      | cons byte start => exact absurd hdrop (by simp [payloadOf, List.isPrefixOf?])
  have hlogged : line.drop lineBytes ∈ loggedOf ready line := by
    rw [loggedOf, pieces_of_lt_length lineBytes_pos hnewline hlong, hpieces]
    exact List.mem_filter.mpr ⟨by simp, by simpa using hnot⟩
  intro hmap
  have hnil : [] ∈ (loggedOf ready line).map shown :=
    List.mem_map.mpr ⟨_, hlogged, hshown⟩
  rw [hmap, List.mem_singleton] at hnil
  have hcontent := length_le_content line
  rw [Utf8.lossy_eq_nil_iff.mp hnil.symm, List.length_nil] at hcontent
  exact absurd (hlong.trans_le hcontent) (by decide)

/-- A line that does not start with the prefix is logged as it should exactly if nothing of it is
taken for the handshake and it is cut cleanly. -/
theorem accounted_iff_of_not_ready (hline : line ≠ []) (hnewline : newline ∉ line.dropLast)
    (hready : ¬ IsReady ready line) :
    Accounted ready line ↔
      (∀ piece ∈ pieces lineBytes line, ¬ IsReady ready piece) ∧ CutCleanly line := by
  have hwhole : (∀ piece ∈ pieces lineBytes line, ¬ IsReady ready piece) ↔
      loggedOf ready line = pieces lineBytes line := by
    rw [loggedOf, List.filter_eq_self]
    simp
  rw [Accounted, if_neg hready, hwhole]
  by_cases hshort : (content line).length ≤ lineBytes
  · rw [if_pos hshort]
    rcases Nat.lt_or_ge lineBytes line.length with hlong | hle
    · refine iff_of_false (map_shown_loggedOf_ne hnewline hlong hshort hready) fun hclean ↦ ?_
      have hwithin := ((cutCleanly_iff hlong).mp hclean.2).1
      omega
    · have hlogged : loggedOf ready line = [line] := by
        rw [loggedOf, pieces_of_length_le lineBytes_pos hline hnewline hle]
        simp [hready]
      rw [hlogged, pieces_of_length_le lineBytes_pos hline hnewline hle]
      exact iff_of_true rfl ⟨rfl, cutCleanly_of_length_le hle⟩
  · rw [if_neg hshort]
    have hsome : content line ≠ [] := by
      intro hnil
      rw [hnil] at hshort
      exact hshort (Nat.zero_le _)
    have hall : (loggedOf ready line).flatten = line ↔
        loggedOf ready line = pieces lineBytes line := by
      constructor
      · intro hflatten
        refine eq_of_sublist_of_flatten List.filter_sublist (fun cut hcut ↦ ?_) ?_
        · exact ne_nil_of_mem_pieces hcut
        · rw [flatten_pieces lineBytes_pos]
          exact hflatten
      · intro hpieces
        rw [hpieces, flatten_pieces lineBytes_pos]
    rw [hall]
    refine and_congr_right fun hpieces ↦ ?_
    rw [hpieces]
    exact (textsOf_iff hline hnewline).trans (and_iff_right hsome)

/-- Of a line is logged what should be exactly if its pieces start with the prefix as it does, and
it is cut cleanly unless it starts with it. -/
theorem accounted_iff (hline : line ≠ []) (hnewline : newline ∉ line.dropLast) :
    Accounted ready line ↔
      (∀ cut, lineBytes ∣ cut → cut < line.length →
        (IsReady ready ((line.drop cut).take lineBytes) ↔ IsReady ready line)) ∧
      (¬ IsReady ready line → CutCleanly line) := by
  by_cases hready : IsReady ready line
  · have hlogged : Accounted ready line ↔ ∀ piece ∈ pieces lineBytes line, IsReady ready piece := by
      rw [Accounted, if_pos hready, loggedOf, List.filter_eq_nil_iff]
      simp
    rw [hlogged, forall_pieces_iff hnewline]
    simp [hready]
  · rw [accounted_iff_of_not_ready hline hnewline hready, forall_pieces_iff hnewline]
    simp [hready]

/-! ### Every line -/

/-- Two ways to find something that find it in the same items find the same exactly if they agree
where it is found first. -/
theorem findSome?_eq_iff {Item Found : Type} {items : List Item} {find other : Item → Option Found}
    (hsame : ∀ item ∈ items, ((find item).isSome ↔ (other item).isSome)) :
    items.findSome? find = items.findSome? other ↔
      ∀ before item after, items = before ++ item :: after →
        (∀ earlier ∈ before, ¬ (other earlier).isSome) → find item = other item := by
  induction items with
  | nil => exact iff_of_true rfl fun before item after hnil ↦ absurd hnil (by simp)
  | cons item items ih =>
    have hitem := hsame item List.mem_cons_self
    have hitems := ih fun later hlater ↦ hsame later (List.mem_cons_of_mem _ hlater)
    rw [List.findSome?_cons, List.findSome?_cons]
    cases hother : other item with
    | none =>
      have hfind : find item = none := by simpa [hother] using hitem
      simp only [hfind]
      rw [hitems]
      constructor
      · intro hlater before first after hsplit hbefore
        cases before with
        | nil =>
          obtain rfl := (List.cons.inj hsplit).1
          rw [hfind, hother]
        | cons earlier before =>
          exact hlater before first after (List.cons.inj hsplit).2
            fun other hmem ↦ hbefore other (List.mem_cons_of_mem _ hmem)
      · intro hall before first after hsplit hbefore
        refine hall (item :: before) first after (by rw [hsplit]; rfl) ?_
        rintro earlier (_ | ⟨_, hearlier⟩)
        · simp [hother]
        · exact hbefore earlier hearlier
    | some found =>
      obtain ⟨first, hfind⟩ := Option.isSome_iff_exists.mp (hitem.mpr (by simp [hother]))
      simp only [hfind]
      constructor
      · intro heq before later after hsplit hbefore
        cases before with
        | nil =>
          obtain rfl := (List.cons.inj hsplit).1
          rw [hfind, hother, heq]
        | cons earlier before =>
          obtain rfl := (List.cons.inj hsplit).1
          exact absurd (by simp [hother]) (hbefore _ List.mem_cons_self)
      · intro hall
        have heq := hall [] item items rfl fun earlier hearlier ↦ absurd hearlier List.not_mem_nil
        rw [← hfind, heq, hother]

/-- A line whose pieces start with the prefix as it does has its payload from the first. -/
theorem findSome?_pieces (hline : line ≠ []) (hnewline : newline ∉ line.dropLast)
    (hsame : ∀ cut, lineBytes ∣ cut → cut < line.length →
      (IsReady ready ((line.drop cut).take lineBytes) ↔ IsReady ready line)) :
    (pieces lineBytes line).findSome? (fun piece ↦ payloadOf ready (shown piece)) =
      if IsReady ready line then payloadOf ready (shown (line.take lineBytes)) else none := by
  by_cases hready : IsReady ready line
  · have hfirst : IsReady ready (line.take lineBytes) := by
      have hstart := hsame 0 (Nat.dvd_zero _) (List.length_pos_iff.mpr hline)
      rw [List.drop_zero] at hstart
      exact hstart.mpr hready
    obtain ⟨more, hpieces⟩ := exists_pieces_eq_cons lineBytes_pos hline hnewline
    rw [if_pos hready, hpieces]
    exact List.findSome?_cons_of_isSome hfirst
  · rw [if_neg hready, List.findSome?_eq_none_iff]
    exact (forall_pieces_iff hnewline).mpr fun cut hdvd hcut ↦
      Option.not_isSome_iff_eq_none.mp (mt (hsame cut hdvd hcut).mp hready)

/-- Nothing comes of the cuts in a line if what starts at one starts with the prefix exactly if the
line does, the first line to start with it has the payload of its first piece, and a line that does
not start with it is cut cleanly. -/
theorem harmless_iff {before : List Bytes} (hnewline : newline ∉ line.dropLast) :
    Harmless ready before line ↔
      (∀ cut, lineBytes ∣ cut → cut < line.length →
        (IsReady ready ((line.drop cut).take lineBytes) ↔ IsReady ready line)) ∧
      (IsReady ready line → (∀ earlier ∈ before, ¬ IsReady ready earlier) →
        payloadOf ready (shown (line.take lineBytes)) = payloadOf ready (shown line)) ∧
      (¬ IsReady ready line → CutCleanly line) := by
  by_cases hle : line.length ≤ lineBytes
  · have htake : line.take lineBytes = line := List.take_of_length_le hle
    refine iff_of_true (Or.inl hle) ⟨fun cut hdvd hcut ↦ ?_, fun _ _ ↦ by rw [htake],
      fun _ ↦ cutCleanly_of_length_le hle⟩
    obtain rfl := Nat.eq_zero_of_dvd_of_lt hdvd (hcut.trans_le hle)
    rw [List.drop_zero, htake]
  · rw [Harmless, or_iff_right hle, forall_pieces_iff hnewline, forall_pieces_iff hnewline]
    by_cases hready : IsReady ready line
    · rw [if_pos hready]
      refine and_congr (by simp [hready]) ?_
      rw [and_iff_left fun hnot ↦ absurd hready hnot]
      constructor
      · rintro (⟨earlier, hearlier, hfirst⟩ | hsame) _ hnone
        · exact absurd hfirst (hnone earlier hearlier)
        · exact hsame
      · intro hsame
        by_cases hfirst : ∃ earlier ∈ before, IsReady ready earlier
        · exact Or.inl hfirst
        · exact Or.inr (hsame hready fun earlier hearlier hready' ↦
            hfirst ⟨earlier, hearlier, hready'⟩)
    · rw [if_neg hready]
      simp [hready]

/-- A child's stderr is handled as promised exactly if nothing comes of a cut in any of its
lines. -/
theorem handshake_iff (failing : Bool) (ready : Option Bytes) (chunks : List Chunk) :
    Handshake failing ready chunks ↔
      ∀ before line after, linesOf failing chunks = before ++ line :: after →
        Harmless ready before line := by
  have hline : ∀ line ∈ linesOf failing chunks, line ≠ [] ∧ newline ∉ line.dropLast :=
    fun line hmem ↦ ⟨ne_nil_of_mem_lines hmem, newline_not_mem_dropLast hmem⟩
  have hmid : ∀ {before line after}, linesOf failing chunks = before ++ line :: after →
      line ∈ linesOf failing chunks := fun hsplit ↦ by simp [hsplit]
  -- once every line is logged as it should, only its first piece tells a ready line's payload
  have hpayload : (∀ line ∈ linesOf failing chunks, Accounted ready line) →
      ((linesOf failing chunks).findSome? (fun line ↦
          (pieces lineBytes line).findSome? fun piece ↦ payloadOf ready (shown piece)) =
        (linesOf failing chunks).findSome? (fun line ↦ payloadOf ready (shown line)) ↔
      ∀ before line after, linesOf failing chunks = before ++ line :: after →
        IsReady ready line → (∀ earlier ∈ before, ¬ IsReady ready earlier) →
          payloadOf ready (shown (line.take lineBytes)) = payloadOf ready (shown line)) := by
    intro haccounted
    have hfind : ∀ line ∈ linesOf failing chunks,
        (pieces lineBytes line).findSome? (fun piece ↦ payloadOf ready (shown piece)) =
          if IsReady ready line then payloadOf ready (shown (line.take lineBytes)) else none :=
      fun line hmem ↦ findSome?_pieces (hline line hmem).1 (hline line hmem).2
        ((accounted_iff (hline line hmem).1 (hline line hmem).2).mp (haccounted line hmem)).1
    rw [findSome?_eq_iff]
    · refine forall_congr' fun before ↦ forall_congr' fun line ↦ forall_congr' fun after ↦
        forall_congr' fun hsplit ↦ ?_
      rw [hfind line (hmid hsplit)]
      by_cases hready : IsReady ready line
      · simp only [hready, forall_const]
        rfl
      · simp only [hready, false_implies, iff_true]
        exact fun _ ↦ (Option.not_isSome_iff_eq_none.mp hready).symm
    · intro line hmem
      rw [hfind line hmem]
      obtain ⟨hne, hnewline⟩ := hline line hmem
      have hsame := ((accounted_iff hne hnewline).mp (haccounted line hmem)).1 0
        (Nat.dvd_zero _) (List.length_pos_iff.mpr hne)
      rw [List.drop_zero] at hsame
      by_cases hready : IsReady ready line
      · rw [if_pos hready]
        exact hsame
      · rw [if_neg hready]
        exact iff_of_false (by simp) hready
  rw [handshake_iff_payload_and_accounted]
  constructor
  · rintro ⟨hfirst, haccounted⟩ before line after hsplit
    obtain ⟨hne, hnewline⟩ := hline line (hmid hsplit)
    obtain ⟨hsame, hclean⟩ := (accounted_iff hne hnewline).mp (haccounted line (hmid hsplit))
    exact (harmless_iff hnewline).mpr
      ⟨hsame, (hpayload haccounted).mp hfirst before line after hsplit, hclean⟩
  · intro hspared
    have hharmless : ∀ before line after, linesOf failing chunks = before ++ line :: after → _ :=
      fun before line after hsplit ↦ (harmless_iff (hline line (hmid hsplit)).2).mp
        (hspared before line after hsplit)
    have haccounted : ∀ line ∈ linesOf failing chunks, Accounted ready line := by
      intro line hmem
      obtain ⟨before, after, hsplit⟩ := List.append_of_mem hmem
      obtain ⟨hsame, -, hclean⟩ := hharmless before line after hsplit
      exact (accounted_iff (hline line hmem).1 (hline line hmem).2).mpr ⟨hsame, hclean⟩
    exact ⟨(hpayload haccounted).mpr fun before line after hsplit ↦
      (hharmless before line after hsplit).2.1, haccounted⟩

/-- A ready line of which something after a cut does not start with the prefix is logged. -/
theorem not_handshake_of_cut {cut : ℕ} (hmem : line ∈ linesOf failing chunks)
    (hready : IsReady ready line) (hdvd : lineBytes ∣ cut) (hcut : cut < line.length)
    (hpiece : ¬ IsReady ready ((line.drop cut).take lineBytes)) :
    ¬ Handshake failing ready chunks := by
  intro hshake
  have hsame := (accounted_iff (ne_nil_of_mem_lines hmem) (newline_not_mem_dropLast hmem)).mp
    (hshake.accounted line hmem)
  exact hpiece ((hsame.1 cut hdvd hcut).mpr hready)

/-- A bridge's ready line with a credential of as many bytes as the bound. -/
def longReady : Bytes :=
  text "cursor-sdk-bridge ready " ++ List.replicate lineBytes 0x61 ++ [newline]

/-- It comes at once. -/
def longReadyChunk : Chunk :=
  ⟨longReady, List.append_ne_nil_of_right_ne_nil _ (List.cons_ne_nil _ _)⟩

/-- The credential's end is logged. -/
theorem not_handshake_longReady :
    ¬ Handshake false (some (text "cursor-sdk-bridge ready ")) [longReadyChunk] := by
  have hascii : ∀ byte ∈ text "cursor-sdk-bridge ready " ++ List.replicate lineBytes 0x61,
      byte ≤ 0x7F := by
    intro byte hbyte
    rcases List.mem_append.mp hbyte with hbyte | hbyte
    · have hall : (text "cursor-sdk-bridge ready ").all (· ≤ 0x7F) = true := by decide
      exact of_decide_eq_true (List.all_eq_true.mp hall byte hbyte)
    · rw [(List.mem_replicate.mp hbyte).2]
      decide
  have hnewline : newline ∉ text "cursor-sdk-bridge ready " ++ List.replicate lineBytes 0x61 := by
    intro hmem
    rcases List.mem_append.mp hmem with hmem | hmem
    · exact absurd hmem (by decide)
    · exact absurd (List.mem_replicate.mp hmem).2 (by decide)
  have hlines : linesOf false [longReadyChunk] = [longReady] := by
    rw [linesOf, handed, if_neg Bool.false_ne_true, bytesOf_cons, bytesOf_nil, List.append_nil]
    exact lines_concat hnewline
  have hcontent : content longReady =
      text "cursor-sdk-bridge ready " ++ List.replicate lineBytes 0x61 := by
    have hlast : (text "cursor-sdk-bridge ready " ++ List.replicate lineBytes 0x61).getLast? ≠
        some 0x0D := by
      intro hreturn
      rcases List.mem_append.mp (List.mem_of_getLast? hreturn) with hmem | hmem
      · exact absurd hmem (by decide)
      · exact absurd (List.mem_replicate.mp hmem).2 (by decide)
    rw [content, longReady, if_pos List.getLast?_concat]
    dsimp only
    rw [List.dropLast_concat, if_neg hlast]
  have hready : IsReady (some (text "cursor-sdk-bridge ready ")) longReady := by
    rw [IsReady, shown, hcontent, Utf8.lossy_eq_self (Utf8.valid_of_ascii hascii)]
    change (List.isPrefixOf? _ _).isSome = true
    rw [List.isPrefixOf?_eq_some_iff_append_eq.mpr rfl]
    rfl
  -- the second piece: as many letters as the prefix has, and the newline
  have hpiece : (longReady.drop lineBytes).take lineBytes =
      List.replicate 24 0x61 ++ [newline] := by
    have hlength : (text "cursor-sdk-bridge ready ").length = 24 := by decide
    have hdrop : longReady.drop lineBytes = List.replicate 24 0x61 ++ [newline] := by
      rw [longReady, List.append_assoc, List.drop_append, hlength,
        List.drop_eq_nil_of_le (by rw [hlength]; decide), List.nil_append,
        List.drop_append_of_le_length (by rw [List.length_replicate]; omega),
        List.drop_replicate]
      exact congrArg (List.replicate · 0x61 ++ [newline]) (by decide)
    rw [hdrop]
    exact List.take_of_length_le (by decide)
  have hlong : lineBytes < longReady.length := by
    rw [longReady, List.length_append, List.length_append, List.length_replicate,
      List.length_singleton]
    omega
  have hmem : longReady ∈ linesOf false [longReadyChunk] := by
    rw [hlines]
    exact List.mem_cons_self
  refine not_handshake_of_cut hmem hready (Nat.dvd_refl _) hlong ?_
  rw [hpiece]
  decide

end OmniaBackends.Sandbox
