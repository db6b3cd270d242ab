import Mathlib.Algebra.Order.Group.Nat
import Mathlib.Data.List.Flatten
import Mathlib.Data.List.Infix
import Mathlib.Data.List.TakeDrop
import OmniaBackends.Foundation.Utf8

/-!
# Reading lines of a bounded length

A stream arrives in chunks and ends, or fails. `readUntil` reads from it up to a newline, which it
takes too, or up to a limit of bytes, and `eachPiece` does so until the stream is over: a read that
finds nothing, or one that fails, which loses what it had read.

What is read does not depend on the chunks (`eachPiece_eq`): it is the stream's bytes, but for what
a failure lost (`handed`), cut into `pieces`. The lines of the bytes are the pieces without a
limit, and each of them is cut apart from the others (`pieces_eq_flatMap`).
-/

set_option autoImplicit false
set_option relaxedAutoImplicit false

namespace OmniaBackends.Foundation.LineReader

/-- The byte that ends a line. -/
def newline : UInt8 := 0x0A

/-- What one read brings, of which the other end writes at least a byte. -/
abbrev Chunk := { bytes : Bytes // bytes ≠ [] }

/-- The bytes of chunks. -/
def bytesOf (chunks : List Chunk) : Bytes := chunks.flatMap Subtype.val

/-- What is left of a chunk, in front of the others. -/
def pushBack (left : Bytes) (chunks : List Chunk) : List Chunk :=
  if hleft : left = [] then chunks else ⟨left, hleft⟩ :: chunks

/-- Bytes read up to a newline, or up to a limit: after those read so far, with the chunks that are
left. None where the stream fails. -/
def readUntil (failing : Bool) (limit : ℕ) (line : Bytes) : List Chunk → Option Bytes × List Chunk
  | [] => (if failing then none else some line, [])
  | chunk :: chunks =>
    let available := chunk.val.take limit
    match available.findIdx? (· = newline) with
    | some index =>
      (some (line ++ available.take (index + 1)), pushBack (chunk.val.drop (index + 1)) chunks)
    | none =>
      if limit ≤ chunk.val.length then
        (some (line ++ available), pushBack (chunk.val.drop limit) chunks)
      else readUntil failing (limit - chunk.val.length) (line ++ chunk.val) chunks

@[simp] theorem bytesOf_nil : bytesOf [] = [] := rfl

@[simp] theorem bytesOf_cons (chunk : Chunk) (chunks : List Chunk) :
    bytesOf (chunk :: chunks) = chunk.val ++ bytesOf chunks := rfl

@[simp] theorem bytesOf_pushBack (left : Bytes) (chunks : List Chunk) :
    bytesOf (pushBack left chunks) = left ++ bytesOf chunks := by
  rw [pushBack]
  split
  · next hleft => simp [hleft]
  · rfl

/-- What was read and what is left make up what there was. -/
theorem readUntil_append {failing : Bool} {limit : ℕ} {line read : Bytes}
    {chunks left : List Chunk} (hread : readUntil failing limit line chunks = (some read, left)) :
    read ++ bytesOf left = line ++ bytesOf chunks := by
  induction chunks generalizing limit line with
  | nil =>
    rw [readUntil, Prod.mk.injEq] at hread
    obtain ⟨hsome, rfl⟩ := hread
    split at hsome
    · exact absurd hsome (by simp)
    · rw [Option.some.inj hsome]
  | cons chunk chunks ih =>
    rw [readUntil] at hread
    split at hread
    · next index hindex =>
      obtain ⟨hsome, rfl⟩ := Prod.mk.inj hread
      obtain rfl := Option.some.inj hsome
      have hlt := (List.findIdx?_eq_some_iff_findIdx_eq.mp hindex).1
      rw [List.length_take] at hlt
      have htake : (chunk.val.take limit).take (index + 1) = chunk.val.take (index + 1) := by
        rw [List.take_take, Nat.min_eq_left (by omega)]
      rw [bytesOf_pushBack, htake, bytesOf_cons, List.append_assoc, ← List.append_assoc
        (chunk.val.take _), List.take_append_drop]
    · split at hread
      · obtain ⟨hsome, rfl⟩ := Prod.mk.inj hread
        obtain rfl := Option.some.inj hsome
        rw [bytesOf_pushBack, bytesOf_cons, List.append_assoc, ← List.append_assoc
          (chunk.val.take _), List.take_append_drop]
      · rw [ih hread, bytesOf_cons, List.append_assoc]

/-- Every line of a stream up to its end, each cut at a limit: a read that brings nothing, or that
fails, ends it. The chunks that are left are those of the last read. -/
def eachPiece (failing : Bool) (limit : ℕ) (chunks : List Chunk) : List Bytes × List Chunk :=
  match _hread : readUntil failing limit [] chunks with
  | (none, left) => ([], left)
  | (some [], left) => ([], left)
  | (some (byte :: line), left) =>
    let (pieces, left) := eachPiece failing limit left
    ((byte :: line) :: pieces, left)
termination_by (bytesOf chunks).length
decreasing_by
  have hlength := congrArg List.length (readUntil_append _hread)
  simp only [List.length_append, List.length_cons, List.length_nil] at hlength
  omega

/-! ### Bytes at once -/

/-- The first bytes up to a newline, or up to a limit. -/
def piece : ℕ → Bytes → Bytes
  | 0, _ => []
  | _, [] => []
  | limit + 1, byte :: rest => if byte = newline then [byte] else byte :: piece limit rest

/-- Whether more bytes behind a piece could not be part of it: it is full, or ends a line. -/
def Complete (limit : ℕ) (piece : Bytes) : Prop :=
  piece.length = limit ∨ piece.getLast? = some newline

instance (limit : ℕ) (piece : Bytes) : Decidable (Complete limit piece) :=
  inferInstanceAs (Decidable (_ ∨ _))

variable {limit : ℕ} {bytes first rest : Bytes}

/-- A piece is the start of the bytes. -/
theorem piece_initial (limit : ℕ) (bytes : Bytes) : piece limit bytes <+: bytes := by
  fun_induction piece limit bytes with
  | case1 | case2 => exact List.nil_prefix
  | case3 limit rest => exact ⟨rest, rfl⟩
  | case4 limit byte rest hbyte ih => exact List.cons_prefix_cons.mpr ⟨rfl, ih⟩

/-- The bytes are a piece and the others. -/
theorem piece_append_drop (limit : ℕ) (bytes : Bytes) :
    piece limit bytes ++ bytes.drop (piece limit bytes).length = bytes :=
  (List.prefix_append_drop (piece_initial limit bytes)).symm

/-- A piece of some bytes is one, within a limit. -/
theorem piece_ne_nil (hlimit : 0 < limit) (hbytes : bytes ≠ []) : piece limit bytes ≠ [] := by
  obtain ⟨byte, rest, rfl⟩ := List.exists_cons_of_ne_nil hbytes
  obtain ⟨limit, rfl⟩ := Nat.exists_eq_succ_of_ne_zero hlimit.ne'
  rw [piece]
  split <;> simp

/-- A piece that is not complete is all there is. -/
theorem piece_eq_of_not_complete (hcomplete : ¬ Complete limit (piece limit bytes)) :
    piece limit bytes = bytes := by
  fun_induction piece limit bytes with
  | case1 => exact absurd (Or.inl rfl) hcomplete
  | case2 => rfl
  | case3 limit rest => exact absurd (Or.inr rfl) hcomplete
  | case4 limit byte rest hbyte ih =>
    refine congrArg (byte :: ·) (ih fun hrest ↦ hcomplete ?_)
    rcases hrest with hlength | hlast
    · exact Or.inl (congrArg Nat.succ hlength)
    · exact Or.inr (by rw [List.getLast?_cons, hlast]; rfl)

/-- What stands behind a complete piece does not change it. -/
theorem piece_append (hcomplete : Complete limit (piece limit bytes)) (more : Bytes) :
    piece limit (bytes ++ more) = piece limit bytes := by
  fun_induction piece limit bytes with
  | case1 => rw [piece]
  | case2 limit hlimit =>
    rcases hcomplete with hlength | hlast
    · exact absurd hlength.symm (by simpa using hlimit)
    · exact absurd hlast (by simp)
  | case3 limit rest => rw [List.cons_append, piece, if_pos rfl]
  | case4 limit byte rest hbyte ih =>
    rw [List.cons_append, piece, if_neg hbyte]
    refine congrArg (byte :: ·) (ih ?_)
    rcases hcomplete with hlength | hlast
    · exact Or.inl (Nat.succ.inj hlength)
    · rw [List.getLast?_cons] at hlast
      cases hpiece : (piece limit rest).getLast? with
      | some last =>
        rw [hpiece] at hlast
        exact Or.inr (hpiece.trans hlast)
      | none =>
        rw [hpiece] at hlast
        exact absurd (Option.some.inj hlast) hbyte

/-- A piece is one of its own. -/
theorem piece_piece (limit : ℕ) (bytes : Bytes) :
    piece limit (piece limit bytes) = piece limit bytes := by
  fun_induction piece limit bytes with
  | case1 | case2 => simp [piece]
  | case3 limit rest => simp [piece]
  | case4 limit byte rest hbyte ih => rw [piece, if_neg hbyte, ih]

/-- A piece in which no newline stands is cut at the limit alone. -/
theorem piece_eq_take (hnewline : newline ∉ (bytes.take limit).dropLast) :
    piece limit bytes = bytes.take limit := by
  fun_induction piece limit bytes with
  | case1 => rw [List.take_zero]
  | case2 => rw [List.take_nil]
  | case3 limit rest =>
    cases hrest : rest.take limit with
    | nil => rw [List.take_succ_cons, hrest]
    | cons byte more =>
      rw [List.take_succ_cons, hrest, List.dropLast_cons_cons] at hnewline
      exact absurd List.mem_cons_self hnewline
  | case4 limit byte rest hbyte ih =>
    refine congrArg (byte :: ·) (ih fun hmem ↦ hnewline ?_)
    rw [List.take_succ_cons, List.dropLast_cons_of_ne_nil (List.ne_nil_of_mem
      (List.mem_of_mem_dropLast hmem))]
    exact List.mem_cons_of_mem _ hmem

/-- A newline within the limit ends the piece. -/
theorem piece_of_findIdx? {index : ℕ}
    (hindex : (bytes.take limit).findIdx? (· = newline) = some index) :
    piece limit bytes = bytes.take (index + 1) ∧
      (piece limit bytes).getLast? = some newline := by
  fun_induction piece limit bytes generalizing index with
  | case1 => exact absurd hindex (by simp)
  | case2 => exact absurd hindex (by simp)
  | case3 limit rest =>
    obtain rfl : index = 0 := by simpa [List.findIdx?_cons, eq_comm] using hindex
    exact ⟨rfl, rfl⟩
  | case4 limit byte rest hbyte ih =>
    rw [List.take_succ_cons, List.findIdx?_cons, decide_eq_false hbyte] at hindex
    obtain ⟨index, hrest, rfl⟩ := Option.map_eq_some_iff.mp hindex
    obtain ⟨hpiece, hlast⟩ := ih hrest
    exact ⟨by rw [hpiece, List.take_succ_cons], by rw [List.getLast?_cons, hlast]; rfl⟩

/-- A piece goes on behind bytes that neither end it nor fill it. -/
theorem piece_append_of_not_mem (hnewline : newline ∉ first) (hlimit : first.length < limit)
    (rest : Bytes) :
    piece limit (first ++ rest) = first ++ piece (limit - first.length) rest := by
  induction first generalizing limit with
  | nil => rfl
  | cons byte first ih =>
    obtain ⟨hbyte, hfirst⟩ := not_or.mp (mt List.mem_cons.mpr hnewline)
    obtain ⟨limit, rfl⟩ := Nat.exists_eq_succ_of_ne_zero (Nat.ne_zero_of_lt hlimit)
    rw [List.cons_append, piece, if_neg (Ne.symm hbyte),
      ih hfirst (Nat.lt_of_succ_lt_succ hlimit), List.length_cons, Nat.succ_sub_succ]
    rfl

/-- Such bytes leave the rest of the piece to complete it. -/
theorem complete_append_iff (hlimit : first.length < limit) (rest : Bytes)
    (hnewline : newline ∉ first) :
    Complete limit (first ++ rest) ↔ Complete (limit - first.length) rest := by
  have hlast : (first ++ rest).getLast? = some newline ↔ rest.getLast? = some newline := by
    rw [List.getLast?_append]
    cases hrest : rest.getLast? with
    | none =>
      refine ⟨fun hfirst ↦ absurd (List.mem_of_getLast? hfirst) hnewline, fun hnone ↦ ?_⟩
      exact absurd hnone (by simp)
    | some last => rfl
  have hlength : (first ++ rest).length = limit ↔ rest.length = limit - first.length := by
    rw [List.length_append]
    omega
  rw [Complete, Complete, hlast, hlength]

/-- What a read brings is the first piece, complete if the stream may fail. -/
theorem readUntil_some {failing : Bool} {line read : Bytes} {chunks left : List Chunk}
    (hread : readUntil failing limit line chunks = (some read, left)) :
    read = line ++ piece limit (bytesOf chunks) ∧
      (failing → Complete limit (piece limit (bytesOf chunks))) := by
  induction chunks generalizing limit line with
  | nil =>
    rw [readUntil, Prod.mk.injEq] at hread
    split at hread
    · exact absurd hread.1 (by simp)
    · next hfailing =>
      refine ⟨?_, fun htrue ↦ absurd htrue hfailing⟩
      have hempty : piece limit (bytesOf []) = [] :=
        List.prefix_nil.mp (piece_initial limit [])
      rw [← Option.some.inj hread.1, hempty, List.append_nil]
  | cons chunk chunks ih =>
    rw [readUntil] at hread
    rw [bytesOf_cons]
    split at hread
    · next index hindex =>
      obtain rfl := Option.some.inj (Prod.mk.inj hread).1
      obtain ⟨hpiece, hlast⟩ := piece_of_findIdx? hindex
      have hlt := (List.findIdx?_eq_some_iff_findIdx_eq.mp hindex).1
      rw [List.length_take] at hlt
      rw [piece_append (Or.inr hlast), hpiece, List.take_take, Nat.min_eq_left (by omega)]
      exact ⟨rfl, fun _ ↦ Or.inr (hpiece ▸ hlast)⟩
    · next hnone =>
      have hnewline : newline ∉ chunk.val.take limit := by
        intro hmem
        simpa using List.findIdx?_eq_none_iff.mp hnone newline hmem
      split at hread
      · next hlimit =>
        obtain rfl := Option.some.inj (Prod.mk.inj hread).1
        have hpiece := piece_eq_take fun hmem ↦ hnewline (List.mem_of_mem_dropLast hmem)
        have hfull : Complete limit (piece limit chunk.val) :=
          Or.inl (by rw [hpiece, List.length_take, Nat.min_eq_left hlimit])
        rw [piece_append hfull]
        exact ⟨by rw [hpiece], fun _ ↦ hfull⟩
      · next hlimit =>
        have hlt := Nat.lt_of_not_le hlimit
        rw [List.take_of_length_le hlt.le] at hnewline
        obtain ⟨hpiece, hcomplete⟩ := ih hread
        rw [piece_append_of_not_mem hnewline hlt, complete_append_iff hlt _ hnewline]
        exact ⟨by rw [hpiece, List.append_assoc], hcomplete⟩

/-- A read fails within a piece, and at the end of the stream. -/
theorem readUntil_none {failing : Bool} {line : Bytes} {chunks left : List Chunk}
    (hlimit : 0 < limit) (hread : readUntil failing limit line chunks = (none, left)) :
    failing ∧ ¬ Complete limit (piece limit (bytesOf chunks)) ∧ left = [] := by
  induction chunks generalizing limit line with
  | nil =>
    rw [readUntil, Prod.mk.injEq] at hread
    split at hread
    · next hfailing =>
      have hempty : piece limit (bytesOf []) = [] :=
        List.prefix_nil.mp (piece_initial limit [])
      refine ⟨hfailing, ?_, hread.2.symm⟩
      rw [hempty]
      rintro (hlength | hlast)
      · exact absurd hlength hlimit.ne
      · exact absurd hlast (by simp)
    · exact absurd hread.1 (by simp)
  | cons chunk chunks ih =>
    rw [readUntil] at hread
    rw [bytesOf_cons]
    split at hread
    · exact absurd (Prod.mk.inj hread).1 (by simp)
    · next hnone =>
      have hnewline : newline ∉ chunk.val.take limit := by
        intro hmem
        simpa using List.findIdx?_eq_none_iff.mp hnone newline hmem
      split at hread
      · exact absurd (Prod.mk.inj hread).1 (by simp)
      · next hfull =>
        have hlt := Nat.lt_of_not_le hfull
        rw [List.take_of_length_le hlt.le] at hnewline
        rw [piece_append_of_not_mem hnewline hlt, complete_append_iff hlt _ hnewline]
        exact ih (by omega) hread

/-- Bytes cut into pieces. -/
def pieces (limit : ℕ) (bytes : Bytes) : List Bytes :=
  if _hbytes : 0 < limit ∧ bytes ≠ [] then
    piece limit bytes :: pieces limit (bytes.drop (piece limit bytes).length)
  else []
termination_by bytes.length
decreasing_by
  have hpiece := List.length_pos_iff.mpr (piece_ne_nil _hbytes.1 _hbytes.2)
  have hlength := List.length_pos_iff.mpr _hbytes.2
  rw [List.length_drop]
  omega

/-- The bytes a stream hands over: all of them, or the complete pieces where it fails. -/
def handed (failing : Bool) (limit : ℕ) (bytes : Bytes) : Bytes :=
  if failing then ((pieces limit bytes).filter (Complete limit ·)).flatten else bytes

@[simp] theorem pieces_nil (limit : ℕ) : pieces limit [] = [] := by simp [pieces]

theorem pieces_of_ne_nil (hlimit : 0 < limit) (hbytes : bytes ≠ []) :
    pieces limit bytes =
      piece limit bytes :: pieces limit (bytes.drop (piece limit bytes).length) := by
  rw [pieces, dif_pos ⟨hlimit, hbytes⟩]

/-- A complete piece is cut off whatever follows. -/
theorem pieces_append_of_complete (hlimit : 0 < limit) (hpiece : piece limit first = first)
    (hcomplete : Complete limit first) (rest : Bytes) :
    pieces limit (first ++ rest) = first :: pieces limit rest := by
  have hfirst : first ≠ [] := by
    rintro rfl
    rcases hcomplete with hlength | hlast
    · exact hlimit.ne hlength
    · exact absurd hlast (by simp)
  have happend : piece limit (first ++ rest) = first :=
    (piece_append (hpiece.symm ▸ hcomplete) rest).trans hpiece
  rw [pieces_of_ne_nil hlimit (by simp [hfirst]), happend, List.drop_left]

/-- Pieces make up the bytes. -/
theorem flatten_pieces (hlimit : 0 < limit) (bytes : Bytes) :
    (pieces limit bytes).flatten = bytes := by
  fun_induction pieces limit bytes with
  | case1 bytes hbytes ih => rw [List.flatten_cons, ih, piece_append_drop]
  | case2 bytes hbytes =>
    rw [List.flatten_nil]
    exact (not_not.mp fun hne ↦ hbytes ⟨hlimit, hne⟩).symm

/-- No piece is empty. -/
theorem ne_nil_of_mem_pieces {cut : Bytes} (hcut : cut ∈ pieces limit bytes) : cut ≠ [] := by
  fun_induction pieces limit bytes with
  | case1 bytes hbytes ih =>
    rcases List.mem_cons.mp hcut with rfl | hcut
    · exact piece_ne_nil hbytes.1 hbytes.2
    · exact ih hcut
  | case2 bytes hbytes => exact absurd hcut List.not_mem_nil

/-- What a stream that fails hands over is its complete pieces. -/
theorem pieces_handed (hlimit : 0 < limit) (bytes : Bytes) :
    pieces limit (handed true limit bytes) =
      (pieces limit bytes).filter (Complete limit ·) := by
  rw [handed, if_pos rfl]
  fun_induction pieces limit bytes with
  | case1 bytes hbytes ih =>
    by_cases hcomplete : Complete limit (piece limit bytes)
    · rw [List.filter_cons_of_pos (by simpa using hcomplete), List.flatten_cons,
        pieces_append_of_complete hlimit (piece_piece limit bytes) hcomplete, ih]
    · have hall := piece_eq_of_not_complete hcomplete
      rw [List.filter_cons_of_neg (by simpa using hcomplete)]
      simp [hall]
  | case2 bytes hbytes => simp

/-- What is read of a stream depends on its bytes alone: the pieces of what it hands over, and to
its last chunk. -/
theorem eachPiece_eq {failing : Bool} (hlimit : 0 < limit) (chunks : List Chunk) :
    eachPiece failing limit chunks =
      (pieces limit (handed failing limit (bytesOf chunks)), []) := by
  have hhanded : pieces limit (handed failing limit (bytesOf chunks)) =
      if failing then (pieces limit (bytesOf chunks)).filter (Complete limit ·)
      else pieces limit (bytesOf chunks) := by
    cases failing with
    | false => rfl
    | true => exact pieces_handed hlimit _
  rw [hhanded]
  clear hhanded
  fun_induction eachPiece failing limit chunks with
  | case1 chunks left hread =>
    obtain ⟨hfailing, hcomplete, rfl⟩ := readUntil_none hlimit hread
    have hall := piece_eq_of_not_complete hcomplete
    by_cases hbytes : bytesOf chunks = []
    · simp [hbytes]
    · rw [if_pos hfailing, pieces_of_ne_nil hlimit hbytes, List.filter_cons_of_neg
        (by simpa using hcomplete), hall, List.drop_length, pieces_nil, List.filter_nil]
  | case2 chunks left hread =>
    have hpiece := (readUntil_some hread).1
    have hbytes : bytesOf chunks = [] := by
      by_contra hne
      exact piece_ne_nil hlimit hne (by simpa using hpiece.symm)
    have hleft : bytesOf left = [] := by simpa [hbytes] using readUntil_append hread
    have hnone : left = [] := by
      cases left with
      | nil => rfl
      | cons chunk left => exact absurd (List.append_eq_nil_iff.mp hleft).1 chunk.property
    simp [hbytes, hnone]
  | case3 chunks byte line left hread more rest hmore ih =>
    obtain ⟨hpiece, hcomplete⟩ := readUntil_some hread
    have happend := readUntil_append hread
    rw [List.nil_append] at hpiece happend
    have hbytes : bytesOf chunks ≠ [] := by
      rw [← happend]
      exact List.cons_ne_nil _ _
    have hdrop : (bytesOf chunks).drop (piece limit (bytesOf chunks)).length = bytesOf left := by
      rw [← hpiece, ← happend, List.drop_left]
    rw [pieces_of_ne_nil hlimit hbytes, hdrop, ← hpiece]
    obtain ⟨rfl, rfl⟩ := Prod.mk.inj (hmore.symm.trans ih)
    split
    · next hfailing =>
      rw [List.filter_cons_of_pos (by simpa [← hpiece] using hcomplete hfailing)]
    · rfl

/-! ### Lines -/

/-- The lines of bytes, each with the newline that ends it. -/
def lines : Bytes → List Bytes
  | [] => []
  | byte :: rest =>
    if byte = newline then [byte] :: lines rest
    else
      match lines rest with
      | [] => [[byte]]
      | line :: more => (byte :: line) :: more

/-- The first line stands in front of the others, and ends in the only newline of it unless it is
the last. -/
theorem lines_eq_cons (hbytes : bytes ≠ []) :
    ∃ line rest, bytes = line ++ rest ∧ lines bytes = line :: lines rest ∧ line ≠ [] ∧
      newline ∉ line.dropLast ∧ (rest ≠ [] → line.getLast? = some newline) := by
  induction bytes with
  | nil => exact absurd rfl hbytes
  | cons byte bytes ih =>
    by_cases hbyte : byte = newline
    · refine ⟨[byte], bytes, rfl, ?_, List.cons_ne_nil _ _, by simp, fun _ ↦ by simp [hbyte]⟩
      rw [lines, if_pos hbyte]
    · by_cases hnil : bytes = []
      · refine ⟨[byte], [], by rw [hnil]; rfl, ?_, List.cons_ne_nil _ _, by simp,
          fun hne ↦ absurd rfl hne⟩
        simp [hnil, lines, hbyte]
      · obtain ⟨line, rest, hsplit, hlines, hline, hnewline, hlast⟩ := ih hnil
        refine ⟨byte :: line, rest, by rw [hsplit]; rfl, ?_, List.cons_ne_nil _ _, ?_, ?_⟩
        · rw [lines, if_neg hbyte, hlines]
        · rw [List.dropLast_cons_of_ne_nil hline]
          exact fun hmem ↦ (List.mem_cons.mp hmem).elim (fun heq ↦ hbyte heq.symm) hnewline
        · intro hrest
          rw [List.getLast?_cons, hlast hrest]
          rfl

/-- One line. -/
theorem lines_concat {body : Bytes} (hbody : newline ∉ body) :
    lines (body ++ [newline]) = [body ++ [newline]] := by
  induction body with
  | nil => rfl
  | cons byte body ih =>
    obtain ⟨hbyte, hrest⟩ := not_or.mp (mt List.mem_cons.mpr hbody)
    rw [List.cons_append, lines, if_neg (Ne.symm hbyte), ih hrest]

/-- An induction over bytes by their lines. -/
@[elab_as_elim]
theorem lines_induction {motive : Bytes → Prop} (hnil : motive [])
    (hline : ∀ line rest, line ≠ [] → newline ∉ line.dropLast →
      (rest ≠ [] → line.getLast? = some newline) → lines (line ++ rest) = line :: lines rest →
      motive rest → motive (line ++ rest)) (bytes : Bytes) : motive bytes := by
  by_cases hbytes : bytes = []
  · rw [hbytes]
    exact hnil
  · obtain ⟨line, rest, hsplit, hlines, hne, hnewline, hlast⟩ := lines_eq_cons hbytes
    have hpos := List.length_pos_iff.mpr hne
    rw [hsplit] at hlines ⊢
    exact hline line rest hne hnewline hlast hlines (lines_induction hnil hline rest)
termination_by bytes.length
decreasing_by
  rw [hsplit, List.length_append]
  omega

/-- No newline stands within a line. -/
theorem newline_not_mem_dropLast {line : Bytes} (hline : line ∈ lines bytes) :
    newline ∉ line.dropLast := by
  induction bytes using lines_induction with
  | hnil => exact absurd hline List.not_mem_nil
  | hline first rest hne hnewline hlast hlines ih =>
    rw [hlines] at hline
    rcases List.mem_cons.mp hline with rfl | hline
    · exact hnewline
    · exact ih hline

/-- No line is empty. -/
theorem ne_nil_of_mem_lines {line : Bytes} (hline : line ∈ lines bytes) : line ≠ [] := by
  induction bytes using lines_induction with
  | hnil => exact absurd hline List.not_mem_nil
  | hline first rest hne hnewline hlast hlines ih =>
    rw [hlines] at hline
    rcases List.mem_cons.mp hline with rfl | hline
    · exact hne
    · exact ih hline

/-- No newline stands within what follows a cut in a line. -/
theorem newline_not_mem_drop {line : Bytes} (hnewline : newline ∉ line.dropLast) (cut : ℕ) :
    newline ∉ (line.drop cut).dropLast := by
  rw [List.dropLast_drop_eq_drop_dropLast]
  exact fun hmem ↦ hnewline (List.mem_of_mem_drop hmem)

/-- A line within the limit is a piece. -/
theorem pieces_of_length_le (hlimit : 0 < limit) {line : Bytes} (hline : line ≠ [])
    (hnewline : newline ∉ line.dropLast) (hlength : line.length ≤ limit) :
    pieces limit line = [line] := by
  have hall : line.take limit = line := List.take_of_length_le hlength
  have hpiece : piece limit line = line := by
    rw [piece_eq_take (by rwa [hall]), hall]
  rw [pieces_of_ne_nil hlimit hline, hpiece, List.drop_length, pieces_nil]

/-- A longer one is cut at the limit. -/
theorem pieces_of_lt_length (hlimit : 0 < limit) {line : Bytes}
    (hnewline : newline ∉ line.dropLast) (hlength : limit < line.length) :
    pieces limit line = line.take limit :: pieces limit (line.drop limit) := by
  have hne : line ≠ [] := by
    rintro rfl
    exact absurd hlength (Nat.not_lt_zero limit)
  have hpiece : piece limit line = line.take limit := by
    refine piece_eq_take fun hmem ↦ hnewline ?_
    rw [List.dropLast_eq_take]
    have hwithin : limit ≤ line.length - 1 := by omega
    exact (List.take_prefix_take_left hwithin).subset (List.mem_of_mem_dropLast hmem)
  rw [pieces_of_ne_nil hlimit hne, hpiece, List.length_take, Nat.min_eq_left hlength.le]

/-- The first piece of a line is what the limit leaves of it. -/
theorem exists_pieces_eq_cons (hlimit : 0 < limit) {line : Bytes} (hline : line ≠ [])
    (hnewline : newline ∉ line.dropLast) : ∃ more, pieces limit line = line.take limit :: more := by
  rcases Nat.lt_or_ge limit line.length with hlong | hshort
  · exact ⟨_, pieces_of_lt_length hlimit hnewline hlong⟩
  · exact ⟨[], by rw [pieces_of_length_le hlimit hline hnewline hshort,
      List.take_of_length_le hshort]⟩

/-- An induction over bytes by their cuts at a limit. -/
@[elab_as_elim]
theorem cut_induction {motive : Bytes → Prop} (hlimit : 0 < limit)
    (hshort : ∀ bytes, bytes.length ≤ limit → motive bytes)
    (hlong : ∀ bytes, limit < bytes.length → motive (bytes.drop limit) → motive bytes)
    (bytes : Bytes) : motive bytes := by
  rcases Nat.lt_or_ge limit bytes.length with hcut | hwhole
  · exact hlong bytes hcut (cut_induction hlimit hshort hlong (bytes.drop limit))
  · exact hshort bytes hwhole
termination_by bytes.length
decreasing_by
  rw [List.length_drop]
  omega

/-- The pieces of a line start at the multiples of the limit. -/
theorem mem_pieces_iff (hlimit : 0 < limit) {line cut : Bytes}
    (hnewline : newline ∉ line.dropLast) :
    cut ∈ pieces limit line ↔
      ∃ start, limit ∣ start ∧ start < line.length ∧ cut = (line.drop start).take limit := by
  induction line using cut_induction hlimit generalizing cut with
  | hshort line hshort =>
    by_cases hnil : line = []
    · simp [hnil]
    rw [pieces_of_length_le hlimit hnil hnewline hshort, List.mem_singleton]
    constructor
    · rintro rfl
      exact ⟨0, Nat.dvd_zero limit, List.length_pos_iff.mpr hnil, by
        rw [List.drop_zero, List.take_of_length_le hshort]⟩
    · rintro ⟨start, hdvd, hlt, rfl⟩
      obtain rfl := Nat.eq_zero_of_dvd_of_lt hdvd (hlt.trans_le hshort)
      rw [List.drop_zero, List.take_of_length_le hshort]
  | hlong line hlong ih =>
    rw [pieces_of_lt_length hlimit hnewline hlong, List.mem_cons,
      ih (newline_not_mem_drop hnewline limit)]
    constructor
    · rintro (rfl | ⟨start, hdvd, hlt, rfl⟩)
      · exact ⟨0, Nat.dvd_zero limit, by omega, by rw [List.drop_zero]⟩
      · rw [List.length_drop] at hlt
        exact ⟨limit + start, Nat.dvd_add (Nat.dvd_refl limit) hdvd, by omega,
          by rw [List.drop_drop]⟩
    · rintro ⟨start, hdvd, hlt, rfl⟩
      rcases Nat.eq_zero_or_pos start with rfl | hpos
      · exact Or.inl (by rw [List.drop_zero])
      · have hle := Nat.le_of_dvd hpos hdvd
        refine Or.inr ⟨start - limit, Nat.dvd_sub hdvd (Nat.dvd_refl limit), ?_, ?_⟩
        · rw [List.length_drop]
          omega
        · rw [List.drop_drop, Nat.add_sub_cancel' hle]

/-- Pieces of which some were left out, and which make up the same bytes, were all there. -/
theorem eq_of_sublist_of_flatten {some all : List Bytes} (hsome : some.Sublist all)
    (hall : ∀ cut ∈ all, cut ≠ []) (hflatten : some.flatten = all.flatten) : some = all := by
  induction hsome with
  | slnil => rfl
  | cons cut hsub ih =>
    have hlength := hsub.flatten.length_le
    rw [hflatten, List.flatten_cons, List.length_append] at hlength
    have hcut := List.length_pos_iff.mpr (hall cut List.mem_cons_self)
    omega
  | cons_cons cut hsub ih =>
    refine congrArg (cut :: ·) (ih (fun other hother ↦ hall other ?_) ?_)
    · exact List.mem_cons_of_mem _ hother
    · exact List.append_cancel_left hflatten

/-- The pieces of a line that a newline ends do not depend on the lines that follow. -/
theorem pieces_append (hlimit : 0 < limit) (hlast : first.getLast? = some newline)
    (rest : Bytes) : pieces limit (first ++ rest) = pieces limit first ++ pieces limit rest := by
  fun_induction pieces limit first with
  | case1 first hfirst ih =>
    have hcomplete : Complete limit (piece limit first) := by
      by_contra hcomplete
      exact hcomplete (Or.inr (by rw [piece_eq_of_not_complete hcomplete, hlast]))
    have hcut : pieces limit (first ++ rest) = piece limit first ::
        pieces limit (first.drop (piece limit first).length ++ rest) := by
      conv_lhs => rw [← piece_append_drop limit first, List.append_assoc]
      exact pieces_append_of_complete hlimit (piece_piece limit first) hcomplete _
    rw [hcut, List.cons_append]
    refine congrArg (piece limit first :: ·) ?_
    by_cases hdrop : first.drop (piece limit first).length = []
    · rw [hdrop, List.nil_append, pieces_nil, List.nil_append]
    · refine ih ?_
      rw [← piece_append_drop limit first, List.getLast?_append_of_ne_nil _ hdrop] at hlast
      exact hlast
  | case2 first hfirst =>
    have hnil : first = [] := not_not.mp fun hne ↦ hfirst ⟨hlimit, hne⟩
    rw [hnil, List.nil_append, List.nil_append]

/-- Each line is cut into its pieces, apart from the others. -/
theorem pieces_eq_flatMap (hlimit : 0 < limit) (bytes : Bytes) :
    pieces limit bytes = (lines bytes).flatMap (pieces limit) := by
  induction bytes using lines_induction with
  | hnil => rw [pieces_nil]; rfl
  | hline line rest hne hnewline hlast hlines ih =>
    rw [hlines, List.flatMap_cons, ← ih]
    by_cases hrest : rest = []
    · rw [hrest, List.append_nil, pieces_nil, List.append_nil]
    · exact pieces_append hlimit (hlast hrest) rest

end OmniaBackends.Foundation.LineReader
