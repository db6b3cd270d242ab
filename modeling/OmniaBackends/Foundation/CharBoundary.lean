import OmniaBackends.Foundation.Utf8

/-!
# Where text may be cut

A character is one byte that leads it and at most three that continue it, and a text is a run of
characters (`Valid.inductionOn`). So the bytes that continue a character tell where a text may be
cut into two texts: exactly before a byte that does not, or at the end (`boundary_iff`), and such
a place is never more than three bytes away (`exists_boundary_near`).

Bytes that are no text are cut between two pieces, characters or broken: there, and nowhere else,
they read the same apart and together (`lossy_append_iff`).
-/

set_option autoImplicit false
set_option relaxedAutoImplicit false

namespace OmniaBackends.Foundation.Utf8

/-- A place that cuts a byte string into two texts. -/
def Boundary (input : Bytes) (index : ℕ) : Prop :=
  Valid (input.take index) ∧ Valid (input.drop index)

/-- A byte that leads a character continues none. -/
theorem continues_of_width_ne_zero {lead : UInt8} (hwidth : width lead ≠ 0) :
    continues lead = false := by
  by_contra hcontinues
  have hrange : 0x80 ≤ lead ∧ lead ≤ 0xBF := by simpa [continues] using hcontinues
  refine hwidth ?_
  obtain ⟨hlow, hhigh⟩ := hrange
  rw [UInt8.le_iff_toNat_le] at hlow hhigh
  simp only [width, Bool.and_eq_true, decide_eq_true_eq, UInt8.le_iff_toNat_le]
  simp only [UInt8.toNat_ofNat] at hlow hhigh ⊢
  split_ifs <;> omega

/-- The second byte of a character continues it. -/
theorem continues_of_secondOf {lead second : UInt8} (hsecond : secondOf lead second = true) :
    continues second = true := by
  revert hsecond
  simp only [secondOf, continues]
  split_ifs <;> simp only [Bool.and_eq_true, decide_eq_true_eq, UInt8.le_iff_toNat_le,
    UInt8.toNat_ofNat] <;> omega

/-- A character at the front is a byte that leads it and at most three that continue it. -/
theorem exists_lead_of_chunks {input bytes : Bytes} {more : List Chunk}
    (hcut : chunks input = .character bytes :: more) :
    ∃ lead tail, bytes = lead :: tail ∧ tail.length ≤ 3 ∧ continues lead = false ∧
      ∀ byte ∈ tail, continues byte = true := by
  revert hcut
  fun_cases chunks input <;> rintro ⟨⟩ <;>
    refine ⟨_, _, rfl, by simp, continues_of_width_ne_zero (by simp [*]), ?_⟩ <;>
    simp_all <;> exact continues_of_secondOf ‹secondOf _ _ = true›

/-- Nothing is a text. -/
theorem valid_nil : Valid [] := by
  simp [Valid, chunks]

/-- The induction rule for texts: nothing, or a character and the text after it. -/
@[elab_as_elim]
theorem Valid.inductionOn {motive : (input : Bytes) → Valid input → Prop} {input : Bytes}
    (hvalid : Valid input) (nil : motive [] valid_nil)
    (character : ∀ (lead : UInt8) (tail rest : Bytes), tail.length ≤ 3 →
      continues lead = false → (∀ byte ∈ tail, continues byte = true) →
        ∀ (hcharacter : Valid (lead :: tail)) (hrest : Valid rest), motive rest hrest →
          motive (lead :: tail ++ rest) (hcharacter.append hrest)) : motive input hvalid := by
  generalize hcut : chunks input = pieces
  induction pieces generalizing input with
  | nil =>
    obtain rfl := chunks_eq_nil_iff.mp hcut
    exact nil
  | cons chunk more ih =>
    obtain ⟨rest, rfl, rfl⟩ := eq_append_of_chunks_eq_cons hcut
    have hpieces := hvalid
    rw [Valid, hcut] at hpieces
    obtain ⟨hchunk, hrest⟩ := List.forall_mem_cons.mp hpieces
    cases chunk with
    | broken bytes => exact absurd hchunk Bool.false_ne_true
    | character bytes =>
      have halone : chunks bytes = [.character bytes] := by
        simpa [chunks] using chunks_character_append hcut []
      obtain ⟨lead, tail, rfl, hlength, hlead, htail⟩ := exists_lead_of_chunks hcut
      refine character lead tail rest hlength hlead htail ?_ hrest (ih hrest rfl)
      simpa [Valid, halone] using hchunk

/-- No text begins with a byte that continues a character. -/
theorem Valid.continues_head {input : Bytes} (hvalid : Valid input) {byte : UInt8}
    (hbyte : input.head? = some byte) : continues byte = false := by
  induction hvalid using Valid.inductionOn with
  | nil => exact absurd hbyte (by simp)
  | character lead tail rest hlength hlead htail hcharacter hrest ih =>
    obtain rfl := Option.some.inj hbyte
    exact hlead

/-- A text may be cut exactly before a byte that continues no character, or at its end. -/
theorem Valid.boundary_iff {input : Bytes} (hvalid : Valid input) (index : ℕ) :
    Boundary input index ↔ ∀ byte, input[index]? = some byte → continues byte = false := by
  constructor
  · rintro ⟨-, hafter⟩ byte hbyte
    exact hafter.continues_head (by rwa [List.head?_drop])
  · induction hvalid using Valid.inductionOn generalizing index with
    | nil => exact fun _ ↦ by simp [Boundary, valid_nil]
    | character lead tail rest hlength hlead htail hcharacter hrest ih =>
      intro hindex
      rcases Nat.lt_or_ge index (lead :: tail).length with hinside | hpast
      · cases index with
        | zero => exact ⟨valid_nil, hcharacter.append hrest⟩
        | succ index =>
          -- inside the character every byte continues it
          have hlt : index < tail.length := by simpa using hinside
          have hget : (lead :: tail ++ rest)[index + 1]? = some tail[index] := by
            rw [List.cons_append, List.getElem?_cons_succ, List.getElem?_append_left hlt,
              List.getElem?_eq_getElem hlt]
          exact absurd (htail _ (List.getElem_mem hlt)) (by simp [hindex _ hget])
      · obtain ⟨later, rfl⟩ := Nat.exists_eq_add_of_le hpast
        rw [List.getElem?_append_right hpast, Nat.add_sub_cancel_left] at hindex
        obtain ⟨hbefore, hafter⟩ := ih later hindex
        rw [Boundary, List.take_length_add_append, List.drop_length_add_append]
        exact ⟨hcharacter.append hbefore, hafter⟩

/-- Wherever one points into a text, there is a place to cut it at most three bytes before, and
another at most three bytes after. -/
theorem Valid.exists_boundary_near {input : Bytes} (hvalid : Valid input) {index : ℕ}
    (hindex : index ≤ input.length) :
    ∃ lower upper, Boundary input lower ∧ Boundary input upper ∧ lower ≤ index ∧
      index ≤ lower + 3 ∧ index ≤ upper ∧ upper ≤ index + 3 ∧ upper ≤ input.length := by
  induction hvalid using Valid.inductionOn generalizing index with
  | nil =>
    obtain rfl := Nat.le_zero.mp hindex
    exact ⟨0, 0, ⟨valid_nil, valid_nil⟩, ⟨valid_nil, valid_nil⟩, by simp⟩
  | character lead tail rest hlength hlead htail hcharacter hrest ih =>
    have hstart : Boundary (lead :: tail ++ rest) 0 :=
      ⟨valid_nil, hcharacter.append hrest⟩
    have hpassed {later : ℕ} (hlater : Boundary rest later) :
        Boundary (lead :: tail ++ rest) ((lead :: tail).length + later) := by
      rw [Boundary, List.take_length_add_append, List.drop_length_add_append]
      exact ⟨hcharacter.append hlater.1, hlater.2⟩
    have hend : Boundary (lead :: tail ++ rest) (lead :: tail).length :=
      @hpassed 0 ⟨valid_nil, hrest⟩
    rw [List.length_append] at hindex
    rcases Nat.lt_or_ge index (lead :: tail).length with hinside | hpast
    · rw [List.length_cons] at hinside
      rcases Nat.eq_zero_or_pos index with rfl | hpositive
      · exact ⟨0, 0, hstart, hstart, by simp⟩
      · exact ⟨0, _, hstart, hend, by simp; omega⟩
    · obtain ⟨later, rfl⟩ := Nat.exists_eq_add_of_le hpast
      obtain ⟨lower, upper, hlower, hupper, hbounds⟩ := @ih later (by omega)
      exact ⟨_, _, hpassed hlower, hpassed hupper, by
        rw [List.length_append]
        omega⟩

/-! ### Bytes read apart -/

/-- A character has at most four bytes. -/
theorem width_le (lead : UInt8) : width lead ≤ 4 := by
  unfold width
  split_ifs <;> decide

/-- A byte that continues a character leads none. -/
theorem width_of_continues {byte : UInt8} (hbyte : continues byte = true) : width byte = 0 := by
  by_contra hwidth
  simp [continues_of_width_ne_zero hwidth] at hbyte

/-- A byte that leads no character is a piece of its own. -/
theorem chunks_of_width_eq_zero {lead : UInt8} (hlead : width lead = 0) (rest : Bytes) :
    chunks (lead :: rest) = .broken [lead] :: chunks rest := by
  conv_lhs => unfold chunks
  split <;> simp_all

/-- A piece is a byte and at most three that continue it. -/
theorem bytes_eq_cons_of_chunks_eq_cons {input : Bytes} {chunk : Chunk} {more : List Chunk}
    (hcut : chunks input = chunk :: more) :
    ∃ lead tail, chunk.bytes = lead :: tail ∧ tail.length ≤ 3 ∧
      ∀ byte ∈ tail, continues byte = true := by
  have hsecond := @continues_of_secondOf
  revert hcut
  fun_cases chunks input <;> rintro ⟨⟩ <;> refine ⟨_, _, rfl, ?_, ?_⟩ <;> simp_all <;>
    exact hsecond ‹_›

/-- A broken piece in front of another byte is one whatever follows that. -/
theorem chunks_broken_append {bytes rest : Bytes} {next : UInt8} {more : List Chunk}
    (hcut : chunks (bytes ++ next :: rest) = .broken bytes :: more) (others : Bytes) :
    chunks (bytes ++ next :: others) = .broken bytes :: chunks (next :: others) := by
  generalize hinput : bytes ++ next :: rest = input at hcut
  revert hcut
  fun_cases chunks input
  case case19 lead after hone htwo hthree hfour hfourThree hthreeTwo hfourTwo =>
    rintro ⟨⟩
    obtain ⟨-, rfl⟩ := List.cons.inj hinput
    have hle := width_le lead
    have hnotTwo : width lead ≠ 2 := fun hwidth ↦ htwo _ _ hwidth rfl
    have hnotThree : width lead ≠ 3 := fun hwidth ↦ by
      rcases rest with _ | ⟨third, rest⟩
      · exact hthreeTwo _ hwidth rfl
      · exact hthree _ _ _ hwidth rfl
    have hnotFour : width lead ≠ 4 := fun hwidth ↦ by
      rcases rest with _ | ⟨third, _ | ⟨fourth, rest⟩⟩
      · exact hfourTwo _ hwidth rfl
      · exact hfourThree _ _ hwidth rfl
      · exact hfour _ _ _ _ hwidth rfl
    have hnotOne : width lead ≠ 1 := hone
    exact chunks_of_width_eq_zero (by omega) _
  all_goals
    rintro ⟨⟩ <;> rcases others with _ | ⟨_, _ | ⟨_, _⟩⟩ <;> simp_all [chunks]

/-- Bytes that continue characters are pieces of their own where none leads them. -/
theorem chunks_continues_append {bytes : Bytes}
    (hbytes : ∀ byte ∈ bytes, continues byte = true) (rest : Bytes) :
    chunks (bytes ++ rest) = bytes.map (fun byte ↦ Chunk.broken [byte]) ++ chunks rest := by
  induction bytes with
  | nil => rfl
  | cons byte bytes ih =>
    obtain ⟨hbyte, hbytes⟩ := List.forall_mem_cons.mp hbytes
    rw [List.cons_append, chunks_of_width_eq_zero (width_of_continues hbyte), ih hbytes]
    rfl

/-- Bytes are cut between two pieces, so that reading them apart reads the same. -/
def Joined (front back : Bytes) : Prop := chunks (front ++ back) = chunks front ++ chunks back

instance (front back : Bytes) : Decidable (Joined front back) :=
  inferInstanceAs (Decidable (chunks (front ++ back) = chunks front ++ chunks back))

/-- A piece is read as four bytes at most. -/
theorem length_shown_le {input : Bytes} {chunk : Chunk} {more : List Chunk}
    (hcut : chunks input = chunk :: more) : chunk.shown.length ≤ 4 := by
  obtain ⟨lead, tail, hbytes, hlength, -⟩ := bytes_eq_cons_of_chunks_eq_cons hcut
  cases chunk with
  | character bytes =>
    obtain rfl : bytes = lead :: tail := hbytes
    exact Nat.succ_le_succ hlength
  | broken bytes => exact Nat.le_succ 3

/-- Bytes that are broken on their own are so as a piece of more. -/
theorem eq_broken_of_bytes_eq {bytes back : Bytes} {chunk : Chunk} {more : List Chunk}
    (hbytes : chunks bytes = [.broken bytes]) (hcut : chunks (bytes ++ back) = chunk :: more)
    (hsame : chunk.bytes = bytes) : chunk = .broken bytes := by
  cases chunk with
  | broken cut => exact congrArg Chunk.broken hsame
  | character cut =>
    obtain rfl : cut = bytes := hsame
    have hself := chunks_character_append hcut []
    rw [List.append_nil, hbytes] at hself
    exact absurd hself (by simp)

/-- A broken piece at the end: what follows is apart from it, or goes on with it and reads longer
for being cut off. -/
theorem joined_or_lt_of_broken {bytes : Bytes} (hbytes : chunks bytes = [.broken bytes])
    (back : Bytes) :
    Joined bytes back ∨
      (lossy (bytes ++ back)).length < (lossy bytes).length + (lossy back).length := by
  have hne : bytes ≠ [] := by
    rintro rfl
    exact absurd hbytes (by simp [chunks])
  cases hcut : chunks (bytes ++ back) with
  | nil => exact absurd (List.append_eq_nil_iff.mp (chunks_eq_nil_iff.mp hcut)).1 hne
  | cons chunk more =>
    obtain ⟨rest, hsplit, rfl⟩ := eq_append_of_chunks_eq_cons hcut
    rcases List.append_eq_append_iff.mp hsplit with ⟨gone, hchunk, rfl⟩ | ⟨beyond, hover, rfl⟩
    · cases gone with
      | nil =>
        refine Or.inl ?_
        rw [List.append_nil] at hchunk
        rw [Joined, hcut, hbytes, eq_broken_of_bytes_eq hbytes hcut hchunk]
        rfl
      | cons next gone =>
        refine Or.inr ?_
        obtain ⟨lead, tail, hlead, -, htail⟩ := bytes_eq_cons_of_chunks_eq_cons hcut
        obtain ⟨first, others, rfl⟩ := List.exists_cons_of_ne_nil hne
        rw [hchunk] at hlead
        obtain rfl := (List.cons.inj hlead).2
        have hgone : ∀ byte ∈ next :: gone, continues byte = true :=
          fun byte hbyte ↦ htail byte (List.mem_append_right _ hbyte)
        have hshown := length_shown_le hcut
        have hback := chunks_continues_append hgone rest
        have hlong : 3 ≤ (((next :: gone).map fun byte ↦ Chunk.broken [byte]).flatMap
            Chunk.shown).length := by
          simp [Chunk.shown, replacement]
        rw [lossy, lossy, lossy, hcut, hbytes, hback, List.flatMap_cons, List.flatMap_cons,
          List.flatMap_append, List.length_append, List.length_append, List.length_append]
        have hfirst : (Chunk.broken (first :: others)).shown.length = 3 := rfl
        omega
    · cases beyond with
      | nil =>
        refine Or.inl ?_
        rw [List.append_nil] at hover
        rw [Joined, hcut, hbytes, eq_broken_of_bytes_eq hbytes hcut hover.symm]
        rfl
      | cons next beyond =>
        cases chunk with
        | character cut =>
          obtain rfl : bytes = cut ++ next :: beyond := hover
          rw [chunks_character_append hcut] at hbytes
          exact absurd (List.cons.inj hbytes).1 (by simp)
        | broken cut =>
          obtain rfl : bytes = cut ++ next :: beyond := hover
          rw [List.append_assoc, List.cons_append] at hcut
          rw [chunks_broken_append hcut] at hbytes
          exact absurd (chunks_eq_nil_iff.mp (List.cons.inj hbytes).2) (by simp)

/-- Bytes cut within a piece read longer apart than together. -/
theorem joined_or_lt (front back : Bytes) :
    Joined front back ∨
      (lossy (front ++ back)).length < (lossy front).length + (lossy back).length := by
  generalize hcut : chunks front = pieces
  induction pieces generalizing front with
  | nil =>
    obtain rfl := chunks_eq_nil_iff.mp hcut
    exact Or.inl rfl
  | cons chunk more ih =>
    obtain ⟨rest, rfl, hrest⟩ := eq_append_of_chunks_eq_cons hcut
    have hlater : chunks (chunk.bytes ++ (rest ++ back)) = chunk :: chunks (rest ++ back) →
        Joined (chunk.bytes ++ rest) back ∨
          (lossy (chunk.bytes ++ rest ++ back)).length <
            (lossy (chunk.bytes ++ rest)).length + (lossy back).length := by
      intro hfirst
      rcases ih rest hrest with hjoined | hlt
      · refine Or.inl ?_
        rw [Joined, List.append_assoc, hfirst, hjoined, hcut, hrest, List.cons_append]
      · refine Or.inr ?_
        rw [lossy, List.append_assoc, hfirst, lossy, hcut, ← hrest, List.flatMap_cons,
          List.flatMap_cons, List.length_append, List.length_append, ← lossy, ← lossy]
        omega
    cases chunk with
    | character bytes => exact hlater (chunks_character_append hcut _)
    | broken bytes =>
      cases rest with
      | nil =>
        change chunks (bytes ++ []) = .broken bytes :: more at hcut
        rw [List.append_nil] at hcut
        obtain rfl := (chunks_eq_nil_iff.mpr rfl).symm.trans hrest
        change Joined (bytes ++ []) back ∨ _
        rw [Chunk.bytes, List.append_nil]
        exact joined_or_lt_of_broken hcut back
      | cons next rest => exact hlater (chunks_broken_append hcut _)

/-- Bytes read the same apart and together exactly where they are cut between two pieces. -/
theorem lossy_append_iff {front back : Bytes} :
    lossy (front ++ back) = lossy front ++ lossy back ↔ Joined front back := by
  refine ⟨fun hlossy ↦ (joined_or_lt front back).resolve_right fun hlt ↦ ?_, fun hjoined ↦ ?_⟩
  · rw [hlossy, List.length_append] at hlt
    exact hlt.false
  · rw [lossy, hjoined, List.flatMap_append]
    rfl

/-- Bytes read no shorter apart than together. -/
theorem length_lossy_append_le (front back : Bytes) :
    (lossy (front ++ back)).length ≤ (lossy front).length + (lossy back).length := by
  rcases joined_or_lt front back with hjoined | hlt
  · rw [lossy_append_iff.mpr hjoined, List.length_append]
  · exact hlt.le

/-- Only nothing is read as nothing. -/
theorem lossy_eq_nil_iff {input : Bytes} : lossy input = [] ↔ input = [] := by
  refine ⟨fun hnil ↦ ?_, fun hinput ↦ by rw [hinput]; rfl⟩
  cases hcut : chunks input with
  | nil => exact chunks_eq_nil_iff.mp hcut
  | cons chunk more =>
    obtain ⟨lead, tail, hbytes, -⟩ := bytes_eq_cons_of_chunks_eq_cons hcut
    rw [lossy, hcut, List.flatMap_cons, List.append_eq_nil_iff] at hnil
    cases chunk with
    | character bytes => exact absurd (hnil.1.symm.trans hbytes) (by simp)
    | broken bytes => exact absurd hnil.1 (by simp [Chunk.shown, replacement])

/-- Of two places to cut bytes, each is one within what the other leaves. -/
theorem Joined.left {first middle last : Bytes} (hfirst : Joined first (middle ++ last))
    (hlast : Joined (first ++ middle) last) : Joined first middle := by
  generalize hcut : chunks first = pieces
  induction pieces generalizing first with
  | nil =>
    obtain rfl := chunks_eq_nil_iff.mp hcut
    rfl
  | cons chunk more ih =>
    obtain ⟨rest, rfl, hrest⟩ := eq_append_of_chunks_eq_cons hcut
    rw [Joined, hcut, List.append_assoc, List.cons_append] at hfirst
    -- the first piece of all the bytes is the first piece of those in front of the last
    cases hfront : chunks (chunk.bytes ++ rest ++ middle) with
    | nil =>
      obtain ⟨hchunk, -⟩ := List.append_eq_nil_iff.mp (chunks_eq_nil_iff.mp hfront)
      exact absurd (hcut.symm.trans (chunks_eq_nil_iff.mpr hchunk)) (by simp)
    | cons head others =>
      rw [Joined, hfront, List.append_assoc, List.append_assoc, hfirst, List.cons_append] at hlast
      obtain ⟨rfl, hothers⟩ := List.cons.inj hlast
      obtain ⟨left, hleft, rfl⟩ := eq_append_of_chunks_eq_cons hfront
      obtain rfl : rest ++ middle = left := by
        rw [List.append_assoc] at hleft
        exact List.append_cancel_left hleft
      obtain ⟨all, hall, hmore⟩ := eq_append_of_chunks_eq_cons hfirst
      obtain rfl : rest ++ (middle ++ last) = all := List.append_cancel_left hall
      have hjoined : Joined rest middle := by
        refine ih ?_ ?_ hrest
        · rw [Joined, hmore, hrest]
        · rw [Joined, List.append_assoc, hmore, hothers]
      rw [Joined, hfront, hjoined, hcut, hrest, List.cons_append]

/-- Behind one place to cut bytes, another is one of all of them exactly if it is one of what
follows the first. -/
theorem Joined.append_iff {first middle last : Bytes} (hfirst : Joined first (middle ++ last)) :
    Joined (first ++ middle) last ↔ Joined middle last := by
  constructor
  · intro hlast
    have hleft := hfirst.left hlast
    rw [Joined, List.append_assoc, hfirst, hleft, List.append_assoc] at hlast
    exact List.append_cancel_left hlast
  · intro hlast
    -- the bytes in front of the last cannot read shorter, as all of them would
    have hleft : Joined first middle := by
      refine (joined_or_lt first middle).resolve_right fun hlt ↦ ?_
      have hall := length_lossy_append_le (first ++ middle) last
      rw [List.append_assoc, lossy_append_iff.mpr hfirst, lossy_append_iff.mpr hlast,
        List.length_append, List.length_append] at hall
      omega
    rw [Joined, List.append_assoc, hfirst, hlast, hleft, List.append_assoc]

end OmniaBackends.Foundation.Utf8
