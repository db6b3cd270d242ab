import Mathlib.Data.List.DropRight
import OmniaBackends.Foundation.Languages
import OmniaBackends.Git.Glob

/-!
# What a glob means

A pattern means the texts that split into pieces, one for each of its tokens in order (`Splits`),
the tokens as they stand in the pattern (`unfolded`). That is the product of the languages of the
tokens, in which a fold of adjacent wildcards is a fold of factors (`denotes_tokens`), and each row
of the table says which cuts of the text are words of the product so far (`Row.next`). So neither
the folds nor the table nor the count of bytes before it change what is matched (`matchesPath_iff`),
and all are what a plain backtracking matcher answers.
-/

set_option autoImplicit false
set_option relaxedAutoImplicit false

namespace OmniaBackends.Git

open Foundation

/-! ### The meaning -/

/-- Whether a token takes a piece of a text. -/
def Token.takes : Token → Bytes → Bool
  | .byte want, piece => piece = [want]
  | .one, piece => piece.length = 1 && !piece.contains slash
  | .star, piece => !piece.contains slash
  | .dirs, piece => piece.isEmpty || piece.getLast? = some slash
  | .all, _ => true

/-- The tokens of a pattern as they stand there. -/
def unfolded : Bytes → List Token
  | [] => []
  | byte :: rest =>
    if byte = 0x2A then
      match rest with
      | 0x2A :: 0x2F :: rest => .dirs :: unfolded rest
      | 0x2A :: rest => .all :: unfolded rest
      | rest => .star :: unfolded rest
    else if byte = 0x3F then .one :: unfolded rest
    else .byte byte :: unfolded rest

/-- A text splits into pieces that the tokens take, in order. -/
def Splits (tokens : List Token) (content : Bytes) : Prop :=
  ∃ pieces, List.Forall₂ (fun token piece ↦ token.takes piece = true) tokens pieces ∧
    pieces.flatten = content

/-- Whether tokens match a text whole, each first piece tried. -/
def backtracks : List Token → Bytes → Bool
  | [], content => content.isEmpty
  | token :: tokens, content => (List.range (content.length + 1)).any fun cut ↦
    token.takes (content.take cut) && backtracks tokens (content.drop cut)

/-- The pattern without the slash that anchors it. -/
def anchored (pattern : Bytes) : Bytes :=
  if pattern.head? = some slash then pattern.tail else pattern

/-- What a pattern is matched with: the path, or its last component. -/
def subject (pattern path : Bytes) : Bytes :=
  if slash ∈ pattern then path else path.rtakeWhile (· ≠ slash)

variable {token : Token} {parts read : List Token} {content piece : Bytes}

/-- The matcher that tries each first piece finds a split where there is one. -/
theorem backtracks_iff : backtracks parts content = true ↔ Splits parts content := by
  induction parts generalizing content with
  | nil =>
    rw [backtracks, List.isEmpty_iff]
    constructor
    · rintro rfl
      exact ⟨[], List.Forall₂.nil, rfl⟩
    · rintro ⟨pieces, hpieces, rfl⟩
      cases hpieces
      rfl
  | cons token parts ih =>
    simp only [backtracks, List.any_eq_true, List.mem_range, Bool.and_eq_true, ih]
    constructor
    · rintro ⟨cut, -, htakes, pieces, hpieces, hrest⟩
      refine ⟨content.take cut :: pieces, List.Forall₂.cons htakes hpieces, ?_⟩
      rw [List.flatten_cons, hrest, List.take_append_drop]
    · rintro ⟨pieces, hpieces, rfl⟩
      cases hpieces with
      | @cons _ piece _ rest htakes hrest =>
        refine ⟨piece.length, ?_, ?_, rest, hrest, ?_⟩
        · rw [List.flatten_cons, List.length_append]
          omega
        · rwa [List.flatten_cons, List.take_left]
        · rw [List.flatten_cons, List.drop_left]

/-! ### The language of a pattern -/

/-- The texts that a token takes. -/
def Token.language (token : Token) : Language UInt8 :=
  {piece | token.takes piece = true}

/-- The texts that tokens take one after the other. -/
def denotes (parts : List Token) : Language UInt8 :=
  (parts.map Token.language).prod

theorem mem_denotes_iff : content ∈ denotes parts ↔ Splits parts content := by
  rw [denotes, mem_prod_iff]
  refine exists_congr fun pieces ↦ and_congr_left fun _ ↦ ?_
  rw [List.forall₂_map_right_iff]
  exact ⟨List.Forall₂.flip, List.Forall₂.flip⟩

theorem denotes_append (first second : List Token) :
    denotes (first ++ second) = denotes first * denotes second := by
  rw [denotes, List.map_append, List.prod_append]
  rfl

theorem denotes_singleton (token : Token) : denotes [token] = token.language := by
  rw [denotes, List.map_singleton, List.prod_singleton]

theorem language_byte (want : UInt8) : (Token.byte want).language = one (· = want) := by
  ext piece
  change (Token.byte want).takes piece = true ↔ _
  rw [mem_one_iff, Token.takes, decide_eq_true_eq, exists_eq_left]

theorem language_one : Token.one.language = one (· ≠ slash) := by
  ext piece
  change Token.one.takes piece = true ↔ _
  rw [mem_one_iff, Token.takes, Bool.and_eq_true, decide_eq_true_eq, List.length_eq_one_iff]
  have hcontains (byte : UInt8) : (!List.contains [byte] slash) = true ↔ byte ≠ slash := by
    rw [Bool.not_eq_true', ← Bool.not_eq_true, List.contains_iff_mem, List.mem_singleton, ne_comm]
  constructor
  · rintro ⟨⟨byte, rfl⟩, hbyte⟩
    exact ⟨byte, (hcontains byte).mp hbyte, rfl⟩
  · rintro ⟨byte, hbyte, rfl⟩
    exact ⟨⟨byte, rfl⟩, (hcontains byte).mpr hbyte⟩

theorem language_star : Token.star.language = runs (· ≠ slash) := by
  ext piece
  change Token.star.takes piece = true ↔ _
  rw [mem_runs_iff, Token.takes, Bool.not_eq_true', ← Bool.not_eq_true, List.contains_iff_mem]
  exact ⟨fun hslash byte hbyte heq ↦ hslash (heq ▸ hbyte),
    fun hpiece hslash ↦ hpiece slash hslash rfl⟩

theorem language_dirs : Token.dirs.language = upTo slash := by
  ext piece
  change Token.dirs.takes piece = true ↔ _
  rw [mem_upTo_iff, Token.takes, Bool.or_eq_true, List.isEmpty_iff, decide_eq_true_eq,
    List.getLast?_eq_some_iff]

theorem language_all : Token.all.language = runs fun _ ↦ True := by
  ext piece
  exact iff_of_true rfl fun _ _ ↦ trivial

/-- A wildcard takes the empty text. -/
theorem Token.nil_mem_of_wild (hwild : token.wild = true) : [] ∈ token.language := by
  cases token with
  | byte | one => cases hwild
  | star | dirs | all => exact (rfl : _ = true)

/-- Two wildcards of a kind take what one does. -/
theorem Token.language_mul_self (hwild : token.wild = true) :
    token.language * token.language = token.language := by
  cases token with
  | byte | one => cases hwild
  | star => rw [language_star, runs_mul_runs]
  | dirs => rw [language_dirs, upTo_mul_upTo]
  | all => rw [language_all, runs_mul_runs]

/-- A token that is folded with those before it takes what it does after them. -/
theorem denotes_pushToken (token : Token) (read : List Token) :
    denotes (pushToken token read).reverse = denotes read.reverse * token.language := by
  cases read with
  | nil =>
    rw [pushToken, List.reverse_nil, List.reverse_singleton, denotes_singleton]
    exact (one_mul _).symm
  | cons last earlier =>
    have hpushed : denotes (token :: last :: earlier).reverse =
        denotes (last :: earlier).reverse * token.language := by
      rw [List.reverse_cons, denotes_append, denotes_singleton]
    have hlast (folded : Token) (hfolded : last.language * token.language = folded.language) :
        denotes (folded :: earlier).reverse =
          denotes (last :: earlier).reverse * token.language := by
      rw [List.reverse_cons, List.reverse_cons, denotes_append, denotes_append, denotes_singleton,
        denotes_singleton, mul_assoc, hfolded]
    rw [pushToken]
    split_ifs with hwild hall hsame
    · rw [Bool.and_eq_true] at hwild
      refine hlast .all ?_
      rw [Bool.or_eq_true, decide_eq_true_eq, decide_eq_true_eq] at hall
      rcases hall with rfl | rfl
      · rw [language_all, runs_true_mul (Token.nil_mem_of_wild hwild.2)]
      · rw [language_all, mul_runs_true (Token.nil_mem_of_wild hwild.1)]
    · exact hpushed
    · rw [ne_eq, not_not] at hsame
      rw [Bool.and_eq_true] at hwild
      subst hsame
      exact hlast last (Token.language_mul_self hwild.1)
    · exact hpushed

theorem unfolded_cons {byte : UInt8} (rest : Bytes) (hstar : byte ≠ 0x2A) :
    unfolded (byte :: rest) =
    if byte = 0x3F then .one :: unfolded rest else .byte byte :: unfolded rest := by
  rw [unfolded.eq_def]
  exact if_neg hstar

/-- The folds leave what a pattern takes. -/
theorem denotes_tokensFrom (read : List Token) (pattern : Bytes) :
    denotes (tokensFrom read pattern) = denotes read.reverse * denotes (unfolded pattern) := by
  have hstep (token : Token) (read rest : List Token) :
      denotes (pushToken token read).reverse * denotes rest =
        denotes read.reverse * denotes (token :: rest) := by
    rw [denotes_pushToken, mul_assoc, ← denotes_singleton token, ← denotes_append,
      List.singleton_append]
  fun_induction tokensFrom read pattern with
  | case1 read => exact (mul_one _).symm
  | case2 read rest ih => rw [ih, hstep]; simp [unfolded]
  | case3 read rest hrest ih => rw [ih, hstep]; simp [unfolded]
  | case4 read rest hdirs hall ih => rw [ih, hstep]; simp [unfolded]
  | case5 read rest hstar ih => rw [ih, hstep, unfolded_cons rest hstar, if_pos rfl]
  | case6 read byte rest hstar hone ih => rw [ih, hstep, unfolded_cons rest hstar, if_neg hone]

/-! ### The rows of the table -/

/-- The texts up to each cut of a content, after what was seen. -/
def cuts (seen : Bytes) : Bytes → List Bytes
  | [] => [seen]
  | byte :: content => seen :: cuts (seen ++ [byte]) content

/-- A row says which texts are in a language. -/
abbrev Row (language : Language UInt8) (row : List Bool) (texts : List Bytes) : Prop :=
  List.Forall₂ (fun reached text ↦ reached = true ↔ text ∈ language) row texts

variable {row : List Bool} {seen : Bytes} {language : Language UInt8} {takes : UInt8 → Bool}

theorem cuts_eq_cons (seen content : Bytes) :
    cuts seen content = seen :: (cuts seen content).tail := by
  cases content <;> rfl

/-- A token of one byte leads from each cut to the next. -/
theorem Row.zipWith (hrow : Row language row (cuts seen content)) :
    Row (language * one (takes · = true))
      (List.zipWith (fun reached byte ↦ reached && takes byte) row content)
        (cuts seen content).tail := by
  induction content generalizing seen row with
  | nil => rw [List.zipWith_nil_right]; exact List.Forall₂.nil
  | cons byte content ih =>
    cases hrow with
    | cons hhead hrow =>
      have hrest := ih hrow
      rw [List.zipWith_cons_cons, cuts, List.tail_cons, cuts_eq_cons]
      refine List.Forall₂.cons ?_ hrest
      rw [Bool.and_eq_true, hhead, concat_mem_mul_one_iff]

/-- A run goes on from a cut, or from the one before it. -/
theorem Row.spread {last : Bool} (hlast : last = true ↔ seen ∈ language * runs (takes · = true))
    (hrow : Row language row (cuts seen content).tail) :
    Row (language * runs (takes · = true)) (spreadRow takes last row content)
      (cuts seen content).tail := by
  induction content generalizing seen row last with
  | nil =>
    cases hrow
    exact List.Forall₂.nil
  | cons byte content ih =>
    rw [cuts, List.tail_cons, cuts_eq_cons] at hrow ⊢
    cases hrow with
    | @cons reached _ row _ hhead hrow =>
      have hnow : (reached || last && takes byte) = true ↔
          seen ++ [byte] ∈ language * runs (takes · = true) := by
        rw [Bool.or_eq_true, Bool.and_eq_true, hhead, hlast, concat_mem_mul_runs_iff]
      exact List.Forall₂.cons hnow (ih hnow hrow)

/-- Whole components lead from any cut before to one behind a slash. -/
theorem Row.dirs {opened : Bool} (hopened : opened = true ↔ seen ∈ language * runs fun _ ↦ True)
    (hrow : Row language row (cuts seen content).tail) :
    Row (language * upTo slash) (dirsRow opened row content) (cuts seen content).tail := by
  induction content generalizing seen row opened with
  | nil =>
    cases hrow
    exact List.Forall₂.nil
  | cons byte content ih =>
    rw [cuts, List.tail_cons, cuts_eq_cons] at hrow ⊢
    cases hrow with
    | @cons reached _ row _ hhead hrow =>
      refine List.Forall₂.cons ?_ (ih ?_ hrow)
      · rw [Bool.or_eq_true, Bool.and_eq_true, hhead, hopened, decide_eq_true_eq,
          concat_mem_mul_upTo_iff]
      · rw [Bool.or_eq_true, hhead, hopened, concat_mem_mul_runs_iff, or_comm, and_true]

/-- A row is followed by the row of one more token. -/
theorem Row.next (hrow : Row language row (cuts [] content)) (token : Token) :
    Row (language * token.language) (nextRow token row content) (cuts [] content) := by
  have hone (takes : UInt8 → Bool) : Row (language * one (takes · = true))
      (stepRow takes row content)
      (cuts [] content) := by
    rw [cuts_eq_cons]
    refine List.Forall₂.cons ?_ hrow.zipWith
    refine iff_of_false (by simp) fun hnil ↦ ?_
    obtain ⟨byte, -, hbyte⟩ := (nil_mem_mul_iff.mp hnil).2
    cases hbyte
  have hfirst {second : Language UInt8} (hnil : [] ∈ second) :
      [] ∈ language * second ↔ [] ∈ language := by
    rw [nil_mem_mul_iff, and_iff_left hnil]
  cases token with
  | byte want =>
    have hnext := hone fun byte ↦ byte = want
    simp only [decide_eq_true_eq] at hnext
    rw [language_byte]
    exact hnext
  | one =>
    have hnext := hone fun byte ↦ byte ≠ slash
    simp only [decide_eq_true_eq] at hnext
    rw [language_one]
    exact hnext
  | star =>
    rw [cuts_eq_cons] at hrow ⊢
    cases hrow with
    | @cons reached _ row _ hhead hrow =>
      have hrun : reached = true ↔ [] ∈ language * runs fun byte ↦ decide (byte ≠ slash) = true :=
        hhead.trans (hfirst (by simp [mem_runs_iff])).symm
      have hnext : Row _ (reached :: spreadRow _ reached row content)
          ([] :: (cuts [] content).tail) :=
        List.Forall₂.cons hrun (Row.spread hrun hrow)
      simp only [decide_eq_true_eq] at hnext
      rw [language_star]
      exact hnext
  | dirs =>
    rw [cuts_eq_cons] at hrow ⊢
    cases hrow with
    | @cons reached _ row _ hhead hrow =>
      rw [language_dirs]
      exact List.Forall₂.cons (hhead.trans (hfirst (Or.inl rfl)).symm)
        (Row.dirs (hhead.trans (hfirst (by simp [mem_runs_iff])).symm) hrow)
  | all =>
    rw [cuts_eq_cons] at hrow ⊢
    cases hrow with
    | @cons reached _ row _ hhead hrow =>
      have hrun : reached = true ↔ [] ∈ language * runs fun _ : UInt8 ↦ true = true :=
        hhead.trans (hfirst (by simp [mem_runs_iff])).symm
      have hnext : Row _ (reached :: spreadRow _ reached row content)
          ([] :: (cuts [] content).tail) :=
        List.Forall₂.cons hrun (Row.spread hrun hrow)
      simp only at hnext
      rw [language_all]
      exact hnext

/-- The last row of the table. -/
theorem Row.foldl (hrow : Row language row (cuts [] content)) (parts : List Token) :
    Row (language * denotes parts) (parts.foldl (fun row token ↦ nextRow token row content) row)
      (cuts [] content) := by
  induction parts generalizing language row with
  | nil =>
    rw [show denotes [] = 1 from rfl, mul_one]
    exact hrow
  | cons token parts ih =>
    have hparts := ih (hrow.next token)
    rw [mul_assoc, ← denotes_singleton, ← denotes_append] at hparts
    exact hparts

/-- Before any token only the empty text is matched. -/
theorem row_start (content : Bytes) : Row 1 (true :: content.map fun _ ↦ false)
    (cuts [] content) := by
  have hrest (seen content : Bytes) (hseen : seen ≠ []) :
      Row 1 (false :: content.map fun _ ↦ false) (cuts seen content) := by
    induction content generalizing seen with
    | nil => exact List.Forall₂.cons (by simpa using hseen) List.Forall₂.nil
    | cons byte content ih =>
      exact List.Forall₂.cons (by simpa using hseen) (ih (seen ++ [byte]) (by simp))
  cases content with
  | nil => exact List.Forall₂.cons (by simp) List.Forall₂.nil
  | cons byte content => exact List.Forall₂.cons (by simp) (hrest [byte] content (by simp))

/-- A row ends with the whole content. -/
theorem Row.getLast? (hrow : Row language row (cuts seen content)) :
    row.getLast? = some true ↔ seen ++ content ∈ language := by
  induction content generalizing seen row with
  | nil =>
    cases hrow with
    | cons hhead hrow =>
      cases hrow
      rw [List.append_nil, ← hhead, List.getLast?_singleton, Option.some.injEq]
  | cons byte content ih =>
    cases hrow with
    | cons hhead hrow =>
      rw [List.append_cons, ← ih hrow]
      rw [cuts_eq_cons] at hrow
      cases hrow
      rw [List.getLast?_cons_cons]

/-- A text is as long as the tokens of one byte are many. -/
theorem Splits.needsByte_le (hsplits : Splits parts content) :
    (parts.filter Token.needsByte).length ≤ content.length := by
  obtain ⟨pieces, hpieces, rfl⟩ := hsplits
  induction hpieces with
  | nil => exact Nat.le_refl 0
  | @cons token piece parts pieces htakes hpieces ih =>
    rw [List.flatten_cons, List.length_append, List.filter_cons]
    have hpiece (hneeds : token.needsByte = true) : piece.length = 1 := by
      cases token with
      | byte want => rw [of_decide_eq_true htakes]; rfl
      | one =>
        rw [Token.takes, Bool.and_eq_true, decide_eq_true_eq] at htakes
        exact htakes.1
      | star | dirs | all => cases hneeds
    split_ifs with hneeds
    · rw [List.length_cons, hpiece hneeds]
      omega
    · omega

/-- A glob matches the texts that its pattern means. -/
theorem glob_iff (pattern content : Bytes) :
    glob pattern content = true ↔ Splits (unfolded pattern) content := by
  have htokens : denotes (tokens pattern) = denotes (unfolded pattern) := by
    rw [tokens, denotes_tokensFrom]
    exact one_mul _
  have hrow := (row_start content).foldl (tokens pattern)
  rw [one_mul] at hrow
  rw [← mem_denotes_iff, ← htokens, glob]
  dsimp only
  split_ifs with hlong
  · refine iff_of_false (by simp) fun hmem ↦ ?_
    exact absurd (mem_denotes_iff.mp hmem).needsByte_le (not_le.mpr hlong)
  · rw [decide_eq_true_eq]
    exact hrow.getLast?

/-- What stands behind the last slash is the last component. -/
theorem lastComponent_eq (path : Bytes) :
    ((rsplitOnce slash path).map Prod.snd).getD path = path.rtakeWhile (· ≠ slash) := by
  cases hsplit : rsplitOnce slash path with
  | none =>
    have hslash := rsplitOnce_eq_none_iff.mp hsplit
    refine (List.rtakeWhile_eq_self_iff.mpr fun byte hbyte ↦ ?_).symm
    exact decide_eq_true fun heq ↦ hslash (heq ▸ hbyte)
  | some halves =>
    obtain ⟨before, after⟩ := halves
    obtain ⟨rfl, hslash⟩ := rsplitOnce_eq_some_iff.mp hsplit
    have htake : after.reverse.takeWhile (· ≠ slash) = after.reverse := by
      rw [List.takeWhile_eq_self_iff]
      exact fun byte hbyte ↦ decide_eq_true fun heq ↦ hslash (heq ▸ List.mem_reverse.mp hbyte)
    have hall : ∀ byte ∈ after.reverse, decide (byte ≠ slash) = true :=
      List.takeWhile_eq_self_iff.mp htake
    rw [List.rtakeWhile, List.reverse_append, List.reverse_cons, List.append_assoc,
      List.takeWhile_append_of_pos hall]
    simp

/-- A rule's pattern matches the paths that it means: those of which the part it is about splits
into pieces that its tokens take in order, as the plain matcher finds out. -/
theorem matchesPath_iff (pattern path : Bytes) :
    (matchesPath pattern path = true ↔ Splits (unfolded (anchored pattern))
      (subject pattern path)) ∧
      matchesPath pattern path = backtracks (unfolded (anchored pattern))
        (subject pattern path) := by
  have hglob : matchesPath pattern path = glob (anchored pattern) (subject pattern path) := by
    rw [matchesPath, subject]
    by_cases hslash : slash ∈ pattern
    · rw [if_pos hslash, if_pos hslash]
      rfl
    · have hplain : anchored pattern = pattern :=
        if_neg fun hhead ↦ hslash (List.mem_of_mem_head? hhead)
      rw [if_neg hslash, if_neg hslash, hplain, lastComponent_eq]
  have hiff := glob_iff (anchored pattern) (subject pattern path)
  rw [hglob]
  refine ⟨hiff, ?_⟩
  rw [Bool.eq_iff_iff, hiff, backtracks_iff]

end OmniaBackends.Git
