import OmniaBackends.Git.GlobMeaning
import Mathlib.Data.List.Chain

/-!
# The size of the glob table

A guest writes the pattern and the table has a row for each of its tokens, so the tokens must not
outnumber the path's bytes by more than a constant factor. `tokens` takes `**` before `*`, and so
what follows a lone star in the pattern is no star. While a pattern is read, two wildcards stand
next to each other only as `**/` and then a star, and a star read last is followed by no wildcard
(`Folded`). With at most two wildcards between tokens of one byte, the tokens are at most three
for each byte that `glob` requires of the path, and two more.
-/

set_option autoImplicit false
set_option relaxedAutoImplicit false

namespace OmniaBackends.Git

open Foundation

/-! ### Lists without three in a row -/

section Runs

variable {α : Type*} {wild : α → Bool}

/-- No three elements next to one another satisfy a test. -/
def NoThree (wild : α → Bool) (list : List α) : Prop :=
  ∀ before first second third after, list = before ++ first :: second :: third :: after →
    ¬ (wild first = true ∧ wild second = true ∧ wild third = true)

/-- Neither do any in the rest of the list. -/
theorem NoThree.tail {head : α} {list : List α} (hnone : NoThree wild (head :: list)) :
    NoThree wild list := fun before first second third after heq ↦
  hnone (head :: before) first second third after (by rw [heq, List.cons_append])

/-- A list without three in a row that pass is at most three times as long as the number that
fail, and two more. -/
theorem NoThree.length_le : ∀ {list : List α}, NoThree wild list →
    list.length ≤ 3 * (list.filter fun element ↦ !wild element).length + 2
  | [], _ => by simp
  | [_], _ => by simp
  | [_, _], _ => by simp
  | first :: second :: third :: list, hnone => by
    have hsome : ¬ (wild first = true ∧ wild second = true ∧ wild third = true) :=
      hnone [] first second third list rfl
    have hlist := hnone.tail.tail.tail.length_le
    simp only [List.length_cons, List.filter_cons]
    cases hfirst : wild first with
    | false => grind
    | true => grind

end Runs

/-! ### What can precede a wildcard -/

/-- What two tokens next to each other may be: two wildcards only as `**/` and then a star. -/
def Beside (later earlier : Token) : Prop :=
  later.wild = true → earlier.wild = true → later = .star ∧ earlier = .dirs

/-- The tokens read so far, held last first, with what is left of the pattern: the wildcards among
them are folded, and no star follows a star read last. -/
structure Folded (read : List Token) (rest : Bytes) : Prop where
  /-- Which wildcards stand next to each other. -/
  beside : read.IsChain Beside
  /-- A lone star was read only where no star follows. -/
  lone : read.head? = some .star → rest.head? ≠ some 0x2A

variable {read : List Token} {rest later : Bytes} {token : Token}

/-- A token of one byte stands beside any other. -/
theorem Beside.of_not_wild {earlier : Token} (hwild : token.wild = false) : Beside token earlier :=
  fun hlater ↦ absurd (hwild.symm.trans hlater) Bool.false_ne_true

/-- A token of one byte is put after the others. -/
theorem Folded.push_needsByte (hfolded : Folded read rest) (hwild : token.wild = false) :
    Folded (pushToken token read) later := by
  have hpush : pushToken token read = token :: read := by
    cases read <;> simp [pushToken, hwild]
  rw [hpush]
  refine ⟨hfolded.beside.cons fun _ _ ↦ Beside.of_not_wild hwild, fun hhead ↦ ?_⟩
  obtain rfl := Option.some.inj hhead
  exact absurd hwild (by decide)

/-- Before a token that is neither `*` nor of one byte there is no wildcard: so another may take
its place. -/
theorem Folded.replace {last : Token} (hfolded : Folded (last :: read) rest)
    (hlast : last ≠ .star) (hwild : last.wild = true) (htoken : token ≠ .star) :
    Folded (token :: read) later := by
  refine ⟨hfolded.beside.tail.cons fun earlier hearlier _ hearlierWild ↦ ?_, fun hhead ↦ ?_⟩
  · have hbeside := List.isChain_cons.mp hfolded.beside |>.1 earlier hearlier
    exact absurd (hbeside hwild hearlierWild).1 hlast
  · exact absurd (Option.some.inj hhead) htoken

/-- A wildcard is put after the others: what was read last is no lone star, since a star follows
it in the pattern. -/
theorem Folded.push_wild (hfolded : Folded read (0x2A :: rest)) (hwild : token.wild = true)
    (hlater : token = .star → later.head? ≠ some 0x2A) : Folded (pushToken token read) later := by
  cases read with
  | nil => exact ⟨List.isChain_singleton _, fun hhead ↦ hlater (Option.some.inj hhead)⟩
  | cons last earlier =>
    have hlone : last ≠ .star := fun hstar ↦ hfolded.lone (congrArg some hstar) rfl
    rw [pushToken, hwild, Bool.and_true]
    split
    · next hlast =>
      split
      · exact hfolded.replace hlone hlast (by decide)
      · next hall =>
        simp only [Bool.or_eq_true, decide_eq_true_eq, not_or] at hall
        have hdirs : last = .dirs := by
          cases last with
          | dirs => rfl
          | star => exact absurd rfl hlone
          | all => exact absurd rfl hall.1
          | byte | one => exact absurd hlast Bool.false_ne_true
        subst hdirs
        split
        · next hne =>
          have hstar : token = .star := by
            cases token with
            | star => rfl
            | dirs => exact absurd rfl hne
            | all => exact absurd rfl hall.2
            | byte | one => exact absurd hwild Bool.false_ne_true
          subst hstar
          exact ⟨hfolded.beside.cons fun _ hmem _ _ ↦ ⟨rfl, (Option.some.inj hmem).symm⟩,
            fun _ ↦ hlater rfl⟩
        · exact hfolded.replace hlone hlast (by decide)
    · next hlast =>
      refine ⟨hfolded.beside.cons fun _ hmem _ hearlier ↦ ?_, fun hhead ↦
        hlater (Option.some.inj hhead)⟩
      exact absurd ((Option.some.inj hmem).symm ▸ hearlier) hlast

/-- Reading on keeps the wildcards folded. -/
theorem Folded.tokensFrom_beside (read : List Token) (pattern : Bytes)
    (hfolded : Folded read pattern) :
    (tokensFrom read pattern).IsChain fun earlier later ↦ Beside later earlier := by
  fun_induction tokensFrom read pattern with
  | case1 read => exact List.isChain_reverse.mpr hfolded.beside
  | case2 read rest ih => exact ih (hfolded.push_wild rfl (by simp))
  | case3 read rest hrest ih => exact ih (hfolded.push_wild rfl (by simp))
  | case4 read rest hdirs hall ih =>
    refine ih (hfolded.push_wild rfl fun _ hhead ↦ ?_)
    obtain ⟨after, rfl⟩ := List.head?_eq_some_iff.mp hhead
    exact hall after rfl
  | case5 read rest hstar ih => exact ih (hfolded.push_needsByte rfl)
  | case6 read byte rest hstar hone ih => exact ih (hfolded.push_needsByte rfl)

/-- The wildcards of a pattern's tokens are folded. -/
theorem tokens_beside (pattern : Bytes) :
    (tokens pattern).IsChain fun earlier later ↦ Beside later earlier :=
  Folded.tokensFrom_beside [] pattern ⟨List.isChain_nil, by simp⟩

/-- No three wildcards stand in a row. -/
theorem noThree_tokens (pattern : Bytes) : NoThree Token.wild (tokens pattern) := by
  rintro before first second third after heq ⟨hfirst, hsecond, hthird⟩
  have hchain := heq ▸ tokens_beside pattern
  have hright := hchain.right_of_append
  rw [List.isChain_cons_cons, List.isChain_cons_cons] at hright
  obtain ⟨hstar, -⟩ := hright.1 hsecond hfirst
  obtain ⟨-, hdirs⟩ := hright.2.1 hthird hsecond
  exact absurd (hstar.symm.trans hdirs) (by decide)

/-! ### The rows -/

/-- The rows of the table, one for each token after the one before it. -/
def rowsFrom (content : Bytes) (row : List Bool) : List Token → List (List Bool)
  | [] => [row]
  | token :: parts => row :: rowsFrom content (nextRow token row content) parts

/-- The rows `glob` builds, where it builds any. -/
def globRows (pattern content : Bytes) : Option (List (List Bool)) :=
  let parts := tokens pattern
  if (parts.filter Token.needsByte).length > content.length then none
  else some (rowsFrom content (true :: content.map fun _ ↦ false) parts)

/-- There is a row for each token, and the one to begin with. -/
theorem length_rowsFrom (content : Bytes) (row : List Bool) (parts : List Token) :
    (rowsFrom content row parts).length = parts.length + 1 := by
  induction parts generalizing row with
  | nil => rfl
  | cons token parts ih => rw [rowsFrom, List.length_cons, ih, List.length_cons]

/-- The last row is the one the loop ends with. -/
theorem getLast?_rowsFrom (content : Bytes) (row : List Bool) (parts : List Token) :
    (rowsFrom content row parts).getLast? =
      some (parts.foldl (fun row token ↦ nextRow token row content) row) := by
  induction parts generalizing row with
  | nil => rfl
  | cons token parts ih =>
    rw [rowsFrom, List.getLast?_cons, ih, List.foldl_cons, Option.getD_some]

/-- `glob` reads the last cell of the last row it builds. -/
theorem glob_eq_globRows (pattern content : Bytes) :
    glob pattern content =
      decide (((globRows pattern content).bind List.getLast?).bind List.getLast? = some true) := by
  rw [glob, globRows]
  split
  · simp
  · rw [Option.bind_some, getLast?_rowsFrom, Option.bind_some]

/-- Whatever the pattern and its length: its tokens have no three wildcards in a row, and where
`glob` goes on to build rows there are at most three tokens for each byte of the path and two more,
one row for each of them after the first. -/
theorem glob_table_bounded (pattern content : Bytes) :
    NoThree Token.wild (tokens pattern) ∧
    ∀ rows, globRows pattern content = some rows →
      (tokens pattern).length ≤ 3 * content.length + 2 ∧
        rows.length = (tokens pattern).length + 1 := by
  refine ⟨noThree_tokens pattern, fun rows hrows ↦ ?_⟩
  rw [globRows] at hrows
  split at hrows
  · exact absurd hrows (by simp)
  · next hfew =>
    obtain rfl := Option.some.inj hrows
    have hneeds : (fun token : Token ↦ !token.wild) = Token.needsByte := by
      funext token
      cases token <;> rfl
    have hlength := (noThree_tokens pattern).length_le
    rw [hneeds] at hlength
    exact ⟨by omega, length_rowsFrom _ _ _⟩

/-- Five stars and a letter, against a path of one byte. -/
theorem glob_table_bounded_stars :
    (tokens (text "*****a")).length ≤ 3 * (text "a").length + 2 :=
  ((glob_table_bounded (text "*****a") (text "a")).2 _ rfl).1

end OmniaBackends.Git
