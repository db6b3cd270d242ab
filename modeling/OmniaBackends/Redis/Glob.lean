import Mathlib.Data.List.Infix
import OmniaBackends.Foundation.Utf8

/-!
# The patterns of the server

How Redis reads the argument of `MATCH`: `*` stands for any bytes, `?` for one, brackets for one of
a set or, with `^` first, for one out of it, and a backslash takes away the meaning of what follows.
Everything else stands for itself.

A text without brackets and backslashes, with a star behind it, matches everything that begins with
the text (`glob_of_plain`): where it has stars and question marks of its own these stand for
themselves as well.
-/

set_option autoImplicit false
set_option relaxedAutoImplicit false

namespace OmniaBackends.Redis

open Foundation

/-- A piece of a pattern. -/
inductive Piece
  | star
  | one
  /-- Some ranges of bytes, or what is in none of them. -/
  | set (negated : Bool) (ranges : List (UInt8 × UInt8))
  | byte (want : UInt8)
  deriving DecidableEq

/-- The pieces of a pattern, inside the brackets of a set that was begun or outside. -/
def piecesFrom : Option (Bool × List (UInt8 × UInt8)) → Bytes → List Piece
  | none, [] => []
  | none, 0x2A :: rest => .star :: piecesFrom none rest
  | none, 0x3F :: rest => .one :: piecesFrom none rest
  | none, 0x5B :: 0x5E :: rest => piecesFrom (some (true, [])) rest
  | none, 0x5B :: rest => piecesFrom (some (false, [])) rest
  | none, 0x5C :: byte :: rest => .byte byte :: piecesFrom none rest
  | none, byte :: rest => .byte byte :: piecesFrom none rest
  -- a set that is not closed ends with the pattern
  | some (negated, ranges), [] => [.set negated ranges]
  | some (negated, ranges), 0x5C :: byte :: rest =>
    piecesFrom (some (negated, (byte, byte) :: ranges)) rest
  | some (negated, ranges), 0x5D :: rest => .set negated ranges :: piecesFrom none rest
  | some (negated, ranges), first :: 0x2D :: last :: rest =>
    piecesFrom (some (negated, (min first last, max first last) :: ranges)) rest
  | some (negated, ranges), byte :: rest =>
    piecesFrom (some (negated, (byte, byte) :: ranges)) rest

/-- Whether a piece that is no star takes a byte. -/
def Piece.takes : Piece → UInt8 → Bool
  | .star, _ => false
  | .one, _ => true
  | .set negated ranges, given =>
    (ranges.any fun range ↦ range.1 ≤ given && given ≤ range.2) != negated
  | .byte want, given => want = given

/-- Whether pieces match a text. -/
def matchesPieces : List Piece → Bytes → Bool
  | [], content => content.isEmpty
  | .star :: pieces, content => content.tails.any (matchesPieces pieces)
  | _ :: _, [] => false
  | piece :: pieces, byte :: content => piece.takes byte && matchesPieces pieces content

/-- Whether a pattern matches a text. -/
def glob (pattern content : Bytes) : Bool := matchesPieces (piecesFrom none pattern) content

example : glob (text "a[b-d]?\\**") (text "acx*yz") = true := by decide

/-- A text without brackets and backslashes, and a star behind it, match what begins with the
text. -/
theorem glob_of_plain {front : Bytes} (hplain : ∀ byte ∈ front, byte ≠ 0x5B ∧ byte ≠ 0x5C)
    (rest : Bytes) : glob (front ++ [0x2A]) (front ++ rest) = true := by
  induction front with
  | nil =>
    refine List.any_eq_true.mpr ⟨[], ?_, rfl⟩
    exact (List.mem_tails _ _).mpr List.nil_suffix
  | cons byte front ih =>
    have hrest := ih fun other hother ↦ hplain other (List.mem_cons_of_mem _ hother)
    obtain ⟨hbracket, hbackslash⟩ := hplain byte List.mem_cons_self
    rw [glob] at hrest
    rw [glob, List.cons_append, List.cons_append]
    by_cases hstar : byte = 0x2A
    · subst hstar
      refine List.any_eq_true.mpr ⟨front ++ rest, ?_, hrest⟩
      exact (List.mem_tails _ _).mpr (List.suffix_cons _ _)
    · by_cases hone : byte = 0x3F
      · subst hone
        have hpieces : piecesFrom none (0x3F :: (front ++ [0x2A])) =
            .one :: piecesFrom none (front ++ [0x2A]) := by
          rw [piecesFrom]
        rw [hpieces, matchesPieces, Piece.takes, Bool.true_and]
        · exact hrest
        · exact Piece.noConfusion
      · have hpieces : piecesFrom none (byte :: (front ++ [0x2A])) =
            .byte byte :: piecesFrom none (front ++ [0x2A]) := by
          rw [piecesFrom]
          · exact hstar
          · exact hone
          · exact fun _ hbyte _ ↦ hbracket hbyte
          · exact hbracket
          · exact fun _ _ hbyte _ ↦ hbackslash hbyte
        rw [hpieces, matchesPieces, Piece.takes, decide_eq_true rfl, Bool.true_and]
        · exact hrest
        · exact Piece.noConfusion

end OmniaBackends.Redis
