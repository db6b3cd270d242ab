import Mathlib.Logic.Function.Iterate
import Mathlib.Data.List.Basic

/-!
# Boolean sentences by precedence

A sentence over atoms is written with `and`, `or`, `not` and parentheses, where `not` binds tighter
than `and`, and `and` tighter than `or`. `Derives` is the grammar, one level for each of the three.

No symbols are two sentences (`Derives.unique`). A reader with a stack of frames, one for each open
parenthesis, takes the symbols one by one: what it holds after the symbols of a factor, of a
conjunction and of a disjunction is `Reads`, and the grammar derives nothing that it does not read
so (`reads_of_derives`).

Conjunctions next to one another are one conjunction, and mean what they mean together
(`Means.and`); likewise disjunctions (`Means.or`).
-/

set_option autoImplicit false
set_option relaxedAutoImplicit false

namespace OmniaBackends.Foundation.Precedence

/-- What a sentence is written with. -/
inductive Symbol (Atom : Type*)
  | opening
  | closing
  | not
  | and
  | or
  | atom (single : Atom)
  deriving DecidableEq

/-- A sentence. -/
inductive Sentence (Atom : Type*)
  | atom (single : Atom)
  | not (inner : Sentence Atom)
  | and (left right : Sentence Atom)
  | or (left right : Sentence Atom)
  deriving DecidableEq

variable {Atom : Type*}

/-- Whether a sentence holds where its atoms do. -/
def Sentence.eval (holds : Atom → Bool) : Sentence Atom → Bool
  | .atom single => holds single
  | .not inner => !inner.eval holds
  | .and left right => left.eval holds && right.eval holds
  | .or left right => left.eval holds || right.eval holds

/-- The levels of the grammar, from the tightest on. -/
inductive Level
  | factor
  | conjunction
  | disjunction

/-- The grammar of sentences. -/
inductive Derives : Level → List (Symbol Atom) → Sentence Atom → Prop
  | atom (single : Atom) : Derives .factor [.atom single] (.atom single)
  | not {symbols : List (Symbol Atom)} {sentence : Sentence Atom}
      (hinner : Derives .factor symbols sentence) :
      Derives .factor (.not :: symbols) (.not sentence)
  | group {symbols : List (Symbol Atom)} {sentence : Sentence Atom}
      (hinner : Derives .disjunction symbols sentence) :
      Derives .factor (.opening :: (symbols ++ [.closing])) sentence
  | factor {symbols : List (Symbol Atom)} {sentence : Sentence Atom}
      (hfactor : Derives .factor symbols sentence) : Derives .conjunction symbols sentence
  | and {left right : List (Symbol Atom)} {first second : Sentence Atom}
      (hleft : Derives .conjunction left first) (hright : Derives .factor right second) :
      Derives .conjunction (left ++ .and :: right) (.and first second)
  | conjunction {symbols : List (Symbol Atom)} {sentence : Sentence Atom}
      (hconjunction : Derives .conjunction symbols sentence) :
      Derives .disjunction symbols sentence
  | or {left right : List (Symbol Atom)} {first second : Sentence Atom}
      (hleft : Derives .disjunction left first) (hright : Derives .conjunction right second) :
      Derives .disjunction (left ++ .or :: right) (.or first second)

/-! ### A reader of sentences -/

/-- What was read inside one parenthesis, before the sentence that is read now. -/
structure Frame (Atom : Type*) where
  /-- The disjunction of what came before the last `or`. -/
  disjuncts : Option (Sentence Atom)
  /-- The conjunction of what came after it, before the last `and`. -/
  conjuncts : Option (Sentence Atom)
  /-- How often `not` came after that. -/
  negations : ℕ

/-- A sentence after another, or alone. -/
def joined (join : Sentence Atom → Sentence Atom → Sentence Atom) :
    Option (Sentence Atom) → Sentence Atom → Sentence Atom
  | none, sentence => sentence
  | some before, sentence => join before sentence

namespace Frame

/-- The frame of a parenthesis that was just opened. -/
def empty : Frame Atom := ⟨none, none, 0⟩

/-- A factor with the negations before it. -/
def negated (frame : Frame Atom) (sentence : Sentence Atom) : Sentence Atom :=
  Sentence.not^[frame.negations] sentence

/-- A frame with its last sentence, as one sentence. -/
def closed (frame : Frame Atom) (sentence : Sentence Atom) : Sentence Atom :=
  joined .or frame.disjuncts (joined .and frame.conjuncts sentence)

end Frame

/-- What a reader is doing. -/
inductive Reader (Atom : Type*)
  /-- It waits for a factor. -/
  | waiting (frame : Frame Atom) (outer : List (Frame Atom))
  /-- It has read one. -/
  | complete (sentence : Sentence Atom) (frame : Frame Atom) (outer : List (Frame Atom))

/-- A reader takes a symbol. -/
def Reader.step : Reader Atom → Symbol Atom → Option (Reader Atom)
  | .waiting frame outer, .not =>
    some (.waiting { frame with negations := frame.negations + 1 } outer)
  | .waiting frame outer, .opening => some (.waiting .empty (frame :: outer))
  | .waiting frame outer, .atom single =>
    some (.complete (frame.negated (.atom single)) { frame with negations := 0 } outer)
  | .complete sentence frame outer, .and =>
    some (.waiting { frame with conjuncts := some (joined .and frame.conjuncts sentence) } outer)
  | .complete sentence frame outer, .or =>
    some (.waiting ⟨some (frame.closed sentence), none, 0⟩ outer)
  | .complete sentence frame (before :: outer), .closing =>
    some (.complete (before.negated (frame.closed sentence)) { before with negations := 0 } outer)
  | _, _ => none

/-- What symbols are as a sentence, if a reader comes to the end of one. -/
def parse (symbols : List (Symbol Atom)) : Option (Sentence Atom) :=
  match symbols.foldlM Reader.step (Reader.waiting .empty []) with
  | some (.complete sentence frame []) => some (frame.closed sentence)
  | _ => none

/-- What a reader holds after the symbols of a level. -/
def Reads : Level → List (Symbol Atom) → Sentence Atom → Prop
  | .factor, symbols, sentence => ∀ frame outer,
    symbols.foldlM Reader.step (.waiting frame outer) =
      some (.complete (frame.negated sentence) { frame with negations := 0 } outer)
  | .conjunction, symbols, sentence => ∀ disjuncts outer, ∃ conjuncts last,
    joined .and conjuncts last = sentence ∧
      symbols.foldlM Reader.step (.waiting ⟨disjuncts, none, 0⟩ outer) =
        some (.complete last ⟨disjuncts, conjuncts, 0⟩ outer)
  | .disjunction, symbols, sentence => ∀ outer, ∃ disjuncts conjuncts last,
    Frame.closed ⟨disjuncts, conjuncts, 0⟩ last = sentence ∧
      symbols.foldlM Reader.step (.waiting .empty outer) =
        some (.complete last ⟨disjuncts, conjuncts, 0⟩ outer)

/-- What the grammar derives is read so. -/
theorem reads_of_derives {level : Level} {symbols : List (Symbol Atom)}
    {sentence : Sentence Atom} (hderives : Derives level symbols sentence) :
    Reads level symbols sentence := by
  induction hderives with
  | atom single =>
    intro frame outer
    rfl
  | not hinner ih =>
    intro frame outer
    exact ih { frame with negations := frame.negations + 1 } outer
  | @group symbols sentence hinner ih =>
    intro frame outer
    obtain ⟨disjuncts, conjuncts, last, hclosed, hread⟩ := ih (frame :: outer)
    rw [← hclosed]
    show (symbols ++ [Symbol.closing]).foldlM Reader.step (Reader.waiting .empty (frame :: outer)) =
      _
    rw [List.foldlM_append, hread]
    rfl
  | factor hfactor ih =>
    intro disjuncts outer
    exact ⟨none, _, rfl, ih ⟨disjuncts, none, 0⟩ outer⟩
  | @and left right first second hleft hright ihleft ihright =>
    intro disjuncts outer
    obtain ⟨conjuncts, last, hjoined, hread⟩ := ihleft disjuncts outer
    refine ⟨some first, second, rfl, ?_⟩
    rw [List.foldlM_append, hread]
    show right.foldlM Reader.step (.waiting ⟨disjuncts, some (joined .and conjuncts last), 0⟩ outer)
      = _
    rw [hjoined]
    exact ihright ⟨disjuncts, some first, 0⟩ outer
  | conjunction hconjunction ih =>
    intro outer
    obtain ⟨conjuncts, last, hjoined, hread⟩ := ih none outer
    exact ⟨none, conjuncts, last, hjoined, hread⟩
  | @or left right first second hleft hright ihleft ihright =>
    intro outer
    obtain ⟨disjuncts, conjuncts, last, hclosed, hread⟩ := ihleft outer
    obtain ⟨after, final, hjoined, hrest⟩ := ihright (some first) outer
    refine ⟨some first, after, final, congrArg (Sentence.or first) hjoined, ?_⟩
    rw [List.foldlM_append, hread]
    show right.foldlM Reader.step
      (.waiting ⟨some (Frame.closed ⟨disjuncts, conjuncts, 0⟩ last), none, 0⟩ outer) = _
    rw [hclosed]
    exact hrest

/-- A sentence that the grammar derives is what is parsed. -/
theorem parse_of_derives {symbols : List (Symbol Atom)} {sentence : Sentence Atom}
    (hderives : Derives .disjunction symbols sentence) : parse symbols = some sentence := by
  obtain ⟨disjuncts, conjuncts, last, hclosed, hread⟩ := reads_of_derives hderives []
  rw [parse, hread]
  exact congrArg some hclosed

example : parse [.atom 0, .or, .atom 1, .and, .not, .atom 2] =
    some (.or (.atom 0) (.and (.atom 1) (.not (.atom 2)))) :=
  rfl

/-- Symbols are one sentence at most. -/
theorem Derives.unique {symbols : List (Symbol Atom)} {first second : Sentence Atom}
    (hfirst : Derives .disjunction symbols first) (hsecond : Derives .disjunction symbols second) :
    first = second :=
  Option.some.inj ((parse_of_derives hfirst).symm.trans (parse_of_derives hsecond))

/-! ### Sentences next to one another -/

section

variable {World : Type*} (holds : World → Atom → Bool)

/-- Symbols that are a sentence of some level, which means something in every world. -/
def Means (level : Level) (symbols : List (Symbol Atom)) (meaning : World → Bool) : Prop :=
  ∃ sentence, Derives level symbols sentence ∧ ∀ world, sentence.eval (holds world) = meaning world

variable {holds} {left right : List (Symbol Atom)} {first second : World → Bool}

theorem Means.atom (single : Atom) :
    Means holds .factor [.atom single] fun world ↦ holds world single :=
  ⟨.atom single, .atom single, fun _ ↦ rfl⟩

theorem Means.not (hinner : Means holds .factor left first) :
    Means holds .factor (.not :: left) fun world ↦ !first world := by
  obtain ⟨sentence, hderives, hmeaning⟩ := hinner
  exact ⟨.not sentence, .not hderives, fun world ↦ congrArg Bool.not (hmeaning world)⟩

theorem Means.group (hinner : Means holds .disjunction left first) :
    Means holds .factor (.opening :: (left ++ [.closing])) first := by
  obtain ⟨sentence, hderives, hmeaning⟩ := hinner
  exact ⟨sentence, .group hderives, hmeaning⟩

theorem Means.factor (hfactor : Means holds .factor left first) :
    Means holds .conjunction left first := by
  obtain ⟨sentence, hderives, hmeaning⟩ := hfactor
  exact ⟨sentence, .factor hderives, hmeaning⟩

theorem Means.conjunction (hconjunction : Means holds .conjunction left first) :
    Means holds .disjunction left first := by
  obtain ⟨sentence, hderives, hmeaning⟩ := hconjunction
  exact ⟨sentence, .conjunction hderives, hmeaning⟩

/-- A conjunction goes on with another. -/
theorem Derives.conjoin {level : Level} {before after : Sentence Atom}
    (hbefore : Derives .conjunction left before) (hafter : Derives level right after)
    (hlevel : level = .conjunction) : ∃ whole, Derives .conjunction (left ++ .and :: right) whole ∧
      ∀ holds, whole.eval holds = (before.eval holds && after.eval holds) := by
  induction hafter with
  | factor hfactor => exact ⟨_, .and hbefore hfactor, fun _ ↦ rfl⟩
  | @and middle right second third hmiddle hright ih =>
    obtain ⟨whole, hwhole, hmeaning⟩ := ih hlevel
    have hderives := Derives.and hwhole hright
    rw [List.append_assoc, List.cons_append] at hderives
    refine ⟨_, hderives, fun holds ↦ ?_⟩
    rw [Sentence.eval, hmeaning, Bool.and_assoc, ← Sentence.eval]
  | atom | not | group | conjunction | or => cases hlevel

/-- A disjunction goes on with another. -/
theorem Derives.disjoin {level : Level} {before after : Sentence Atom}
    (hbefore : Derives .disjunction left before) (hafter : Derives level right after)
    (hlevel : level = .disjunction) : ∃ whole, Derives .disjunction (left ++ .or :: right) whole ∧
      ∀ holds, whole.eval holds = (before.eval holds || after.eval holds) := by
  induction hafter with
  | conjunction hconjunction => exact ⟨_, .or hbefore hconjunction, fun _ ↦ rfl⟩
  | @or middle right second third hmiddle hright ih =>
    obtain ⟨whole, hwhole, hmeaning⟩ := ih hlevel
    have hderives := Derives.or hwhole hright
    rw [List.append_assoc, List.cons_append] at hderives
    refine ⟨_, hderives, fun holds ↦ ?_⟩
    rw [Sentence.eval, hmeaning, Bool.or_assoc, ← Sentence.eval]
  | atom | not | group | factor | and => cases hlevel

/-- Two conjunctions with `and` between them are one. -/
theorem Means.and (hleft : Means holds .conjunction left first)
    (hright : Means holds .conjunction right second) :
    Means holds .conjunction (left ++ .and :: right) fun world ↦ first world && second world := by
  obtain ⟨before, hbefore, hfirst⟩ := hleft
  obtain ⟨after, hafter, hsecond⟩ := hright
  obtain ⟨whole, hwhole, hmeaning⟩ := hbefore.conjoin hafter rfl
  exact ⟨whole, hwhole, fun world ↦ by rw [hmeaning, hfirst, hsecond]⟩

/-- Two disjunctions with `or` between them are one. -/
theorem Means.or (hleft : Means holds .disjunction left first)
    (hright : Means holds .disjunction right second) :
    Means holds .disjunction (left ++ .or :: right) fun world ↦ first world || second world := by
  obtain ⟨before, hbefore, hfirst⟩ := hleft
  obtain ⟨after, hafter, hsecond⟩ := hright
  obtain ⟨whole, hwhole, hmeaning⟩ := hbefore.disjoin hafter rfl
  exact ⟨whole, hwhole, fun world ↦ by rw [hmeaning, hfirst, hsecond]⟩

end

end OmniaBackends.Foundation.Precedence
