import ParsingMachine.CompileError
import ParsingMachine.Instruction
import ParsingMachine.Pattern

namespace ParsingMachine

/-!
# Patterns lowered to instructions

Every pattern has a shape of code that matches it from its first instruction
on and, where it matches, runs off its end.  Code shapes are put together from
the code of the parts, whose lengths give the jumps around them.

Two shapes are left open: what stands for a reference to a rule, and what two
alternatives make together.  The rest does not depend on them, and neither do
the errors.
-/

namespace Code

/-- The offset of a jump over the code and a number of instructions more. -/
def jumpOver (code : Code) (more : Nat) : Int :=
  ((code.length + more : Nat) : Int)

/-- The second code where the first one fails. -/
def alternative (first second : Code) : Code :=
  .choice (first.jumpOver 2) :: first ++ .commit (second.jumpOver 1) :: second

/-- The code where it matches, and nothing elsewhere. -/
def optional (inner : Code) : Code :=
  .choice (inner.jumpOver 2) :: inner ++ [.commit 1]

/-- The code as often as it matches.  The jump at the end leads back to the
choice, which puts down a fresh choice point each time. -/
def loop (inner : Code) : Code :=
  .choice (inner.jumpOver 2) :: inner ++ [.commit (-inner.jumpOver 1)]

/-- Fails where the code matches.  The choice point of the lookahead is thrown
away first, so that the failure goes to whatever choice point is outside. -/
def absent (inner : Code) : Code :=
  .choice (inner.jumpOver 3) :: inner ++ [.commit 1, .fail]

/-- The code as often as it has to be, and then as often as it may be. -/
def repeated (inner : Code) (least most : Nat) : Code :=
  (List.replicate least inner).flatten ++ (List.replicate (most - least) inner.optional).flatten

/-- The second code where the first one fails.  Two sets become one set, which
never has to go back. -/
def fusedAlternative (first second : Code) : Code :=
  match first, second with
  | [.matchSet one], [.matchSet other] => [.matchSet (one.union other)]
  | _, _ => alternative first second

end Code

/-- The two shapes that lowering leaves open. -/
structure Lowering where
  /-- What stands for a reference to the rule with this name. -/
  reference : String -> Code
  /-- What the code of two alternatives makes together. -/
  alternative : Code -> Code -> Code

namespace Lowering

/-- The ranges of a class, up to the first one that runs backwards. -/
def classRanges (rule : String) : List ClassItem -> Except CompileError (List CharRange)
  | [] => .ok []
  | .char character :: items => do
      let ranges ← classRanges rule items
      return ⟨character, character⟩ :: ranges
  | .range first last :: items =>
      if first ≤ last then do
        let ranges ← classRanges rule items
        return ⟨first, last⟩ :: ranges
      else .error (.backwardsRange rule first last)

/-- The code of a pattern in the rule with this name.  A pattern that may not
happen even once has no code, and is not looked into. -/
def lower (lowering : Lowering) (rule : String) : Pattern -> Except CompileError Code
  | .group inner => lowering.lower rule inner
  | .char character => .ok [.matchText (String.singleton character)]
  | .literal text => .ok [.matchText text]
  | .literalAnyCase text => .ok [.matchTextAnyCase text]
  | .any => .ok [.matchAny]
  | .charClass items => do
      let ranges ← classRanges rule items
      return [.matchSet (CharSet.ofRanges ranges)]
  | .not inner => do
      let code ← lowering.lower rule inner
      return code.absent
  | .sequence first second => do
      let before ← lowering.lower rule first
      let behind ← lowering.lower rule second
      return before ++ behind
  | .choice first second => do
      let one ← lowering.lower rule first
      let other ← lowering.lower rule second
      return lowering.alternative one other
  | .optional inner => do
      let code ← lowering.lower rule inner
      return code.optional
  | .zeroOrMore inner => do
      let code ← lowering.lower rule inner
      return code.loop
  | .oneOrMore inner => do
      let code ← lowering.lower rule inner
      return code ++ code.loop
  | .repeated inner least most =>
      if most < least then .error (.badBounds rule least most)
      else if most = 0 then .ok []
      else do
        let code ← lowering.lower rule inner
        return code.repeated least.toNat most.toNat
  | .rule name => .ok (lowering.reference name)

end Lowering
end ParsingMachine
