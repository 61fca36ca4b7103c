import ParsingMachine.Proofs.Reader.Tokens

namespace ParsingMachine
namespace Reader

/-!
# What is read is spelled

A reader of patterns reads nothing that the text does not spell at its level,
measures what it has read, and stays within the limit.  The readers are built
from readers of tighter levels, so this is shown for each way of building, and
in the end along the levels of nesting.
-/

theorem SpellsPattern.behind_trivia {level : Nat} {text start rest : List Char} {pattern : Pattern}
    (spelled : SpellsPattern level start pattern rest) (trivia : Trivia text start) :
    SpellsPattern level text pattern rest := by
  induction spelled generalizing text with
  | tighter _ inductionHypothesis => exact .tighter (inductionHypothesis trivia)
  | choice _ operator second inductionHypothesis _ =>
      exact .choice (inductionHypothesis trivia) operator second
  | sequence _ operator second inductionHypothesis _ =>
      exact .sequence (inductionHypothesis trivia) operator second
  | unary before isOperator inner _ => exact .unary (trivia.trans before) isOperator inner
  | repeated _ opens bounds inductionHypothesis =>
      exact .repeated (inductionHypothesis trivia) opens bounds
  | group before inner closes _ => exact .group (trivia.trans before) inner closes
  | atom before spelled => exact .atom (trivia.trans before) spelled

/-! ## Heights -/

theorem height_of_oneLevelUp {limit : Option Nat} {height value : Nat} {place after : List Char}
    (up : oneLevelUp limit height place after = .ok value) : value = height + 1 := by
  cases limit with
  | none => exact (Except.ok.inj up).symm
  | some limit =>
      rw [oneLevelUp] at up
      split at up
      · cases up
      · exact (Except.ok.inj up).symm

theorem oneLevelUp_eq_ok {limit height value : Nat} {place after : List Char}
    (up : oneLevelUp limit height place after = .ok value) :
    value = height + 1 ∧ height + 1 ≤ limit := by
  rw [oneLevelUp] at up
  split at up
  · cases up
  · next room =>
      cases up
      exact ⟨rfl, Nat.lt_of_not_le room⟩

theorem oneLevelUp_of_lt {limit height : Nat} (place after : List Char) (room : height < limit) :
    oneLevelUp limit height place after = .ok (height + 1) :=
  if_neg (Nat.not_le.mpr room)

/-! ## Unary operators -/

/-- The four unary operators. -/
theorem unaryOperator?_cases {sign : Char} {apply : Pattern -> Pattern}
    (isOperator : unaryOperator? sign = some apply) :
    (sign = '-' ∧ apply = .not) ∨ (sign = '?' ∧ apply = .optional) ∨
      (sign = '*' ∧ apply = .zeroOrMore) ∨ (sign = '+' ∧ apply = .oneOrMore) := by
  unfold unaryOperator? at isOperator
  split at isOperator
  · next same => exact Or.inl ⟨same, (Option.some.inj isOperator).symm⟩
  split at isOperator
  · next same => exact Or.inr (Or.inl ⟨same, (Option.some.inj isOperator).symm⟩)
  split at isOperator
  · next same => exact Or.inr (Or.inr (Or.inl ⟨same, (Option.some.inj isOperator).symm⟩))
  split at isOperator
  · next same => exact Or.inr (Or.inr (Or.inr ⟨same, (Option.some.inj isOperator).symm⟩))
  · cases isOperator

theorem height_of_unaryOperator? {sign : Char} {apply : Pattern -> Pattern}
    (isOperator : unaryOperator? sign = some apply) (inner : Pattern) :
    (apply inner).height = inner.height + 1 := by
  rcases unaryOperator?_cases isOperator with ⟨_, rfl⟩ | ⟨_, rfl⟩ | ⟨_, rfl⟩ | ⟨_, rfl⟩ <;> rfl

theorem skipTrivia_of_unaryOperator? {sign : Char} {behind : List Char}
    {apply : Pattern -> Pattern} (isOperator : unaryOperator? sign = some apply) :
    skipTrivia (sign :: behind) = sign :: behind := by
  rcases unaryOperator?_cases isOperator with ⟨rfl, _⟩ | ⟨rfl, _⟩ | ⟨rfl, _⟩ | ⟨rfl, _⟩ <;> rfl

/-! ## Readings of patterns -/

/-- What was read is spelled at a level, and it is measured. -/
structure Reads (limit level : Nat) {text : List Char} (reading : Reading Measured text) : Prop where
  spelled : Exists fun middle => SpellsPattern level text reading.value.pattern middle ∧
    Trivia middle reading.rest
  measured : reading.value.height = reading.value.pattern.height
  bounded : reading.value.height ≤ limit

/-- A reader reads patterns of a level. -/
def ReadsLevel (limit level : Nat) (reader : Reader Measured) : Prop :=
  forall {text reading}, reader text = .ok reading -> Reads limit level reading

/-- An infix operator of a level, which joins to the left. -/
structure InfixAt (level : Nat) (operator : Char) (join : Pattern -> Pattern -> Pattern) : Prop where
  joins : forall {text first middle behind second rest}, SpellsPattern level text first middle ->
    Trivia middle (operator :: behind) -> SpellsPattern (level + 1) behind second rest ->
    SpellsPattern level text (join first second) rest
  height : forall first second, (join first second).height = max first.height second.height + 1

theorem infixAt_choice : InfixAt 0 '|' .choice := ⟨.choice, fun _ _ => rfl⟩

theorem infixAt_sequence : InfixAt 1 '*' .sequence := ⟨.sequence, fun _ _ => rfl⟩

namespace Reads

variable {limit level : Nat} {text : List Char}

theorem tighter {reading : Reading Measured text} (reads : Reads limit (level + 1) reading) :
    Reads limit level reading := by
  rcases reads.spelled with ⟨middle, spelled, trivia⟩
  exact ⟨⟨middle, .tighter spelled, trivia⟩, reads.measured, reads.bounded⟩

theorem pastTrivia {reading : Reading Measured text} (reads : Reads limit level reading) :
    Reads limit level reading.pastTrivia := by
  rcases reads.spelled with ⟨middle, spelled, trivia⟩
  exact ⟨⟨middle, spelled, trivia.trans (trivia_skipTrivia _)⟩, reads.measured, reads.bounded⟩

theorem of_chain {operator : Char} {join : Pattern -> Pattern -> Pattern}
    {operand : Reader Measured} {left result : Reading Measured text}
    (isInfix : InfixAt level operator join) (operands : ReadsLevel limit (level + 1) operand)
    (leftReads : Reads limit level left)
    (read : chain limit operator join operand left = .ok result) : Reads limit level result := by
  fun_induction chain limit operator join operand left with
  | case1 left absent =>
      cases read
      exact leftReads.pastTrivia
  | case4 left sign found right rightRead height up inductionHypothesis =>
      refine inductionHypothesis ?_ read
      rcases leftReads.spelled with ⟨middle, leftSpelled, trivia⟩
      rcases (operands rightRead).spelled with ⟨rest, rightSpelled, behind⟩
      rcases oneLevelUp_eq_ok up with ⟨same, room⟩
      constructor
      · exact ⟨rest, isInfix.joins leftSpelled (trivia.trans (trivia_of_sign? found)) rightSpelled,
          behind⟩
      · change height = (join left.value.pattern right.value.pattern).height
        rw [isInfix.height, ← leftReads.measured, ← (operands rightRead).measured, same]
      · change height ≤ limit
        rw [same]
        exact room
  | _ => cases read

theorem of_repetitions {inner result : Reading Measured text} (innerReads : Reads limit 3 inner)
    (read : repetitions limit inner = .ok result) : Reads limit 3 result := by
  fun_induction repetitions limit inner with
  | case1 inner absent =>
      cases read
      exact innerReads.pastTrivia
  | case4 inner sign found times timesRead height up inductionHypothesis =>
      refine inductionHypothesis ?_ read
      rcases innerReads.spelled with ⟨middle, innerSpelled, trivia⟩
      rcases oneLevelUp_eq_ok up with ⟨same, room⟩
      constructor
      · exact ⟨times.rest, .repeated innerSpelled (trivia.trans (trivia_of_sign? found))
          (spellsBounds_of_bounds timesRead), .nothing _⟩
      · change height = inner.value.pattern.height + 1
        rw [← innerReads.measured, same]
      · change height ≤ limit
        rw [same]
        exact room
  | _ => cases read

/-- What was read off the text behind blanks and comments was read off the
whole text. -/
theorem within {start : List Char} {reading : Reading Measured start}
    (reads : Reads limit level reading) (trivia : Trivia text start)
    (bound : start.length ≤ text.length) : Reads limit level (reading.within bound) := by
  rcases reads.spelled with ⟨middle, spelled, behind⟩
  exact ⟨⟨middle, spelled.behind_trivia trivia, behind⟩, reads.measured, reads.bounded⟩

end Reads

/-! ## Readers of patterns -/

namespace ReadsLevel

variable {limit level : Nat} {inner : Reader Measured}

theorem joined {operator : Char} {join : Pattern -> Pattern -> Pattern}
    (isInfix : InfixAt level operator join) (operands : ReadsLevel limit (level + 1) inner) :
    ReadsLevel limit level (Reader.joined limit operator join inner) := by
  intro text reading read
  rw [Reader.joined] at read
  split at read
  · cases read
  · next first firstRead => exact .of_chain isInfix operands (operands firstRead).tighter read

theorem expression (operands : ReadsLevel limit 2 inner) :
    ReadsLevel limit 0 (Reader.expression limit inner) :=
  joined infixAt_choice (joined infixAt_sequence operands)

theorem groupBody (operands : ReadsLevel limit 2 inner) {opening after : List Char}
    {reading : Reading Measured after}
    (read : Reader.groupBody limit inner opening after = .ok reading) :
    Reads limit 4 (reading.behindChar '(') := by
  rw [Reader.groupBody] at read
  split at read
  · cases read
  · next body bodyRead =>
      have bodyReads := expression operands bodyRead
      rcases bodyReads.spelled with ⟨middle, spelled, trivia⟩
      split at read
      · cases read
      · next closing found =>
          split at read
          · cases read
          · next height up =>
              cases read
              rcases oneLevelUp_eq_ok up with ⟨rfl, room⟩
              refine ⟨⟨closing.rest, ?_, .nothing _⟩, ?_, room⟩
              · exact .group (.nothing _) spelled (trivia.trans (trivia_of_sign? found))
              · exact congrArg (· + 1) bodyReads.measured

theorem height_of_spellsAtom {start rest : List Char} {pattern : Pattern}
    (spelled : SpellsAtom start pattern rest) : pattern.height = 1 := by
  cases spelled <;> rfl

theorem primary (positive : 0 < limit) {deeper : Except Cause (Reader Measured)}
    (operands : forall inner, deeper = .ok inner -> ReadsLevel limit 2 inner) {symbol : Char}
    {after : List Char} {reading : Reading Measured (symbol :: after)}
    (read : Reader.primary limit deeper symbol after = .ok reading) : Reads limit 4 reading := by
  unfold Reader.primary at read
  split at read
  · next opens =>
      subst opens
      split at read
      · cases read
      · next inner =>
          split at read
          · cases read
          · next body bodyRead =>
              cases read
              exact groupBody (operands inner rfl) bodyRead
  · split at read
    · cases read
    · next found atomRead =>
        cases read
        have spelled := spellsAtom_of_atom atomRead
        refine ⟨⟨found.rest, .atom (.nothing _) spelled, .nothing _⟩, ?_, positive⟩
        exact (height_of_spellsAtom spelled).symm

theorem repeatable (positive : 0 < limit) {deeper : Except Cause (Reader Measured)}
    (operands : forall inner, deeper = .ok inner -> ReadsLevel limit 2 inner) {text : List Char}
    {sign : Reading Char text} (found : next? text = some sign) {reading : Reading Measured text}
    (read : Reader.repeatable limit deeper sign = .ok reading) : Reads limit 3 reading := by
  rw [Reader.repeatable] at read
  split at read
  · cases read
  · next body bodyRead =>
      have bodyReads := primary positive operands bodyRead
      have before := trivia_of_next? found
      exact .of_repetitions (bodyReads.within before sign.shorter).tighter read

theorem operandAt (positive : 0 < limit) {deeper : Except Cause (Reader Measured)}
    (operands : forall inner, deeper = .ok inner -> ReadsLevel limit 2 inner) :
    ReadsLevel limit 2 (Reader.operandAt limit deeper) := by
  intro text reading read
  rw [Reader.operandAt] at read
  split at read
  · cases read
  · next sign found =>
      have before := trivia_of_next? found
      split at read
      · exact (repeatable positive operands found read).tighter
      · next apply isOperator =>
          split at read
          · cases read
          · next inner =>
              rw [unary] at read
              split at read
              · cases read
              · next body bodyRead =>
                  have bodyReads := operands inner rfl bodyRead
                  rcases bodyReads.spelled with ⟨middle, spelled, trivia⟩
                  split at read
                  · cases read
                  · next height up =>
                      cases read
                      rcases oneLevelUp_eq_ok up with ⟨rfl, room⟩
                      refine ⟨⟨middle, .unary before isOperator spelled, trivia⟩, ?_, room⟩
                      change body.value.height + 1 = (apply body.value.pattern).height
                      rw [height_of_unaryOperator? isOperator, bodyReads.measured]

theorem operand (positive : 0 < limit) (levels : Nat) :
    ReadsLevel limit 2 (Reader.operand limit levels) := by
  induction levels with
  | zero => exact operandAt positive fun _ absent => by cases absent
  | succ levels inductionHypothesis =>
      apply operandAt positive
      rintro inner ⟨⟩
      exact inductionHypothesis

/-- A pattern that was read is spelled by the beginning of the text. -/
theorem pattern (positive : 0 < limit) : ReadsLevel limit 0 (Reader.pattern limit) :=
  expression (operand positive limit)

end ReadsLevel
end Reader
end ParsingMachine
