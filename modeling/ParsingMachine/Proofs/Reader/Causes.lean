import ParsingMachine.Proofs.Reader.Reports

namespace ParsingMachine
namespace Reader

/-!
# Causes that lie in a pattern

Three causes have to do with what comes behind a pattern or in front of it, and
with nothing inside: that it is left over, that it is no rule, and that it is a
name without an arrow.  They arise where whole texts are read.  A reader of
patterns has no use for them, and neither has any reader that it calls; so a
fault with one of them tells that all patterns in front of it have been read.
-/

/-- What is wrong can be wrong inside of a pattern. -/
def Cause.InPattern : Cause -> Prop
  | missingArrow _ | missingRule | leftover => False
  | _ => True

/-! ## Tokens -/

section Tokens

variable {opening text after : List Char} {fault : Fault}

theorem inPattern_of_literalBody {quote : Char}
    (failed : literalBody quote opening text = .error fault) : fault.cause.InPattern := by
  fun_induction literalBody quote opening text with
  | case5 letter behind meant known fault failedBehind inside inductionHypothesis =>
      cases failed
      exact inductionHypothesis failedBehind
  | case8 character rest noQuote noEscape noNewline fault failedBehind inductionHypothesis =>
      cases failed
      exact inductionHypothesis failedBehind
  | _ => cases failed <;> trivial

theorem inPattern_of_charLiteral (failed : charLiteral opening text = .error fault) :
    fault.cause.InPattern := by
  rw [charLiteral] at failed
  split at failed
  · next unread =>
      cases failed
      exact inPattern_of_literalBody unread
  · split at failed <;> cases failed
    trivial

theorem inPattern_of_rangeEnd (failed : rangeEnd text = .error fault) :
    fault.cause.InPattern := by
  rw [rangeEnd] at failed
  split at failed
  · cases failed
    trivial
  · split at failed
    · next unread =>
        cases failed
        exact inPattern_of_charLiteral unread
    · cases failed

theorem inPattern_of_classItem (failed : classItem opening text = .error fault) :
    fault.cause.InPattern := by
  rw [classItem] at failed
  split at failed
  · next unread =>
      cases failed
      exact inPattern_of_charLiteral unread
  · split at failed
    · cases failed
    · split at failed
      · next unread =>
          cases failed
          exact inPattern_of_rangeEnd unread
      · cases failed

theorem inPattern_of_classItems (failed : classItems opening text = .error fault) :
    fault.cause.InPattern := by
  fun_induction classItems opening text with
  | case1 | case4 | case8 | case9 =>
      -- Something is wrong with the class itself.
      cases failed
      trivial
  | case3 text sign found noBrace isQuote fault unread =>
      cases failed
      exact inPattern_of_classItem unread
  | case6 text sign found noBrace isQuote item itemRead separator separated noEnd isComma fault
      unread inductionHypothesis =>
      cases failed
      exact inductionHypothesis unread
  | case2 | case5 | case7 => cases failed

theorem cause_of_count (failed : count opening text = .error fault) :
    fault.cause = .badRepetition := by
  rw [count] at failed
  split at failed
  · cases failed
    rfl
  · split at failed
    · dsimp only at failed
      split at failed
      · cases failed
      · cases failed
        rfl
    · cases failed
      rfl

theorem cause_of_secondCount? (failed : secondCount? opening text = .error fault) :
    fault.cause = .badRepetition := by
  rw [secondCount?] at failed
  split at failed
  · cases failed
  · split at failed
    · next unread =>
        cases failed
        exact cause_of_count unread
    · cases failed

theorem cause_of_closeBounds {reading : Reading (UInt64 × UInt64) text}
    (failed : closeBounds opening reading = .error fault) : fault.cause = .badRepetition := by
  rw [closeBounds] at failed
  split at failed
  · cases failed
    rfl
  · cases failed

/-- Whatever is wrong with bounds, it is the bounds. -/
theorem cause_of_bounds (failed : bounds opening text = .error fault) :
    fault.cause = .badRepetition := by
  rw [bounds] at failed
  split at failed
  · next unread =>
      cases failed
      exact cause_of_count unread
  · split at failed
    · next unread =>
        cases failed
        exact cause_of_secondCount? unread
    · exact cause_of_closeBounds failed
    · exact cause_of_closeBounds failed

theorem inPattern_of_bounds (failed : bounds opening text = .error fault) :
    fault.cause.InPattern := by
  rw [cause_of_bounds failed]
  trivial

theorem inPattern_of_textLiteral {build : String -> Pattern}
    (failed : textLiteral build text = .error fault) : fault.cause.InPattern := by
  rw [textLiteral] at failed
  split at failed
  · next unread =>
      cases failed
      exact inPattern_of_literalBody unread
  · cases failed

theorem inPattern_of_ruleReference {symbol : Char}
    (failed : ruleReference symbol after = .error fault) : fault.cause.InPattern := by
  rw [ruleReference] at failed
  split at failed
  · cases failed
  · split at failed
    · cases failed
      trivial
    · cases failed
      rw [Fault.atNext]
      split <;> trivial

theorem inPattern_of_atom {symbol : Char} (failed : atom symbol after = .error fault) :
    fault.cause.InPattern := by
  unfold atom at failed
  split at failed
  · split at failed
    · next unread =>
        cases failed
        exact inPattern_of_charLiteral unread
    · cases failed
  · split at failed
    · next unread =>
        cases failed
        exact inPattern_of_textLiteral unread
    · cases failed
  · split at failed
    · next unread =>
        cases failed
        exact inPattern_of_textLiteral unread
    · cases failed
  · cases failed
  · split at failed
    · next unread =>
        cases failed
        exact inPattern_of_classItems unread
    · cases failed
  · exact inPattern_of_ruleReference failed

end Tokens

/-! ## Patterns -/

/-- The reader objects to nothing but what can be wrong inside of a pattern. -/
def StaysInPattern {α : Type} (reader : Reader α) : Prop :=
  forall {text fault}, reader text = .error fault -> fault.cause.InPattern

section Patterns

variable {limit : Nat} {inner : Reader Measured} {text : List Char} {fault : Fault}

theorem inPattern_of_oneLevelUp {height : Nat} {place after : List Char}
    (failed : oneLevelUp limit height place after = .error fault) : fault.cause.InPattern := by
  cases oneLevelUp_eq_error failed
  trivial

theorem inPattern_of_chain {operator : Char} {join : Pattern -> Pattern -> Pattern}
    (stays : StaysInPattern inner) {left : Reading Measured text}
    (failed : chain limit operator join inner left = .error fault) : fault.cause.InPattern := by
  fun_induction chain limit operator join inner left with
  | case1 => cases failed
  | case2 left sign found fault unread =>
      cases failed
      exact stays unread
  | case3 left sign found right rightRead fault tall =>
      cases failed
      exact inPattern_of_oneLevelUp tall
  | case4 left sign found right rightRead height up inductionHypothesis =>
      exact inductionHypothesis failed

theorem inPattern_of_repetitions {reading : Reading Measured text}
    (failed : repetitions limit reading = .error fault) : fault.cause.InPattern := by
  fun_induction repetitions limit reading with
  | case1 => cases failed
  | case2 reading sign found fault unread =>
      cases failed
      exact inPattern_of_bounds unread
  | case3 reading sign found times timesRead fault tall =>
      cases failed
      exact inPattern_of_oneLevelUp tall
  | case4 reading sign found times timesRead height up inductionHypothesis =>
      exact inductionHypothesis failed

theorem StaysInPattern.joined (stays : StaysInPattern inner) (operator : Char)
    (join : Pattern -> Pattern -> Pattern) :
    StaysInPattern (Reader.joined limit operator join inner) := by
  intro text fault failed
  rw [Reader.joined] at failed
  split at failed
  · next unread =>
      cases failed
      exact stays unread
  · exact inPattern_of_chain stays failed

theorem StaysInPattern.expression (stays : StaysInPattern inner) :
    StaysInPattern (Reader.expression limit inner) :=
  joined (joined stays '*' .sequence) '|' .choice

theorem inPattern_of_groupBody (stays : StaysInPattern inner) {opening : List Char}
    (failed : groupBody limit inner opening text = .error fault) : fault.cause.InPattern := by
  rw [groupBody] at failed
  split at failed
  · next unread =>
      cases failed
      exact (StaysInPattern.expression stays) unread
  · split at failed
    · cases failed
      trivial
    · split at failed
      · next tall =>
          cases failed
          exact inPattern_of_oneLevelUp tall
      · cases failed

variable {deeper : Except Cause (Reader Measured)}

theorem inPattern_of_primary (refused : forall cause, deeper = .error cause -> cause.InPattern)
    (stays : forall inner, deeper = .ok inner -> StaysInPattern inner) {symbol : Char}
    {after : List Char} (failed : primary limit deeper symbol after = .error fault) :
    fault.cause.InPattern := by
  unfold primary at failed
  split at failed
  · split at failed
    · next cause =>
        cases failed
        exact refused cause rfl
    · next inner =>
        split at failed
        · next unread =>
            cases failed
            exact inPattern_of_groupBody (stays inner rfl) unread
        · cases failed
  · split at failed
    · next unread =>
        cases failed
        exact inPattern_of_atom unread
    · cases failed

theorem StaysInPattern.operandAt
    (refused : forall cause, deeper = .error cause -> cause.InPattern)
    (stays : forall inner, deeper = .ok inner -> StaysInPattern inner) :
    StaysInPattern (Reader.operandAt limit deeper) := by
  intro text fault failed
  rw [Reader.operandAt] at failed
  split at failed
  · cases failed
    trivial
  · next sign found =>
      split at failed
      · rw [repeatable] at failed
        split at failed
        · next unread =>
            cases failed
            exact inPattern_of_primary refused stays unread
        · exact inPattern_of_repetitions failed
      · split at failed
        · next cause =>
            cases failed
            exact refused cause rfl
        · next inner =>
            rw [unary] at failed
            split at failed
            · next unread =>
                cases failed
                exact stays inner rfl unread
            · split at failed
              · next tall =>
                  cases failed
                  exact inPattern_of_oneLevelUp tall
              · cases failed

theorem StaysInPattern.operand (limit levels : Nat) :
    StaysInPattern (Reader.operand limit levels) := by
  induction levels with
  | zero =>
      apply operandAt
      · rintro cause ⟨⟩
        trivial
      · rintro inner ⟨⟩
  | succ levels inductionHypothesis =>
      apply operandAt
      · rintro cause ⟨⟩
      · rintro inner ⟨⟩
        exact inductionHypothesis

theorem StaysInPattern.pattern (limit : Nat) : StaysInPattern (Reader.pattern limit) :=
  expression (operand limit limit)

end Patterns

end Reader
end ParsingMachine
