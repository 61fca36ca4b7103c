import ParsingMachine.Text.Blank

namespace ParsingMachine
namespace Reader

/-!
# Blanks and comments

Any number of blank characters and comments may stand between two tokens, and
at both ends of a text.  A comment runs from `#` to the end of its line, or to
the end of the text.
-/

/-- What is left behind the blanks and comments at the beginning of a text.
The flag tells whether the text begins inside a comment. -/
def skipTriviaFrom (inComment : Bool) : List Char -> List Char
  | [] => []
  | character :: rest =>
      if inComment then skipTriviaFrom (character ≠ '\n') rest
      else if Text.isBlank character then skipTriviaFrom false rest
      else if character = '#' then skipTriviaFrom true rest
      else character :: rest

/-- What is left behind the blanks and comments at the beginning of a text. -/
def skipTrivia (text : List Char) : List Char :=
  skipTriviaFrom false text

theorem skipTriviaFrom_length_le (inComment : Bool) (text : List Char) :
    (skipTriviaFrom inComment text).length ≤ text.length := by
  induction text generalizing inComment with
  | nil => exact Nat.le_refl 0
  | cons character rest inductionHypothesis =>
      unfold skipTriviaFrom
      repeat' split
      · exact Nat.le_succ_of_le (inductionHypothesis _)
      · exact Nat.le_succ_of_le (inductionHypothesis _)
      · exact Nat.le_succ_of_le (inductionHypothesis _)
      · exact Nat.le_refl _

theorem skipTrivia_length_le (text : List Char) : (skipTrivia text).length ≤ text.length :=
  skipTriviaFrom_length_le false text

/-- What follows the first character behind the trivia is shorter than the
text. -/
theorem length_lt_of_skipTrivia {text rest : List Char} {character : Char}
    (found : skipTrivia text = character :: rest) : rest.length < text.length := by
  have bound := skipTrivia_length_le text
  rw [found] at bound
  exact bound

end Reader
end ParsingMachine
