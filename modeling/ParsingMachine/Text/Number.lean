namespace ParsingMachine
namespace Text

/-!
# Numbers on the command line

A number is one or more decimal digits, with at most one plus sign in front,
and its value is below 2^64.  The digits are gone through from the left, so
what is wrong first is what is objected to.
-/

/-- Why a text is no number. -/
inductive NumberFault where
  | empty
  | notADigit
  | tooLarge
  deriving DecidableEq

/-- The objection in prose. -/
def NumberFault.message : NumberFault -> String
  | empty => "cannot parse integer from empty string"
  | notADigit => "invalid digit found in string"
  | tooLarge => "number too large to fit in target type"

/-- The value of the digits that are left, behind digits with a given value. -/
def digitsFrom (value : UInt64) : List Char -> Except NumberFault UInt64
  | [] => .ok value
  | digit :: rest =>
      if digit.isDigit then
        let extended := 10 * value.toNat + (digit.toNat - '0'.toNat)
        if extended < UInt64.size then digitsFrom (.ofNat extended) rest else .error .tooLarge
      else .error .notADigit

/-- The value of a number. -/
def number (text : String) : Except NumberFault UInt64 :=
  match text.toList with
  | [] => .error .empty
  | ['+'] => .error .notADigit
  | '+' :: digits => digitsFrom 0 digits
  | digits => digitsFrom 0 digits

end Text
end ParsingMachine
