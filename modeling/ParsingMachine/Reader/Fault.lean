namespace ParsingMachine
namespace Reader

/-!
# What can be wrong with a grammar text

A fault says what is wrong and where.  While a text is being read, a place in
it is what is left of it there, so that no reader has to know how much text
came before.  Offsets are worked out once, when reading has failed, against
the whole text; a fault therefore does not change when more text is put in
front.
-/

/-- What can be wrong inside the braces of a character class. -/
inductive ClassProblem where
  /-- The text ends inside the class. -/
  | neverClosed
  /-- Two dots are followed by something other than a character literal. -/
  | rangeWithoutEnd
  /-- An item is followed by something other than a comma or the end. -/
  | missingSeparator
  /-- Something other than a character literal stands for an item. -/
  | notAnItem
  deriving DecidableEq

/-- What can be wrong with a grammar text. -/
inductive Cause where
  /-- An operator of other grammar notations that this one does not have. -/
  | unknownOperator (symbol : Char)
  /-- A character that starts nothing. -/
  | unexpectedChar (character : Char)
  /-- A literal that does not end on its line. -/
  | unclosedQuote (quote : Char)
  /-- A character that has no meaning behind a backslash. -/
  | invalidEscape (letter : Char)
  /-- A backslash at the end of the text. -/
  | escapeAtEnd
  /-- A character literal of no or several characters. -/
  | badCharLiteral
  | malformedClass (problem : ClassProblem)
  /-- Bounds that are not numbers below 2^64, or that are not closed. -/
  | badRepetition
  /-- A group that is not closed where its pattern ends. -/
  | unclosedGroup
  /-- The end of the text, or a closing sign, where a pattern has to be. -/
  | missingPattern
  /-- A rule name that is not followed by an arrow. -/
  | missingArrow (name : String)
  /-- Something other than a rule definition behind a rule definition. -/
  | missingRule
  /-- Something behind the end of a single pattern. -/
  | leftover
  /-- A pattern taller than the limit. -/
  | tooDeep (limit : Nat)
  deriving DecidableEq

/-- What is wrong with a text.  The text at fault begins where `place` is left
of the whole and ends where `after` is left of it. -/
structure Fault where
  cause : Cause
  place : List Char
  after : List Char
  deriving DecidableEq

/-- The signs that are operators in other grammar notations.  They get a
message of their own. -/
def isForeignOperator (character : Char) : Bool :=
  ['/', '&', '!', '~', '^', '%', '$', '@', '=', '<', '>', ';', ':', '[', ']'].contains character

/-- Object to the next character, or to the end of the text.  An operator of
other notations is named as such, whatever was to be objected. -/
def Fault.atNext (cause : Cause) (text : List Char) : Fault :=
  match text with
  | [] => ⟨cause, [], []⟩
  | symbol :: after =>
      ⟨if isForeignOperator symbol then .unknownOperator symbol else cause, symbol :: after, after⟩

end Reader
end ParsingMachine
