import ParsingMachine.Reader.Fault

namespace ParsingMachine
namespace Reader

/-!
# Readings

A reader takes a value off the beginning of a text, or finds a fault.  Every
reader that succeeds has read something, and the proof of that travels with
what is left of the text: it is what lets a loop that calls a reader end.
The operations below put readings together and leave value and rest to be
seen, so that nothing about them has to be proved more than once.
-/

/-- A value read off the beginning of `text`, and what is left of the text. -/
structure Reading (α : Type) (text : List Char) where
  value : α
  rest : List Char
  shorter : rest.length < text.length

namespace Reading

variable {α β : Type} {text : List Char}

/-- Make something else of the value that was read. -/
def map (convert : α -> β) (reading : Reading α text) : Reading β text where
  value := convert reading.value
  rest := reading.rest
  shorter := reading.shorter

/-- What was read off a part of a text at its end was read off the text. -/
def within {part : List Char} (reading : Reading α part) (bound : part.length ≤ text.length) :
    Reading α text where
  value := reading.value
  rest := reading.rest
  shorter := Nat.lt_of_lt_of_le reading.shorter bound

/-- What was read behind something else was read off the same text. -/
def behind (first : Reading α text) (second : Reading β first.rest) : Reading β text :=
  second.within (Nat.le_of_lt first.shorter)

/-- What was read behind a first character was read off the whole text. -/
def behindChar {rest : List Char} (character : Char) (reading : Reading α rest) :
    Reading α (character :: rest) :=
  reading.within (Nat.le_succ _)

/-- The text from a character on that was read. -/
def here (reading : Reading Char text) : List Char :=
  reading.value :: reading.rest

end Reading
end Reader

/-- Takes a value off the beginning of a text. -/
abbrev Reader (α : Type) : Type :=
  (text : List Char) -> Except Reader.Fault (Reader.Reading α text)

end ParsingMachine
