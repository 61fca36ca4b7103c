import ParsingMachine.Text.Escape
import ParsingMachine.Text.Unprintable

namespace ParsingMachine
namespace Text

/-!
# Quoted characters and texts

How messages, traces and results show a piece of text: between quotes, on one
line, and with nothing in it that a reader could not see.  The short escapes
are the ones of grammar literals.  Everything else that does not show as
itself is spelled out by its code point, as in `'\u{301}'`, which is not an
escape that grammar literals know.
-/

/-- A code point in lower-case hexadecimal, as `\u{…}`. -/
def codePointEscape (character : Char) : List Char :=
  ['\\', 'u', '{'] ++ Nat.toDigits 16 character.toNat ++ ['}']

/-- One character of a quoted text. -/
def visibleChar (quote character : Char) : List Char :=
  match escapeLetter? quote character with
  | some letter => ['\\', letter]
  | none => if isUnprintable character then codePointEscape character else [character]

/-- A text between two quotes of the given kind. -/
def quotedWith (quote : Char) (text : List Char) : String :=
  String.ofList (quote :: text.flatMap (visibleChar quote) ++ [quote])

/-- A character between single quotes. -/
def quotedChar (character : Char) : String :=
  quotedWith '\'' [character]

/-- A text between double quotes. -/
def quotedText (text : List Char) : String :=
  quotedWith '"' text

/-- A string between double quotes. -/
def quotedString (text : String) : String :=
  quotedText text.toList

end Text
end ParsingMachine
