import ParsingMachine.Pattern
import ParsingMachine.Text.Escape

namespace ParsingMachine
namespace Pattern

/-!
# Patterns written in grammar syntax

Parentheses are put around a pattern exactly where it binds less tightly than
its place asks for.  Both infix operators associate to the left, so the place
on their right asks for more than the place on their left.  A `group` is
written with its own parentheses and, being an atom, never gets a second pair.
-/

/-- How tightly the outermost operator of a pattern binds. -/
def binding : Pattern -> Nat
  | choice _ _ => 0
  | sequence _ _ => 1
  | not _ | optional _ | zeroOrMore _ | oneOrMore _ => 2
  | repeated _ _ _ => 3
  | group _ | char _ | literal _ | literalAnyCase _ | any | charClass _ | rule _ => 4

/-- A text between two quotes, with the escapes of literals. -/
def writtenLiteral (quote : Char) (text : List Char) : List Char :=
  quote :: Text.escaped quote text ++ [quote]

/-- A character between single quotes. -/
def writtenChar (character : Char) : List Char :=
  writtenLiteral '\'' [character]

end Pattern

namespace ClassItem

/-- An item as it stands between the braces of a class. -/
def written : ClassItem -> List Char
  | char character => Pattern.writtenChar character
  | range first last => Pattern.writtenChar first ++ ['.', '.'] ++ Pattern.writtenChar last

end ClassItem

namespace Pattern

/-- The items of a class between its braces.  A class without items is
written without the blanks inside. -/
def writtenClass : List ClassItem -> List Char
  | [] => ['{', '}']
  | items => ['{', ' '] ++ [',', ' '].intercalate (items.map ClassItem.written) ++ [' ', '}']

/-- The bounds of a repetition.  Equal bounds are written once. -/
def writtenBounds (least most : UInt64) : List Char :=
  if least = most then '{' :: (toString least).toList ++ ['}']
  else '{' :: (toString least).toList ++ ['.', '.'] ++ (toString most).toList ++ ['}']

/-- Put what was written for a pattern into parentheses when the pattern binds
less tightly than `required`. -/
def parenthesized (pattern : Pattern) (required : Nat) (text : List Char) : List Char :=
  if pattern.binding < required then '(' :: text ++ [')'] else text

/-- A pattern at a place that asks it to bind at least as tightly as
`required`. -/
def written : Pattern -> (required : Nat) -> List Char
  | choice first second, required =>
      parenthesized (choice first second) required
        (first.written 0 ++ [' ', '|', ' '] ++ second.written 1)
  | sequence first second, required =>
      parenthesized (sequence first second) required
        (first.written 1 ++ [' ', '*', ' '] ++ second.written 2)
  | not inner, required => parenthesized (not inner) required ('-' :: inner.written 2)
  | optional inner, required => parenthesized (optional inner) required ('?' :: inner.written 2)
  | zeroOrMore inner, required => parenthesized (zeroOrMore inner) required ('*' :: inner.written 2)
  | oneOrMore inner, required => parenthesized (oneOrMore inner) required ('+' :: inner.written 2)
  | repeated inner least most, required =>
      parenthesized (repeated inner least most) required
        (inner.written 4 ++ writtenBounds least most)
  | group inner, _ => '(' :: inner.written 0 ++ [')']
  | char character, _ => writtenChar character
  | literal text, _ => writtenLiteral '"' text.toList
  | literalAnyCase text, _ => 'i' :: writtenLiteral '"' text.toList
  | any, _ => ['.']
  | charClass items, _ => writtenClass items
  | rule name, _ => name.toList

/-- A pattern in grammar syntax. -/
def toText (pattern : Pattern) : String :=
  String.ofList (pattern.written 0)

end Pattern
end ParsingMachine
