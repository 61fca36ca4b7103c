namespace ParsingMachine

/-!
# Patterns

The tree that a rule is made of.  A pattern says which beginnings of a text
it matches and knows nothing of how it was written down, except that a
`group` records a pair of parentheses: they change no match, but a pattern
that is read and written again keeps them.
-/

/-- One item between the braces of a character class.  A range includes both
its ends; whether it runs backwards is not checked here. -/
inductive ClassItem where
  | char (character : Char)
  | range (first last : Char)
  deriving DecidableEq, Inhabited

/-- A parsing expression. -/
inductive Pattern where
  /-- A pattern in parentheses. -/
  | group (inner : Pattern)
  /-- One given character. -/
  | char (character : Char)
  /-- A given text. -/
  | literal (text : String)
  /-- A given text, where ASCII letters match in either case. -/
  | literalAnyCase (text : String)
  /-- Any one character. -/
  | any
  /-- One character that an item covers.  Without items it never matches. -/
  | charClass (items : List ClassItem)
  /-- Matches nothing, and does so exactly where the inside does not match. -/
  | not (inner : Pattern)
  /-- One pattern after the other. -/
  | sequence (first second : Pattern)
  /-- The second pattern where the first one does not match. -/
  | choice (first second : Pattern)
  /-- The inside where it matches, and nothing elsewhere. -/
  | optional (inner : Pattern)
  /-- The inside as often as it matches. -/
  | zeroOrMore (inner : Pattern)
  /-- The inside once, and then as often as it matches. -/
  | oneOrMore (inner : Pattern)
  /-- The inside `least` times, and then up to `most` times where it matches. -/
  | repeated (inner : Pattern) (least most : UInt64)
  /-- The pattern of the rule with this name. -/
  | rule (name : String)
  deriving DecidableEq, Inhabited

namespace Pattern

/-- The class with a single range. -/
def range (first last : Char) : Pattern :=
  .charClass [.range first last]

/-- Join patterns from the left by an infix operator.  There is nothing to
join when the list is empty. -/
def joinAll? (join : Pattern -> Pattern -> Pattern) : List Pattern -> Option Pattern
  | [] => none
  | first :: rest => some (rest.foldl join first)

/-- The patterns one after another. -/
def sequenceAll? : List Pattern -> Option Pattern :=
  joinAll? sequence

/-- The first of the patterns that matches. -/
def choiceAll? : List Pattern -> Option Pattern :=
  joinAll? choice

/-- The names of the rules that a pattern refers to, from left to right and
as often as it does. -/
def references : Pattern -> List String
  | group inner | not inner | optional inner | zeroOrMore inner | oneOrMore inner
  | repeated inner _ _ => inner.references
  | sequence first second | choice first second => first.references ++ second.references
  | rule name => [name]
  | char _ | literal _ | literalAnyCase _ | any | charClass _ => []

/-- The number of nodes on the longest way from the root down to a leaf. -/
def height : Pattern -> Nat
  | group inner | not inner | optional inner | zeroOrMore inner | oneOrMore inner
  | repeated inner _ _ => inner.height + 1
  | sequence first second | choice first second => max first.height second.height + 1
  | rule _ | char _ | literal _ | literalAnyCase _ | any | charClass _ => 1

end Pattern
end ParsingMachine
