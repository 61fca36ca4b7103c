import ParsingMachine.Reader.Token

namespace ParsingMachine
namespace Reader

/-!
# Patterns read from text

From the loosest to the tightest: patterns joined by `|`, patterns joined by
`*`, unary operators in front, repetition bounds behind, and inside of all
that a parenthesized pattern or an atom.  Both joins associate to the left.

No pattern may be taller than a limit.  Two counts see to that.  On the way
down, groups and unary operators are counted as they open, so that a text
cannot nest without end; the count is the recursion itself, in that a reader
is given the reader for one level further in, or none at the last level.  On
the way up every node is measured, which also bounds the long chains that are
tall without being nested.
-/

/-- A pattern and its height. -/
structure Measured where
  pattern : Pattern
  height : Nat

/-- The height of a node over inner nodes of the given height.  A node that
would be too tall is a fault at the sign that makes it. -/
def oneLevelUp (limit : Option Nat) (height : Nat) (place after : List Char) :
    Except Fault Nat :=
  match limit with
  | none => .ok (height + 1)
  | some limit =>
      if limit ≤ height then .error ⟨.tooDeep limit, place, after⟩ else .ok (height + 1)

/-! ## Atoms -/

/-- A rule reference, or the objection to a sign that starts no pattern. -/
def ruleReference (symbol : Char) (after : List Char) :
    Except Fault (Reading Pattern (symbol :: after)) :=
  match name? (symbol :: after) with
  | some name => .ok (name.map .rule)
  | none =>
      if symbol = ')' ∨ symbol = '|' ∨ symbol = '}' then
        .error ⟨.missingPattern, symbol :: after, after⟩
      else .error (Fault.atNext (.unexpectedChar symbol) (symbol :: after))

/-- A literal between double quotes, behind its first quote. -/
def textLiteral (build : String -> Pattern) (text : List Char) :
    Except Fault (Reading Pattern text) :=
  match literalBody '"' ('"' :: text) text with
  | .error fault => .error fault
  | .ok reading => .ok (reading.map fun characters => build (String.ofList characters))

/-- A pattern that holds no other pattern.  An `i` begins a literal only when
a quote follows it at once, and a rule name otherwise. -/
def atom (symbol : Char) (after : List Char) : Except Fault (Reading Pattern (symbol :: after)) :=
  match symbol, after with
  | '\'', body =>
      match charLiteral ('\'' :: body) body with
      | .error fault => .error fault
      | .ok reading => .ok ((reading.map .char).behindChar '\'')
  | '"', body =>
      match textLiteral .literal body with
      | .error fault => .error fault
      | .ok reading => .ok (reading.behindChar '"')
  | 'i', '"' :: body =>
      match textLiteral .literalAnyCase body with
      | .error fault => .error fault
      | .ok reading => .ok ((reading.behindChar '"').behindChar 'i')
  | '.', rest => .ok ⟨.any, rest, Nat.lt_add_one _⟩
  | '{', body =>
      match classItems ('{' :: body) body with
      | .error fault => .error fault
      | .ok reading => .ok ((reading.map .charClass).behindChar '{')
  | symbol, after => ruleReference symbol after

/-! ## Infix operators -/

/-- Further operands behind what has been read, as long as the operator
follows.  What is left in the end begins with the sign that ended the chain. -/
def chain (limit : Option Nat) (operator : Char) (join : Pattern -> Pattern -> Pattern)
    (operand : Reader Measured) {text : List Char} (left : Reading Measured text) :
    Except Fault (Reading Measured text) :=
  match sign? operator left.rest with
  | none => .ok left.pastTrivia
  | some sign =>
      match operand sign.rest with
      | .error fault => .error fault
      | .ok right =>
          match oneLevelUp limit (max left.value.height right.value.height)
              (operator :: sign.rest) sign.rest with
          | .error fault => .error fault
          | .ok height =>
              chain limit operator join operand
                ((left.behind (sign.behind right)).map fun measured =>
                  ⟨join left.value.pattern measured.pattern, height⟩)
termination_by left.rest.length
decreasing_by exact Nat.lt_trans right.shorter sign.shorter

/-- One or more operands, joined from the left. -/
def joined (limit : Option Nat) (operator : Char) (join : Pattern -> Pattern -> Pattern)
    (operand : Reader Measured) : Reader Measured := fun text =>
  match operand text with
  | .error fault => .error fault
  | .ok first => chain limit operator join operand first

/-- A whole pattern, made of the given operands of its sequences. -/
def expression (limit : Option Nat) (operand : Reader Measured) : Reader Measured :=
  joined limit '|' .choice (joined limit '*' .sequence operand)

/-! ## Groups and repetitions -/

/-- A parenthesized pattern, behind its opening parenthesis. -/
def groupBody (limit : Option Nat) (inner : Reader Measured) (opening text : List Char) :
    Except Fault (Reading Measured text) :=
  match expression limit inner text with
  | .error fault => .error fault
  | .ok reading =>
      match sign? ')' reading.rest with
      | none => .error ⟨.unclosedGroup, opening, text⟩
      | some closing =>
          match oneLevelUp limit reading.value.height opening text with
          | .error fault => .error fault
          | .ok height =>
              .ok (reading.behind (closing.map fun _ => ⟨.group reading.value.pattern, height⟩))

/-- A parenthesized pattern or an atom. -/
def primary (limit : Option Nat) (deeper : Except Cause (Reader Measured)) (symbol : Char)
    (after : List Char) : Except Fault (Reading Measured (symbol :: after)) :=
  if symbol = '(' then
    match deeper with
    | .error cause => .error ⟨cause, symbol :: after, after⟩
    | .ok inner =>
        match groupBody limit inner (symbol :: after) after with
        | .error fault => .error fault
        | .ok reading => .ok (reading.behindChar symbol)
  else
    match atom symbol after with
    | .error fault => .error fault
    | .ok reading => .ok (reading.map fun pattern => ⟨pattern, 1⟩)

/-- Any number of repetition bounds behind what has been read. -/
def repetitions (limit : Option Nat) {text : List Char} (inner : Reading Measured text) :
    Except Fault (Reading Measured text) :=
  match sign? '{' inner.rest with
  | none => .ok inner.pastTrivia
  | some sign =>
      match bounds ('{' :: sign.rest) sign.rest with
      | .error fault => .error fault
      | .ok times =>
          match oneLevelUp limit inner.value.height ('{' :: sign.rest) times.rest with
          | .error fault => .error fault
          | .ok height =>
              repetitions limit
                ((inner.behind (sign.behind times)).map fun bounds =>
                  ⟨.repeated inner.value.pattern bounds.1 bounds.2, height⟩)
termination_by inner.rest.length
decreasing_by exact Nat.lt_trans times.shorter sign.shorter

/-! ## Unary operators and nesting -/

/-- The pattern that a unary operator makes of the pattern behind it. -/
def unaryOperator? (symbol : Char) : Option (Pattern -> Pattern) :=
  if symbol = '-' then some .not
  else if symbol = '?' then some .optional
  else if symbol = '*' then some .zeroOrMore
  else if symbol = '+' then some .oneOrMore
  else none

/-- A unary operator and the pattern behind it, with the operator's sign given
as read. -/
def unary (limit : Option Nat) (inner : Reader Measured) {text : List Char}
    (sign : Reading Char text) (apply : Pattern -> Pattern) :
    Except Fault (Reading Measured text) :=
  match inner sign.rest with
  | .error fault => .error fault
  | .ok reading =>
      match oneLevelUp limit reading.value.height sign.here sign.rest with
      | .error fault => .error fault
      | .ok height =>
          .ok ((sign.behind reading).map fun measured => ⟨apply measured.pattern, height⟩)

/-- A parenthesized pattern or an atom with repetition bounds behind it, where
its first character is given as read. -/
def repeatable (limit : Option Nat) (deeper : Except Cause (Reader Measured)) {text : List Char}
    (sign : Reading Char text) : Except Fault (Reading Measured text) :=
  match primary limit deeper sign.value sign.rest with
  | .error fault => .error fault
  | .ok reading => repetitions limit (reading.within sign.shorter)

/-- An operand of a sequence: a unary operator in front of another operand, or
something that can be repeated.  Operands one level further in are left to
`deeper`, or objected to for the cause that stands in its place. -/
def operandAt (limit : Option Nat) (deeper : Except Cause (Reader Measured)) :
    Reader Measured := fun text =>
  match next? text with
  | none => .error ⟨.missingPattern, [], []⟩
  | some sign =>
      match unaryOperator? sign.value with
      | none => repeatable limit deeper sign
      | some apply =>
          match deeper with
          | .error cause => .error ⟨cause, sign.here, sign.rest⟩
          | .ok inner => unary limit inner sign apply

/-- An operand with the given number of levels left for groups and unary
operators to open. -/
def operand (limit : Nat) : (levels : Nat) -> Reader Measured
  | 0 => operandAt limit (.error (.tooDeep limit))
  | levels + 1 => operandAt limit (.ok (operand limit levels))

/-- A pattern at most `limit` nodes tall, off the beginning of a text. -/
def pattern (limit : Nat) : Reader Measured :=
  expression limit (operand limit limit)

end Reader
end ParsingMachine
