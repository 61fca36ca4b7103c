import ParsingMachine.Pattern.Printer

namespace ParsingMachine

/-!
# Grammars

A grammar is the list of its rules in the order in which they are defined.
Nothing here asks the names to be different, or the references to lead
anywhere; that is found out when a grammar is compiled.
-/

/-- A named pattern. -/
structure Rule where
  name : String
  pattern : Pattern
  deriving DecidableEq, Inhabited

/-- A rule definition in grammar syntax. -/
def Rule.written (rule : Rule) : List Char :=
  rule.name.toList ++ [' ', '<', '-', ' '] ++ rule.pattern.written 0

/-- A rule definition in grammar syntax, as a string. -/
def Rule.toText (rule : Rule) : String :=
  String.ofList rule.written

/-- Rule definitions in order. -/
structure Grammar where
  rules : List Rule
  deriving DecidableEq, Inhabited

namespace Grammar

/-- The name of the first rule, where matching starts unless something else is
asked for. -/
def startRule? (grammar : Grammar) : Option String :=
  grammar.rules.head?.map Rule.name

/-- The first rule with the given name. -/
def get? (grammar : Grammar) (name : String) : Option Rule :=
  grammar.rules.find? fun rule => rule.name = name

/-- The grammar in grammar syntax, one rule on each line. -/
def written (grammar : Grammar) : List Char :=
  grammar.rules.flatMap fun rule => rule.written ++ ['\n']

/-- The grammar in grammar syntax, as a string. -/
def toText (grammar : Grammar) : String :=
  String.ofList grammar.written

end Grammar
end ParsingMachine
