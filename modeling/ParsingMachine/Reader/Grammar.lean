import ParsingMachine.Grammar
import ParsingMachine.Reader.Expression
import ParsingMachine.Reader.Report

namespace ParsingMachine

/-!
# Grammars read from text

A grammar text is any number of rule definitions, one behind the other.
Nothing separates them: a definition begins where the pattern before it cannot
go on.  A single pattern can be read as well, and then nothing may follow it.
-/

namespace Reader

/-- A rule definition at the beginning of a text, with its pattern left to a
reader of patterns. -/
def ruleDefinition (pattern : Reader Measured) : Reader Rule := fun text =>
  match name? text with
  | none => .error (Fault.atNext .missingRule text)
  | some name =>
      match pair? '<' '-' name.rest with
      | none => .error ⟨.missingArrow name.value, text, name.rest⟩
      | some arrow =>
          match pattern arrow.rest with
          | .error fault => .error fault
          | .ok reading =>
              .ok ((name.behind (arrow.behind reading)).map fun measured =>
                ⟨name.value, measured.pattern⟩)

/-- All the rule definitions of a text. -/
def ruleDefinitions (pattern : Reader Measured) (text : List Char) : Except Fault (List Rule) :=
  match next? text with
  | none => .ok []
  | some next =>
      match ruleDefinition pattern next.here with
      | .error fault => .error fault
      | .ok rule =>
          match ruleDefinitions pattern rule.rest with
          | .error fault => .error fault
          | .ok rules => .ok (rule.value :: rules)
termination_by text.length
decreasing_by exact Nat.lt_of_lt_of_le rule.shorter next.shorter

/-- The pattern that makes up a whole text. -/
def wholePattern (pattern : Reader Measured) (text : List Char) : Except Fault Pattern :=
  match pattern text with
  | .error fault => .error fault
  | .ok reading =>
      match next? reading.rest with
      | none => .ok reading.value.pattern
      | some next => .error (Fault.atNext .leftover next.here)

/-- The greatest height of a pattern that is read, counting every node from
the root down to the deepest leaf. -/
def heightLimit : Nat := 1000

/-- Make something of what was read off a whole text, or report on the fault. -/
def reported {α β : Type} (text : List Char) (make : α -> β) : Except Fault α -> Except Report β
  | .ok value => .ok (make value)
  | .error fault => .error (Report.ofFault text fault)

/-- Read a grammar with a reader of patterns. -/
def grammarBy (pattern : Reader Measured) (text : String) : Except Report Grammar :=
  reported text.toList Grammar.mk (ruleDefinitions pattern text.toList)

/-- Read a single pattern with a reader of patterns. -/
def patternBy (pattern : Reader Measured) (text : String) : Except Report Pattern :=
  reported text.toList id (wholePattern pattern text.toList)

end Reader

/-- Read a grammar. -/
def Grammar.ofText (text : String) : Except Reader.Report Grammar :=
  Reader.grammarBy (Reader.pattern Reader.heightLimit) text

/-- Read a single pattern. -/
def Pattern.ofText (text : String) : Except Reader.Report Pattern :=
  Reader.patternBy (Reader.pattern Reader.heightLimit) text

end ParsingMachine
