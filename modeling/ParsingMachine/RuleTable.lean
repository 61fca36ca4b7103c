import ParsingMachine.Grammar
import ParsingMachine.Lowering

namespace ParsingMachine

/-!
# Compiled rules

Rules are compiled one after another, each against the table of those before
it.  A short rule that is in the table already is copied to where it is
referred to; every other reference becomes a call, whose address is missing
until the program is linked.  The limit keeps copies of copies from growing
without bound.
-/

/-- The code of rules by their names, in the order of their definitions. -/
structure RuleTable where
  entries : List (String × Code)
  deriving DecidableEq, Inhabited

namespace RuleTable

/-- The table without rules. -/
def empty : RuleTable := ⟨[]⟩

/-- The code of the rule with this name. -/
def get? (table : RuleTable) (name : String) : Option Code :=
  (table.entries.find? fun entry => entry.1 = name).map Prod.snd

/-- Whether a rule with this name is in the table. -/
def contains (table : RuleTable) (name : String) : Bool :=
  (table.get? name).isSome

/-- The number of rules. -/
def size (table : RuleTable) : Nat :=
  table.entries.length

/-- Add a rule.  A name can be added only once. -/
def insert (table : RuleTable) (name : String) (code : Code) : Except CompileError RuleTable :=
  if table.contains name then .error (.duplicateRule name)
  else .ok ⟨table.entries ++ [(name, code)]⟩

/-- The longest code, in instructions, that is copied to where it is referred
to. -/
def inlineLimit : Nat := 32

/-- What stands for a reference: a copy of the code if there is any and it is
short, and else a call. -/
def inlineOrCall (table : RuleTable) (name : String) : Code :=
  match table.get? name with
  | some code =>
      if code.length ≤ inlineLimit then .comment ("inline " ++ name) :: code
      else [.call name none]
  | none => [.call name none]

/-- Lowering against the rules of a table. -/
def lowering (table : RuleTable) : Lowering where
  reference := table.inlineOrCall
  alternative := Code.fusedAlternative

/-- The code of a rule, with copies of short rules of the table. -/
def compileRule (table : RuleTable) (rule : Rule) : Except CompileError Code :=
  table.lowering.lower rule.name rule.pattern

/-- Compile a rule in the given way and add it. -/
def addRule (way : RuleTable -> Lowering) (table : RuleTable) (rule : Rule) :
    Except CompileError RuleTable := do
  let code ← (way table).lower rule.name rule.pattern
  table.insert rule.name code

/-- Compile all the rules of a grammar in the order of their definitions, each
in the way that the table of those before it gives. -/
def buildBy (way : RuleTable -> Lowering) (grammar : Grammar) : Except CompileError RuleTable :=
  grammar.rules.foldlM (addRule way) empty

/-- Compile all the rules of a grammar, with copies of short rules. -/
def build (grammar : Grammar) : Except CompileError RuleTable :=
  buildBy lowering grammar

end RuleTable
end ParsingMachine
