import ParsingMachine.RuleTable

namespace ParsingMachine

/-!
# Linked programs

Linking puts the code of all rules one behind the other, the start rule first
and the others in the order of their definitions, each of them closed by an
instruction that goes back to the caller.  Every call is then given the
address of the rule that it names.  A match that goes back from the start rule
without ever having been called is over.
-/

/-- A program that is ready to run, with the address at which the code of each
rule begins. -/
structure Program where
  code : Array Instruction
  entries : List (String × Nat)
  deriving DecidableEq, Inhabited

namespace Program

/-- The number of instructions. -/
def size (program : Program) : Nat :=
  program.code.size

/-- The address at which the code of a rule begins. -/
def entry? (program : Program) (rule : String) : Option Nat :=
  (program.entries.find? fun entry => entry.1 = rule).map Prod.snd

/-- The rule whose code begins exactly at an address. -/
def ruleAt? (program : Program) (address : Nat) : Option String :=
  (program.entries.find? fun entry => entry.2 = address).map Prod.fst

/-- The rules with the addresses at which their code begins, in the order of the
addresses. -/
def rules (program : Program) : List (String × Nat) :=
  program.entries.mergeSort fun one other => decide (one.2 ≤ other.2)

end Program

namespace RuleTable

/-- The rules in the order in which they are put down, the start rule first. -/
def layout (table : RuleTable) (start : String) (code : Code) : List (String × Code) :=
  (start, code) :: table.entries.filter fun entry => entry.1 ≠ start

/-- The addresses of rules that are put down from an address on, each with one
more instruction behind it. -/
def addressesFrom : Nat -> List (String × Code) -> List (String × Nat)
  | _, [] => []
  | address, (name, code) :: rest =>
      (name, address) :: addressesFrom (address + code.length + 1) rest

/-- Give a call its address.  A call that leads nowhere is blamed on the rule
that owns it. -/
def resolve (entries : List (String × Nat)) (owner : String) :
    Instruction -> Except CompileError Instruction
  | .call rule _ =>
      match entries.find? fun entry => entry.1 = rule with
      | some entry => .ok (.call rule (some entry.2))
      | none => .error (.unresolvedRule owner rule)
  | instruction => .ok instruction

/-- The code of one rule as it is put down. -/
def placed (entries : List (String × Nat)) (rule : String × Code) : Except CompileError Code := do
  let code ← rule.2.mapM (resolve entries rule.1)
  return code ++ [.returnToCaller]

/-- Put all the rules down, the start rule at address zero, and give every call
its address. -/
def link (table : RuleTable) (start : String) : Except CompileError Program :=
  match table.get? start with
  | none => .error (.missingStart start)
  | some code => do
      let layout := table.layout start code
      let entries := addressesFrom 0 layout
      let bodies ← layout.mapM (placed entries)
      return { code := bodies.flatten.toArray, entries := entries }

end RuleTable

/-- Compile and link a grammar into a program that starts from a rule. -/
def Grammar.compile (grammar : Grammar) (start : String) : Except CompileError Program := do
  let table ← RuleTable.build grammar
  table.link start

end ParsingMachine
