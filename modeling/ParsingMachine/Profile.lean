import ParsingMachine.Machine
import ParsingMachine.Tally
import ParsingMachine.Text.Columns

namespace ParsingMachine

/-!
# Profiles

What a run was made of: how often each kind of instruction was executed, how
often each rule was called, and how many frames there were at most.
-/

/-- The counts of a run. -/
structure Profile where
  opcodes : Tally Opcode
  calls : Tally String
  maxDepth : Nat
  deriving DecidableEq, Inhabited

namespace Profile

/-- Nothing has been executed. -/
def empty : Profile := ⟨.empty, .empty, 0⟩

/-- Count an instruction that is about to be executed.  A call counts for the
rule that its address belongs to, or for the rule that it names if its address
belongs to none. -/
def record (profile : Profile) (program : Program) (instruction : Instruction) : Profile where
  opcodes := profile.opcodes.add instruction.opcode
  calls := match instruction with
    | .call rule address => profile.calls.add ((address.bind program.ruleAt?).getD rule)
    | _ => profile.calls
  maxDepth := profile.maxDepth

/-- Take note of the number of frames. -/
def noteDepth (profile : Profile) (depth : Nat) : Profile :=
  { profile with maxDepth := max profile.maxDepth depth }

/-- How often a kind of instruction was executed. -/
def count (profile : Profile) (opcode : Opcode) : Nat :=
  profile.opcodes.count opcode

/-- How often a rule was called. -/
def callsOf (profile : Profile) (rule : String) : Nat :=
  profile.calls.count rule

/-- How many instructions were executed. -/
def total (profile : Profile) : Nat :=
  profile.opcodes.total

/-- The kinds of instructions that were executed at all, in the order of their
numbers. -/
def executed (profile : Profile) : List (Opcode × Nat) :=
  (Opcode.all.map fun opcode => (opcode, profile.count opcode)).filter fun entry => entry.2 ≠ 0

/-- The rules that were called, those called most often first.  Rules called
equally often are in the order of their names. -/
def busiest (profile : Profile) : List (String × Nat) :=
  profile.calls.entries.mergeSort fun one other =>
    decide (other.2 < one.2 ∨ one.2 = other.2 ∧ ¬ other.1 < one.1)

/-- The profile in lines, each of them ended. -/
def text (profile : Profile) : String :=
  let summary := toString profile.total ++ " instructions, stack depth at most " ++
    toString profile.maxDepth ++ "\n"
  let opcodeLines := profile.executed.map fun entry =>
    "  " ++ Text.alignLeft 28 entry.1.name ++ " " ++ toString entry.2 ++ "\n"
  let callLines := profile.busiest.map fun entry =>
    "  call " ++ Text.alignLeft 23 entry.1 ++ " " ++ toString entry.2 ++ "\n"
  String.join (summary :: opcodeLines ++ callLines)

/-- Keeps the profile of a run. -/
def watch (program : Program) : Machine.Watch Profile where
  before _ instruction profile := profile.record program instruction
  after state profile := profile.noteDepth state.stack.depth

end Profile
end ParsingMachine
