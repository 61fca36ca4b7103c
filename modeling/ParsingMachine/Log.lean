import ParsingMachine.Compilation
import ParsingMachine.Grammar.Reachability
import ParsingMachine.Match

namespace ParsingMachine
namespace Log

/-!
# The log

What the library has to say about its work while it does it.  The work itself
is silent: an entry is worked out from the same values as the work, and these
functions give the entries in the order in which the work comes by them.  Work
that fails has entries up to where it fails.
-/

/-- How much an entry matters, from the least to the most. -/
inductive Level where
  | trace
  | debug
  | warn
  deriving DecidableEq, Inhabited

namespace Level

/-- The name of the level. -/
def name : Level -> String
  | trace => "trace"
  | debug => "debug"
  | warn => "warn"

/-- The level with the given name. -/
def ofName? (name : String) : Option Level :=
  [trace, debug, warn].find? fun level => level.name = name

/-- The levels that matter at least as much. -/
def andAbove : Level -> List Level
  | trace => [trace, debug, warn]
  | debug => [debug, warn]
  | warn => [warn]

end Level

/-- Something that has come up. -/
inductive Entry where
  /-- A rule has been compiled into a number of instructions. -/
  | compiled (rule : Rule) (length : Nat)
  /-- A number of rules has been linked into a number of instructions. -/
  | linked (rules length : Nat) (start : String)
  /-- The code of a rule begins at an address. -/
  | placed (rule : String) (address : Nat)
  /-- The start rule never leads to a rule. -/
  | unreachable (rule start : String)
  /-- The machine is about to execute an instruction, in a place of the
  subject and with a number of frames. -/
  | executing (address : Nat) (instruction : Instruction) (position depth : Nat)
  /-- The loop that begins at an address is left because a round of it matched
  nothing. -/
  | idle (address position : Nat)
  deriving DecidableEq, Inhabited

namespace Entry

/-- How much the entry matters. -/
def level : Entry -> Level
  | unreachable _ _ => .warn
  | compiled _ _ | linked _ _ _ | idle _ _ => .debug
  | placed _ _ | executing _ _ _ _ => .trace

/-- The entry in prose. -/
def message : Entry -> String
  | compiled rule length =>
      "compiled `" ++ rule.toText ++ "` into " ++ toString length ++ " instructions"
  | linked rules length start =>
      "linked " ++ toString rules ++ " rules into " ++ toString length ++
        " instructions, starting at `" ++ start ++ "`"
  | placed rule address => "  `" ++ rule ++ "` at " ++ toString address
  | unreachable rule start => "rule `" ++ rule ++ "` can't be reached from `" ++ start ++ "`"
  | executing address instruction position depth =>
      Text.alignRight 4 (toString address) ++ " " ++ Text.alignLeft 40 instruction.text ++
        " at " ++ toString position ++ " (depth " ++ toString depth ++ ")"
  | idle address position =>
      "loop at " ++ toString address ++ " went round without consuming anything at " ++
        toString position ++ "; leaving it"

end Entry

/-- The entries that matter at least as much as a level. -/
def atLeast (level : Level) (entries : List Entry) : List Entry :=
  entries.filter fun entry => level.andAbove.contains entry.level

end Log

/-! ## Compiling -/

/-- What is logged while rules are compiled into a table. -/
def RuleTable.buildLogFrom (table : RuleTable) : List Rule -> List Log.Entry
  | [] => []
  | rule :: rules =>
      match table.compileRule rule with
      | .error _ => []
      | .ok code =>
          .compiled rule code.length ::
            match table.insert rule.name code with
            | .error _ => []
            | .ok extended => extended.buildLogFrom rules

/-- What is logged while a table is built. -/
def RuleTable.buildLog (grammar : Grammar) : List Log.Entry :=
  RuleTable.empty.buildLogFrom grammar.rules

/-- What is logged about a program that has been linked.  The places of the
rules come in the order of their texts. -/
def Program.linkedLog (program : Program) (start : String) : List Log.Entry :=
  .linked program.entries.length program.size start ::
    (program.entries.map fun entry => Log.Entry.placed entry.1 entry.2).mergeSort
      fun one other => decide (¬ other.message < one.message)

/-- What is logged while a table is linked. -/
def RuleTable.linkLog (table : RuleTable) (start : String) : List Log.Entry :=
  match table.link start with
  | .error _ => []
  | .ok program => program.linkedLog start

/-- The warnings about a grammar that has been compiled. -/
def Grammar.warnings (grammar : Grammar) (start : String) : List Log.Entry :=
  (grammar.unreachableRules start).map fun rule => .unreachable rule start

/-- What is logged while a grammar is compiled. -/
def Grammar.compileLog (grammar : Grammar) (start : String) : List Log.Entry :=
  RuleTable.buildLog grammar ++
    match RuleTable.build grammar with
    | .error _ => []
    | .ok table =>
        match table.link start with
        | .error _ => []
        | .ok program => program.linkedLog start ++ grammar.warnings start

/-- What is logged while a text is read and compiled. -/
def Program.textLog (text : String) (start : Option String) : List Log.Entry :=
  match Grammar.ofText text with
  | .error _ => []
  | .ok grammar => grammar.compileLog (grammar.startFor start)

/-! ## Matching -/

namespace Log

/-- What is logged about an instruction that is executed in a state: the
instruction, and the loop that it leaves if it does. -/
def entriesAt (program : Program) (state : Machine.State) (instruction : Instruction) :
    List Entry :=
  .executing state.address instruction state.cursor.position state.stack.depth ::
    match instruction with
    | .commit offset =>
        match Machine.idleLoop? program state offset with
        | some (address, _) => [.idle address state.cursor.position]
        | none => []
    | _ => []

/-- Keeps the entries of a run, the last one first. -/
def watch (program : Program) : Machine.Watch (List Entry) where
  before state instruction seen := (entriesAt program state instruction).reverse ++ seen
  after _ seen := seen

end Log

/-- What is logged while a subject is matched. -/
def Program.matchLog (program : Program) (stepLimit : Option UInt64) (subject : String) :
    List Log.Entry :=
  (Machine.run program (Log.watch program) stepLimit subject []).seen.reverse

end ParsingMachine
