import ParsingMachine.Machine.Stack
import ParsingMachine.Program

namespace ParsingMachine
namespace Machine

/-!
# The parsing machine

The machine has the address of the next instruction, a place in the subject
and a stack of calls and choice points.  A failure drops every frame above the
last choice point.

A step says what an instruction makes of a state.  The machine checks no more
than it needs to go on, and is stuck where an instruction finds a stack that
it cannot work on.  The code that patterns are lowered to never brings it
there.
-/

/-- The machine between two instructions. -/
structure State where
  address : Nat
  cursor : Cursor
  stack : Stack
  deriving DecidableEq, Inhabited

/-- The machine before its first instruction. -/
def State.start (subject : List Char) : State where
  address := 0
  cursor := .start subject
  stack := .empty

/-- What executing an instruction leads to. -/
inductive Step where
  /-- The match goes on. -/
  | next (state : State)
  /-- The match is over.  Where it succeeded, it ended at this position. -/
  | finished (position : Option Nat)
  /-- The stack does not fit the instruction. -/
  | stuck
  deriving DecidableEq, Inhabited

/-! ## Matching instructions -/

/-- A byte with an ASCII capital letter made small. -/
def foldByte (byte : UInt8) : UInt8 :=
  if 0x41 ≤ byte ∧ byte ≤ 0x5A then byte + 0x20 else byte

/-- Whether a subject begins with the bytes of a text, letting aside the case
of ASCII letters.  As many characters as the text has bytes hold enough bytes
to tell. -/
def beginsWithAnyCase (text subject : List Char) : Bool :=
  let wanted := Text.utf8Bytes text
  let found := (Text.utf8Bytes (subject.take wanted.length)).take wanted.length
  decide (found.map foldByte = wanted.map foldByte)

/-- The number of bytes that a matching instruction takes off a subject, if it
matches.  Other instructions take none off. -/
def matchedBytes? (subject : List Char) : Instruction -> Option Nat
  | .matchAny => subject.head?.map Char.utf8Size
  | .matchSet set => (subject.head?.filter set.contains).map Char.utf8Size
  | .matchText text => if text.toList.isPrefixOf subject then some text.utf8ByteSize else none
  | .matchTextAnyCase text =>
      if beginsWithAnyCase text.toList subject then some text.utf8ByteSize else none
  | _ => none

/-! ## Steps -/

/-- The address that an offset leads to. -/
def jump (address : Nat) (offset : Int) : Nat :=
  ((address : Int) + offset).toNat

/-- Fall back to the last choice point.  Without one the match has failed. -/
def backtrack (stack : Stack) : Step :=
  match stack.lastChoicePoint? with
  | none => .finished none
  | some (resume, cursor, below) => .next ⟨resume, cursor, below⟩

/-- The loop that a commit closes, if the last round of it has matched
nothing: the address of the choice that opened it, and the address behind the
loop.  Another round would match nothing again, and so would every round
after it. -/
def idleLoop? (program : Program) (state : State) (offset : Int) : Option (Nat × Nat) :=
  match state.stack.pop? with
  | some (.choicePoint _ saved, _) =>
      if offset < 0 ∧ saved.position = state.cursor.position then
        let target := jump state.address offset
        match program.code[target]? with
        | some (.choice exit) => some (target, jump target exit)
        | _ => none
      else none
  | _ => none

/-- What an instruction makes of a state. -/
def execute (program : Program) (state : State) : Instruction -> Step
  | .choice offset =>
      .next {
        address := state.address + 1
        cursor := state.cursor
        stack := state.stack.push (.choicePoint (jump state.address offset) state.cursor) }
  | .commit offset =>
      match state.stack.pop? with
      | some (.choicePoint _ _, below) =>
          let address := match idleLoop? program state offset with
            | some (_, exit) => exit
            | none => jump state.address offset
          .next ⟨address, state.cursor, below⟩
      | _ => .stuck
  | .call _ (some address) =>
      .next ⟨address, state.cursor, state.stack.push (.caller (state.address + 1))⟩
  | .call _ none => .stuck
  | .returnToCaller =>
      match state.stack.pop? with
      | none => .finished (some state.cursor.position)
      | some (.caller resume, below) => .next ⟨resume, state.cursor, below⟩
      | some (.choicePoint _ _, _) => .stuck
  | .fail => backtrack state.stack
  | .comment _ => .next { state with address := state.address + 1 }
  | instruction =>
      match matchedBytes? state.cursor.rest instruction with
      | some bytes =>
          .next ⟨state.address + 1, state.cursor.advance bytes, state.stack⟩
      | none => backtrack state.stack

/-- One step of the machine. -/
def step (program : Program) (state : State) : Step :=
  match program.code[state.address]? with
  | some instruction => execute program state instruction
  | none => .stuck

/-! ## Runs -/

/-- What looks on while the machine runs.  It keeps a value of its own and
changes nothing in the run. -/
structure Watch (α : Type) where
  /-- An instruction is about to be executed. -/
  before : State -> Instruction -> α -> α
  /-- An instruction has led on to a state. -/
  after : State -> α -> α

namespace Watch

/-- Looks at nothing. -/
def nothing : Watch Unit where
  before _ _ seen := seen
  after _ seen := seen

end Watch

/-- How a run came to its end. -/
inductive Ending where
  /-- The match is over, as in `Step.finished`. -/
  | finished (position : Option Nat)
  /-- The run was cut off before the match was over. -/
  | outOfSteps
  /-- The machine was stuck at an instruction. -/
  | stuck (address : Nat)
  deriving DecidableEq, Inhabited

/-- A run that has come to its end: how, after how many instructions, and what
was seen of it. -/
structure Run (α : Type) where
  ending : Ending
  steps : Nat
  seen : α

/-- Execute at most `budget` instructions more.  The instructions that have
been executed are counted in `steps`. -/
def runFrom {α : Type} (program : Program) (watch : Watch α) :
    (budget steps : Nat) -> State -> α -> Run α
  | 0, steps, _, seen => ⟨.outOfSteps, steps, seen⟩
  | budget + 1, steps, state, seen =>
      match program.code[state.address]? with
      | none => ⟨.stuck state.address, steps, seen⟩
      | some instruction =>
          let seen := watch.before state instruction seen
          match execute program state instruction with
          | .finished position => ⟨.finished position, steps + 1, seen⟩
          | .stuck => ⟨.stuck state.address, steps, seen⟩
          | .next following =>
              runFrom program watch budget (steps + 1) following (watch.after following seen)

/-- The instructions that a run may execute.  They are counted in a word of 64
bits, so a run without a limit is followed for as long as the word can tell
how many they are. -/
def budget : Option UInt64 -> Nat
  | some limit => limit.toNat
  | none => UInt64.size - 1

/-- Run a program on a subject from its first instruction. -/
def run {α : Type} (program : Program) (watch : Watch α) (limit : Option UInt64)
    (subject : String) (seen : α) : Run α :=
  runFrom program watch (budget limit) 0 (.start subject.toList) seen

end Machine
end ParsingMachine
