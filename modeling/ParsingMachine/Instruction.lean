import ParsingMachine.CharSet

namespace ParsingMachine

/-!
# Instructions

A program is a list of instructions.  Jumps are written relative to the
instruction that jumps, so that the code of a rule means the same wherever it
is put.  Only calls hold an address, and they hold none before the program is
linked.
-/

/-- An instruction of the parsing machine. -/
inductive Instruction where
  /-- Put down a choice point that resumes at an offset from here, with the
  text that is left now. -/
  | choice (offset : Int)
  /-- Throw the last choice point away and jump.  A jump backwards closes a
  loop and leads to the choice that opened it. -/
  | commit (offset : Int)
  /-- Run the rule with this name, whose code begins at the address. -/
  | call (rule : String) (address : Option Nat)
  /-- Go back to behind the call, or end the match where there was none. -/
  | returnToCaller
  /-- Match any one character. -/
  | matchAny
  /-- Match one character of the set. -/
  | matchSet (set : CharSet)
  /-- Match the given text. -/
  | matchText (text : String)
  /-- Match the given text, with ASCII letters in either case. -/
  | matchTextAnyCase (text : String)
  /-- Go back to the last choice point. -/
  | fail
  /-- Do nothing. -/
  | comment (text : String)
  deriving DecidableEq, Inhabited

/-- A list of instructions. -/
abbrev Code : Type := List Instruction

/-- The kind of an instruction. -/
inductive Opcode where
  | choice
  | commit
  | call
  | returnToCaller
  | matchAny
  | matchSet
  | matchText
  | matchTextAnyCase
  | fail
  | comment
  deriving DecidableEq, Inhabited

namespace Opcode

/-- Every kind of instruction, in the order of their numbers. -/
def all : List Opcode :=
  [.choice, .commit, .call, .returnToCaller, .matchAny, .matchSet, .matchText,
    .matchTextAnyCase, .fail, .comment]

/-- The name of the kind. -/
def name : Opcode -> String
  | choice => "Choice"
  | commit => "Commit"
  | call => "Call"
  | returnToCaller => "Return"
  | matchAny => "MatchAny"
  | matchSet => "MatchSet"
  | matchText => "MatchString"
  | matchTextAnyCase => "MatchStringCaseInsensitive"
  | fail => "Fail"
  | comment => "Comment"

/-- The number of the kind.  The numbers are dense from zero. -/
def number (opcode : Opcode) : Nat :=
  all.idxOf opcode

/-- The kind with the given number. -/
def ofNumber? (number : Nat) : Option Opcode :=
  all[number]?

/-- The objection to a number that no kind has. -/
def badNumberMessage (number : Nat) : String :=
  "No discriminant in enum `Opcode` matches the value `" ++ toString number ++ "`"

theorem ofNumber?_number (opcode : Opcode) : ofNumber? opcode.number = some opcode := by
  cases opcode <;> rfl

theorem number_of_ofNumber? {number : Nat} {opcode : Opcode}
    (found : ofNumber? number = some opcode) : opcode.number = number := by
  obtain ⟨inside, equal⟩ := List.getElem?_eq_some_iff.mp found
  have bound : number < 10 := inside
  subst equal
  match number, bound with
  | 0, _ | 1, _ | 2, _ | 3, _ | 4, _ | 5, _ | 6, _ | 7, _ | 8, _ | 9, _ => rfl

end Opcode

namespace Instruction

/-- The kind of an instruction. -/
def opcode : Instruction -> Opcode
  | choice _ => .choice
  | commit _ => .commit
  | call _ _ => .call
  | returnToCaller => .returnToCaller
  | matchAny => .matchAny
  | matchSet _ => .matchSet
  | matchText _ => .matchText
  | matchTextAnyCase _ => .matchTextAnyCase
  | fail => .fail
  | comment _ => .comment

/-- The address that stands for a missing one in the text of an instruction,
which is the greatest of all. -/
def missingAddress : Nat := UInt64.size - 1

/-- An instruction as traces show it. -/
def text : Instruction -> String
  | choice offset => "Choice(" ++ toString offset ++ ")"
  | commit offset => "Commit(" ++ toString offset ++ ")"
  | call rule address =>
      "Call \x7b rule: " ++ Text.quotedString rule ++ ", addr: " ++
        toString (address.getD missingAddress) ++ " \x7d"
  | returnToCaller => "Return"
  | matchAny => "MatchAny"
  | matchSet set => "MatchSet(" ++ set.text ++ ")"
  | matchText text => "MatchString(" ++ Text.quotedString text ++ ")"
  | matchTextAnyCase text => "MatchStringCaseInsensitive(" ++ Text.quotedString text ++ ")"
  | fail => "Fail"
  | comment text => "Comment(" ++ Text.quotedString text ++ ")"

end Instruction
end ParsingMachine
