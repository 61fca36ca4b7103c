import ParsingMachine.Proofs.CharSet.Membership
import ParsingMachine.Proofs.Grammar.Semantics
import ParsingMachine.Proofs.Machine.Runs

namespace ParsingMachine
namespace Machine

open Text

/-!
# What single instructions do

One lemma for each kind of instruction says which state follows.  The matching
instructions are one kind: such an instruction stands for a property of texts,
takes a text with the property off the subject where the subject begins with
one, and falls back elsewhere.
-/

/-- A matching instruction takes exactly the texts with the property off a
subject. -/
structure Tests (instruction : Instruction) (admits : List Char -> Prop) : Prop where
  executed : forall program state, execute program state instruction =
    match matchedBytes? state.cursor.rest instruction with
    | some bytes => .next ⟨state.address + 1, state.cursor.advance bytes, state.stack⟩
    | none => backtrack state.stack
  takes : forall taken left, admits taken ->
    matchedBytes? (taken ++ left) instruction = some (byteLength taken)
  only : forall text bytes, matchedBytes? text instruction = some bytes ->
    Exists fun taken => taken <+: text ∧ admits taken

theorem tests_matchText (text : String) :
    Tests (.matchText text) (fun taken => taken = text.toList) where
  executed _ _ := rfl
  takes taken left same := by
    subst same
    rw [matchedBytes?, if_pos (List.isPrefixOf_iff_prefix.mpr (List.prefix_append _ _)),
      utf8ByteSize_eq_byteLength]
  only subject bytes matched := by
    rw [matchedBytes?] at matched
    split at matched
    · next begins => exact ⟨_, List.isPrefixOf_iff_prefix.mp begins, rfl⟩
    · cases matched

theorem tests_matchTextAnyCase (text : String) :
    Tests (.matchTextAnyCase text) (fun taken => folded taken = folded text.toList) where
  executed _ _ := rfl
  takes taken left same := by
    rw [matchedBytes?, if_pos (beginsWithAnyCase_iff.mpr ⟨taken, left, rfl, same⟩),
      utf8ByteSize_eq_byteLength, byteLength_eq_of_folded_eq same]
  only subject bytes matched := by
    rw [matchedBytes?] at matched
    split at matched
    · next begins =>
        rcases beginsWithAnyCase_iff.mp begins with ⟨taken, left, whole, same⟩
        exact ⟨taken, ⟨left, whole.symm⟩, same⟩
    · cases matched

theorem tests_matchAny :
    Tests .matchAny (fun taken => Exists fun character => taken = [character]) where
  executed _ _ := rfl
  takes taken left := by
    rintro ⟨character, rfl⟩
    rfl
  only subject bytes matched := by
    cases subject with
    | nil => cases matched
    | cons character rest => exact ⟨[character], ⟨rest, rfl⟩, character, rfl⟩

theorem tests_matchSet (set : CharSet) :
    Tests (.matchSet set)
      (fun taken => Exists fun character => taken = [character] ∧ set.contains character = true)
    where
  executed _ _ := rfl
  takes taken left := by
    rintro ⟨character, rfl, inside⟩
    rw [matchedBytes?, List.singleton_append, List.head?_cons, Option.filter_some_pos inside]
    rfl
  only subject bytes matched := by
    cases subject with
    | nil => cases matched
    | cons character rest =>
        by_cases inside : set.contains character = true
        · exact ⟨[character], ⟨rest, rfl⟩, character, rfl, inside⟩
        · rw [matchedBytes?, List.head?_cons,
            Option.filter_some_neg (Bool.eq_false_iff.mpr inside)] at matched
          cases matched

variable {program : Program} {address position : Nat} {stack : Stack}

theorem step_eq_execute {instruction : Instruction} {state : State}
    (located : program.code[state.address]? = some instruction) :
    step program state = execute program state instruction := by
  rw [step, located]

theorem Tests.step_of_admits {instruction : Instruction} {admits : List Char -> Prop}
    (tests : Tests instruction admits) (located : program.code[address]? = some instruction)
    {taken : List Char} (admitted : admits taken) (left : List Char) (position : Nat)
    (stack : Stack) :
    step program ⟨address, ⟨taken ++ left, position⟩, stack⟩ =
      .next ⟨address + 1, ⟨left, position + byteLength taken⟩, stack⟩ := by
  rw [step_eq_execute located, tests.executed, tests.takes taken left admitted]
  simp only [Cursor.advance, dropBytes_byteLength_append]

theorem Tests.step_of_not_admits {instruction : Instruction} {admits : List Char -> Prop}
    (tests : Tests instruction admits) (located : program.code[address]? = some instruction)
    {text : List Char} (refused : forall taken, taken <+: text -> ¬ admits taken) :
    step program ⟨address, ⟨text, position⟩, stack⟩ = backtrack stack := by
  rw [step_eq_execute located, tests.executed]
  cases matched : matchedBytes? text instruction with
  | some bytes =>
      rcases tests.only text bytes matched with ⟨taken, begins, admitted⟩
      exact absurd admitted (refused taken begins)
  | none => rfl

theorem step_choice {offset : Int} (located : program.code[address]? = some (.choice offset))
    (cursor : Cursor) (stack : Stack) :
    step program ⟨address, cursor, stack⟩ =
      .next ⟨address + 1, cursor, stack.push (.choicePoint (jump address offset) cursor)⟩ := by
  rw [step_eq_execute located]
  rfl

/-- A commit jumps, unless it closes a round that matched nothing. -/
theorem step_commit {offset : Int} {cursor saved : Cursor} {resume : Nat}
    (located : program.code[address]? = some (.commit offset))
    (onward : offset < 0 -> saved.position ≠ cursor.position) :
    step program ⟨address, cursor, stack.push (.choicePoint resume saved)⟩ =
      .next ⟨jump address offset, cursor, stack⟩ := by
  have different : ¬ (offset < 0 ∧ saved.position = cursor.position) :=
    fun idle => onward idle.1 idle.2
  rw [step_eq_execute located]
  simp only [execute, Stack.pop?_push, idleLoop?, if_neg different]

/-- A commit that closes a round that matched nothing leaves the loop. -/
theorem step_commit_idle {offset exit : Int} {cursor saved : Cursor}
    (located : program.code[address]? = some (.commit offset)) (backward : offset < 0)
    (idle : saved.position = cursor.position)
    (opening : program.code[jump address offset]? = some (.choice exit)) (resume : Nat)
    (stack : Stack) :
    step program ⟨address, cursor, stack.push (.choicePoint resume saved)⟩ =
      .next ⟨jump (jump address offset) exit, cursor, stack⟩ := by
  rw [step_eq_execute located]
  simp only [execute, Stack.pop?_push, idleLoop?, if_pos (And.intro backward idle), opening]

theorem step_call {rule : String} {entry : Nat}
    (located : program.code[address]? = some (.call rule (some entry))) (cursor : Cursor)
    (stack : Stack) :
    step program ⟨address, cursor, stack⟩ =
      .next ⟨entry, cursor, stack.push (.caller (address + 1))⟩ := by
  rw [step_eq_execute located]
  rfl

theorem step_return {resume : Nat} {cursor : Cursor}
    (located : program.code[address]? = some .returnToCaller) :
    step program ⟨address, cursor, stack.push (.caller resume)⟩ =
      .next ⟨resume, cursor, stack⟩ := by
  rw [step_eq_execute located]
  simp only [execute, Stack.pop?_push]

theorem step_return_empty (located : program.code[address]? = some .returnToCaller)
    (cursor : Cursor) :
    step program ⟨address, cursor, .empty⟩ = .finished (some cursor.position) := by
  rw [step_eq_execute located]
  simp only [execute, Stack.pop?_empty]

theorem step_fail {cursor : Cursor} (located : program.code[address]? = some .fail) :
    step program ⟨address, cursor, stack⟩ = backtrack stack := by
  rw [step_eq_execute located]
  rfl

theorem step_comment {text : String} {cursor : Cursor}
    (located : program.code[address]? = some (.comment text)) :
    step program ⟨address, cursor, stack⟩ = .next ⟨address + 1, cursor, stack⟩ := by
  rw [step_eq_execute located]
  rfl

/-! ## Jumps -/

@[simp] theorem jump_jumpOver (code : Code) (more : Nat) :
    jump address (code.jumpOver more) = address + (code.length + more) := by
  rw [jump, Code.jumpOver]
  omega

/-- The jump from a choice to behind the commit that belongs to it. -/
theorem jump_jumpOver_two (code : Code) :
    jump address (code.jumpOver 2) = address + 1 + code.length + 1 := by
  rw [jump_jumpOver]
  omega

@[simp] theorem jump_one : jump address 1 = address + 1 := rfl

/-- The jump at the end of a loop leads back to its choice. -/
theorem jump_back (code : Code) (more : Nat) :
    jump (address + (code.length + more)) (-code.jumpOver more) = address := by
  rw [jump, Code.jumpOver]
  omega

theorem jumpOver_backward (code : Code) : -code.jumpOver 1 < 0 := by
  rw [Code.jumpOver]
  omega

end Machine
end ParsingMachine
