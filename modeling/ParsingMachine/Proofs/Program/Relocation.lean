import ParsingMachine.Match
import ParsingMachine.Proofs.Machine.Instructions
import ParsingMachine.Proofs.Program.Compiling
import ParsingMachine.Proofs.Program.Nesting

namespace ParsingMachine
namespace Machine

/-!
# Programs at other addresses

The same code may lie in two programs at different addresses.  Jumps are
relative and need no change, while calls have the new addresses.  A relation
says which addresses of the one program correspond to which addresses of the
other one, and it is asked only that the instructions at such addresses do the
same and lead on to such addresses again.

Two machines that start at corresponding addresses then go on in step.  They
have the same place in the subject and stacks of the same shape after every
instruction, so that no answer and no profile tells the programs apart.
-/

variable {one other : Program} {moved : Nat -> Nat -> Prop}

/-- Two instructions, at these addresses of the two programs, that do the same
and lead on to corresponding addresses.  A commit that leads back leads to a
choice. -/
inductive InstructionMoved (one other : Program) (moved : Nat -> Nat -> Prop) (here there : Nat) :
    Instruction -> Instruction -> Prop where
  | choice (offset) : moved (here + 1) (there + 1) ->
      moved (jump here offset) (jump there offset) ->
      InstructionMoved one other moved here there (.choice offset) (.choice offset)
  | commit (offset) : moved (jump here offset) (jump there offset) ->
      (offset < 0 -> Exists fun exit => one.code[jump here offset]? = some (.choice exit)) ->
      InstructionMoved one other moved here there (.commit offset) (.commit offset)
  | call (name) {entry target} : moved (here + 1) (there + 1) -> moved entry target ->
      one.ruleAt? entry = other.ruleAt? target ->
      InstructionMoved one other moved here there (.call name (some entry))
        (.call name (some target))
  | returnToCaller : InstructionMoved one other moved here there .returnToCaller .returnToCaller
  /-- All the other instructions go on to the next address, or fall back. -/
  | onward {instruction} : Program.isPlain instruction = true -> instruction.callee? = none ->
      moved (here + 1) (there + 1) ->
      InstructionMoved one other moved here there instruction instruction

/-- Corresponding addresses have instructions that do the same. -/
def Relocates (one other : Program) (moved : Nat -> Nat -> Prop) : Prop :=
  forall here there, moved here there -> Exists fun instruction => Exists fun twin =>
    one.code[here]? = some instruction ∧ other.code[there]? = some twin ∧
      InstructionMoved one other moved here there instruction twin

/-- Stacks of the same shape, whose frames resume at corresponding
addresses. -/
inductive StackMoved (moved : Nat -> Nat -> Prop) : Stack -> Stack -> Prop where
  | empty : StackMoved moved .empty .empty
  | caller {here there stack twin} : moved here there -> StackMoved moved stack twin ->
      StackMoved moved (stack.push (.caller here)) (twin.push (.caller there))
  | choicePoint {here there stack twin} (cursor) : moved here there ->
      StackMoved moved stack twin ->
      StackMoved moved (stack.push (.choicePoint here cursor))
        (twin.push (.choicePoint there cursor))

/-- Two machines that are in step. -/
structure StateMoved (moved : Nat -> Nat -> Prop) (state twin : State) : Prop where
  address : moved state.address twin.address
  cursor : state.cursor = twin.cursor
  stack : StackMoved moved state.stack twin.stack

/-- What two machines in step come to. -/
inductive StepMoved (moved : Nat -> Nat -> Prop) : Step -> Step -> Prop where
  | next {state twin} : StateMoved moved state twin -> StepMoved moved (.next state) (.next twin)
  | finished (position) : StepMoved moved (.finished position) (.finished position)
  | stuck : StepMoved moved .stuck .stuck

/-! ## Steps -/

theorem StackMoved.depth_eq {stack twin : Stack} (frames : StackMoved moved stack twin) :
    stack.depth = twin.depth := by
  induction frames with
  | empty => rfl
  | caller _ _ inductionHypothesis | choicePoint _ _ _ inductionHypothesis =>
      exact congrArg Nat.succ inductionHypothesis

theorem StackMoved.backtrack {stack twin : Stack} (frames : StackMoved moved stack twin) :
    StepMoved moved (backtrack stack) (backtrack twin) := by
  induction frames with
  | empty => exact .finished none
  | caller _ _ inductionHypothesis => exact inductionHypothesis
  | choicePoint cursor resumes below _ => exact .next ⟨resumes, rfl, below⟩

/-- Wherever it stands, the instruction goes on at a place in the subject, or
falls back if there is no such place. -/
def GoesOn (instruction : Instruction) (cursor : Cursor) (following? : Option Cursor) : Prop :=
  forall program address stack, execute program ⟨address, cursor, stack⟩ instruction =
    match following? with
    | some following => .next ⟨address + 1, following, stack⟩
    | none => backtrack stack

theorem Tests.goesOn {instruction : Instruction} {admits : List Char -> Prop}
    (tests : Tests instruction admits) (cursor : Cursor) :
    GoesOn instruction cursor ((matchedBytes? cursor.rest instruction).map cursor.advance) := by
  intro program address stack
  rw [tests.executed]
  cases matchedBytes? cursor.rest instruction <;> rfl

/-- What an instruction that is neither a jump nor a call does depends on the
place in the subject alone. -/
theorem exists_goesOn {instruction : Instruction} (plain : Program.isPlain instruction = true)
    (noCall : instruction.callee? = none) (cursor : Cursor) :
    Exists fun following? => GoesOn instruction cursor following? := by
  cases instruction with
  | choice _ | commit _ | returnToCaller => cases plain
  | call _ _ => cases noCall
  | fail => exact ⟨none, fun _ _ _ => rfl⟩
  | comment _ => exact ⟨some cursor, fun _ _ _ => rfl⟩
  | matchAny => exact ⟨_, tests_matchAny.goesOn cursor⟩
  | matchSet set => exact ⟨_, (tests_matchSet set).goesOn cursor⟩
  | matchText text => exact ⟨_, (tests_matchText text).goesOn cursor⟩
  | matchTextAnyCase text => exact ⟨_, (tests_matchTextAnyCase text).goesOn cursor⟩

namespace Relocates

variable {state twin : State} {address there : Nat} {cursor : Cursor} {stack twinStack : Stack}

private theorem commit {offset : Int} (relocates : Relocates one other moved)
    (located : one.code[address]? = some (.commit offset))
    (twinLocated : other.code[there]? = some (.commit offset))
    (jumps : moved (jump address offset) (jump there offset))
    (opened : offset < 0 -> Exists fun exit =>
      one.code[jump address offset]? = some (.choice exit))
    (frames : StackMoved moved stack twinStack) :
    StepMoved moved (step one ⟨address, cursor, stack⟩)
      (step other ⟨there, cursor, twinStack⟩) := by
  cases frames with
  | empty | caller _ _ =>
      rw [step_eq_execute located, step_eq_execute twinLocated]
      exact .stuck
  | choicePoint saved _ below =>
      by_cases idle : offset < 0 ∧ saved.position = cursor.position
      · -- Both machines leave the loop by the way out of the same choice.
        rcases opened idle.1 with ⟨exit, opening⟩
        rcases relocates _ _ jumps with ⟨_, _, again, twinOpening, same⟩
        rw [opening] at again
        cases again
        cases same with
        | choice _ _ leaves =>
            rw [step_commit_idle located idle.1 idle.2 opening,
              step_commit_idle twinLocated idle.1 idle.2 twinOpening]
            exact .next ⟨leaves, rfl, below⟩
        | onward plain _ _ => cases plain
      · have goesOn : offset < 0 -> saved.position ≠ cursor.position :=
          fun backward same => idle ⟨backward, same⟩
        rw [step_commit located goesOn, step_commit twinLocated goesOn]
        exact .next ⟨jumps, rfl, below⟩

private theorem returnToCaller (located : one.code[address]? = some .returnToCaller)
    (twinLocated : other.code[there]? = some .returnToCaller)
    (frames : StackMoved moved stack twinStack) :
    StepMoved moved (step one ⟨address, cursor, stack⟩)
      (step other ⟨there, cursor, twinStack⟩) := by
  cases frames with
  | empty =>
      rw [step_return_empty located, step_return_empty twinLocated]
      exact .finished _
  | caller resumes below =>
      rw [step_return located, step_return twinLocated]
      exact .next ⟨resumes, rfl, below⟩
  | choicePoint _ _ _ =>
      rw [step_eq_execute located, step_eq_execute twinLocated]
      exact .stuck

/-- Two machines in step make the same step. -/
theorem step (relocates : Relocates one other moved) (states : StateMoved moved state twin) :
    StepMoved moved (step one state) (step other twin) := by
  rcases state with ⟨address, cursor, stack⟩
  rcases twin with ⟨there, twinCursor, twinStack⟩
  rcases states with ⟨addresses, rfl, frames⟩
  rcases relocates _ _ addresses with ⟨instruction, twinInstruction, located, twinLocated, same⟩
  cases same with
  | choice offset goesOn jumps =>
      rw [step_choice located, step_choice twinLocated]
      exact .next ⟨goesOn, rfl, .choicePoint _ jumps frames⟩
  | commit offset jumps opened => exact relocates.commit located twinLocated jumps opened frames
  | call name goesOn entered _ =>
      rw [step_call located, step_call twinLocated]
      exact .next ⟨entered, rfl, .caller goesOn frames⟩
  | returnToCaller => exact returnToCaller located twinLocated frames
  | onward plain noCall goesOn =>
      rcases exists_goesOn plain noCall cursor with ⟨following?, executed⟩
      rw [step_eq_execute located, step_eq_execute twinLocated, executed, executed]
      cases following? with
      | some following => exact .next ⟨goesOn, rfl, frames⟩
      | none => exact frames.backtrack

end Relocates

/-! ## Runs -/

/-- Two onlookers that see the same of machines in step. -/
structure WatchMoved {α : Type} (one other : Program) (moved : Nat -> Nat -> Prop)
    (watch twinWatch : Watch α) : Prop where
  before : forall state twin instruction twinInstruction seen,
    InstructionMoved one other moved state.address twin.address instruction twinInstruction ->
    watch.before state instruction seen = twinWatch.before twin twinInstruction seen
  after : forall state twin seen, StateMoved moved state twin ->
    watch.after state seen = twinWatch.after twin seen

theorem watchMoved_nothing : WatchMoved one other moved .nothing .nothing where
  before _ _ _ _ _ _ := rfl
  after _ _ _ _ := rfl

/-- A profile holds no addresses.  A call counts for the rule at the address
that it has. -/
theorem watchMoved_profile :
    WatchMoved one other moved (Profile.watch one) (Profile.watch other) where
  before state twin instruction twinInstruction profile same := by
    change profile.record one instruction = profile.record other twinInstruction
    cases same with
    | choice _ _ _ | commit _ _ _ | returnToCaller => rfl
    | call name _ _ named =>
        rw [Profile.record, Profile.record, Option.bind_some, Option.bind_some, named]
        rfl
    | onward _ noCall _ =>
        cases instruction with
        | call _ _ => cases noCall
        | _ => rfl
  after state twin profile states := by
    change profile.noteDepth state.stack.depth = profile.noteDepth twin.stack.depth
    rw [states.stack.depth_eq]

/-- Runs of machines in step are the same, unless they get stuck. -/
theorem Relocates.runFrom {α : Type} {watch twinWatch : Watch α}
    (relocates : Relocates one other moved) (watches : WatchMoved one other moved watch twinWatch)
    (budget steps : Nat) {state twin : State} (states : StateMoved moved state twin) (seen : α) :
    runFrom other twinWatch budget steps twin seen = runFrom one watch budget steps state seen ∨
      Exists fun address => (runFrom one watch budget steps state seen).ending = .stuck address := by
  induction budget generalizing steps state twin seen with
  | zero => exact Or.inl rfl
  | succ budget inductionHypothesis =>
      have stepped := relocates.step states
      rcases relocates _ _ states.address with
        ⟨instruction, twinInstruction, located, twinLocated, same⟩
      rw [step_eq_execute located, step_eq_execute twinLocated] at stepped
      rw [Machine.runFrom, Machine.runFrom, located, twinLocated]
      dsimp only
      rw [← watches.before state twin instruction twinInstruction seen same]
      generalize execute one state instruction = result,
        execute other twin twinInstruction = twinResult at stepped
      cases stepped with
      | next following =>
          dsimp only
          rw [← watches.after _ _ _ following]
          exact inductionHypothesis (steps + 1) following _
      | finished position => exact Or.inl rfl
      | stuck => exact Or.inr ⟨_, rfl⟩

end Machine

namespace Program

open Machine

variable {one other : Program} {moved : Nat -> Nat -> Prop}

private theorem outcomeOf_eq_of_relocates {α : Type} {watch twinWatch : Watch α}
    (relocates : Relocates one other moved) (begins : moved 0 0)
    (watches : WatchMoved one other moved watch twinWatch) {limit : Option UInt64}
    {subject : String}
    {seen : α} {profile : α -> Option Profile}
    (unbroken : forall address,
      outcomeOf limit profile (run one watch limit subject seen) ≠ .error (.broken address)) :
    outcomeOf limit profile (run other twinWatch limit subject seen) =
      outcomeOf limit profile (run one watch limit subject seen) := by
  have starts : StateMoved moved (.start subject.toList) (.start subject.toList) :=
    ⟨begins, rfl, .empty⟩
  rcases relocates.runFrom watches (budget limit) 0 starts seen with same | ⟨address, stuck⟩
  · rw [run, same, run]
  · refine absurd ?_ (unbroken address)
    rw [outcomeOf, run, stuck]

/-- Where the code of a program has been moved to other addresses and the
beginning has stayed in its place, every match has the same answer as before. -/
theorem matchWith_eq_of_relocates (relocates : Relocates one other moved) (begins : moved 0 0)
    {config : MatchConfig} {subject : String}
    (unbroken : forall address, one.matchWith config subject ≠ .error (.broken address)) :
    other.matchWith config subject = one.matchWith config subject := by
  unfold matchWith at unbroken ⊢
  split
  · next profiled =>
      rw [if_pos profiled] at unbroken
      exact outcomeOf_eq_of_relocates relocates begins watchMoved_profile unbroken
  · next plain =>
      rw [if_neg plain] at unbroken
      exact outcomeOf_eq_of_relocates relocates begins watchMoved_nothing unbroken

end Program
end ParsingMachine
