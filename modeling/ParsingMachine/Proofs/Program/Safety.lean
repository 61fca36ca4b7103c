import ParsingMachine.Proofs.Machine.Instructions
import ParsingMachine.Proofs.Program.Nesting

namespace ParsingMachine
namespace Machine

/-!
# The machine keeps to the nesting

While a program runs, the choice points above the last call on the stack are
the ones that are open at the address of the machine, and below every call
they are the ones that are open where the call goes back to.  A failure drops
some of the frames and leaves such a stack.

Nothing in the machine looks after this.  It follows from the nesting of the
choice points in the code alone, for every subject and however long the
machine has been running.
-/

/-- Where the machine goes on when it comes back to a frame. -/
def Frame.resume : Frame -> Nat
  | .caller resume => resume
  | .choicePoint resume _ => resume

/-- The choice points on the stack, down to the last call, resume at the given
addresses, and the calls below go back to where the choice points below them
are open. -/
inductive Stacked (program : Program) : List Nat -> Stack -> Prop where
  | empty : Stacked program [] .empty
  | caller {resume stack} : resume < program.size -> Stacked program (program.openAt resume) stack ->
      Stacked program [] (stack.push (.caller resume))
  | choicePoint {resume outer stack} (cursor) : resume < program.size ->
      program.openAt resume = outer -> Stacked program outer stack ->
      Stacked program (resume :: outer) (stack.push (.choicePoint resume cursor))

/-- The stack of a state belongs to its address. -/
structure Consistent (program : Program) (state : State) : Prop where
  inside : state.address < program.size
  stacked : Stacked program (program.openAt state.address) state.stack

variable {program : Program}

namespace Stacked

variable {resumes : List Nat} {stack : Stack}

/-- Every frame resumes at an instruction. -/
theorem resume_inside (stacked : Stacked program resumes stack) :
    forall frame, frame ∈ stack.frames -> frame.resume < program.size := by
  induction stacked with
  | empty =>
      intro frame listed
      exact absurd listed List.not_mem_nil
  | caller inside _ inductionHypothesis | choicePoint _ inside _ _ inductionHypothesis =>
      intro frame listed
      rcases List.mem_cons.mp listed with rfl | below
      · exact inside
      · exact inductionHypothesis frame below

theorem push_inv {resume : Nat} {outer : List Nat}
    (stacked : Stacked program (resume :: outer) stack) :
    Exists fun cursor => Exists fun below => stack = below.push (.choicePoint resume cursor) ∧
      Stacked program outer below := by
  cases stacked with
  | choicePoint cursor _ _ below => exact ⟨cursor, _, rfl, below⟩

theorem nil_inv (stacked : Stacked program [] stack) :
    stack = .empty ∨ Exists fun resume => Exists fun below =>
      stack = below.push (.caller resume) ∧ resume < program.size ∧
        Stacked program (program.openAt resume) below := by
  cases stacked with
  | empty => exact Or.inl rfl
  | caller inside below => exact Or.inr ⟨_, _, rfl, inside, below⟩

/-- Falling back leads to a state with a stack that belongs to its address. -/
theorem consistent_of_backtrack (stacked : Stacked program resumes stack) {following : State}
    (resumed : backtrack stack = .next following) : Consistent program following := by
  induction stacked with
  | empty => cases resumed
  | caller _ _ inductionHypothesis => exact inductionHypothesis resumed
  | choicePoint cursor inside same below _ =>
      cases resumed
      exact ⟨inside, same ▸ below⟩

end Stacked

/-- What is safe about a state: its address and the addresses on its stack
have an instruction, and the instruction that is next can be executed. -/
structure Safe (program : Program) (state : State) : Prop where
  inside : state.address < program.size
  resumes : forall frame, frame ∈ state.stack.frames -> frame.resume < program.size
  /-- A choice resumes at an instruction. -/
  choice : forall offset, program.code[state.address]? = some (.choice offset) ->
    Exists fun target : Nat => (target : Int) = state.address + offset ∧ target < program.size
  /-- A commit finds a choice point, and leads to an instruction.  One that leads
  back leads to a choice. -/
  commit : forall offset, program.code[state.address]? = some (.commit offset) ->
    (Exists fun resume => Exists fun cursor => Exists fun below =>
      state.stack.pop? = some (.choicePoint resume cursor, below)) ∧
    Exists fun target : Nat => (target : Int) = state.address + offset ∧ target < program.size ∧
      (offset < 0 -> Exists fun exit => program.code[target]? = some (.choice exit))
  /-- A return finds a call, or nothing at all. -/
  goesBack : program.code[state.address]? = some .returnToCaller ->
    state.stack.pop? = none ∨ Exists fun resume => Exists fun below =>
      state.stack.pop? = some (.caller resume, below)
  /-- A call has the address of the rule that it names. -/
  call : forall name address, program.code[state.address]? = some (.call name address) ->
    Exists fun entry => address = some entry ∧ program.entry? name = some entry ∧
      entry < program.size

theorem Consistent.safe {state : State} (nested : program.Nested)
    (consistent : Consistent program state) : Safe program state where
  inside := consistent.inside
  resumes := consistent.stacked.resume_inside
  choice offset located := by
    rcases nested.fits _ _ located with ⟨_, target, reached, inside, _⟩
    exact ⟨target, reached, inside⟩
  commit offset located := by
    rcases nested.fits _ _ located with ⟨resume, outer, opened, target, ⟨reached, inside, _⟩, back⟩
    have stacked := consistent.stacked
    rw [opened] at stacked
    rcases stacked.push_inv with ⟨cursor, below, same, _⟩
    rw [same]
    exact ⟨⟨resume, cursor, below, rfl⟩, target, reached, inside, back⟩
  goesBack located := by
    have opened : program.openAt state.address = [] := nested.fits _ _ located
    have stacked := consistent.stacked
    rw [opened] at stacked
    rcases stacked.nil_inv with same | ⟨resume, below, same, _⟩
    · rw [same]
      exact Or.inl rfl
    · rw [same]
      exact Or.inr ⟨resume, below, rfl⟩
  call name address located := by
    rcases nested.called name address (Array.mem_of_getElem? located) with
      ⟨entry, linked, found, inside, _⟩
    exact ⟨entry, linked, found, inside⟩

/-! ## Steps -/

namespace Consistent

variable {state following : State}

/-- Behind an instruction that only goes on, the stack still belongs to the
address. -/
private theorem onward {instruction : Instruction} (consistent : Consistent program state)
    (located : program.code[state.address]? = some instruction)
    (plain : Program.isPlain instruction = true) (inside : state.address + 1 < program.size)
    (cursor : Cursor) : Consistent program ⟨state.address + 1, cursor, state.stack⟩ := by
  have same : program.openAt (state.address + 1) = program.openAt state.address := by
    rw [Program.openAt_succ located]
    cases instruction <;> first | rfl | cases plain
  exact ⟨inside, same ▸ consistent.stacked⟩

private theorem of_tests {instruction : Instruction} {admits : List Char -> Prop}
    (consistent : Consistent program state) (tests : Tests instruction admits)
    (located : program.code[state.address]? = some instruction)
    (plain : Program.isPlain instruction = true) (inside : state.address + 1 < program.size)
    (stepped : execute program state instruction = .next following) :
    Consistent program following := by
  rw [tests.executed] at stepped
  split at stepped
  · cases stepped
    exact consistent.onward located plain inside _
  · exact consistent.stacked.consistent_of_backtrack stepped

private theorem of_choice {offset : Int} (consistent : Consistent program state)
    (nested : program.Nested) (located : program.code[state.address]? = some (.choice offset))
    (stepped : execute program state (.choice offset) = .next following) :
    Consistent program following := by
  rcases nested.fits _ _ located with ⟨inside, target, leads⟩
  cases stepped
  refine ⟨inside, ?_⟩
  rw [Program.openAt_succ located]
  refine .choicePoint _ ?_ ?_ consistent.stacked
  · rw [leads.jump_eq]
    exact leads.2.1
  · rw [leads.jump_eq]
    exact leads.2.2

private theorem of_commit {offset : Int} (consistent : Consistent program state)
    (nested : program.Nested) (located : program.code[state.address]? = some (.commit offset))
    (stepped : execute program state (.commit offset) = .next following) :
    Consistent program following := by
  rcases nested.fits _ _ located with ⟨resume, outer, opened, target, leads, _⟩
  have stacked := consistent.stacked
  rw [opened] at stacked
  rcases stacked.push_inv with ⟨saved, below, same, belowStacked⟩
  simp only [execute, same, Stack.pop?_push] at stepped
  split at stepped
  · next opening exit idle =>
      -- The loop is left by the way out of its choice.
      rw [idleLoop?, same] at idle
      simp only [Stack.pop?_push, leads.jump_eq] at idle
      split at idle
      · split at idle
        · next away beginning =>
            rcases nested.fits _ _ beginning with ⟨_, further, leaves⟩
            cases idle
            cases stepped
            rw [leaves.jump_eq]
            refine ⟨leaves.2.1, ?_⟩
            rw [leaves.2.2, leads.2.2]
            exact belowStacked
        · cases idle
      · cases idle
  · cases stepped
    rw [leads.jump_eq]
    exact ⟨leads.2.1, leads.2.2 ▸ belowStacked⟩

private theorem of_call {name : String} {address : Option Nat}
    (consistent : Consistent program state) (nested : program.Nested)
    (located : program.code[state.address]? = some (.call name address))
    (stepped : execute program state (.call name address) = .next following) :
    Consistent program following := by
  rcases nested.called name address (Array.mem_of_getElem? located) with
    ⟨entry, rfl, _, inside, opened⟩
  have behind : state.address + 1 < program.size := nested.fits _ _ located
  cases stepped
  refine ⟨inside, ?_⟩
  rw [opened]
  exact .caller behind (consistent.onward located rfl behind state.cursor).stacked

private theorem of_return (consistent : Consistent program state) (nested : program.Nested)
    (located : program.code[state.address]? = some .returnToCaller)
    (stepped : execute program state .returnToCaller = .next following) :
    Consistent program following := by
  have opened : program.openAt state.address = [] := nested.fits _ _ located
  have stacked := consistent.stacked
  rw [opened] at stacked
  rcases stacked.nil_inv with same | ⟨resume, below, same, inside, belowStacked⟩
  · rw [execute, same] at stepped
    cases stepped
  · rw [execute, same] at stepped
    cases stepped
    exact ⟨inside, belowStacked⟩

/-- A step leads from a state whose stack belongs to its address to another
one. -/
theorem next (consistent : Consistent program state) (nested : program.Nested)
    (stepped : step program state = .next following) : Consistent program following := by
  cases located : program.code[state.address]? with
  | none =>
      rw [step, located] at stepped
      cases stepped
  | some instruction =>
      rw [step_eq_execute located] at stepped
      have fits := nested.fits _ _ located
      cases instruction with
      | choice offset => exact consistent.of_choice nested located stepped
      | commit offset => exact consistent.of_commit nested located stepped
      | call name address => exact consistent.of_call nested located stepped
      | returnToCaller => exact consistent.of_return nested located stepped
      | fail => exact consistent.stacked.consistent_of_backtrack stepped
      | comment text =>
          cases stepped
          exact consistent.onward located rfl fits state.cursor
      | matchAny => exact consistent.of_tests tests_matchAny located rfl fits stepped
      | matchSet set => exact consistent.of_tests (tests_matchSet set) located rfl fits stepped
      | matchText text => exact consistent.of_tests (tests_matchText text) located rfl fits stepped
      | matchTextAnyCase text =>
          exact consistent.of_tests (tests_matchTextAnyCase text) located rfl fits stepped

/-- A run stays among the states whose stack belongs to their address. -/
theorem of_leads {count : Nat} (consistent : Consistent program state) (nested : program.Nested)
    (reached : Leads program count state (.next following)) : Consistent program following := by
  generalize goal : Step.next following = result at reached
  induction reached with
  | here state =>
      cases goal
      exact consistent
  | last _ => cases goal
  | onward stepped _ inductionHypothesis =>
      exact inductionHypothesis (consistent.next nested stepped) goal

/-- The machine starts with a stack that belongs to its address. -/
theorem start (nested : program.Nested) (subject : List Char) :
    Consistent program (.start subject) :=
  ⟨nested.begins, .empty⟩

end Consistent

/-- Falling back is not being stuck. -/
theorem backtrack_ne_stuck (stack : Stack) : backtrack stack ≠ .stuck := by
  rcases backtrack_cases stack with ⟨following, resumed⟩ | failed
  · rw [resumed]
    exact Step.noConfusion
  · rw [failed]
    exact Step.noConfusion

private theorem Tests.not_stuck {instruction : Instruction} {admits : List Char -> Prop}
    (tests : Tests instruction admits) (state : State) :
    execute program state instruction ≠ .stuck := by
  rw [tests.executed]
  split
  · exact Step.noConfusion
  · exact backtrack_ne_stuck state.stack

/-- In a safe state the machine is not stuck. -/
theorem Safe.not_stuck {state : State} (safe : Safe program state) :
    step program state ≠ .stuck := by
  cases located : program.code[state.address]? with
  | none => exact absurd safe.inside (Nat.not_lt.mpr (Array.getElem?_eq_none_iff.mp located))
  | some instruction =>
      rw [step_eq_execute located]
      cases instruction with
      | choice offset => exact Step.noConfusion
      | commit offset =>
          rcases (safe.commit offset located).1 with ⟨resume, cursor, below, popped⟩
          simp only [execute, popped]
          exact Step.noConfusion
      | call name address =>
          rcases safe.call name address located with ⟨entry, rfl, _⟩
          exact Step.noConfusion
      | returnToCaller =>
          rcases safe.goesBack located with popped | ⟨resume, below, popped⟩
          all_goals
            simp only [execute, popped]
            exact Step.noConfusion
      | fail => exact backtrack_ne_stuck state.stack
      | comment text => exact Step.noConfusion
      | matchAny => exact tests_matchAny.not_stuck state
      | matchSet set => exact (tests_matchSet set).not_stuck state
      | matchText text => exact (tests_matchText text).not_stuck state
      | matchTextAnyCase text => exact (tests_matchTextAnyCase text).not_stuck state

end Machine

namespace Program

open Machine

/-- Every state that a compiled program reaches is safe, whatever the subject
is and however many instructions were executed. -/
theorem safe_of_leads {grammar : Grammar} {start : String} {program : Program}
    (compiled : grammar.compile start = .ok program) {subject : String} {count : Nat} {state : State}
    (reached : Leads program count (.start subject.toList) (.next state)) : Safe program state := by
  rcases Grammar.laid_of_compile compiled with ⟨rules, laid⟩
  have nested := laid.nested
  exact ((Consistent.start nested subject.toList).of_leads nested reached).safe nested

/-- Behind the second parenthesis of nested parentheses there is a call on top
of a choice point. -/
theorem nestedProgram_safe :
    Leads nestedProgram 3 (.start "()".toList) (.next ⟨0, ⟨[')'], 1⟩,
      (Stack.empty.push (.choicePoint 4 ⟨[')'], 1⟩)).push (.caller 3)⟩) ∧
    Safe nestedProgram ⟨0, ⟨[')'], 1⟩,
      (Stack.empty.push (.choicePoint 4 ⟨[')'], 1⟩)).push (.caller 3)⟩ := by
  have reached : Leads nestedProgram 3 (.start "()".toList) (.next ⟨0, ⟨[')'], 1⟩,
      (Stack.empty.push (.choicePoint 4 ⟨[')'], 1⟩)).push (.caller 3)⟩) :=
    .onward rfl (.onward rfl (.onward rfl (.here _)))
  exact ⟨reached, safe_of_leads nestedParentheses_compile reached⟩

/-- A compiled program never breaks off, so a match without an answer has used
up what its limit allows. -/
theorem error_of_matchWith {grammar : Grammar} {start : String} {program : Program}
    (compiled : grammar.compile start = .ok program) {config : MatchConfig} {subject : String}
    {error : MatchError} (failed : program.matchWith config subject = .error error) :
    error = .ofLimit config.stepLimit := by
  rcases Grammar.laid_of_compile compiled with ⟨rules, laid⟩
  rcases matchWith_eq_error failed with usedUp | ⟨count, state, reached, stuck⟩
  · exact usedUp
  · exact absurd stuck (((Consistent.start laid.nested subject.toList).of_leads laid.nested
      reached).safe laid.nested).not_stuck

end Program
end ParsingMachine
