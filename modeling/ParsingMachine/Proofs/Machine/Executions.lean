import ParsingMachine.Proofs.Machine.Instructions

namespace ParsingMachine
namespace Machine

/-!
# Executions

An execution lists the instructions that a match executes, from the first one to
the last, each with the state that it finds.  It is the one thing that counters,
depth marks and traces speak about, so what an onlooker has seen in the end is
worked out from it here, once for all onlookers.

On the way every frame on the stack was put down by an instruction, and only one
instruction takes frames of a kind up again.  Failures take up frames as well,
which is why there are no more of the latter instructions than of the former,
and why there may be fewer.
-/

/-- An instruction that is executed, and the state that it finds. -/
structure Visit where
  state : State
  instruction : Instruction

/-- From a state on, the machine executes these instructions and then ends the
match. -/
inductive Executes (program : Program) : List Visit -> State -> Option Nat -> Prop where
  | last {state instruction position} :
      program.code[state.address]? = some instruction ->
      execute program state instruction = .finished position ->
      Executes program [⟨state, instruction⟩] state position
  | onward {visits state instruction following position} :
      program.code[state.address]? = some instruction ->
      execute program state instruction = .next following ->
      Executes program visits following position ->
      Executes program (⟨state, instruction⟩ :: visits) state position

variable {program : Program} {visits : List Visit} {state : State} {position : Option Nat}

namespace Executes

theorem exists_first (executes : Executes program visits state position) :
    Exists fun instruction => Exists fun rest => visits = ⟨state, instruction⟩ :: rest := by
  cases executes with
  | last _ _ => exact ⟨_, _, rfl⟩
  | onward _ _ _ => exact ⟨_, _, rfl⟩

theorem leads (executes : Executes program visits state position) :
    Leads program visits.length state (.finished position) := by
  induction executes with
  | last located ended => exact .last ((step_eq_execute located).trans ended)
  | onward located stepped _ inductionHypothesis =>
      exact .onward ((step_eq_execute located).trans stepped) inductionHypothesis

/-- What is executed stands in the program. -/
theorem mem_code (executes : Executes program visits state position) :
    forall visit, visit ∈ visits -> visit.instruction ∈ program.code := by
  induction executes with
  | last located _ =>
      intro visit listed
      exact List.mem_singleton.mp listed ▸ Array.mem_of_getElem? located
  | onward located _ _ inductionHypothesis =>
      intro visit listed
      rcases List.mem_cons.mp listed with rfl | later
      · exact Array.mem_of_getElem? located
      · exact inductionHypothesis visit later

/-- The states that an execution goes through are those that the machine
reaches. -/
theorem exists_visit_iff (executes : Executes program visits state position) {reached : State} :
    (Exists fun visit => visit ∈ visits ∧ visit.state = reached) <->
      Exists fun count => Leads program count state (.next reached) := by
  induction executes with
  | @last state instruction _ located ended =>
      constructor
      · rintro ⟨visit, listed, rfl⟩
        exact ⟨0, List.mem_singleton.mp listed ▸ .here _⟩
      · rintro ⟨count, reaches⟩
        cases reaches with
        | here _ => exact ⟨_, List.mem_singleton_self _, rfl⟩
        | onward stepped _ =>
            rw [step_eq_execute located, ended] at stepped
            cases stepped
  | @onward _ state instruction following _ located stepped _ inductionHypothesis =>
      constructor
      · rintro ⟨visit, listed, rfl⟩
        rcases List.mem_cons.mp listed with rfl | later
        · exact ⟨0, .here _⟩
        · rcases inductionHypothesis.mp ⟨visit, later, rfl⟩ with ⟨count, reaches⟩
          exact ⟨count + 1, .onward ((step_eq_execute located).trans stepped) reaches⟩
      · rintro ⟨count, reaches⟩
        cases reaches with
        | here _ => exact ⟨_, List.mem_cons_self, rfl⟩
        | onward again remaining =>
            rw [step_eq_execute located, stepped] at again
            cases again
            rcases inductionHypothesis.mpr ⟨_, remaining⟩ with ⟨visit, later, same⟩
            exact ⟨visit, List.mem_cons_of_mem _ later, same⟩

end Executes

/-- A match that comes to an end has an execution as long as its run. -/
theorem Leads.exists_executes {count : Nat}
    (whole : Leads program count state (.finished position)) :
    Exists fun visits => Executes program visits state position ∧ visits.length = count := by
  generalize ended : Step.finished position = goal at whole
  induction whole with
  | here _ => cases ended
  | @last state _ stepped =>
      cases ended
      rw [step] at stepped
      cases located : program.code[state.address]? with
      | none =>
          rw [located] at stepped
          cases stepped
      | some instruction =>
          rw [located] at stepped
          exact ⟨_, .last located stepped, rfl⟩
  | @onward count state _ _ stepped _ inductionHypothesis =>
      rcases inductionHypothesis ended with ⟨visits, executes, counted⟩
      rw [step] at stepped
      cases located : program.code[state.address]? with
      | none =>
          rw [located] at stepped
          cases stepped
      | some instruction =>
          rw [located] at stepped
          exact ⟨_, .onward located stepped executes, congrArg (· + 1) counted⟩

/-! ## Onlookers -/

section Onlookers

variable {α : Type} {watch : Watch α}

/-- What an onlooker makes of an execution.  After the last instruction there is
no state left to look at. -/
def Watch.throughout (watch : Watch α) : List Visit -> α -> α
  | [], seen => seen
  | visit :: rest, seen =>
      let noted := watch.before visit.state visit.instruction seen
      match rest with
      | [] => noted
      | next :: _ => watch.throughout rest (watch.after next.state noted)

/-- A budget that lasts to the end of an execution shows the onlooker all of
it. -/
theorem runFrom_of_executes (watch : Watch α)
    (executes : Executes program visits state position) {budget : Nat}
    (enough : visits.length ≤ budget) (steps : Nat) (seen : α) :
    runFrom program watch budget steps state seen =
      ⟨.finished position, steps + visits.length, watch.throughout visits seen⟩ := by
  induction executes generalizing budget steps seen with
  | last located ended =>
      rcases Nat.exists_eq_add_of_le' enough with ⟨left, rfl⟩
      rw [List.length_singleton, runFrom, located]
      dsimp only
      rw [ended]
      rfl
  | onward located stepped rest inductionHypothesis =>
      rcases Nat.exists_eq_add_of_le' enough with ⟨left, rfl⟩
      rcases rest.exists_first with ⟨instruction, others, rfl⟩
      rw [List.length_cons, ← Nat.add_assoc, runFrom, located]
      dsimp only
      rw [stepped]
      dsimp only
      rw [inductionHypothesis (Nat.le_add_left _ left), Nat.add_right_comm, Nat.add_assoc]
      rfl

/-- A number that grows by one at some of the instructions, and is otherwise left
alone, counts these instructions. -/
theorem Watch.throughout_eq_countP (number : α -> Nat) (counted : Visit -> Bool)
    (before : forall visit, visit ∈ visits -> forall seen,
      number (watch.before visit.state visit.instruction seen) =
        number seen + if counted visit then 1 else 0)
    (after : forall state seen, number (watch.after state seen) = number seen) (seen : α) :
    number (watch.throughout visits seen) = number seen + visits.countP counted := by
  induction visits generalizing seen with
  | nil => rfl
  | cons visit rest inductionHypothesis =>
      have first := before visit List.mem_cons_self seen
      have later := inductionHypothesis fun other listed =>
        before other (List.mem_cons_of_mem _ listed)
      rw [List.countP_cons]
      cases rest with
      | nil => exact first.trans (by rw [List.countP_nil, Nat.zero_add])
      | cons next others =>
          rw [Watch.throughout, later, after, first, Nat.add_assoc, Nat.add_comm (List.countP _ _)]

end Onlookers

/-! ## Frames put down and taken up -/

/-- The two kinds of frames. -/
inductive FrameKind where
  | caller
  | choicePoint
  deriving DecidableEq

namespace FrameKind

/-- The instruction that puts frames of the kind down. -/
def opener : FrameKind -> Opcode
  | caller => .call
  | choicePoint => .choice

/-- The instruction that takes frames of the kind up. -/
def closer : FrameKind -> Opcode
  | caller => .returnToCaller
  | choicePoint => .commit

/-- How many of the latter instructions take no frame up: the return that ends a
match does not. -/
def unpaired : FrameKind -> Option Nat -> Nat
  | caller, some _ => 1
  | _, _ => 0

end FrameKind

/-- The kind of a frame. -/
def Frame.kind : Frame -> FrameKind
  | .caller _ => .caller
  | .choicePoint _ _ => .choicePoint

namespace Stack

/-- How many frames of a kind there are. -/
def number (kind : FrameKind) (stack : Stack) : Nat :=
  stack.frames.countP fun frame => frame.kind = kind

variable {kind : FrameKind}

theorem number_empty : empty.number kind = 0 := rfl

theorem number_push (frame : Frame) (stack : Stack) :
    (stack.push frame).number kind = stack.number kind + if frame.kind = kind then 1 else 0 := by
  rw [number, push, List.countP_cons]
  simp only [decide_eq_true_eq, number]

/-- Falling back puts no frame down. -/
theorem number_le_of_lastChoicePoint? {stack below : Stack} {resume : Nat} {cursor : Cursor}
    (last : stack.lastChoicePoint? = some (resume, cursor, below)) :
    below.number kind ≤ stack.number kind := by
  rcases stack with ⟨frames, depth, counted⟩
  induction frames generalizing depth with
  | nil => cases last
  | cons frame frames inductionHypothesis =>
      have fewer : (⟨frames, frames.length, rfl⟩ : Stack).number kind ≤
          (⟨frame :: frames, depth, counted⟩ : Stack).number kind := by
        rw [number, number, List.countP_cons]
        exact Nat.le_add_right _ _
      cases frame with
      | caller address =>
          have same : (⟨frames, depth - 1, Stack.depth_below counted⟩ : Stack) =
              ⟨frames, frames.length, rfl⟩ := Stack.ext rfl
          exact Nat.le_trans (inductionHypothesis _ _ last) (same ▸ fewer)
      | choicePoint address saved =>
          cases last
          exact fewer

end Stack

/-- Instructions that have nothing to do with frames, as long as they do not
fail. -/
def Neutral : Opcode -> Prop
  | .choice | .commit | .call | .returnToCaller => False
  | _ => True

theorem Neutral.ne {opcode : Opcode} (neutral : Neutral opcode) (kind : FrameKind) :
    opcode ≠ kind.opener ∧ opcode ≠ kind.closer := by
  constructor
  all_goals
    rintro rfl
    cases kind <;> exact neutral

/-- What a step does to the stack, by the kind of its instruction.  Failures
aside, a frame is put down or taken up by the instruction made for it. -/
inductive StackAfter (stack : Stack) : Opcode -> Step -> Prop where
  | choice {following : State} {resume : Nat} {saved : Cursor} :
      following.stack = stack.push (.choicePoint resume saved) ->
      StackAfter stack .choice (.next following)
  | commit {following : State} {resume : Nat} {saved : Cursor} :
      stack = following.stack.push (.choicePoint resume saved) ->
      StackAfter stack .commit (.next following)
  | call {following : State} {resume : Nat} :
      following.stack = stack.push (.caller resume) ->
      StackAfter stack .call (.next following)
  | returned {following : State} {resume : Nat} :
      stack = following.stack.push (.caller resume) ->
      StackAfter stack .returnToCaller (.next following)
  | matched (ended : Nat) :
      stack = .empty -> StackAfter stack .returnToCaller (.finished (some ended))
  | kept {opcode : Opcode} {following : State} :
      Neutral opcode -> following.stack = stack -> StackAfter stack opcode (.next following)
  | fellBack {opcode : Opcode} :
      Neutral opcode -> StackAfter stack opcode (backtrack stack)

private theorem Tests.stackAfter {instruction : Instruction} {admits : List Char -> Prop}
    (tests : Tests instruction admits) (neutral : Neutral instruction.opcode)
    (program : Program) (state : State) :
    StackAfter state.stack instruction.opcode (execute program state instruction) := by
  rw [tests.executed]
  split
  · exact .kept neutral rfl
  · exact .fellBack neutral

/-- What the frames are after a step is a matter of the instruction alone. -/
theorem stackAfter_of_execute {instruction : Instruction} {result : Step}
    (executed : execute program state instruction = result) (goesOn : result ≠ .stuck) :
    StackAfter state.stack instruction.opcode result := by
  subst executed
  cases instruction with
  | choice offset => exact .choice rfl
  | commit offset =>
      rcases state.stack.eq_empty_or_push with empty | ⟨frame, below, pushed⟩
      · rw [execute, empty] at goesOn
        exact absurd rfl goesOn
      · cases frame with
        | caller resume =>
            rw [execute, pushed] at goesOn
            exact absurd rfl goesOn
        | choicePoint resume saved =>
            rw [execute, pushed]
            exact .commit rfl
  | call name address =>
      cases address with
      | none => exact absurd rfl goesOn
      | some entry => exact .call rfl
  | returnToCaller =>
      rcases state.stack.eq_empty_or_push with empty | ⟨frame, below, pushed⟩
      · rw [execute, empty]
        exact .matched _ rfl
      · cases frame with
        | caller resume =>
            rw [execute, pushed]
            exact .returned rfl
        | choicePoint resume saved =>
            rw [execute, pushed] at goesOn
            exact absurd rfl goesOn
  | fail => exact .fellBack trivial
  | comment text => exact .kept trivial rfl
  | matchAny => exact tests_matchAny.stackAfter trivial _ _
  | matchSet set =>
      exact (tests_matchSet set).stackAfter trivial _ _
  | matchText text =>
      exact (tests_matchText text).stackAfter trivial _ _
  | matchTextAnyCase text =>
      exact (tests_matchTextAnyCase text).stackAfter trivial _ _

/-- How often a kind of instruction is executed. -/
def timesExecuted (opcode : Opcode) (visits : List Visit) : Nat :=
  visits.countP fun visit => visit.instruction.opcode = opcode

theorem timesExecuted_cons (opcode : Opcode) (visit : Visit) :
    timesExecuted opcode (visit :: visits) =
      timesExecuted opcode visits + if visit.instruction.opcode = opcode then 1 else 0 := by
  rw [timesExecuted, List.countP_cons]
  simp only [decide_eq_true_eq, timesExecuted]

namespace StackAfter

variable {stack : Stack} {opcode : Opcode}

/-- An instruction that takes a frame of a kind up leaves one less, and only one
that puts it down leaves one more. -/
theorem number_le {following : State} (after : StackAfter stack opcode (.next following))
    (kind : FrameKind) :
    following.stack.number kind + (if opcode = kind.closer then 1 else 0) ≤
      stack.number kind + if opcode = kind.opener then 1 else 0 := by
  generalize reached : Step.next following = result at after
  cases after with
  | choice pushed =>
      cases reached
      rw [pushed, Stack.number_push]
      cases kind <;> exact Nat.le_refl _
  | commit popped =>
      cases reached
      rw [popped, Stack.number_push]
      cases kind <;> exact Nat.le_refl _
  | call pushed =>
      cases reached
      rw [pushed, Stack.number_push]
      cases kind <;> exact Nat.le_refl _
  | returned popped =>
      cases reached
      rw [popped, Stack.number_push]
      cases kind <;> exact Nat.le_refl _
  | matched _ _ => cases reached
  | kept neutral same =>
      cases reached
      exact Nat.le_of_eq (by rw [same, if_neg (neutral.ne kind).1, if_neg (neutral.ne kind).2])
  | fellBack neutral =>
      rw [if_neg (neutral.ne kind).1, if_neg (neutral.ne kind).2]
      unfold backtrack at reached
      split at reached
      · cases reached
      · next last =>
          cases reached
          exact Stack.number_le_of_lastChoicePoint? last

/-- The return that ends a match finds no frame to take up. -/
theorem closer_le {position : Option Nat} (after : StackAfter stack opcode (.finished position))
    (kind : FrameKind) :
    (if opcode = kind.closer then 1 else 0) ≤ kind.unpaired position := by
  generalize ended : Step.finished position = result at after
  cases after with
  | choice _ | commit _ | call _ | returned _ | kept _ _ => cases ended
  | matched _ _ =>
      cases ended
      cases kind <;> exact Nat.le_refl _
  | fellBack neutral =>
      rw [if_neg (neutral.ne kind).2]
      exact Nat.zero_le _

end StackAfter

/-- No more frames of a kind are taken up than there were in the beginning and
have been put down since. -/
theorem Executes.closers_le (executes : Executes program visits state position)
    (kind : FrameKind) :
    timesExecuted kind.closer visits ≤
      state.stack.number kind + timesExecuted kind.opener visits + kind.unpaired position := by
  induction executes with
  | @last state instruction position _ ended =>
      have last := (stackAfter_of_execute ended nofun).closer_le kind
      rw [timesExecuted_cons, timesExecuted_cons]
      dsimp only [timesExecuted, List.countP_nil]
      omega
  | @onward visits state instruction following position _ stepped _ inductionHypothesis =>
      have balance := (stackAfter_of_execute stepped nofun).number_le kind
      rw [timesExecuted_cons, timesExecuted_cons]
      dsimp only
      omega

variable {subject : List Char}

/-- Every commit throws away a choice point that a choice has put down. -/
theorem Executes.commits_le_choices
    (executes : Executes program visits (.start subject) position) :
    timesExecuted .commit visits ≤ timesExecuted .choice visits := by
  have balance := executes.closers_le .choicePoint
  rwa [State.start, Stack.number_empty, Nat.zero_add] at balance

/-- Every return goes back from a call, except the one that ends the match. -/
theorem Executes.returns_le_calls
    (executes : Executes program visits (.start subject) position) :
    timesExecuted .returnToCaller visits ≤
      timesExecuted .call visits + if position.isSome then 1 else 0 := by
  have balance := executes.closers_le .caller
  rw [State.start, Stack.number_empty, Nat.zero_add] at balance
  cases position <;> exact balance

end Machine
end ParsingMachine
