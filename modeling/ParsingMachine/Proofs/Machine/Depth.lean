import Mathlib.Order.Bounds.Basic
import ParsingMachine.Proofs.Machine.Runs

namespace ParsingMachine
namespace Machine

/-!
# How deep runs get

The number of frames on the stack is followed along a run beside the number of
steps.  What counts is the greatest number at any state of the run, the first
and the last one included.  Both numbers are exact, so that runs of different
programs can be held against each other.
-/

namespace Stack

@[simp] theorem depth_push (frame : Frame) (stack : Stack) :
    (stack.push frame).depth = stack.depth + 1 := rfl

/-- Falling back drops frames. -/
theorem depth_below_lastChoicePoint? {stack below : Stack} {resume : Nat} {cursor : Cursor}
    (last : stack.lastChoicePoint? = some (resume, cursor, below)) : below.depth < stack.depth := by
  rcases stack with ⟨frames, depth, counted⟩
  induction frames generalizing depth with
  | nil => cases last
  | cons frame frames inductionHypothesis =>
      have positive : depth = frames.length + 1 := counted
      cases frame with
      | caller address =>
          have deeper := inductionHypothesis (depth - 1) (by omega) last
          change below.depth < depth
          change below.depth < depth - 1 at deeper
          omega
      | choicePoint address saved =>
          cases last
          change depth - 1 < depth
          omega

end Stack

/-- The machine gets from a state to what is given in so many steps, and has so
many frames on its stack at most. -/
inductive Climbs (program : Program) : (steps peak : Nat) -> State -> Step -> Prop where
  | here (state) : Climbs program 0 state.stack.depth state (.next state)
  | last {state position} :
      step program state = .finished position ->
      Climbs program 1 state.stack.depth state (.finished position)
  | onward {steps peak state following result} :
      step program state = .next following -> Climbs program steps peak following result ->
      Climbs program (steps + 1) (max state.stack.depth peak) state result

namespace Climbs

variable {program : Program} {steps peak more higher : Nat} {state middle : State} {result : Step}

theorem leads (climbs : Climbs program steps peak state result) :
    Leads program steps state result := by
  induction climbs with
  | here state => exact .here state
  | last ended => exact .last ended
  | onward stepped _ inductionHypothesis => exact .onward stepped inductionHypothesis

theorem depth_le (climbs : Climbs program steps peak state result) : state.stack.depth ≤ peak := by
  cases climbs with
  | here _ => exact Nat.le_refl _
  | last _ => exact Nat.le_refl _
  | onward _ _ => exact Nat.le_max_left _ _

theorem of_eq (climbs : Climbs program steps peak state result) (sameSteps : steps = more)
    (samePeak : peak = higher) : Climbs program more higher state result :=
  sameSteps ▸ samePeak ▸ climbs

theorem trans (first : Climbs program steps peak state (.next middle))
    (second : Climbs program more higher middle result) :
    Climbs program (steps + more) (max peak higher) state result := by
  generalize reached : Step.next middle = goal at first
  induction first with
  | here state =>
      cases reached
      have start := second.depth_le
      exact second.of_eq (by omega) (by omega)
  | last _ => cases reached
  | onward stepped _ inductionHypothesis =>
      exact (Climbs.onward stepped (inductionHypothesis reached)).of_eq (by omega) (by omega)

theorem once {following : State} (stepped : step program state = .next following) :
    Climbs program 1 (max state.stack.depth following.stack.depth) state (.next following) :=
  .onward stepped (.here following)

/-- Falling back takes a step and leaves no more frames. -/
theorem of_backtrack (stepped : step program state = backtrack state.stack) :
    Climbs program 1 state.stack.depth state (backtrack state.stack) := by
  unfold backtrack at stepped ⊢
  cases last : state.stack.lastChoicePoint? with
  | none =>
      rw [last] at stepped
      exact .last stepped
  | some resumed =>
      rcases resumed with ⟨resume, cursor, below⟩
      rw [last] at stepped
      have lower := Stack.depth_below_lastChoicePoint? last
      exact (Climbs.once stepped).of_eq rfl (Nat.max_eq_left (Nat.le_of_lt lower))

/-- The peak is the greatest number of frames in any state that the machine
reaches. -/
theorem isGreatest {position : Option Nat}
    (climbs : Climbs program steps peak state (.finished position)) :
    IsGreatest {depth | Exists fun count => Exists fun reached =>
      Leads program count state (.next reached) ∧ reached.stack.depth = depth} peak := by
  generalize ended : Step.finished position = goal at climbs
  induction climbs with
  | here _ => cases ended
  | @last state _ stepped =>
      refine ⟨⟨0, state, .here state, rfl⟩, ?_⟩
      rintro _ ⟨count, reached, leads, rfl⟩
      cases leads with
      | here _ => exact Nat.le_refl _
      | onward again _ =>
          rw [stepped] at again
          cases again
  | @onward _ peak state following _ stepped _ inductionHypothesis =>
      rcases inductionHypothesis ended with ⟨⟨count, highest, leads, atPeak⟩, above⟩
      constructor
      · rcases Nat.le_total peak state.stack.depth with lower | higher
        · exact ⟨0, state, .here state, (Nat.max_eq_left lower).symm⟩
        · exact ⟨count + 1, highest, .onward stepped leads,
            atPeak.trans (Nat.max_eq_right higher).symm⟩
      · rintro _ ⟨count, reached, leads, rfl⟩
        cases leads with
        | here _ => exact Nat.le_max_left _ _
        | onward again remaining =>
            rw [stepped] at again
            cases again
            exact Nat.le_trans (above ⟨_, reached, remaining, rfl⟩) (Nat.le_max_right _ _)

/-- A match has one end, and one run to it. -/
theorem finished_unique {one other : Option Nat}
    (first : Climbs program steps peak state (.finished one))
    (second : Climbs program more higher state (.finished other)) :
    steps = more ∧ peak = higher ∧ one = other := by
  rcases first.leads.finished_unique second.leads with ⟨sameSteps, same⟩
  exact ⟨sameSteps, first.isGreatest.unique second.isGreatest, same⟩

end Climbs

theorem Leads.climbs {program : Program} {steps : Nat} {state : State} {result : Step}
    (leads : Leads program steps state result) :
    Exists fun peak => Climbs program steps peak state result := by
  induction leads with
  | here state => exact ⟨_, .here state⟩
  | last ended => exact ⟨_, .last ended⟩
  | onward stepped _ inductionHypothesis =>
      rcases inductionHypothesis with ⟨peak, climbs⟩
      exact ⟨_, .onward stepped climbs⟩

/-! ## Profiles -/

section Profiles

variable {program : Program} {steps peak : Nat} {state : State} {position : Option Nat}

/-- A run that keeps a profile counts the steps, and takes note of the greatest
number of frames. -/
theorem runFrom_profiled (climbs : Climbs program steps peak state (.finished position))
    {budget : Nat} (enough : steps ≤ budget) (before : Nat) {seen : Profile}
    (noted : state.stack.depth ≤ seen.maxDepth) :
    Exists fun profile => profile.maxDepth = max seen.maxDepth peak ∧
      runFrom program (Profile.watch program) budget before state seen =
        ⟨.finished position, before + steps, profile⟩ := by
  generalize ended : Step.finished position = goal at climbs
  induction climbs generalizing budget before seen with
  | here _ => cases ended
  | @last state _ stepped =>
      cases ended
      rcases Nat.exists_eq_add_of_le' enough with ⟨left, rfl⟩
      rcases runFrom_of_finished (Profile.watch program) stepped with ⟨instruction, same⟩
      refine ⟨(Profile.watch program).before state instruction seen, ?_, same left before seen⟩
      exact (Nat.max_eq_left noted).symm
  | @onward count _ state following _ stepped rest inductionHypothesis =>
      rcases Nat.exists_eq_add_of_le' enough with ⟨left, rfl⟩
      rcases runFrom_of_next (Profile.watch program) stepped with ⟨instruction, same⟩
      have noted : following.stack.depth ≤ ((Profile.watch program).after following
          ((Profile.watch program).before state instruction seen)).maxDepth := Nat.le_max_right _ _
      rcases inductionHypothesis (Nat.le_add_left count left) (before + 1) noted ended with
        ⟨profile, depth, whole⟩
      have start := rest.depth_le
      refine ⟨profile, ?_, ?_⟩
      · rw [depth]
        change max (max seen.maxDepth following.stack.depth) _ = max seen.maxDepth _
        omega
      · rw [← Nat.add_assoc, same, whole, Nat.add_right_comm, Nat.add_assoc]

end Profiles
end Machine

namespace Program

open Machine (Climbs budget)

variable {program : Program} {subject : String} {steps peak : Nat} {limit : Option UInt64}

/-- A match that comes to its end within the budget has an answer with a profile,
whose depth is the greatest number of frames. -/
theorem matchWith_profiled {matched : Option Nat}
    (climbs : Climbs program steps peak (.start subject.toList) (.finished matched))
    (enough : steps ≤ budget limit) :
    Exists fun profile => profile.maxDepth = peak ∧
      program.matchWith ⟨limit, true⟩ subject = .ok ⟨matched, steps, some profile⟩ := by
  have empty : (Machine.State.start subject.toList).stack.depth ≤ Profile.empty.maxDepth :=
    Nat.le_refl 0
  rcases Machine.runFrom_profiled climbs enough 0 empty with ⟨profile, depth, ended⟩
  refine ⟨profile, depth.trans (Nat.zero_max peak), ?_⟩
  rw [matchWith, if_pos rfl, Machine.run, ended, Nat.zero_add]
  rfl

/-- Behind every answer is one run, with the steps and the depth of the
answer. -/
theorem climbs_of_matchWith {outcome : Outcome}
    (answered : program.matchWith ⟨limit, true⟩ subject = .ok outcome) :
    Exists fun profile => outcome.profile = some profile ∧
      Climbs program outcome.steps profile.maxDepth (.start subject.toList)
        (.finished outcome.matched) := by
  rcases matchWith_eq_ok_iff.mp ⟨outcome, answered, rfl⟩ with ⟨count, enough, leads⟩
  rcases leads.climbs with ⟨peak, climbs⟩
  rcases matchWith_profiled climbs (MatchConfig.le_budget_iff.mpr enough) with
    ⟨profile, rfl, again⟩
  rw [answered] at again
  injection again with same
  rw [same]
  rw [same] at climbs
  exact ⟨profile, rfl, climbs⟩

end Program
end ParsingMachine
