import ParsingMachine.Match

namespace ParsingMachine
namespace Machine

/-!
# Runs taken apart

A run is a chain of steps, and a chain can be cut at every state and put
together again.  Since a state has one step, two chains from one state agree
as far as both of them go; so whatever is found out about the code of a part
can be used about every run that enters the part.

The budget of a run is compared with the length of the chain once, here.  What
looks on while the machine runs has no part in it, and what it has seen in the
end is followed on its own.
-/

/-- The machine gets from a state to what is given, in so many steps: to
another state, or to the end of the match. -/
inductive Leads (program : Program) : Nat -> State -> Step -> Prop where
  | here (state) : Leads program 0 state (.next state)
  | last {state position} :
      step program state = .finished position -> Leads program 1 state (.finished position)
  | onward {count state following result} :
      step program state = .next following -> Leads program count following result ->
      Leads program (count + 1) state result

namespace Leads

variable {program : Program} {count more : Nat} {state middle : State} {result : Step}

theorem once {following : State} (stepped : step program state = .next following) :
    Leads program 1 state (.next following) :=
  .onward stepped (.here following)

/-- A run that ends goes through every state that is reached from where it
began. -/
theorem after {position : Option Nat} (whole : Leads program more state (.finished position))
    (first : Leads program count state (.next middle)) :
    Exists fun rest => more = count + rest ∧
      Leads program rest middle (.finished position) := by
  generalize reached : Step.next middle = goal at first
  induction first generalizing more with
  | here state =>
      cases reached
      exact ⟨more, (Nat.zero_add _).symm, whole⟩
  | last _ => cases reached
  | onward stepped _ inductionHypothesis =>
      cases whole with
      | last ended =>
          rw [stepped] at ended
          cases ended
      | onward again remaining =>
          rw [stepped] at again
          cases again
          rcases inductionHypothesis remaining reached with ⟨rest, same, onward⟩
          exact ⟨rest, by omega, onward⟩

/-- From where the machine is stuck it gets nowhere else. -/
theorem eq_of_stuck {last : State} (reached : Leads program count state (.next last))
    (stuck : step program state = .stuck) : last = state := by
  cases reached with
  | here _ => rfl
  | onward stepped _ =>
      rw [stuck] at stepped
      cases stepped

/-- A match has one end, and it takes one number of instructions to come to it. -/
theorem finished_unique {one other : Option Nat} (first : Leads program count state (.finished one))
    (second : Leads program more state (.finished other)) : count = more ∧ one = other := by
  generalize reached : Step.finished one = goal at first
  induction first generalizing more with
  | here _ => cases reached
  | last ended =>
      cases reached
      cases second with
      | last endedAgain =>
          rw [ended] at endedAgain
          cases endedAgain
          exact ⟨rfl, rfl⟩
      | onward stepped _ =>
          rw [ended] at stepped
          cases stepped
  | onward stepped _ inductionHypothesis =>
      cases second with
      | last ended =>
          rw [stepped] at ended
          cases ended
      | onward again remaining =>
          rw [stepped] at again
          cases again
          exact (inductionHypothesis remaining reached).imp_left (congrArg (· + 1))

theorem positive {position : Option Nat} (whole : Leads program count state (.finished position)) :
    0 < count := by
  cases whole <;> exact Nat.succ_pos _

/-- A match ends in a state that it reaches. -/
theorem exists_last {position : Option Nat}
    (whole : Leads program count state (.finished position)) :
    Exists fun before => Exists fun last =>
      Leads program before state (.next last) ∧ step program last = .finished position := by
  generalize ended : Step.finished position = goal at whole
  induction whole with
  | here _ => cases ended
  | @last state _ stepped =>
      cases ended
      exact ⟨0, state, .here state, stepped⟩
  | onward stepped _ inductionHypothesis =>
      rcases inductionHypothesis ended with ⟨before, last, reached, atEnd⟩
      exact ⟨before + 1, last, .onward stepped reached, atEnd⟩

end Leads

/-- Falling back always leads somewhere: to a choice point, or to the end. -/
theorem backtrack_cases (stack : Stack) :
    (Exists fun state => backtrack stack = .next state) ∨ backtrack stack = .finished none := by
  unfold backtrack
  split
  · exact Or.inr rfl
  · exact Or.inl ⟨_, rfl⟩

/-! ## Runs with a budget -/

/-- What a run with a budget does is decided by its first step. -/
theorem runFrom_succ {α : Type} (program : Program) (watch : Watch α) (budget steps : Nat)
    (state : State) (seen : α) :
    Exists fun seen' : α => (runFrom program watch (budget + 1) steps state seen).ending =
      match step program state with
      | .finished position => .finished position
      | .stuck => .stuck state.address
      | .next following => (runFrom program watch budget (steps + 1) following seen').ending := by
  rw [runFrom, step]
  cases program.code[state.address]? with
  | none => exact ⟨seen, rfl⟩
  | some instruction =>
      cases result : execute program state instruction with
      | next following => exact ⟨_, by simp only [result]; rfl⟩
      | finished position => exact ⟨seen, by simp only [result]⟩
      | stuck => exact ⟨seen, by simp only [result]⟩

/-- Where a step ends the match, a run with a budget sees one instruction. -/
theorem runFrom_of_finished {α : Type} {program : Program} {state : State}
    {position : Option Nat} (watch : Watch α) (stepped : step program state = .finished position) :
    Exists fun instruction => forall budget steps seen,
      runFrom program watch (budget + 1) steps state seen =
        ⟨.finished position, steps + 1, watch.before state instruction seen⟩ := by
  rw [step] at stepped
  cases located : program.code[state.address]? with
  | none =>
      rw [located] at stepped
      cases stepped
  | some instruction =>
      rw [located] at stepped
      refine ⟨instruction, fun budget steps seen => ?_⟩
      rw [runFrom, located]
      dsimp only at stepped ⊢
      rw [stepped]

/-- Where a step leads on, a run with a budget sees one instruction and goes on
with what is left of the budget. -/
theorem runFrom_of_next {α : Type} {program : Program} {state following : State}
    (watch : Watch α) (stepped : step program state = .next following) :
    Exists fun instruction => forall budget steps seen,
      runFrom program watch (budget + 1) steps state seen =
        runFrom program watch budget (steps + 1) following
          (watch.after following (watch.before state instruction seen)) := by
  rw [step] at stepped
  cases located : program.code[state.address]? with
  | none =>
      rw [located] at stepped
      cases stepped
  | some instruction =>
      rw [located] at stepped
      refine ⟨instruction, fun budget steps seen => ?_⟩
      rw [runFrom, located]
      dsimp only at stepped ⊢
      rw [stepped]

/-- A run with a budget ends the match exactly if the budget lasts to its
end. -/
theorem runFrom_ending_eq_finished_iff {α : Type} {program : Program} {watch : Watch α}
    {budget steps : Nat} {state : State} {seen : α} {position : Option Nat} :
    (runFrom program watch budget steps state seen).ending = .finished position <->
      Exists fun count => count ≤ budget ∧ Leads program count state (.finished position) := by
  induction budget generalizing steps state seen with
  | zero =>
      constructor
      · intro ended
        cases ended
      · rintro ⟨count, bound, whole⟩
        exact absurd whole.positive (Nat.not_lt_of_ge bound)
  | succ budget inductionHypothesis =>
      rcases runFrom_succ program watch budget steps state seen with ⟨seen', same⟩
      rw [same]
      cases stepped : step program state with
      | next following =>
          rw [inductionHypothesis]
          constructor
          · rintro ⟨count, bound, rest⟩
            exact ⟨count + 1, Nat.succ_le_succ bound, .onward stepped rest⟩
          · rintro ⟨count, bound, whole⟩
            rcases whole.after (.once stepped) with ⟨rest, counted, remaining⟩
            exact ⟨rest, by omega, remaining⟩
      | finished found =>
          constructor
          · intro ended
            cases ended
            exact ⟨1, Nat.succ_le_succ (Nat.zero_le _), .last stepped⟩
          · rintro ⟨count, _, whole⟩
            rw [((Leads.last stepped).finished_unique whole).2]
      | stuck =>
          constructor
          · intro ended
            cases ended
          · rintro ⟨count, _, whole⟩
            cases whole with
            | last ended =>
                rw [stepped] at ended
                cases ended
            | onward again _ =>
                rw [stepped] at again
                cases again

/-- A run with a budget is stuck only in a state that it reaches. -/
theorem runFrom_ending_eq_stuck {α : Type} {program : Program} {watch : Watch α}
    {budget steps : Nat} {state : State} {seen : α} {address : Nat}
    (ended : (runFrom program watch budget steps state seen).ending = .stuck address) :
    Exists fun count => Exists fun last => Leads program count state (.next last) ∧
      step program last = .stuck := by
  induction budget generalizing steps state seen with
  | zero => cases ended
  | succ budget inductionHypothesis =>
      rcases runFrom_succ program watch budget steps state seen with ⟨seen', same⟩
      rw [same] at ended
      cases stepped : step program state with
      | next following =>
          rw [stepped] at ended
          rcases inductionHypothesis ended with ⟨count, last, reached, stuck⟩
          exact ⟨count + 1, last, .onward stepped reached, stuck⟩
      | finished found =>
          rw [stepped] at ended
          cases ended
      | stuck => exact ⟨0, state, .here state, stepped⟩

/-- What holds of the value of an onlooker, and of every value that it makes of
such a value on seeing the program run, holds in the end. -/
theorem runFrom_seen {α : Type} {program : Program} {watch : Watch α} {motive : α -> Prop}
    (before : forall state instruction seen, instruction ∈ program.code -> motive seen ->
      motive (watch.before state instruction seen))
    (after : forall state seen, motive seen -> motive (watch.after state seen))
    (budget steps : Nat) (state : State) {seen : α} (begins : motive seen) :
    motive (runFrom program watch budget steps state seen).seen := by
  induction budget generalizing steps state seen with
  | zero => exact begins
  | succ budget inductionHypothesis =>
      rw [runFrom]
      cases located : program.code[state.address]? with
      | none => exact begins
      | some instruction =>
          have noted := before state instruction seen (Array.mem_of_getElem? located) begins
          dsimp only
          cases execute program state instruction with
          | finished position => exact noted
          | stuck => exact noted
          | next following => exact inductionHypothesis _ _ (after following _ noted)

end Machine

/-! ## Matches -/

/-- The limit, if there is one, lets a match take so many instructions. -/
def MatchConfig.Allows (config : MatchConfig) (count : Nat) : Prop :=
  forall limit, config.stepLimit = some limit -> count ≤ limit.toNat

/-- A budget lasts for as many instructions as can be counted and the limit
allows. -/
theorem MatchConfig.le_budget_iff {config : MatchConfig} {count : Nat} :
    count ≤ Machine.budget config.stepLimit <-> count < UInt64.size ∧ config.Allows count := by
  unfold Allows
  cases config.stepLimit with
  | none =>
      refine Nat.le_sub_one_iff_lt (by decide) |>.trans (iff_self_and.mpr fun _ => ?_)
      exact fun limit limited => nomatch limited
  | some limit =>
      simp only [Machine.budget, Option.some.injEq, forall_eq']
      exact (and_iff_right_of_imp fun allowed => Nat.lt_of_le_of_lt allowed limit.toNat_lt).symm

theorem MatchError.ofLimit_eq_stepLimit_iff {given : Option UInt64} {limit : UInt64} :
    ofLimit given = .stepLimit limit <-> given = some limit := by
  cases given with
  | none => exact iff_of_false nofun nofun
  | some other => simp only [ofLimit, stepLimit.injEq, Option.some.injEq]

theorem MatchError.ofLimit_ne_broken (limit : Option UInt64) (address : Nat) :
    ofLimit limit ≠ .broken address := by
  cases limit with
  | none => nofun
  | some limit => nofun

namespace Program

open Machine

private theorem outcomeOf_eq_ok_iff {α : Type} {limit : Option UInt64}
    {profile : α -> Option Profile} {run : Run α} {matched : Option Nat} :
    (Exists fun outcome => outcomeOf limit profile run = .ok outcome ∧ outcome.matched = matched) <->
      run.ending = .finished matched := by
  unfold outcomeOf
  cases run.ending with
  | finished position =>
      constructor
      · rintro ⟨outcome, made, same⟩
        cases made
        exact congrArg _ same
      · intro same
        cases same
        exact ⟨_, rfl, rfl⟩
  | outOfSteps =>
      constructor
      · rintro ⟨_, ⟨⟩, _⟩
      · intro same
        cases same
  | stuck address =>
      constructor
      · rintro ⟨_, ⟨⟩, _⟩
      · intro same
        cases same

/-- A match has an answer exactly if it comes to its end after instructions that
can be counted and that the limit allows.  Whether a profile is kept does not
matter. -/
theorem matchWith_eq_ok_iff {program : Program} {config : MatchConfig} {subject : String}
    {matched : Option Nat} :
    (Exists fun outcome => program.matchWith config subject = .ok outcome ∧
      outcome.matched = matched) <->
      Exists fun count => (count < UInt64.size ∧ config.Allows count) ∧
        Leads program count (.start subject.toList) (.finished matched) := by
  simp only [← MatchConfig.le_budget_iff]
  unfold matchWith
  split
  all_goals
    rw [outcomeOf_eq_ok_iff]
    exact runFrom_ending_eq_finished_iff

/-- Behind every answer is a run to the end of the match. -/
theorem leads_of_matchWith {program : Program} {config : MatchConfig} {subject : String}
    {outcome : Outcome} (answered : program.matchWith config subject = .ok outcome) :
    Exists fun count =>
      Leads program count (.start subject.toList) (.finished outcome.matched) := by
  rcases matchWith_eq_ok_iff.mp ⟨outcome, answered, rfl⟩ with ⟨count, _, leads⟩
  exact ⟨count, leads⟩

private theorem profile_of_outcomeOf {α : Type} {limit : Option UInt64}
    {profile : α -> Option Profile} {run : Run α} {outcome : Outcome}
    (made : outcomeOf limit profile run = .ok outcome) :
    outcome.profile = profile run.seen := by
  unfold outcomeOf at made
  split at made
  · cases made
    rfl
  · cases made
  · cases made

/-- A profile is what was seen of the run. -/
theorem profile_of_matchWith {program : Program} {config : MatchConfig} {subject : String}
    {outcome : Outcome} {profile : Profile}
    (answered : program.matchWith config subject = .ok outcome)
    (profiled : outcome.profile = some profile) :
    profile = (run program (Profile.watch program) config.stepLimit subject .empty).seen := by
  unfold matchWith at answered
  split at answered
  · rw [profile_of_outcomeOf answered] at profiled
    exact (Option.some.inj profiled).symm
  · rw [profile_of_outcomeOf answered] at profiled
    cases profiled

/-- A match without an answer has used up what its limit allows, or has got
stuck in a state that it reaches. -/
theorem matchWith_eq_error {program : Program} {config : MatchConfig} {subject : String}
    {error : MatchError} (failed : program.matchWith config subject = .error error) :
    error = .ofLimit config.stepLimit ∨
      Exists fun count => Exists fun state =>
        Leads program count (.start subject.toList) (.next state) ∧
          step program state = .stuck := by
  unfold matchWith at failed
  split at failed
  all_goals
    unfold outcomeOf at failed
    split at failed
    · cases failed
    · exact Or.inl (Except.error.inj failed).symm
    · next ended => exact Or.inr (runFrom_ending_eq_stuck ended)

end Program
end ParsingMachine
