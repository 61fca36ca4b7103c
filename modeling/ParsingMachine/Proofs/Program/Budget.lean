import ParsingMachine.Proofs.Program.Safety

namespace ParsingMachine
namespace Machine

/-!
# What a limit changes

A limit on the number of instructions decides whether a match has an answer, and
never which one.  The run of a match that ends has a length, and every budget of
at least that length yields the same run; a smaller one is used up before the
match is over.  What looks on has no say in it: two onlookers see the same number
of instructions and the same ending.

A compiled program does not break off, so without an answer there is nothing left
but to run into the limit.
-/

variable {program : Program}

/-- Every budget that lasts to the end of a match yields the same run, and every
smaller one is used up. -/
theorem runFrom_of_leads {α : Type} (watch : Watch α) {count : Nat} {state : State}
    {position : Option Nat} (whole : Leads program count state (.finished position)) (steps : Nat)
    (seen : α) :
    Exists fun last =>
      (forall budget, count ≤ budget -> runFrom program watch budget steps state seen =
        ⟨.finished position, steps + count, last⟩) ∧
      (forall budget, budget < count ->
        (runFrom program watch budget steps state seen).ending = .outOfSteps) := by
  generalize ended : Step.finished position = goal at whole
  induction whole generalizing steps seen with
  | here _ => cases ended
  | @last state _ stepped =>
      cases ended
      rcases runFrom_of_finished watch stepped with ⟨instruction, same⟩
      refine ⟨watch.before state instruction seen, fun budget enough => ?_, fun budget short => ?_⟩
      · rcases Nat.exists_eq_add_of_le' enough with ⟨left, rfl⟩
        exact same left steps seen
      · rw [Nat.lt_one_iff.mp short]
        rfl
  | @onward count state following _ stepped _ inductionHypothesis =>
      rcases runFrom_of_next watch stepped with ⟨instruction, same⟩
      rcases inductionHypothesis (steps + 1)
          (watch.after following (watch.before state instruction seen)) ended with
        ⟨last, lasts, usedUp⟩
      refine ⟨last, fun budget enough => ?_, fun budget short => ?_⟩
      · rcases Nat.exists_eq_add_of_le' enough with ⟨left, rfl⟩
        rw [← Nat.add_assoc, same, lasts _ (Nat.le_add_left count left), Nat.add_right_comm,
          Nat.add_assoc]
      · cases budget with
        | zero => rfl
        | succ budget =>
            rw [same]
            exact usedUp budget (Nat.lt_of_succ_lt_succ short)

/-- Whoever looks on, a run ends in the same way after as many instructions. -/
theorem runFrom_watched {α β : Type} (watch : Watch α) (other : Watch β)
    (budget steps : Nat) (state : State) (seen : α) (otherSeen : β) :
    (runFrom program watch budget steps state seen).ending =
        (runFrom program other budget steps state otherSeen).ending ∧
      (runFrom program watch budget steps state seen).steps =
        (runFrom program other budget steps state otherSeen).steps := by
  induction budget generalizing steps state seen otherSeen with
  | zero => exact ⟨rfl, rfl⟩
  | succ budget inductionHypothesis =>
      rw [runFrom, runFrom]
      cases program.code[state.address]? with
      | none => exact ⟨rfl, rfl⟩
      | some instruction =>
          dsimp only
          cases execute program state instruction with
          | finished position => exact ⟨rfl, rfl⟩
          | stuck => exact ⟨rfl, rfl⟩
          | next following => exact inductionHypothesis _ _ _ _

end Machine

namespace Program

open Machine

variable {program : Program} {subject : String}

private theorem outcomeOf_of_leads {α : Type} {count : Nat} {matched : Option Nat}
    (whole : Leads program count (.start subject.toList) (.finished matched))
    (profile : α -> Option Profile) (watch : Watch α) (seen : α) :
    Exists fun last => forall limit,
      outcomeOf limit profile (run program watch limit subject seen) =
        if count ≤ budget limit then .ok ⟨matched, count, profile last⟩
        else .error (.ofLimit limit) := by
  rcases runFrom_of_leads watch whole 0 seen with ⟨last, lasts, usedUp⟩
  refine ⟨last, fun limit => ?_⟩
  by_cases enough : count ≤ budget limit
  · rw [if_pos enough, run, lasts _ enough, Nat.zero_add]
    rfl
  · rw [if_neg enough, run, outcomeOf, usedUp _ (Nat.lt_of_not_le enough)]

/-- A match that comes to an end has one outcome, which is given under every
limit that lasts to the end and under no other one. -/
theorem exists_outcome_of_leads {count : Nat} {matched : Option Nat}
    (whole : Leads program count (.start subject.toList) (.finished matched)) (profile : Bool) :
    Exists fun outcome => outcome.matched = matched ∧ outcome.steps = count ∧
      outcome.profile.isSome = profile ∧
      forall limit, program.matchWith ⟨limit, profile⟩ subject =
        if count ≤ budget limit then .ok outcome else .error (.ofLimit limit) := by
  cases profile with
  | true =>
      rcases outcomeOf_of_leads whole some (Profile.watch program) .empty with ⟨last, decided⟩
      exact ⟨⟨matched, count, some last⟩, rfl, rfl, rfl, decided⟩
  | false =>
      rcases outcomeOf_of_leads whole (fun _ => none) .nothing () with ⟨last, decided⟩
      exact ⟨⟨matched, count, none⟩, rfl, rfl, rfl, decided⟩

/-- Keeping a profile adds the profile to the answer and changes nothing else. -/
theorem matchWith_unprofiled (program : Program) (limit : Option UInt64) (subject : String) :
    program.matchWith ⟨limit, false⟩ subject =
      (program.matchWith ⟨limit, true⟩ subject).map fun outcome =>
        { outcome with profile := none } := by
  rcases runFrom_watched .nothing (Profile.watch program) (budget limit) 0
      (.start subject.toList) () .empty with ⟨ending, steps⟩
  rw [matchWith, matchWith, if_neg Bool.false_ne_true, if_pos rfl, outcomeOf, outcomeOf, run, run,
    ending, steps]
  cases (runFrom program (Profile.watch program) (budget limit) 0
    (.start subject.toList) .empty).ending <;> rfl

/-- The limit is exact and leaves no trace.  A match that ends without a limit
has the same outcome, its profile included, under every limit that is not less
than the number of its steps, and runs into every smaller one.  Where the machine
comes to the end of the match after some number of steps that its counter holds,
there is an outcome without a limit, with that number of steps.  Where it never
does, every limit is run into.  Asking for a profile changes nothing but the
profile. -/
theorem matchWith_stepLimit {grammar : Grammar} {start : String} {program : Program}
    (compiled : grammar.compile start = .ok program) (subject : String) :
    (forall profile outcome, program.matchWith ⟨none, profile⟩ subject = .ok outcome ->
      Leads program outcome.steps (.start subject.toList) (.finished outcome.matched) ∧
      forall limit : UInt64, program.matchWith ⟨some limit, profile⟩ subject =
        if outcome.steps ≤ limit.toNat then .ok outcome else .error (.stepLimit limit)) ∧
    (forall count matched, Leads program count (.start subject.toList) (.finished matched) ->
      count < UInt64.size -> forall profile, Exists fun outcome =>
        program.matchWith ⟨none, profile⟩ subject = .ok outcome ∧
        outcome.matched = matched ∧ outcome.steps = count ∧ outcome.profile.isSome = profile) ∧
    ((forall count matched, ¬ Leads program count (.start subject.toList) (.finished matched)) ->
      forall limit profile,
        program.matchWith ⟨some limit, profile⟩ subject = .error (.stepLimit limit)) ∧
    (forall limit, program.matchWith ⟨limit, false⟩ subject =
      (program.matchWith ⟨limit, true⟩ subject).map fun outcome =>
        { outcome with profile := none }) := by
  refine ⟨?_, ?_, ?_, fun limit => matchWith_unprofiled program limit subject⟩
  · intro profile outcome answered
    rcases leads_of_matchWith answered with ⟨count, whole⟩
    rcases exists_outcome_of_leads whole profile with ⟨found, _, rfl, _, decided⟩
    have same : outcome = found := by
      have unlimitedAnswer := (decided none).symm.trans answered
      split at unlimitedAnswer
      · exact (Except.ok.inj unlimitedAnswer).symm
      · cases unlimitedAnswer
    subst same
    exact ⟨whole, fun limit => decided (some limit)⟩
  · intro count matched whole within profile
    rcases exists_outcome_of_leads whole profile with ⟨outcome, ended, counted, kept, decided⟩
    have enough : count ≤ budget none := Nat.le_sub_one_of_lt within
    have answered := decided none
    rw [if_pos enough] at answered
    exact ⟨outcome, answered, ended, counted, kept⟩
  · intro endless limit profile
    cases answered : program.matchWith ⟨some limit, profile⟩ subject with
    | ok outcome =>
        rcases leads_of_matchWith answered with ⟨count, whole⟩
        exact absurd whole (endless count _)
    | error error => rw [error_of_matchWith compiled answered, MatchError.ofLimit]

/-- A rule that begins with itself. -/
def endless : Grammar :=
  ⟨[⟨"endless", .rule "endless"⟩]⟩

/-- The program for the endless rule. -/
def endlessProgram : Program where
  code := #[.call "endless" (some 0), .returnToCaller]
  entries := [("endless", 0)]

/-- Every call of the endless rule is followed by another one. -/
theorem endlessProgram_never_finishes (count : Nat) (cursor : Cursor) (stack : Stack)
    (matched : Option Nat) :
    ¬ Leads endlessProgram count ⟨0, cursor, stack⟩ (.finished matched) := by
  induction count generalizing stack with
  | zero =>
      intro whole
      exact Nat.lt_irrefl 0 whole.positive
  | succ count inductionHypothesis =>
      intro whole
      have called : step endlessProgram ⟨0, cursor, stack⟩ =
          .next ⟨0, cursor, stack.push (.caller 1)⟩ := step_call rfl cursor stack
      rcases whole.after (.once called) with ⟨rest, counted, remaining⟩
      obtain rfl : count = rest := by omega
      exact inductionHypothesis _ remaining

/-- Six instructions match a pair of parentheses, and five are too few for any
answer; no number of them is enough for the endless rule. -/
theorem nestedProgram_stepLimit :
    nestedParentheses.compile "nested" = .ok nestedProgram ∧
    Leads nestedProgram 6 (.start "()".toList) (.finished (some 2)) ∧
    (Exists fun outcome => nestedProgram.matchWith ⟨none, true⟩ "()" = .ok outcome ∧
      outcome.matched = some 2 ∧ outcome.steps = 6 ∧
      nestedProgram.matchWith ⟨some 6, true⟩ "()" = .ok outcome ∧
      nestedProgram.matchWith ⟨some 5, true⟩ "()" = .error (.stepLimit 5)) ∧
    endless.compile "endless" = .ok endlessProgram ∧
    forall limit, endlessProgram.matchWith ⟨some limit, false⟩ "" = .error (.stepLimit limit) := by
  have whole : Leads nestedProgram 6 (.start "()".toList) (.finished (some 2)) :=
    .onward rfl (.onward rfl (.onward rfl (.onward rfl (.onward rfl (.last rfl)))))
  rcases matchWith_stepLimit nestedParentheses_compile "()" with ⟨answersUnder, answers, _⟩
  rcases answers 6 _ whole (by decide) true with ⟨outcome, answered, ended, counted, _⟩
  rcases answersUnder true outcome answered with ⟨_, decided⟩
  rw [counted] at decided
  have never := (matchWith_stepLimit
    (rfl : endless.compile "endless" = .ok endlessProgram) "").2.2.1
    (fun count => endlessProgram_never_finishes count _ _)
  exact ⟨nestedParentheses_compile, whole,
    ⟨outcome, answered, ended, counted, decided 6, decided 5⟩, rfl, fun limit => never limit false⟩

end Program
end ParsingMachine
