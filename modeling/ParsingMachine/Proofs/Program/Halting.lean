import ParsingMachine.Proofs.Grammar.LeftRecursion
import ParsingMachine.Proofs.Program.Compiling
import ParsingMachine.Proofs.Program.Correctness

namespace ParsingMachine
namespace Program

open Text Machine

/-!
# Matching comes to an end

The machine keeps going only where a pattern has no outcome, and in a grammar
without left recursion every pattern has one.  Loops around patterns that match
nothing make no difference: a round that takes nothing off the text is the last
one.

How long that takes is another question.  Bounds on rules that have bounds
multiply, and a few rules can keep the machine busy for longer than any limit
allows; so the machine is said to halt, and answers are said to be given as far
as its steps can be counted.
-/

/-- The program of a grammar without left recursion halts on every subject.  As
long as the instructions that this takes can be counted, the match has its answer
without a limit, and under every limit that is not less than their number. -/
theorem halts_of_not_leftRecursive {grammar : Grammar} (straight : ¬ grammar.IsLeftRecursive)
    {start : String} {program : Program} (compiled : grammar.compile start = .ok program)
    (subject : String) :
    Exists fun count => Exists fun matched =>
      Leads program count (.start subject.toList) (.finished matched) ∧
      (count < UInt64.size -> forall config : MatchConfig, config.Allows count ->
        Exists fun outcome => program.matchWith config subject = .ok outcome ∧
          outcome.matched = matched) := by
  have wellFormed : grammar.WellFormed start Pattern.codedParts :=
    (Grammar.compileBy_succeeds_iff RuleTable.lowering_copies).mp ⟨program, compiled⟩
  have rules : forall rule, rule ∈ grammar.rules -> grammar.Codes rule.pattern :=
    fun rule listed => wellFormed.codes listed
  rcases Grammar.exists_rule_of_mem wellFormed.starts with ⟨rule, listed, defined⟩
  rcases Grammar.Codes.settles rules straight (rules rule listed) subject.toList with
    ⟨outcome, matched⟩
  rcases Grammar.laid_of_compile compiled with ⟨placed, laid⟩
  rcases laid.finished_of_matches defined matched with ⟨count, leads⟩
  refine ⟨count, _, leads, fun counted config allows => ?_⟩
  exact matchWith_eq_ok_iff.mpr ⟨count, ⟨counted, allows⟩, leads⟩

/-- Loops around what may match nothing, in rules that refer to each other.
Only the way back from `b` to `a` is behind a character. -/
def idleLoops : Grammar :=
  ⟨[⟨"a", .zeroOrMore (.optional (.rule "b"))⟩,
    ⟨"b", .optional (.sequence (.char 'x') (.rule "a"))⟩]⟩

private theorem leftRefers_idleLoops {name other : String}
    (refers : idleLoops.LeftRefers name other) : name = "a" ∧ other = "b" := by
  rcases refers with ⟨rule, defined, refers⟩
  rcases Grammar.mem_rules_of_get? defined with ⟨listed, named⟩
  rcases List.mem_cons.mp listed with rfl | listed
  · cases refers with
    | zeroOrMore refers =>
        cases refers with
        | optional refers =>
            cases refers
            exact ⟨named.symm, rfl⟩
  · rcases List.mem_singleton.mp listed with rfl
    cases refers with
    | optional refers =>
        cases refers with
        | sequenceFirst _ refers => cases refers
        | sequenceSecond empty _ => cases empty

theorem idleLoops_halts :
    ¬ idleLoops.IsLeftRecursive ∧ Exists fun program => idleLoops.compile "a" = .ok program ∧
      Exists fun count => count ≤ 99 ∧ Exists fun matched =>
        Leads program count (.start "xxy".toList) (.finished matched) ∧
        Exists fun outcome => program.matchWith ⟨some 99, true⟩ "xxy" = .ok outcome ∧
          outcome.matched = matched := by
  have straight : ¬ idleLoops.IsLeftRecursive := by
    rintro ⟨name, cycle⟩
    have onward : forall {other last}, Relation.TransGen idleLoops.LeftRefers other last ->
        other = "a" ∧ last = "b" := by
      intro other last reached
      induction reached with
      | single refers => exact leftRefers_idleLoops refers
      | tail _ refers earlier =>
          exact ⟨earlier.1, (leftRefers_idleLoops refers).2⟩
    rcases onward cycle with ⟨rfl, same⟩
    exact absurd same (by decide)
  have answered : Exists fun program => Exists fun outcome => idleLoops.compile "a" = .ok program ∧
      program.matchWith ⟨some 99, false⟩ "xxy" = .ok outcome := ⟨_, _, rfl, rfl⟩
  rcases answered with ⟨program, outcome, compiled, answered⟩
  rcases matchWith_eq_ok_iff.mp ⟨outcome, answered, rfl⟩ with ⟨steps, ⟨counted, allows⟩, finished⟩
  rcases halts_of_not_leftRecursive straight compiled "xxy" with ⟨count, matched, leads, answers⟩
  -- There is one run to the end, so the steps are those of the answer.
  rcases finished.finished_unique leads with ⟨rfl, _⟩
  exact ⟨straight, program, compiled, steps, allows 99 rfl, matched, leads,
    answers counted ⟨some 99, true⟩ allows⟩

end Program
end ParsingMachine
