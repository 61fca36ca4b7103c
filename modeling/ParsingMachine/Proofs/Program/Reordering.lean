import Mathlib.Data.List.Perm.Basic
import ParsingMachine.Proofs.Program.Compiling
import ParsingMachine.Proofs.Program.Correctness

namespace ParsingMachine

open Machine (Leads)

/-!
# Rules in another order

The order of the rules decides a lot about the program that is made of them:
only rules that were defined earlier are copied to where they are referred to,
and which of two rules that refer to each other is the earlier one decides
which of the references becomes a call.  What a pattern matches is said without
any of this.  It depends on what the names stand for, and while no name is
defined twice they stand for the same in every order.
-/

namespace Grammar

variable {grammar other : Grammar}

/-- Where no name is defined twice, a name stands for any rule that has it. -/
theorem get?_eq_some_iff (distinct : (grammar.rules.map Rule.name).Nodup) {name : String}
    {rule : Rule} : grammar.get? name = some rule <-> rule ∈ grammar.rules ∧ rule.name = name := by
  constructor
  · exact mem_rules_of_get?
  · rintro ⟨listed, rfl⟩
    exact RuleTable.get?_of_mem_rules distinct listed

/-- Names that are not defined twice stand for the same rules in every
order. -/
theorem get?_eq_of_perm (reordered : grammar.rules.Perm other.rules)
    (distinct : (grammar.rules.map Rule.name).Nodup) (name : String) :
    grammar.get? name = other.get? name := by
  have otherDistinct : (other.rules.map Rule.name).Nodup :=
    (reordered.map Rule.name).nodup_iff.mp distinct
  apply Option.ext
  intro rule
  rw [get?_eq_some_iff distinct, get?_eq_some_iff otherDistinct, reordered.mem_iff]

/-- Being well-formed does not depend on the order. -/
theorem WellFormed.of_perm {start : String} {inside : Pattern -> List Pattern}
    (wellFormed : grammar.WellFormed start inside) (reordered : grammar.rules.Perm other.rules) :
    other.WellFormed start inside := by
  have names := reordered.map Rule.name
  constructor
  · exact names.nodup_iff.mp wellFormed.distinct
  · exact names.mem_iff.mp wellFormed.starts
  · intro rule listed
    exact wellFormed.ordered rule (reordered.mem_iff.mpr listed)
  · intro rule listed name refers
    exact names.mem_iff.mp (wellFormed.defined rule (reordered.mem_iff.mpr listed) name refers)

/-- What becomes of a text depends on what the names stand for, and on nothing
else of the grammar. -/
theorem Matches.of_get?_eq (same : forall name, grammar.get? name = other.get? name)
    {pattern : Pattern} {text : List Char} {outcome : Option Cut}
    (matched : grammar.Matches pattern text outcome) : other.Matches pattern text outcome := by
  induction matched with
  | atom admits => exact .atom admits
  | atomFails isAtom refused => exact .atomFails isAtom refused
  | group _ inner => exact .group inner
  | notPresent _ inner => exact .notPresent inner
  | notFails _ inner => exact .notFails inner
  | sequence _ _ first second => exact .sequence first second
  | sequenceFailsFirst _ first => exact .sequenceFailsFirst first
  | sequenceFailsSecond _ _ first second => exact .sequenceFailsSecond first second
  | choiceFirst _ first => exact .choiceFirst first
  | choiceSecond _ _ first second => exact .choiceSecond first second
  | optionalTaken _ inner => exact .optionalTaken inner
  | optionalSkipped _ inner => exact .optionalSkipped inner
  | zeroOrMoreStops _ inner => exact .zeroOrMoreStops inner
  | zeroOrMoreIdles _ inner => exact .zeroOrMoreIdles inner
  | zeroOrMoreGoesOn _ onward _ first rest => exact .zeroOrMoreGoesOn first onward rest
  | oneOrMore _ inner => exact .oneOrMore inner
  | repeatedDone => exact .repeatedDone
  | repeatedRequired positive ordered _ inner => exact .repeatedRequired positive ordered inner
  | repeatedAllowed positive _ inner => exact .repeatedAllowed positive inner
  | rule defined _ inner => exact .rule (same _ ▸ defined) inner

end Grammar

namespace Program

variable {grammar other : Grammar} {start : String} {program another : Program}
variable {rules otherRules : List (String × Code)} {text : List Char}

/-- Programs of grammars whose names stand for the same come to the same
ends. -/
theorem Laid.leads_of_get?_eq (laid : program.Laid grammar start rules)
    (otherLaid : another.Laid other start otherRules)
    (same : forall name, grammar.get? name = other.get? name) {count : Nat}
    {position : Option Nat} (leads : Leads program count (.start text) (.finished position)) :
    Exists fun more => Leads another more (.start text) (.finished position) := by
  -- Both runs come to the outcome of the start rule, and there is only one.
  rcases laid.matches_of_finished leads with ⟨rule, defined, outcome, matched, rfl⟩
  exact otherLaid.finished_of_matches (same start ▸ defined) (matched.of_get?_eq same)

end Program

namespace Grammar

/-- The order of the rules does not matter for whether a grammar has a program.
Nor does it for which matches come to an end, and where they end.  How many steps
that takes may differ, and with it which limits are run into. -/
theorem compile_perm {grammar other : Grammar} (reordered : grammar.rules.Perm other.rules)
    (start : String) :
    ((Exists fun program => grammar.compile start = .ok program) <->
      Exists fun another => other.compile start = .ok another) ∧
    forall program another, grammar.compile start = .ok program ->
      other.compile start = .ok another -> forall subject : String,
        (forall matched,
          (Exists fun count =>
            Leads program count (.start subject.toList) (.finished matched)) <->
          Exists fun count =>
            Leads another count (.start subject.toList) (.finished matched)) ∧
        forall config otherConfig outcome otherOutcome,
          program.matchWith config subject = .ok outcome ->
          another.matchWith otherConfig subject = .ok otherOutcome ->
          outcome.matched = otherOutcome.matched := by
  have wellFormed_iff (grammar : Grammar) :
      (Exists fun program => grammar.compile start = .ok program) <->
        grammar.WellFormed start Pattern.codedParts :=
    compileBy_succeeds_iff RuleTable.lowering_copies
  constructor
  · rw [wellFormed_iff, wellFormed_iff]
    exact ⟨fun wellFormed => wellFormed.of_perm reordered,
      fun wellFormed => wellFormed.of_perm reordered.symm⟩
  intro program another compiled otherCompiled subject
  have distinct := ((wellFormed_iff grammar).mp ⟨program, compiled⟩).distinct
  have same := get?_eq_of_perm reordered distinct
  rcases laid_of_compile compiled with ⟨rules, laid⟩
  rcases laid_of_compile otherCompiled with ⟨otherRules, otherLaid⟩
  constructor
  · intro matched
    constructor
    · rintro ⟨count, leads⟩
      exact laid.leads_of_get?_eq otherLaid same leads
    · rintro ⟨count, leads⟩
      exact otherLaid.leads_of_get?_eq laid (fun name => (same name).symm) leads
  · intro config otherConfig outcome otherOutcome answered otherAnswered
    rcases Program.leads_of_matchWith answered with ⟨count, leads⟩
    rcases Program.leads_of_matchWith otherAnswered with ⟨more, otherLeads⟩
    rcases laid.leads_of_get?_eq otherLaid same leads with ⟨steps, alike⟩
    exact (alike.finished_unique otherLeads).2

/-- Two rules that refer to each other. -/
def alternating : Grammar :=
  ⟨[⟨"even", .optional (.sequence (.char 'x') (.rule "odd"))⟩,
    ⟨"odd", .sequence (.char 'x') (.rule "even")⟩]⟩

/-- The same two rules the other way round. -/
def alternatingBack : Grammar :=
  ⟨alternating.rules.reverse⟩

/-- The two programs are not of the same size, but both of them match four out
of five characters. -/
theorem alternating_perm : alternating.rules.Perm alternatingBack.rules ∧
    Exists fun program => Exists fun another => Exists fun outcome => Exists fun otherOutcome =>
      alternating.compile "even" = .ok program ∧ alternatingBack.compile "even" = .ok another ∧
        program.size ≠ another.size ∧
        program.matchWith ⟨some 50, false⟩ "xxxxx" = .ok outcome ∧
        another.matchWith ⟨some 50, true⟩ "xxxxx" = .ok otherOutcome ∧
        outcome.matched = otherOutcome.matched := by
  have reordered : alternating.rules.Perm alternatingBack.rules := (List.reverse_perm _).symm
  have answered : Exists fun program => Exists fun another => Exists fun outcome =>
      Exists fun otherOutcome =>
        alternating.compile "even" = .ok program ∧ alternatingBack.compile "even" = .ok another ∧
          program.size ≠ another.size ∧
          program.matchWith ⟨some 50, false⟩ "xxxxx" = .ok outcome ∧
          another.matchWith ⟨some 50, true⟩ "xxxxx" = .ok otherOutcome :=
    ⟨_, _, _, _, rfl, rfl, by decide, rfl, rfl⟩
  rcases answered with ⟨program, another, outcome, otherOutcome, compiled, otherCompiled, sizes,
    answered, otherAnswered⟩
  have alike := ((compile_perm reordered "even").2 program another compiled otherCompiled "xxxxx").2
    _ _ outcome otherOutcome answered otherAnswered
  exact ⟨reordered, program, another, outcome, otherOutcome, compiled, otherCompiled, sizes,
    answered, otherAnswered, alike⟩

end Grammar
end ParsingMachine
