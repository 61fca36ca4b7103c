import ParsingMachine.Proofs.Program.Compiling
import ParsingMachine.Proofs.Program.Correctness

namespace ParsingMachine

open Text Machine

/-!
# Copies of rules and joined sets

Copying short rules to where they are referred to, and joining two sets into
one, changes nothing but the cost of a match.  The measure is the program that
is compiled without either: it exists for the same grammars, halts on the same
subjects with the same answer, and takes at least as many steps and as many
frames.
-/

/-! ## Plain programs -/

theorem Lowering.plain_copies (table : RuleTable) : (plain fun _ => none).Copies table where
  reference _ := Or.inl rfl
  alternative := Code.calls_alternative

theorem Lowering.plain_sound (grammar : Grammar) : (plain fun _ => none).Sound grammar where
  reference name := .called name none
  alternative := .choice

namespace Grammar

/-- Compile with a call for every reference and a choice point for every
choice. -/
def compilePlainly (grammar : Grammar) (start : String) : Except CompileError Program :=
  grammar.compileBy (fun _ => Lowering.plain fun _ => none) start

variable {grammar : Grammar} {start : String} {program plain : Program}

/-- A plainly compiled program lays the rules of its grammar out, and their code
is plain. -/
theorem holdsPlainly_of_compilePlainly (compiled : grammar.compilePlainly start = .ok plain) :
    plain.HoldsPlainly grammar ∧ Exists fun rules => plain.Laid grammar start rules := by
  rcases exists_of_bind_eq_ok compiled with ⟨table, built, linked⟩
  rcases RuleTable.names_of_buildBy built with ⟨names, distinct⟩
  have known := RuleTable.known_of_buildBy (fun _ _ => Lowering.plain_sound grammar) built
  have tableDistinct : (table.entries.map Prod.fst).Nodup := names ▸ distinct
  rcases known.laid_of_link tableDistinct linked with ⟨startCode, found, laid⟩
  refine ⟨fun name rule defined => ?_, _, laid⟩
  rcases mem_rules_of_get? defined with ⟨listed, rfl⟩
  rcases RuleTable.exists_lowered_of_buildBy built listed with ⟨_, code, _, lowered, member⟩
  have inLayout := (RuleTable.mem_layout_iff found tableDistinct).mpr member
  rcases laid.holds (List.mem_map_of_mem inLayout) with ⟨entry, located, held⟩
  have plainly := rule.pattern.plainCode_addressed (fun _ => none) plain.entries
  rw [Pattern.plainCode, Lowering.code_eq_of_lower lowered] at plainly
  rw [plainly] at held
  exact ⟨entry, located, held⟩

/-! ## Both programs on one subject -/

/-- Where the start rule has an outcome both programs come to the same end, and
the one that was compiled with copies and joined sets takes no more. -/
theorem climbs_of_matches {rules : List (String × Code)} (laid : program.Laid grammar start rules)
    {plainRules : List (String × Code)} (plainLaid : plain.Laid grammar start plainRules)
    (plainly : plain.HoldsPlainly grammar) {rule : Rule} (defined : grammar.get? start = some rule)
    {text : List Char} {outcome : Option Cut}
    (matched : grammar.Matches rule.pattern text outcome) :
    Exists fun steps => Exists fun peak => Exists fun more => Exists fun higher =>
      Climbs program steps peak (.start text)
        (.finished (outcome.map fun cut => byteLength cut.taken)) ∧
      Climbs plain more higher (.start text)
        (.finished (outcome.map fun cut => byteLength cut.taken)) ∧
      steps ≤ more ∧ peak ≤ higher := by
  rcases laid.holdsRule_start with ⟨own, code, again, implemented, held⟩
  rw [defined] at again
  cases again
  rcases Program.holds_append.mp held with ⟨codeHeld, closing⟩
  rcases matched.saves 0 laid.callsRules implemented codeHeld with ⟨steps, height, spends, needs⟩
  rcases plainLaid.holds_start with ⟨_, _, zero, _⟩
  rcases plainly start rule defined with ⟨entry, located, plainHeld⟩
  rw [zero] at located
  cases located
  rcases Program.holds_append.mp plainHeld with ⟨plainCodeHeld, plainClosing⟩
  rcases needs plain 0 0 plainly plainCodeHeld with ⟨more, higher, fewer, lower, plainSpends⟩
  refine ⟨_, _, _, _, spends.finishes (Program.holds_cons.mp closing).1,
    plainSpends.finishes (Program.holds_cons.mp plainClosing).1, ?_, lower⟩
  exact Nat.add_le_add_right fewer _

/-- Copies of rules and joined sets do not matter for which grammars have a
program.  Nor do they for which matches come to an end, and where: they make
such a match no longer, and its stack no deeper.  The answers of matches say the
same. -/
theorem compile_saves_compilePlainly (grammar : Grammar) (start : String) :
    ((Exists fun program => grammar.compile start = .ok program) <->
      Exists fun plain => grammar.compilePlainly start = .ok plain) ∧
    forall program plain, grammar.compile start = .ok program ->
      grammar.compilePlainly start = .ok plain -> forall subject : String,
        ((Exists fun count => Exists fun matched =>
            Leads program count (.start subject.toList) (.finished matched)) <->
          Exists fun count => Exists fun matched =>
            Leads plain count (.start subject.toList) (.finished matched)) ∧
        (forall steps peak matched more higher plainMatched,
          Climbs program steps peak (.start subject.toList) (.finished matched) ->
          Climbs plain more higher (.start subject.toList) (.finished plainMatched) ->
          matched = plainMatched ∧ steps ≤ more ∧ peak ≤ higher) ∧
        forall limit plainLimit outcome plainOutcome,
          program.matchWith ⟨limit, true⟩ subject = .ok outcome ->
          plain.matchWith ⟨plainLimit, true⟩ subject = .ok plainOutcome ->
          outcome.matched = plainOutcome.matched ∧ outcome.steps ≤ plainOutcome.steps ∧
            Exists fun profile => Exists fun plainProfile =>
              outcome.profile = some profile ∧ plainOutcome.profile = some plainProfile ∧
                profile.maxDepth ≤ plainProfile.maxDepth := by
  constructor
  · exact (compileBy_succeeds_iff RuleTable.lowering_copies).trans
      (compileBy_succeeds_iff Lowering.plain_copies).symm
  intro program plain compiled plainCompiled subject
  rcases laid_of_compile compiled with ⟨rules, laid⟩
  rcases holdsPlainly_of_compilePlainly plainCompiled with ⟨plainly, plainRules, plainLaid⟩
  have saves : forall steps peak matched more higher plainMatched,
      Climbs program steps peak (.start subject.toList) (.finished matched) ->
      Climbs plain more higher (.start subject.toList) (.finished plainMatched) ->
      matched = plainMatched ∧ steps ≤ more ∧ peak ≤ higher := by
    intro steps peak matched more higher plainMatched run plainRun
    rcases laid.matches_of_finished run.leads with ⟨rule, defined, _, means, _⟩
    rcases climbs_of_matches laid plainLaid plainly defined means with
      ⟨_, _, _, _, climbs, plainClimbs, fewer, lower⟩
    rcases run.finished_unique climbs with ⟨rfl, rfl, rfl⟩
    rcases plainRun.finished_unique plainClimbs with ⟨rfl, rfl, rfl⟩
    exact ⟨rfl, fewer, lower⟩
  refine ⟨⟨?_, ?_⟩, saves, ?_⟩
  · rintro ⟨count, matched, leads⟩
    rcases laid.matches_of_finished leads with ⟨rule, defined, _, means, _⟩
    rcases climbs_of_matches laid plainLaid plainly defined means with
      ⟨_, _, _, _, _, plainClimbs, _⟩
    exact ⟨_, _, plainClimbs.leads⟩
  · rintro ⟨count, matched, leads⟩
    rcases plainLaid.matches_of_finished leads with ⟨rule, defined, _, means, _⟩
    rcases climbs_of_matches laid plainLaid plainly defined means with ⟨_, _, _, _, climbs, _⟩
    exact ⟨_, _, climbs.leads⟩
  · intro limit plainLimit outcome plainOutcome answered plainAnswered
    rcases Program.climbs_of_matchWith answered with ⟨profile, profiled, run⟩
    rcases Program.climbs_of_matchWith plainAnswered with ⟨plainProfile, plainProfiled, plainRun⟩
    rcases saves _ _ _ _ _ _ run plainRun with ⟨same, fewer, lower⟩
    exact ⟨same, fewer, profile, plainProfile, profiled, plainProfiled, lower⟩

/-- Two digits, where a digit is the choice of two sets. -/
def digitPair : Grammar :=
  ⟨[⟨"digit", .choice (.range '0' '4') (.range '5' '9')⟩,
    ⟨"pair", .sequence (.rule "digit") (.rule "digit")⟩]⟩

theorem digitPair_saves :
    Exists fun program => Exists fun plain => Exists fun outcome => Exists fun plainOutcome =>
      digitPair.compile "pair" = .ok program ∧ digitPair.compilePlainly "pair" = .ok plain ∧
        program.matchWith ⟨some 20, true⟩ "47" = .ok outcome ∧
        plain.matchWith ⟨none, true⟩ "47" = .ok plainOutcome ∧
          outcome.matched = plainOutcome.matched ∧ outcome.steps ≤ plainOutcome.steps := by
  have optimised : Exists fun program => Exists fun outcome =>
      digitPair.compile "pair" = .ok program ∧
        program.matchWith ⟨some 20, true⟩ "47" = .ok outcome := ⟨_, _, rfl, rfl⟩
  have unoptimised : Exists fun plain => Exists fun outcome =>
      digitPair.compilePlainly "pair" = .ok plain ∧
        plain.matchWith ⟨none, true⟩ "47" = .ok outcome := ⟨_, _, rfl, rfl⟩
  rcases optimised with ⟨program, outcome, compiled, answered⟩
  rcases unoptimised with ⟨plain, plainOutcome, plainCompiled, plainAnswered⟩
  rcases (compile_saves_compilePlainly digitPair "pair").2 program plain compiled plainCompiled
    "47" with ⟨_, _, saves⟩
  rcases saves _ _ outcome plainOutcome answered plainAnswered with ⟨same, fewer, _⟩
  exact ⟨program, plain, outcome, plainOutcome, compiled, plainCompiled, answered, plainAnswered,
    same, fewer⟩

end Grammar
end ParsingMachine
