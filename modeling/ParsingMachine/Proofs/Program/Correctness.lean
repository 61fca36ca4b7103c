import ParsingMachine.Proofs.Program.Plain

namespace ParsingMachine

open Text Machine

/-!
# Programs match what their grammars mean

The code of a pattern performs every outcome that the pattern has: that is
proved along the derivation of the match.  On the way the steps and the frames
are counted, and held against those of plain code.

Conversely a match that comes to an end only enters code of patterns that have
an outcome.  The induction there is on the number of steps that are left:
every round of a loop and every reference to a rule costs a step.
-/

/-! ## From the meaning to the run -/

namespace Grammar

open Program (holds_append holds_cons holds_guarded)

/-- The code of a pattern spends no more on an outcome than the plain code of
the pattern does. -/
def Saves (grammar : Grammar) (program : Program) (address : Nat) (pattern : Pattern) (code : Code)
    (text : List Char) (position : Nat) (outcome : Option Cut) : Prop :=
  Exists fun steps => Exists fun height =>
    Spends program address code text position outcome steps height ∧
      grammar.Needs pattern text outcome steps height

/-- The code of a pattern brings about every outcome that the pattern has, and
spends no more on it than plain code does. -/
theorem Matches.saves {grammar : Grammar} {pattern : Pattern} {text : List Char}
    {outcome : Option Cut} (matched : grammar.Matches pattern text outcome) {program : Program}
    {address : Nat} {code : Code} (position : Nat) (calls : program.CallsRules grammar)
    (implemented : grammar.Implements pattern code) (held : program.Holds address code) :
    grammar.Saves program address pattern code text position outcome := by
  induction matched generalizing program address code position with
  | atom admits => exact ⟨1, 0, spends_atom implemented admits held, .atom admits⟩
  | atomFails isAtom refused =>
      exact ⟨1, 0, spends_atom_of_fails implemented isAtom refused held,
        .atom_of_fails isAtom refused⟩
  | group _ inductionHypothesis =>
      cases implemented with
      | group implemented => exact inductionHypothesis position calls implemented held
  | notPresent _ inductionHypothesis =>
      cases implemented with
      | not implemented =>
          rcases inductionHypothesis position calls implemented (holds_guarded.mp held).2.1 with
            ⟨_, _, spends, needs⟩
          exact ⟨_, _, spends_absent_of_fails held spends, needs.absent_of_fails⟩
  | notFails _ inductionHypothesis =>
      cases implemented with
      | not implemented =>
          rcases inductionHypothesis position calls implemented (holds_guarded.mp held).2.1 with
            ⟨_, _, spends, needs⟩
          exact ⟨_, _, spends_absent_of_matches held spends, needs.absent_of_matches⟩
  | sequence _ _ firstHypothesis secondHypothesis =>
      cases implemented with
      | sequence before behind =>
          rcases holds_append.mp held with ⟨firstHeld, secondHeld⟩
          rcases firstHypothesis position calls before firstHeld with ⟨_, _, spends, needs⟩
          rcases secondHypothesis _ calls behind secondHeld with ⟨_, _, nextSpends, nextNeeds⟩
          exact ⟨_, _, spends_append spends nextSpends, needs.sequence nextNeeds⟩
  | sequenceFailsFirst _ firstHypothesis =>
      cases implemented with
      | sequence before _ =>
          rcases firstHypothesis position calls before (holds_append.mp held).1 with
            ⟨_, _, spends, needs⟩
          exact ⟨_, _, spends_append_of_first_fails spends, needs.sequence_of_first_fails⟩
  | sequenceFailsSecond _ _ firstHypothesis secondHypothesis =>
      cases implemented with
      | sequence before behind =>
          rcases holds_append.mp held with ⟨firstHeld, secondHeld⟩
          rcases firstHypothesis position calls before firstHeld with ⟨_, _, spends, needs⟩
          rcases secondHypothesis _ calls behind secondHeld with ⟨_, _, nextSpends, nextNeeds⟩
          exact ⟨_, _, spends_append_of_fails spends nextSpends, needs.sequence_of_fails nextNeeds⟩
  | choiceFirst _ firstHypothesis =>
      cases implemented with
      | choice one other =>
          rcases firstHypothesis position calls one (holds_guarded.mp held).2.1 with
            ⟨_, _, spends, needs⟩
          exact ⟨_, _, spends_alternative_first held spends, needs.choice_first⟩
      | fused one other =>
          rcases firstHypothesis 0 justSet_callsRules one justSet_holds with ⟨_, _, spends, needs⟩
          have takes := spends.performs.takesMember
          exact ⟨1, 0, spends_set (holds_cons.mp held).1 takes.union_first,
            needs.choice_first.weaken (by omega) (Nat.zero_le _)⟩
  | choiceSecond _ _ firstHypothesis secondHypothesis =>
      cases implemented with
      | choice one other =>
          rcases holds_guarded.mp held with ⟨_, firstHeld, _, secondHeld⟩
          rcases firstHypothesis position calls one firstHeld with ⟨_, _, spends, needs⟩
          rcases secondHypothesis position calls other secondHeld with ⟨_, _, nextSpends, nextNeeds⟩
          exact ⟨_, _, spends_alternative_second held spends nextSpends, needs.choice_second nextNeeds⟩
      | fused one other =>
          rcases firstHypothesis 0 justSet_callsRules one justSet_holds with ⟨_, _, spends, needs⟩
          rcases secondHypothesis 0 justSet_callsRules other justSet_holds with
            ⟨_, _, nextSpends, nextNeeds⟩
          have takes := spends.performs.takesMember.union_second nextSpends.performs.takesMember
          exact ⟨1, 0, spends_set (holds_cons.mp held).1 takes,
            (needs.choice_second nextNeeds).weaken (by omega) (Nat.zero_le _)⟩
  | optionalTaken _ inductionHypothesis =>
      cases implemented with
      | optional implemented =>
          rcases inductionHypothesis position calls implemented (holds_guarded.mp held).2.1 with
            ⟨_, _, spends, needs⟩
          exact ⟨_, _, spends_optional_taken held spends, needs.optional_taken⟩
  | optionalSkipped _ inductionHypothesis =>
      cases implemented with
      | optional implemented =>
          rcases inductionHypothesis position calls implemented (holds_guarded.mp held).2.1 with
            ⟨_, _, spends, needs⟩
          exact ⟨_, _, spends_optional_skipped held spends, needs.optional_skipped⟩
  | zeroOrMoreStops _ inductionHypothesis =>
      cases implemented with
      | zeroOrMore implemented =>
          rcases inductionHypothesis position calls implemented (holds_guarded.mp held).2.1 with
            ⟨_, _, spends, needs⟩
          exact ⟨_, _, spends_loop_stops held spends, needs.loop_stops⟩
  | zeroOrMoreIdles _ inductionHypothesis =>
      cases implemented with
      | zeroOrMore implemented =>
          rcases inductionHypothesis position calls implemented (holds_guarded.mp held).2.1 with
            ⟨_, _, spends, needs⟩
          exact ⟨_, _, spends_loop_idles held spends, needs.loop_idles⟩
  | zeroOrMoreGoesOn _ onward _ roundHypothesis restHypothesis =>
      cases implemented with
      | zeroOrMore implemented =>
          rcases roundHypothesis position calls implemented (holds_guarded.mp held).2.1 with
            ⟨_, _, spends, needs⟩
          rcases restHypothesis _ calls (.zeroOrMore implemented) held with
            ⟨_, _, nextSpends, nextNeeds⟩
          exact ⟨_, _, spends_loop_goesOn held spends onward nextSpends,
            needs.loop_goesOn onward nextNeeds⟩
  | oneOrMore _ inductionHypothesis =>
      cases implemented with
      | oneOrMore implemented => exact inductionHypothesis position calls implemented held
  | repeatedDone =>
      cases implemented with
      | repeatedDone => exact ⟨0, 0, spends_nothing, .repeated_done⟩
      | repeatedRequired positive _ _ => exact absurd positive (by decide)
      | repeatedAllowed positive _ => exact absurd positive (by decide)
  | repeatedRequired positive ordered _ inductionHypothesis =>
      cases implemented with
      | repeatedDone => exact absurd positive (by decide)
      | repeatedRequired _ _ implemented =>
          rcases inductionHypothesis position calls implemented held with ⟨_, _, spends, needs⟩
          exact ⟨_, _, spends, needs.of_eq fun _ => Lowering.code_required _ _ positive ordered⟩
      | repeatedAllowed _ _ => exact absurd positive (by decide)
  | repeatedAllowed positive _ inductionHypothesis =>
      cases implemented with
      | repeatedDone => exact absurd positive (by decide)
      | repeatedRequired required _ _ => exact absurd required (by decide)
      | repeatedAllowed _ implemented =>
          rcases inductionHypothesis position calls implemented held with ⟨_, _, spends, needs⟩
          exact ⟨_, _, spends, needs.of_eq fun _ => Lowering.code_allowed _ _ positive⟩
  | @rule name rule text outcome defined _ inductionHypothesis =>
      cases implemented with
      | pasted comment again implemented =>
          rw [defined] at again
          cases again
          rcases inductionHypothesis position calls implemented (holds_cons.mp held).2 with
            ⟨_, _, spends, needs⟩
          refine ⟨_, _, spends_pasted held spends, ?_⟩
          cases outcome with
          | none => exact (needs.called_of_fails defined).weaken (Nat.le_refl _) (Nat.le_succ _)
          | some cut => exact (needs.called defined).weaken (Nat.le_succ _) (Nat.le_succ _)
      | called _ target =>
          have located := (holds_cons.mp held).1
          rcases calls _ target (Array.mem_of_getElem? located) with
            ⟨entry, rfl, rule, code, again, implemented, ruleHeld⟩
          rw [defined] at again
          cases again
          rcases holds_append.mp ruleHeld with ⟨codeHeld, closing⟩
          rcases inductionHypothesis position calls implemented codeHeld with ⟨_, _, spends, needs⟩
          cases outcome with
          | none => exact ⟨_, _, spends_called_of_fails located spends, needs.called_of_fails defined⟩
          | some cut =>
              exact ⟨_, _, spends_called located (holds_cons.mp closing).1 spends,
                needs.called defined⟩

/-- The code of a pattern performs every outcome that the pattern has. -/
theorem Matches.performs {grammar : Grammar} {pattern : Pattern} {text : List Char}
    {outcome : Option Cut} (matched : grammar.Matches pattern text outcome) {program : Program}
    {address : Nat} {code : Code} (position : Nat) (calls : program.CallsRules grammar)
    (implemented : grammar.Implements pattern code) (held : program.Holds address code) :
    Performs program address code text position outcome := by
  rcases matched.saves position calls implemented held with ⟨_, _, spends, _⟩
  exact spends.performs

/-! ## From the run to the meaning -/

/-- A pattern whose code does not get beyond sets has an outcome on every
text. -/
theorem Implements.settles_of_sets {grammar : Grammar} {pattern : Pattern} {code : Code}
    (implemented : grammar.Implements pattern code)
    (sets : forall instruction, instruction ∈ code ->
      Exists fun set => instruction = .matchSet set) (text : List Char) :
    grammar.Settles pattern text := by
  induction implemented generalizing text with
  | group _ inductionHypothesis =>
      rcases inductionHypothesis sets text with ⟨outcome, matched⟩
      exact ⟨outcome, .group matched⟩
  | char _ => exact .atom rfl text
  | literal _ => exact .atom rfl text
  | literalAnyCase _ => exact .atom rfl text
  | any => exact .atom rfl text
  | charClass _ => exact .atom rfl text
  | sequence _ _ firstHypothesis secondHypothesis =>
      apply Settles.sequence
      · exact firstHypothesis (fun own listed => sets own (List.mem_append_left _ listed)) text
      · intro cut _
        exact secondHypothesis (fun own listed => sets own (List.mem_append_right _ listed)) _
  | fused _ _ firstHypothesis secondHypothesis =>
      have single : forall set instruction, instruction ∈ [Instruction.matchSet set] ->
          Exists fun set => instruction = .matchSet set :=
        fun set _ listed => ⟨set, List.mem_singleton.mp listed⟩
      exact .choice (firstHypothesis (single _) text) fun _ => secondHypothesis (single _) text
  | oneOrMore _ inductionHypothesis =>
      rcases inductionHypothesis sets text with ⟨outcome, matched⟩
      exact ⟨outcome, .oneOrMore matched⟩
  | repeatedDone => exact ⟨_, .repeatedDone⟩
  | repeatedRequired positive ordered _ inductionHypothesis =>
      rcases inductionHypothesis sets text with ⟨outcome, matched⟩
      exact ⟨outcome, .repeatedRequired positive ordered matched⟩
  | repeatedAllowed positive _ inductionHypothesis =>
      rcases inductionHypothesis sets text with ⟨outcome, matched⟩
      exact ⟨outcome, .repeatedAllowed positive matched⟩
  | called _ _ =>
      rcases sets _ List.mem_cons_self with ⟨set, same⟩
      cases same
  | _ =>
      -- Every other shape begins with a choice point or a comment.
      rcases sets _ List.mem_cons_self with ⟨set, same⟩
      cases same

/-- Where the machine comes from code of a pattern to the end of the match,
the pattern has an outcome. -/
theorem Implements.settles {grammar : Grammar} {program : Program}
    (calls : program.CallsRules grammar) (bound : Nat) {pattern : Pattern} {code : Code}
    (implemented : grammar.Implements pattern code) {count address position : Nat}
    {text : List Char} {stack : Stack} {final : Option Nat} (bounded : count ≤ bound)
    (held : program.Holds address code)
    (leads : Leads program count ⟨address, ⟨text, position⟩, stack⟩ (.finished final)) :
    grammar.Settles pattern text := by
  induction bound generalizing pattern code count address position text stack with
  | zero => exact absurd leads.positive (Nat.not_lt_of_ge bounded)
  | succ bound fewerSteps =>
      induction implemented generalizing count address position text stack with
      | group _ inductionHypothesis =>
          rcases inductionHypothesis bounded held leads with ⟨outcome, matched⟩
          exact ⟨outcome, .group matched⟩
      | char _ => exact .atom rfl text
      | literal _ => exact .atom rfl text
      | literalAnyCase _ => exact .atom rfl text
      | any => exact .atom rfl text
      | charClass _ => exact .atom rfl text
      | not _ inductionHypothesis =>
          rcases holds_guarded.mp held with ⟨opening, innerHeld, _, _⟩
          rcases leads.after (.once (step_choice opening _ _)) with ⟨rest, counted, onward⟩
          exact .not (inductionHypothesis (by omega) innerHeld onward)
      | sequence before _ firstHypothesis secondHypothesis =>
          rcases holds_append.mp held with ⟨firstHeld, secondHeld⟩
          refine .sequence (firstHypothesis bounded firstHeld leads) fun cut matched => ?_
          rcases matched.performs position calls before firstHeld stack with ⟨steps, reached⟩
          rcases leads.after reached with ⟨rest, counted, onward⟩
          exact secondHypothesis (by omega) secondHeld onward
      | choice one _ firstHypothesis secondHypothesis =>
          rcases holds_guarded.mp held with ⟨opening, firstHeld, _, secondHeld⟩
          rcases leads.after (.once (step_choice opening _ _)) with ⟨rest, counted, onward⟩
          refine .choice (firstHypothesis (by omega) firstHeld onward) fun failed => ?_
          have arrived := failed.performs position calls one firstHeld
          rcases (arrived (stack.push _)).resumes opening with ⟨steps, reached⟩
          rcases leads.after reached with ⟨remaining, counted, onward⟩
          rw [jump_jumpOver_two] at onward
          exact secondHypothesis (by omega) secondHeld onward
      | fused one other _ _ =>
          exact (one.fused other).settles_of_sets
            (fun _ listed => ⟨_, List.mem_singleton.mp listed⟩) text
      | optional _ inductionHypothesis =>
          rcases holds_guarded.mp held with ⟨opening, innerHeld, _, _⟩
          rcases leads.after (.once (step_choice opening _ _)) with ⟨rest, counted, onward⟩
          exact .optional (inductionHypothesis (by omega) innerHeld onward)
      | @zeroOrMore inner code implemented inductionHypothesis =>
          rcases holds_guarded.mp held with ⟨opening, innerHeld, _, _⟩
          rcases leads.after (.once (step_choice opening _ _)) with ⟨rest, counted, onward⟩
          have settled := inductionHypothesis (by omega) innerHeld onward
          have rounds : Exists fun last => grammar.Matches (.zeroOrMore inner) text (some last) := by
            refine Settles.zeroOrMore settled fun cut matched goesOn => ?_
            have performed := matched.performs position calls implemented innerHeld
            rcases reaches_next_round held performed goesOn with ⟨steps, reached⟩
            rcases onward.after reached with ⟨remaining, further, again⟩
            rcases fewerSteps (.zeroOrMore implemented) (by omega) held again with ⟨_, matched⟩
            rcases matched.zeroOrMore_succeeds with ⟨last, rfl⟩
            exact ⟨last, matched⟩
          rcases rounds with ⟨last, matched⟩
          exact ⟨_, matched⟩
      | oneOrMore _ inductionHypothesis =>
          rcases inductionHypothesis bounded held leads with ⟨outcome, matched⟩
          exact ⟨outcome, .oneOrMore matched⟩
      | repeatedDone => exact ⟨_, .repeatedDone⟩
      | repeatedRequired positive ordered _ inductionHypothesis =>
          rcases inductionHypothesis bounded held leads with ⟨outcome, matched⟩
          exact ⟨outcome, .repeatedRequired positive ordered matched⟩
      | repeatedAllowed positive _ inductionHypothesis =>
          rcases inductionHypothesis bounded held leads with ⟨outcome, matched⟩
          exact ⟨outcome, .repeatedAllowed positive matched⟩
      | pasted comment defined _ inductionHypothesis =>
          rcases holds_cons.mp held with ⟨located, innerHeld⟩
          rcases leads.after (.once (step_comment located)) with ⟨rest, counted, onward⟩
          rcases inductionHypothesis (by omega) innerHeld onward with ⟨outcome, matched⟩
          exact ⟨outcome, .rule defined matched⟩
      | called name target =>
          have located := (holds_cons.mp held).1
          rcases calls name target (Array.mem_of_getElem? located) with
            ⟨entry, rfl, rule, code, defined, implemented, ruleHeld⟩
          rcases leads.after (.once (step_call located _ _)) with ⟨rest, counted, onward⟩
          rcases fewerSteps implemented (by omega) (holds_append.mp ruleHeld).1 onward with
            ⟨outcome, matched⟩
          exact ⟨outcome, .rule defined matched⟩

end Grammar

/-! ## Matching by a compiled grammar -/

namespace Program

/-- Code of a rule brings the machine that starts with it to the end of the
match that the rule's pattern has. -/
theorem Laid.finished_of_matches {program : Program} {grammar : Grammar} {start : String}
    {rules : List (String × Code)} (laid : program.Laid grammar start rules) {rule : Rule}
    (defined : grammar.get? start = some rule) {text : List Char} {outcome : Option Cut}
    (matched : grammar.Matches rule.pattern text outcome) :
    Exists fun count => Leads program count (.start text)
      (.finished (outcome.map fun cut => byteLength cut.taken)) := by
  rcases laid.holdsRule_start with ⟨own, code, again, implemented, held⟩
  rw [defined] at again
  cases again
  rcases holds_append.mp held with ⟨codeHeld, closing⟩
  rcases matched.saves 0 laid.callsRules implemented codeHeld with ⟨_, _, spends, _⟩
  exact ⟨_, (spends.finishes (holds_cons.mp closing).1).leads⟩

/-- Where the machine that starts with the code of a rule comes to the end of the
match, the rule's pattern has that outcome. -/
theorem Laid.matches_of_finished {program : Program} {grammar : Grammar} {start : String}
    {rules : List (String × Code)} (laid : program.Laid grammar start rules) {text : List Char}
    {count : Nat} {matched : Option Nat}
    (leads : Leads program count (.start text) (.finished matched)) :
    Exists fun rule => grammar.get? start = some rule ∧ Exists fun outcome =>
      grammar.Matches rule.pattern text outcome ∧
        matched = outcome.map fun cut => byteLength cut.taken := by
  rcases laid.holdsRule_start with ⟨rule, code, defined, implemented, held⟩
  rcases implemented.settles laid.callsRules count (Nat.le_refl count) (holds_append.mp held).1
    leads with ⟨outcome, means⟩
  rcases laid.finished_of_matches defined means with ⟨steps, finished⟩
  exact ⟨rule, defined, outcome, means, (leads.finished_unique finished).2⟩

/-- A compiled grammar matches as its rules mean.  Without a limit the machine
comes to an end of the match exactly if the pattern of the start rule has that
outcome on the subject.  Every answer is such an end, and a match that comes to
an end has its answer under every limit that allows as many instructions, as long
as they can be counted. -/
theorem matchWith_iff_matches {grammar : Grammar} {start : String} {program : Program}
    (compiled : grammar.compile start = .ok program) (subject : String) (matched : Option Nat) :
    ((Exists fun count => Leads program count (.start subject.toList) (.finished matched)) <->
      Exists fun rule => grammar.get? start = some rule ∧ Exists fun outcome =>
        grammar.Matches rule.pattern subject.toList outcome ∧
          matched = outcome.map fun cut => byteLength cut.taken) ∧
    forall config,
      (Exists fun outcome => program.matchWith config subject = .ok outcome ∧
        outcome.matched = matched) <->
      Exists fun count => (count < UInt64.size ∧ config.Allows count) ∧
        Leads program count (.start subject.toList) (.finished matched) := by
  rcases Grammar.laid_of_compile compiled with ⟨rules, laid⟩
  refine ⟨⟨?_, ?_⟩, fun config => matchWith_eq_ok_iff⟩
  · rintro ⟨count, leads⟩
    exact laid.matches_of_finished leads
  · rintro ⟨rule, defined, outcome, meaning, rfl⟩
    exact laid.finished_of_matches defined meaning

/-- Three pairs of parentheses match as a whole, since the program for them
says so. -/
theorem nestedParentheses_matches :
    nestedParentheses.compile "nested" = .ok nestedProgram ∧
      nestedProgram.matchWith ⟨some 30, false⟩ "(()())x" = .ok ⟨some 6, 24, none⟩ ∧
      Exists fun rule => nestedParentheses.get? "nested" = some rule ∧ Exists fun outcome =>
        nestedParentheses.Matches rule.pattern "(()())x".toList outcome ∧
          some 6 = outcome.map fun cut => byteLength cut.taken := by
  have answered : nestedProgram.matchWith ⟨some 30, false⟩ "(()())x" =
      .ok ⟨some 6, 24, none⟩ := rfl
  rcases matchWith_iff_matches nestedParentheses_compile "(()())x" (some 6) with ⟨means, answers⟩
  rcases (answers _).mp ⟨_, answered, rfl⟩ with ⟨count, _, leads⟩
  exact ⟨nestedParentheses_compile, answered, means.mp ⟨count, leads⟩⟩

end Program
end ParsingMachine
