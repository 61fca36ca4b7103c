import ParsingMachine.Program
import ParsingMachine.Proofs.Reader.Enclosing

namespace ParsingMachine

/-!
# Programs of grammars that were written and read again

A grammar that was built and not read comes back with more groups than it had.
No code is made of a group, and no objection is raised to one.  So the code of
every rule is the same, and with it whether the rule is copied to where it is
referred to, whether two alternatives become one set, and what is objected to
first.
-/

variable (lowering : Lowering) (way : RuleTable -> Lowering) (rule : String)

/-! ## Rules -/

theorem Lowering.lower_groupIf (loose : Bool) (pattern : Pattern) :
    lowering.lower rule (pattern.groupIf loose) = lowering.lower rule pattern := by
  cases loose <;> rfl

/-- Groups that were put into a pattern make no difference to its code, nor to
what is wrong with it. -/
theorem Lowering.lower_enclosed (pattern : Pattern) :
    lowering.lower rule pattern.enclosed = lowering.lower rule pattern := by
  induction pattern with
  | group inner inductionHypothesis => exact inductionHypothesis
  | choice first second firstHypothesis secondHypothesis =>
      rw [Pattern.enclosed, lower, lower, lower_groupIf, firstHypothesis, secondHypothesis]
  | sequence first second firstHypothesis secondHypothesis =>
      rw [Pattern.enclosed, lower, lower, lower_groupIf, lower_groupIf, firstHypothesis,
        secondHypothesis]
  | not inner inductionHypothesis | optional inner inductionHypothesis
  | zeroOrMore inner inductionHypothesis | oneOrMore inner inductionHypothesis
  | repeated inner least most inductionHypothesis =>
      rw [Pattern.enclosed, lower, lower, lower_groupIf, inductionHypothesis]
  | _ => rfl

theorem RuleTable.addRule_enclosed (table : RuleTable) (rule : Rule) :
    addRule way table rule.enclosed = addRule way table rule := by
  rw [addRule, addRule, Rule.enclosed, Lowering.lower_enclosed]

/-- Nor do they make a difference to the table of all the rules. -/
theorem RuleTable.buildBy_enclosed (grammar : Grammar) :
    buildBy way grammar.enclosed = buildBy way grammar := by
  rw [buildBy, buildBy, Grammar.enclosed, List.foldlM_map]
  simp only [addRule_enclosed]

/-! ## Grammars -/

namespace Grammar

theorem compile_enclosed (grammar : Grammar) (start : String) :
    grammar.enclosed.compile start = grammar.compile start := by
  rw [compile, compile, RuleTable.build, RuleTable.build, RuleTable.buildBy_enclosed]

/-- A grammar that was built and written, and that can be read again, has the
same program as it had before, or the same is objected to. -/
theorem compile_reread {grammar again : Grammar}
    (named : forall rule, rule ∈ grammar.rules -> rule.IsNamed)
    (read : Grammar.ofText grammar.toText = .ok again) (start : String) :
    again.compile start = grammar.compile start := by
  rw [eq_enclosed_of_ofText named read, compile_enclosed]

/-- A choice of sets that leans to the right, and a rule that refers to it. -/
def rightLeaning : Grammar :=
  ⟨[⟨"h", .choice (.range '0' '9') (.choice (.range 'a' 'f') (.range 'A' 'F'))⟩,
    ⟨"b", .repeated (.optional (.rule "h")) 2 2⟩]⟩

/-- It comes back with groups, but the three sets still become one. -/
theorem rightLeaning_reread :
    (forall rule, rule ∈ rightLeaning.rules -> rule.IsNamed) ∧ Exists fun again =>
      Grammar.ofText rightLeaning.toText = .ok again ∧ again ≠ rightLeaning ∧
        again.compile "b" = rightLeaning.compile "b" := by
  have single (letter : Char) (starts : Reader.isNameStart letter = true) :
      IsName (String.singleton letter) :=
    ⟨letter, [], rfl, starts, fun _ inside => absurd inside List.not_mem_nil⟩
  have named : forall rule, rule ∈ rightLeaning.rules -> rule.IsNamed := by
    intro rule listed
    rcases List.mem_cons.mp listed with rfl | listed
    · exact ⟨single 'h' rfl, fun name refers => absurd refers List.not_mem_nil⟩
    · rcases List.mem_singleton.mp listed with rfl
      refine ⟨single 'b' rfl, fun name refers => ?_⟩
      rcases List.mem_singleton.mp refers with rfl
      exact single 'h' rfl
  have low : forall rule, rule ∈ rightLeaning.enclosed.rules ->
      rule.pattern.height ≤ Reader.heightLimit := by decide
  have read : Grammar.ofText rightLeaning.toText = .ok rightLeaning.enclosed :=
    Grammar.ofText_eq_ok.mpr
      ((Reader.ruleDefinitions_eq_ok (by decide) _ _).mpr ⟨spellsRules_toText named, low⟩)
  exact ⟨named, _, read, by decide, compile_reread named read "b"⟩

end Grammar
end ParsingMachine
