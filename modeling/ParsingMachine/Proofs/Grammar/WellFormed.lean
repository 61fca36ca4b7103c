import ParsingMachine.Grammar

namespace ParsingMachine

/-!
# Well-formed grammars

What is asked of a grammar is asked of the patterns inside its rules: of the
classes, that their ranges run forwards; of the repetitions, that they may
happen as often as they have to; of the references, that they lead to a rule.

A repetition that may not happen even once has an inside all the same.  Code
is made without it, and so there are two readings of what is inside a pattern.
-/

namespace Pattern

/-- Every pattern inside a pattern, itself included. -/
def parts (pattern : Pattern) : List Pattern :=
  pattern :: match pattern with
    | group inner | not inner | optional inner | zeroOrMore inner | oneOrMore inner
    | repeated inner _ _ => inner.parts
    | sequence first second | choice first second => first.parts ++ second.parts
    | rule _ | char _ | literal _ | literalAnyCase _ | any | charClass _ => []

/-- The patterns inside a pattern without what is inside of repetitions that
may not happen even once. -/
def codedParts (pattern : Pattern) : List Pattern :=
  pattern :: match pattern with
    | group inner | not inner | optional inner | zeroOrMore inner | oneOrMore inner =>
        inner.codedParts
    | repeated inner _ most => if most = 0 then [] else inner.codedParts
    | sequence first second | choice first second => first.codedParts ++ second.codedParts
    | rule _ | char _ | literal _ | literalAnyCase _ | any | charClass _ => []

/-- The names that a pattern refers to are those of the references inside it. -/
theorem mem_references_iff {pattern : Pattern} {name : String} :
    name ∈ pattern.references <-> rule name ∈ pattern.parts := by
  induction pattern <;> simp_all [references, parts]

theorem codedParts_subset (pattern : Pattern) : pattern.codedParts ⊆ pattern.parts := by
  induction pattern with
  | group inner inductionHypothesis | not inner inductionHypothesis
  | optional inner inductionHypothesis | zeroOrMore inner inductionHypothesis
  | oneOrMore inner inductionHypothesis =>
      rw [codedParts, parts]
      exact List.cons_subset_cons _ inductionHypothesis
  | repeated inner least most inductionHypothesis =>
      rw [codedParts, parts]
      apply List.cons_subset_cons
      split
      · exact List.nil_subset _
      · exact inductionHypothesis
  | sequence first second firstHypothesis secondHypothesis
  | choice first second firstHypothesis secondHypothesis =>
      rw [codedParts, parts]
      apply List.cons_subset_cons
      exact List.append_subset.mpr ⟨List.subset_append_of_subset_left _ firstHypothesis,
        List.subset_append_of_subset_right _ secondHypothesis⟩
  | _ => exact List.Subset.refl _

/-- The ranges of a class run forwards, and the bounds of a repetition are in
order.  What is inside of the pattern does not matter here. -/
def IsOrdered : Pattern -> Prop
  | charClass items => forall first last, .range first last ∈ items -> first ≤ last
  | repeated _ least most => least ≤ most
  | _ => True

end Pattern

/-- A grammar is well-formed in what `inside` finds inside its patterns. -/
structure Grammar.WellFormed (grammar : Grammar) (start : String)
    (inside : Pattern -> List Pattern) : Prop where
  distinct : (grammar.rules.map Rule.name).Nodup
  starts : start ∈ grammar.rules.map Rule.name
  ordered : forall rule, rule ∈ grammar.rules -> forall part, part ∈ inside rule.pattern ->
    part.IsOrdered
  defined : forall rule, rule ∈ grammar.rules -> forall name, .rule name ∈ inside rule.pattern ->
    name ∈ grammar.rules.map Rule.name

theorem Grammar.mem_rules_of_get? {grammar : Grammar} {name : String} {rule : Rule} (defined : grammar.get? name = some rule) :
    rule ∈ grammar.rules ∧ rule.name = name := by
  rw [get?] at defined
  have named := List.find?_some defined
  exact ⟨List.mem_of_find?_eq_some defined, of_decide_eq_true named⟩

theorem Grammar.exists_rule_of_mem {grammar : Grammar} {name : String} (listed : name ∈ grammar.rules.map Rule.name) :
    Exists fun rule => rule ∈ grammar.rules ∧ grammar.get? name = some rule := by
  rcases List.mem_map.mp listed with ⟨rule, member, same⟩
  have found : (grammar.get? name).isSome = true :=
    List.find?_isSome.mpr ⟨rule, member, decide_eq_true same⟩
  rcases Option.isSome_iff_exists.mp found with ⟨first, defined⟩
  exact ⟨first, (mem_rules_of_get? defined).1, defined⟩

/-- A grammar that is well-formed throughout is well-formed in what code is
made of. -/
theorem Grammar.WellFormed.coded {grammar : Grammar} {start : String}
    (wellFormed : grammar.WellFormed start Pattern.parts) :
    grammar.WellFormed start Pattern.codedParts where
  distinct := wellFormed.distinct
  starts := wellFormed.starts
  ordered rule listed part coded :=
    wellFormed.ordered rule listed part (Pattern.codedParts_subset _ coded)
  defined rule listed name coded :=
    wellFormed.defined rule listed name (Pattern.codedParts_subset _ coded)

end ParsingMachine
