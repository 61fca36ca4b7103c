import ParsingMachine.Proofs.Reader.Completeness

namespace ParsingMachine
namespace Reader

/-!
# The language that is read

A text is read as a grammar exactly if it spells the grammar and no pattern in
it is too tall; and so for a text that is one pattern.  A text therefore spells
at most one grammar, however high its patterns are: some limit is high enough
for any two of them.
-/

/-! ## Rules -/

theorem SpellsRules.behind_trivia {text start : List Char} {rules : List Rule}
    (spelled : SpellsRules start rules) (trivia : Trivia text start) : SpellsRules text rules := by
  cases spelled with
  | none ended => exact .none (trivia.trans ended)
  | rule before named arrow body others => exact .rule (trivia.trans before) named arrow body others

theorem SpellsName.visible {start rest : List Char} {name : String}
    (spelled : SpellsName start name rest) :
    Exists fun first => Exists fun after => start = first :: after ∧ isNameStart first = true ∧
      skipTrivia start = start := by
  cases spelled with
  | name starts _ _ => exact ⟨_, _, rfl, starts, skipTrivia_nameStart starts⟩

/-- A name is what comes next behind blanks and comments. -/
theorem SpellsName.next?_eq {text start rest : List Char} {name : String}
    (named : SpellsName start name rest) (left : skipTrivia text = skipTrivia start) :
    Exists fun next => next? text = some next ∧ next.here = start := by
  rcases named.visible with ⟨first, behind, rfl, _, visible⟩
  rcases next?_of_skipTrivia (left.trans visible) with ⟨next, found, rfl, rfl⟩
  exact ⟨next, found, rfl⟩

/-- A rule name goes on with no pattern. -/
theorem SpellsName.follows {text start rest : List Char} {name : String}
    (named : SpellsName start name rest) (before : Trivia text start) :
    Follows 0 text ∧ (skipTrivia text).head? ≠ some '|' := by
  rcases named.visible with ⟨first, after, rfl, starts, visible⟩
  have left := before.skipTrivia_eq.trans visible
  have other : forall sign : Char, isNameStart sign = false -> first ≠ sign := by
    rintro sign stays rfl
    rw [starts] at stays
    cases stays
  refine ⟨.of_skipTrivia left (other _ rfl) (fun _ => other _ rfl) (fun _ => other _ rfl), ?_⟩
  rw [left]
  exact fun same => other '|' rfl (Option.some.inj same)

/-- What comes behind a rule definition goes on with no pattern. -/
theorem SpellsRules.follows {text : List Char} {rules : List Rule}
    (spelled : SpellsRules text rules) :
    Follows 0 text ∧ (skipTrivia text).head? ≠ some '|' := by
  cases spelled with
  | none ended =>
      have left : skipTrivia text = [] := ended.skipTrivia_eq
      refine ⟨.of_end left, ?_⟩
      rw [left]
      exact fun same => by cases same
  | rule before named _ _ _ => exact named.follows before

theorem ruleDefinition_gives {limit : Nat} {start middle behind rest : List Char} {name : String}
    {spelt : Pattern} (named : SpellsName start name middle)
    (arrow : Trivia middle ('<' :: '-' :: behind)) (spelled : SpellsPattern 0 behind spelt rest)
    (bounded : spelt.height ≤ limit) (follows : Follows 0 rest)
    (ends : (skipTrivia rest).head? ≠ some '|') :
    Gives (ruleDefinition (pattern limit) start) ⟨name, spelt⟩ (skipTrivia rest) := by
  rcases name?_of_spells named with ⟨first, found, rfl, rfl⟩
  rcases pair?_of_skipTrivia arrow.skipTrivia_eq with ⟨sign, pointed, rfl⟩
  rcases pattern_gives spelled bounded follows ends with ⟨body, read, value, same⟩
  refine ⟨(first.behind (sign.behind body)).map fun measured =>
    ⟨first.value, measured.pattern⟩, ?_, ?_, same⟩
  · rw [ruleDefinition, found]
    simp only [pointed, read]
  · change Rule.mk first.value body.value.pattern = _
    rw [value]

theorem spells_of_ruleDefinition {limit : Nat} (positive : 0 < limit) {text : List Char}
    {reading : Reading Rule text} (read : ruleDefinition (pattern limit) text = .ok reading) :
    Exists fun middle => Exists fun behind => Exists fun rest =>
      SpellsName text reading.value.name middle ∧ Trivia middle ('<' :: '-' :: behind) ∧
        SpellsPattern 0 behind reading.value.pattern rest ∧ Trivia rest reading.rest ∧
          reading.value.pattern.height ≤ limit := by
  rw [ruleDefinition] at read
  rcases name?_cases text with ⟨name, found, named⟩ | ⟨absent, _⟩
  · rw [found] at read
    dsimp only at read
    split at read
    · cases read
    · next arrow pointed =>
        split at read
        · cases read
        · next body bodyRead =>
            cases read
            have bodyReads := ReadsLevel.pattern positive bodyRead
            rcases bodyReads.spelled with ⟨rest, spelled, trivia⟩
            refine ⟨name.rest, arrow.rest, rest, named, trivia_of_pair? pointed, spelled, trivia, ?_⟩
            exact bodyReads.measured ▸ bodyReads.bounded
  · rw [absent] at read
    cases read

theorem spellsRules_of_ruleDefinitions {limit : Nat} (positive : 0 < limit) {text : List Char}
    {rules : List Rule} (read : ruleDefinitions (pattern limit) text = .ok rules) :
    SpellsRules text rules ∧ forall rule, rule ∈ rules -> rule.pattern.height ≤ limit := by
  fun_induction ruleDefinitions (pattern limit) text generalizing rules with
  | case1 text absent =>
      cases read
      have trivia := trivia_skipTrivia text
      rw [next?_eq_none_iff.mp absent] at trivia
      exact ⟨.none trivia, fun rule listed => absurd listed List.not_mem_nil⟩
  | case4 text next found rule ruleRead others othersRead inductionHypothesis =>
      cases read
      rcases inductionHypothesis othersRead with ⟨othersSpelled, othersBounded⟩
      rcases spells_of_ruleDefinition positive ruleRead with
        ⟨middle, behind, rest, named, arrow, spelled, trivia, bounded⟩
      constructor
      · exact .rule (trivia_of_next? found) named arrow spelled (othersSpelled.behind_trivia trivia)
      · intro other listed
        rcases List.mem_cons.mp listed with rfl | listed
        · exact bounded
        · exact othersBounded other listed
  | _ => cases read

theorem ruleDefinitions_of_spells {limit : Nat} {text : List Char} {rules : List Rule}
    (spelled : SpellsRules text rules)
    (bounded : forall rule, rule ∈ rules -> rule.pattern.height ≤ limit) :
    forall start, skipTrivia start = skipTrivia text ->
      ruleDefinitions (pattern limit) start = .ok rules := by
  induction spelled with
  | none ended =>
      intro start same
      rw [ruleDefinitions, next?_eq_none_iff.mpr (same.trans ended.skipTrivia_eq)]
  | rule before named arrow body others inductionHypothesis =>
      intro start same
      rcases named.next?_eq (same.trans before.skipTrivia_eq) with ⟨next, found, rfl⟩
      rcases others.follows with ⟨follows, ends⟩
      rcases ruleDefinition_gives named arrow body (bounded _ List.mem_cons_self) follows ends with
        ⟨reading, read, value, behind⟩
      have othersRead := inductionHypothesis
        (fun rule listed => bounded rule (List.mem_cons_of_mem _ listed)) reading.rest
        (by rw [behind, skipTrivia_skipTrivia])
      rw [ruleDefinitions, found]
      simp only [read, othersRead, value]

/-- The rules are read off a text exactly if the text spells them and none of
them is too tall. -/
theorem ruleDefinitions_eq_ok {limit : Nat} (positive : 0 < limit) (text : List Char)
    (rules : List Rule) :
    ruleDefinitions (pattern limit) text = .ok rules <->
      SpellsRules text rules ∧ forall rule, rule ∈ rules -> rule.pattern.height ≤ limit :=
  ⟨spellsRules_of_ruleDefinitions positive,
    fun spelled => ruleDefinitions_of_spells spelled.1 spelled.2 text rfl⟩

/-- Some limit is high enough for all of the rules. -/
theorem exists_height (rules : List Rule) :
    Exists fun limit => forall rule, rule ∈ rules -> rule.pattern.height ≤ limit := by
  induction rules with
  | nil => exact ⟨0, fun rule listed => absurd listed List.not_mem_nil⟩
  | cons first rules inductionHypothesis =>
      rcases inductionHypothesis with ⟨limit, bounded⟩
      refine ⟨max first.pattern.height limit, fun rule listed => ?_⟩
      rcases List.mem_cons.mp listed with rfl | listed
      · exact Nat.le_max_left _ _
      · exact Nat.le_trans (bounded rule listed) (Nat.le_max_right _ _)

/-- A text spells the rules of one grammar at most. -/
theorem SpellsRules.unique {text : List Char} {one other : List Rule}
    (first : SpellsRules text one) (second : SpellsRules text other) : one = other := by
  rcases exists_height (one ++ other) with ⟨limit, bounded⟩
  have firstRead := ruleDefinitions_of_spells first
    (fun rule listed => bounded rule (List.mem_append_left _ listed)) text rfl
  have secondRead := ruleDefinitions_of_spells second
    (fun rule listed => bounded rule (List.mem_append_right _ listed)) text rfl
  rw [firstRead] at secondRead
  exact Except.ok.inj secondRead

/-! ## Single patterns -/

/-- The whole text is one pattern. -/
def SpellsWhole (text : List Char) (pattern : Pattern) : Prop :=
  Exists fun rest => SpellsPattern 0 text pattern rest ∧ Trivia rest []

/-- A pattern is read off a text exactly if the text spells it and it is not
too tall. -/
theorem wholePattern_eq_ok {limit : Nat} (positive : 0 < limit) (text : List Char)
    (spelt : Pattern) :
    wholePattern (pattern limit) text = .ok spelt <->
      SpellsWhole text spelt ∧ spelt.height ≤ limit := by
  rw [wholePattern]
  constructor
  · intro read
    split at read
    · cases read
    · next body bodyRead =>
        have bodyReads := ReadsLevel.pattern positive bodyRead
        rcases bodyReads.spelled with ⟨middle, spelled, trivia⟩
        split at read
        · next ended =>
            cases read
            have left := trivia_skipTrivia body.rest
            rw [next?_eq_none_iff.mp ended] at left
            exact ⟨⟨middle, spelled, trivia.trans left⟩, bodyReads.measured ▸ bodyReads.bounded⟩
        · cases read
  · rintro ⟨⟨rest, spelled, ended⟩, bounded⟩
    have left : skipTrivia rest = [] := ended.skipTrivia_eq
    have ends : (skipTrivia rest).head? ≠ some '|' := by
      rw [left]
      exact fun same => by cases same
    rcases pattern_gives spelled bounded (.of_end left) ends with ⟨body, read, value, same⟩
    have nothing : next? body.rest = none := by
      rw [next?_eq_none_iff, same, left]
      rfl
    simp only [read, nothing, value]

/-- A text spells one pattern at most. -/
theorem SpellsWhole.unique {text : List Char} {one other : Pattern} (first : SpellsWhole text one)
    (second : SpellsWhole text other) : one = other := by
  have positive : 0 < max one.height other.height :=
    Nat.lt_of_lt_of_le (height_pos one) (Nat.le_max_left _ _)
  have firstRead := (wholePattern_eq_ok positive text one).mpr ⟨first, Nat.le_max_left _ _⟩
  have secondRead := (wholePattern_eq_ok positive text other).mpr ⟨second, Nat.le_max_right _ _⟩
  rw [firstRead] at secondRead
  exact Except.ok.inj secondRead

/-! ## Entry points -/

section Reported

variable {α β : Type} {text : List Char} {make : α -> β} {result : Except Fault α}

theorem reported_eq_ok_iff {made : β} :
    reported text make result = .ok made <->
      Exists fun value => result = .ok value ∧ make value = made := by
  cases result with
  | ok value => simp only [reported, Except.ok.injEq, exists_eq_left']
  | error fault => exact iff_of_false nofun (fun ⟨_, absent, _⟩ => nomatch absent)

theorem reported_eq_error_iff {report : Report} :
    reported text make result = .error report <->
      Exists fun fault => result = .error fault ∧ Report.ofFault text fault = report := by
  cases result with
  | ok value => exact iff_of_false nofun (fun ⟨_, absent, _⟩ => nomatch absent)
  | error fault => simp only [reported, Except.error.injEq, exists_eq_left']

end Reported

end Reader

open Reader

theorem Grammar.ofText_eq_ok {text : String} {grammar : Grammar} :
    Grammar.ofText text = .ok grammar <->
      ruleDefinitions (pattern heightLimit) text.toList = .ok grammar.rules := by
  rw [Grammar.ofText, grammarBy, reported_eq_ok_iff]
  constructor
  · rintro ⟨rules, read, rfl⟩
    exact read
  · intro read
    exact ⟨grammar.rules, read, rfl⟩

theorem Grammar.ofText_eq_error {text : String} {report : Report} :
    Grammar.ofText text = .error report <->
      Exists fun fault => ruleDefinitions (pattern heightLimit) text.toList = .error fault ∧
        Report.ofFault text.toList fault = report := reported_eq_error_iff

/-- A text from which a grammar was read spells it, and no pattern in it is too
tall. -/
theorem Grammar.spells_of_ofText {text : String} {grammar : Grammar}
    (read : Grammar.ofText text = .ok grammar) :
    SpellsRules text.toList grammar.rules ∧
      forall rule, rule ∈ grammar.rules -> rule.pattern.height ≤ heightLimit :=
  (ruleDefinitions_eq_ok (by decide) _ _).mp (Grammar.ofText_eq_ok.mp read)

theorem Pattern.ofText_eq_ok {text : String} {whole : Pattern} :
    Pattern.ofText text = .ok whole <->
      wholePattern (pattern heightLimit) text.toList = .ok whole := by
  rw [Pattern.ofText, patternBy, reported_eq_ok_iff]
  exact exists_eq_right

theorem Pattern.ofText_eq_error {text : String} {report : Report} :
    Pattern.ofText text = .error report <->
      Exists fun fault => wholePattern (pattern heightLimit) text.toList = .error fault ∧
        Report.ofFault text.toList fault = report := reported_eq_error_iff

/-- A text is read as a grammar exactly if it spells the grammar and every
pattern in it is within the limit of height. -/
theorem Grammar.ofText_eq_ok_iff_spells (text : String) (grammar : Grammar) :
    Grammar.ofText text = .ok grammar <->
      Reader.SpellsRules text.toList grammar.rules ∧
        forall rule, rule ∈ grammar.rules -> rule.pattern.height ≤ Reader.heightLimit :=
  Grammar.ofText_eq_ok.trans (Reader.ruleDefinitions_eq_ok (by decide) _ _)

end ParsingMachine
