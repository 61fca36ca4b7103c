import ParsingMachine.Proofs.Reader.Writing

namespace ParsingMachine

open Reader

/-!
# What was read is written and read again

Writing puts parentheses around a repetition that stands directly inside
another repetition, although the syntax has repetition bounds one behind the
other without them.  Such parentheses are a group when they are read again.
There is no other place where a tree that was read gets parentheses that it
did not have, so every other tree comes back as it was.
-/

namespace Pattern

/-- Whether a pattern is a repetition with bounds. -/
def isRepeated : Pattern -> Bool
  | repeated _ _ _ => true
  | _ => false

/-- Whether somewhere in a pattern a repetition with bounds stands directly
inside another one. -/
def stacksRepetitions : Pattern -> Bool
  | repeated inner _ _ => inner.isRepeated || inner.stacksRepetitions
  | group inner | not inner | optional inner | zeroOrMore inner | oneOrMore inner =>
      inner.stacksRepetitions
  | choice first second | sequence first second =>
      first.stacksRepetitions || second.stacksRepetitions
  | rule _ | char _ | literal _ | literalAnyCase _ | any | charClass _ => false

variable {pattern : Pattern}

theorem grouped_of_le {required : Nat} (binds : required ≤ pattern.binding) (inner : Pattern) :
    pattern.grouped required inner = inner :=
  if_neg (Nat.not_lt.mpr binds)

/-- A pattern that binds tightly enough for a place comes back there as it does
anywhere else. -/
theorem regrouped_of_le {required : Nat} (binds : required ≤ pattern.binding) :
    pattern.regrouped required = pattern.regrouped 0 := by
  have loose := Nat.zero_le pattern.binding
  cases pattern <;>
    first
      | rfl
      | rw [regrouped, regrouped, grouped_of_le binds, grouped_of_le loose]

/-- A pattern that comes back as it was binds tightly enough for its place. -/
theorem binds_of_regrouped_eq {required : Nat} (possible : required ≤ 4)
    (same : pattern.regrouped required = pattern) : required ≤ pattern.binding := by
  rcases Nat.lt_or_ge pattern.binding required with loose | binds
  · have wrapped : Exists fun inner => pattern.regrouped required = group inner := by
      cases pattern <;>
        first
          | exact ⟨_, if_pos loose⟩
          | exact absurd possible (Nat.not_le.mpr loose)
    rcases wrapped with ⟨inner, isGroup⟩
    rw [same] at isGroup
    rw [isGroup] at loose
    exact absurd possible (Nat.not_le.mpr loose)
  · exact binds

theorem regrouped_zero_eq {required : Nat} (possible : required ≤ 4)
    (same : pattern.regrouped required = pattern) : pattern.regrouped 0 = pattern := by
  rw [← regrouped_of_le (binds_of_regrouped_eq possible same)]
  exact same

/-- What binds as tightly as a repetition and is none binds more tightly. -/
theorem tight_of_not_repeated (binds : 3 ≤ pattern.binding) (single : pattern.isRepeated = false) :
    4 ≤ pattern.binding := by
  cases pattern with
  | repeated inner least most => cases single
  | choice _ _ | sequence _ _ | not _ | optional _ | zeroOrMore _ | oneOrMore _ =>
      rw [binding] at binds
      exact absurd binds (by decide)
  | _ => exact Nat.le_refl 4

/-- Only patterns without stacked repetitions come back as they were. -/
theorem not_stacks_of_regrouped_eq (same : pattern.regrouped 0 = pattern) :
    pattern.stacksRepetitions = false := by
  induction pattern with
  | choice first second firstHypothesis secondHypothesis
  | sequence first second firstHypothesis secondHypothesis =>
      rw [regrouped, grouped_of_le (Nat.zero_le _)] at same
      injection same with left right
      rw [stacksRepetitions, firstHypothesis (regrouped_zero_eq (by decide) left),
        secondHypothesis (regrouped_zero_eq (by decide) right)]
      rfl
  | not inner inductionHypothesis | optional inner inductionHypothesis
  | zeroOrMore inner inductionHypothesis | oneOrMore inner inductionHypothesis =>
      rw [regrouped, grouped_of_le (Nat.zero_le _)] at same
      injection same with inside
      exact inductionHypothesis (regrouped_zero_eq (by decide) inside)
  | repeated inner least most inductionHypothesis =>
      rw [regrouped, grouped_of_le (Nat.zero_le _)] at same
      injection same with inside
      have tight : inner.isRepeated = false := by
        have binds := binds_of_regrouped_eq (by decide) inside
        cases inner with
        | repeated inner least most => exact absurd binds (Nat.not_succ_le_self 3)
        | _ => rfl
      rw [stacksRepetitions, tight, inductionHypothesis (regrouped_zero_eq (by decide) inside)]
      rfl
  | group inner inductionHypothesis =>
      injection same with inside
      exact inductionHypothesis inside
  | _ => rfl

end Pattern

/-! ## Trees that were read -/

namespace Reader

/-- What is spelled at a level binds as tightly as the level asks. -/
theorem SpellsPattern.binds {level : Nat} {text rest : List Char} {pattern : Pattern}
    (spelled : SpellsPattern level text pattern rest) : level ≤ pattern.binding := by
  induction spelled with
  | tighter _ inductionHypothesis => exact Nat.le_of_succ_le inductionHypothesis
  | choice _ _ _ _ _ => exact Nat.le_refl 0
  | sequence _ _ _ _ _ => exact Nat.le_refl 1
  | unary _ isOperator _ _ =>
      rcases unaryOperator?_cases isOperator with ⟨_, rfl⟩ | ⟨_, rfl⟩ | ⟨_, rfl⟩ | ⟨_, rfl⟩ <;>
        exact Nat.le_refl 2
  | repeated _ _ _ _ => exact Nat.le_refl 3
  | group _ _ _ _ => exact Nat.le_refl 4
  | atom _ spelled => cases spelled <;> exact Nat.le_refl 4

/-- A pattern that is spelled comes back as it was, unless it stacks
repetitions. -/
theorem SpellsPattern.regrouped_eq {level : Nat} {text rest : List Char} {pattern : Pattern}
    (spelled : SpellsPattern level text pattern rest)
    (flat : pattern.stacksRepetitions = false) : pattern.regrouped 0 = pattern := by
  induction spelled with
  | tighter _ inductionHypothesis => exact inductionHypothesis flat
  | choice first _ second firstHypothesis secondHypothesis =>
      rw [Pattern.stacksRepetitions, Bool.or_eq_false_iff] at flat
      rw [Pattern.regrouped, Pattern.grouped_of_le (Nat.zero_le _), firstHypothesis flat.1,
        Pattern.regrouped_of_le second.binds, secondHypothesis flat.2]
  | sequence first _ second firstHypothesis secondHypothesis =>
      rw [Pattern.stacksRepetitions, Bool.or_eq_false_iff] at flat
      rw [Pattern.regrouped, Pattern.grouped_of_le (Nat.zero_le _),
        Pattern.regrouped_of_le first.binds, firstHypothesis flat.1,
        Pattern.regrouped_of_le second.binds, secondHypothesis flat.2]
  | unary _ isOperator inner inductionHypothesis =>
      rcases unaryOperator?_cases isOperator with ⟨_, rfl⟩ | ⟨_, rfl⟩ | ⟨_, rfl⟩ | ⟨_, rfl⟩ <;>
        rw [Pattern.regrouped, Pattern.grouped_of_le (Nat.zero_le _),
          Pattern.regrouped_of_le inner.binds, inductionHypothesis flat]
  | repeated inner _ _ inductionHypothesis =>
      rw [Pattern.stacksRepetitions, Bool.or_eq_false_iff] at flat
      rw [Pattern.regrouped, Pattern.grouped_of_le (Nat.zero_le _),
        Pattern.regrouped_of_le (Pattern.tight_of_not_repeated inner.binds flat.1),
        inductionHypothesis flat.2]
  | group _ _ _ inductionHypothesis =>
      rw [Pattern.regrouped, inductionHypothesis flat]
  | atom _ spelled => cases spelled <;> rfl

theorem SpellsName.isName {text rest : List Char} {name : String}
    (spelled : SpellsName text name rest) : IsName name := by
  cases spelled with
  | name starts parts _ => exact ⟨_, _, rfl, starts, parts⟩

theorem SpellsPattern.named {level : Nat} {text rest : List Char} {pattern : Pattern}
    (spelled : SpellsPattern level text pattern rest) :
    forall name, name ∈ pattern.references -> IsName name := by
  induction spelled with
  | tighter _ inductionHypothesis => exact inductionHypothesis
  | choice _ _ _ firstHypothesis secondHypothesis
  | sequence _ _ _ firstHypothesis secondHypothesis =>
      intro name listed
      rcases List.mem_append.mp listed with listed | listed
      · exact firstHypothesis name listed
      · exact secondHypothesis name listed
  | unary _ isOperator _ inductionHypothesis =>
      rcases unaryOperator?_cases isOperator with ⟨_, rfl⟩ | ⟨_, rfl⟩ | ⟨_, rfl⟩ | ⟨_, rfl⟩ <;>
        exact inductionHypothesis
  | repeated _ _ _ inductionHypothesis => exact inductionHypothesis
  | group _ _ _ inductionHypothesis => exact inductionHypothesis
  | atom _ spelled =>
      intro name listed
      cases spelled with
      | rule named =>
          rcases List.mem_singleton.mp listed with rfl
          exact named.isName
      | _ => cases listed

theorem SpellsRules.named {text : List Char} {rules : List Rule}
    (spelled : SpellsRules text rules) : forall rule, rule ∈ rules -> rule.IsNamed := by
  induction spelled with
  | none _ => exact fun rule listed => absurd listed List.not_mem_nil
  | rule _ named _ body _ inductionHypothesis =>
      intro other listed
      rcases List.mem_cons.mp listed with rfl | listed
      · exact ⟨named.isName, body.named⟩
      · exact inductionHypothesis other listed

/-- The patterns of rules that are spelled come back as they were, unless one
of them stacks repetitions. -/
theorem SpellsRules.regrouped_eq_iff {text : List Char} {rules : List Rule}
    (spelled : SpellsRules text rules) :
    rules.map Rule.regrouped = rules <->
      forall rule, rule ∈ rules -> rule.pattern.stacksRepetitions = false := by
  induction spelled with
  | none _ => exact ⟨fun _ rule listed => absurd listed List.not_mem_nil, fun _ => rfl⟩
  | rule _ _ _ body _ inductionHypothesis =>
      rw [List.map_cons, List.cons.injEq, inductionHypothesis, List.forall_mem_cons]
      refine and_congr_left fun _ => ⟨fun same => ?_, fun flat => ?_⟩
      · exact Pattern.not_stacks_of_regrouped_eq (congrArg Rule.pattern same)
      · rw [Rule.regrouped, body.regrouped_eq flat]

end Reader

/-! ## Round trips -/

/-- A grammar that was read and written is read again as it was exactly if none
of its patterns stacks repetitions, and so is a single pattern.  In one that
does, a pair of parentheses is added. -/
theorem Reader.ofText_toText_iff (text : String) :
    (forall grammar, Grammar.ofText text = .ok grammar ->
      (Grammar.ofText grammar.toText = .ok grammar <->
        forall rule, rule ∈ grammar.rules -> rule.pattern.stacksRepetitions = false)) ∧
    forall pattern, Pattern.ofText text = .ok pattern ->
      (Pattern.ofText pattern.toText = .ok pattern <-> pattern.stacksRepetitions = false) := by
  have positive : 0 < heightLimit := by decide
  constructor
  · intro grammar read
    rcases (ruleDefinitions_eq_ok positive _ _).mp (Grammar.ofText_eq_ok.mp read) with
      ⟨spelled, bounded⟩
    have written := spellsRules_written grammar.rules spelled.named
    rw [Grammar.ofText_eq_ok, ruleDefinitions_eq_ok positive, Grammar.toText, String.toList_ofList,
      ← spelled.regrouped_eq_iff]
    constructor
    · rintro ⟨again, _⟩
      exact written.unique again
    · intro same
      rw [same] at written
      exact ⟨written, bounded⟩
  · intro pattern read
    rcases (wholePattern_eq_ok positive _ _).mp (Pattern.ofText_eq_ok.mp read) with
      ⟨⟨rest, spelled, _⟩, bounded⟩
    have written := spellsWhole_written pattern spelled.named
    rw [Pattern.ofText_eq_ok, wholePattern_eq_ok positive]
    constructor
    · rintro ⟨again, _⟩
      exact Pattern.not_stacks_of_regrouped_eq (written.unique again)
    · intro flat
      rw [spelled.regrouped_eq flat] at written
      exact ⟨written, bounded⟩

/-- Six times the same character, as three times two. -/
def stackedRepetition : Pattern :=
  .repeated (.repeated (.char 'x') 2 2) 3 3

private theorem spells_stackedRepetition :
    SpellsPattern 0 "'x'{2}{3}".toList stackedRepetition [] := by
  have atom : SpellsPattern 4 "'x'{2}{3}".toList (.char 'x') "{2}{3}".toList :=
    .atom (.nothing _) (.char (.raw (by decide) (by decide) (by decide) .close))
  have twice : SpellsPattern 3 "'x'{2}{3}".toList (.repeated (.char 'x') 2 2) "{3}".toList :=
    .repeated (.tighter atom) (.nothing _) (.same (spellsCount_written 2) (.nothing _))
  have stacked : SpellsPattern 3 "'x'{2}{3}".toList stackedRepetition [] :=
    .repeated twice (.nothing _) (.same (spellsCount_written 3) (.nothing _))
  exact .tighter (.tighter (.tighter stacked))

/-- A repetition of a repetition is read without parentheses, but does not come
back without them. -/
theorem stackedRepetition_not_read_back :
    (Grammar.ofText "a <- 'x'{2}{3}" = .ok ⟨[⟨"a", stackedRepetition⟩]⟩ ∧
      Grammar.ofText (Grammar.mk [⟨"a", stackedRepetition⟩]).toText ≠
        .ok ⟨[⟨"a", stackedRepetition⟩]⟩) ∧
    Pattern.ofText "'x'{2}{3}" = .ok stackedRepetition ∧
      Pattern.ofText stackedRepetition.toText ≠ .ok stackedRepetition := by
  have stacked : stackedRepetition.stacksRepetitions ≠ false := by decide
  have low : stackedRepetition.height ≤ heightLimit := by decide
  have name : SpellsName "a <- 'x'{2}{3}".toList "a" " <- 'x'{2}{3}".toList :=
    .name rfl (fun _ inside => absurd inside List.not_mem_nil)
      (fun _ behind => Option.some.inj behind ▸ rfl)
  have arrow : Trivia " <- 'x'{2}{3}".toList "<- 'x'{2}{3}".toList := .blank rfl (.nothing _)
  have blank : Trivia " 'x'{2}{3}".toList "'x'{2}{3}".toList := .blank rfl (.nothing _)
  have spelledRules : SpellsRules "a <- 'x'{2}{3}".toList [⟨"a", stackedRepetition⟩] :=
    .rule (.nothing _) name arrow (spells_stackedRepetition.behind_trivia blank)
      (.none (.nothing []))
  have grammar : Grammar.ofText "a <- 'x'{2}{3}" = .ok ⟨[⟨"a", stackedRepetition⟩]⟩ := by
    refine Grammar.ofText_eq_ok.mpr ((ruleDefinitions_eq_ok (by decide) _ _).mpr ⟨spelledRules, ?_⟩)
    intro rule listed
    rw [List.mem_singleton.mp listed]
    exact low
  have pattern : Pattern.ofText "'x'{2}{3}" = .ok stackedRepetition :=
    Pattern.ofText_eq_ok.mpr ((wholePattern_eq_ok (by decide) _ _).mpr
      ⟨⟨[], spells_stackedRepetition, .nothing _⟩, low⟩)
  refine ⟨⟨grammar, fun again => stacked ?_⟩, pattern, fun again => stacked ?_⟩
  · exact ((Reader.ofText_toText_iff _).1 _ grammar).mp again _ List.mem_cons_self
  · exact ((Reader.ofText_toText_iff _).2 _ pattern).mp again

end ParsingMachine
