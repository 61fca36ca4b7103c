import ParsingMachine.Proofs.Reader.Lookahead
import ParsingMachine.Proofs.Reader.Unlimited
import ParsingMachine.Proofs.Text.Utf8

namespace ParsingMachine
namespace Reader

/-!
# What the limit of height refuses

The limit is kept by two counts, one on the way down and one on the way up.
Together they refuse the texts whose patterns are too tall and no others; the
report of any other fault is the report that there would be without them.

The count on the way down is what keeps a reader from nesting without end.
When as many groups and unary operators are open as the limit allows, the next
one is refused before anything behind it is looked at.  What has been read
until then is described by the syntax: operands that are complete, with the
operators between them, and signs that open something.
-/

/-! ## The way down -/

/-- The reader of a level of the syntax, with so many levels left for groups and
unary operators to open. -/
def readerAt (limit levels : Nat) : (level : Nat) -> Reader Measured
  | 0 => expression limit (operand limit levels)
  | 1 => joined limit '*' .sequence (operand limit levels)
  | _ => operand limit levels

/-- The sign of a group or of a unary operator. -/
def IsOpening (sign : Char) : Prop :=
  sign = '(' ∨ (unaryOperator? sign).isSome = true

/-- A reader that has so many levels left at the beginning of a text comes to a
place where it has none left and an operand is due.  It has opened a group or a
unary operator for each level, and has read what stands between them. -/
inductive Descends (limit : Nat) : (levels level : Nat) -> (text place : List Char) -> Prop where
  | here {text place} : Trivia text place -> Descends limit 0 2 text place
  | tighter {levels level text place} :
      Descends limit levels (level + 1) text place -> Descends limit levels level text place
  | choice {levels text first middle behind place} :
      SpellsPattern 0 text first middle -> first.height ≤ limit -> nesting first ≤ levels ->
      Trivia middle ('|' :: behind) -> Descends limit levels 1 behind place ->
      Descends limit levels 0 text place
  | sequence {levels text first middle behind place} :
      SpellsPattern 1 text first middle -> first.height ≤ limit -> nesting first ≤ levels ->
      Trivia middle ('*' :: behind) -> Descends limit levels 2 behind place ->
      Descends limit levels 1 text place
  | unary {levels text sign behind apply place} :
      Trivia text (sign :: behind) -> unaryOperator? sign = some apply ->
      Descends limit levels 2 behind place -> Descends limit (levels + 1) 2 text place
  | group {levels text behind place} :
      Trivia text ('(' :: behind) -> Descends limit levels 0 behind place ->
      Descends limit (levels + 1) 2 text place

/-- A reader of grammars comes to such a place in one of the rules. -/
inductive RulesDescend (limit : Nat) : (text place : List Char) -> Prop where
  | here {text start name middle behind place} :
      Trivia text start -> SpellsName start name middle -> Trivia middle ('<' :: '-' :: behind) ->
      Descends limit limit 0 behind place -> RulesDescend limit text place
  | later {text start name middle behind pattern rest place} :
      Trivia text start -> SpellsName start name middle -> Trivia middle ('<' :: '-' :: behind) ->
      SpellsPattern 0 behind pattern rest -> pattern.height ≤ limit ->
      RulesDescend limit rest place -> RulesDescend limit text place

/-- The height that comes with a pattern is its height. -/
def Measures (reader : Reader Measured) : Prop :=
  forall text reading, reader text = .ok reading ->
    reading.value.height = reading.value.pattern.height

namespace IsOpening

variable {sign : Char}

theorem utf8Size (opening : IsOpening sign) : sign.utf8Size = 1 := by
  rcases opening with rfl | isOperator
  · rfl
  · rcases Option.isSome_iff_exists.mp isOperator with ⟨apply, isOperator⟩
    rcases unaryOperator?_cases isOperator with ⟨rfl, _⟩ | ⟨rfl, _⟩ | ⟨rfl, _⟩ | ⟨rfl, _⟩ <;> rfl

theorem visible (opening : IsOpening sign) {after : List Char} :
    skipTrivia (sign :: after) = sign :: after := by
  rcases opening with rfl | isOperator
  · rfl
  · rcases Option.isSome_iff_exists.mp isOperator with ⟨apply, isOperator⟩
    exact skipTrivia_of_unaryOperator? isOperator

/-- With no level left, nothing behind the sign is looked at. -/
theorem refused (opening : IsOpening sign) {limit : Nat} {text after : List Char}
    (next : skipTrivia text = sign :: after) :
    operand limit 0 text = .error ⟨.tooDeep limit, sign :: after, after⟩ := by
  rcases next?_of_skipTrivia next with ⟨first, found, rfl, rfl⟩
  rw [operand, operandAt, found]
  rcases opening with group | isOperator
  · have noOperator : unaryOperator? first.value = none := by
      rw [group]
      rfl
    simp only [noOperator, repeatable, primary, if_pos group]
  · rcases Option.isSome_iff_exists.mp isOperator with ⟨apply, isOperator⟩
    simp only [isOperator, Reading.here]

end IsOpening

section Descents

variable {limit levels level : Nat} {text place after : List Char} {sign : Char}

theorem chain_fails {operator : Char} {join : Pattern -> Pattern -> Pattern}
    {operand : Reader Measured} {left : Reading Measured text} {first : Pattern}
    {middle behind : List Char} {fault : Fault} (leftRead : HasRead left first middle)
    (next : skipTrivia middle = operator :: behind) (failed : operand behind = .error fault) :
    chain limit operator join operand left = .error fault := by
  rcases sign?_of_skipTrivia (leftRead.2.trans next) with ⟨sign, found, rfl⟩
  rw [chain, found]
  simp only [failed]

theorem readerAt_measures (positive : 0 < limit) (levels level : Nat) :
    Measures (readerAt limit levels level) := by
  have operands : ReadsLevel limit 2 (operand limit levels) := ReadsLevel.operand positive levels
  intro text reading read
  match level with
  | 0 => exact (ReadsLevel.expression operands read).measured
  | 1 => exact (ReadsLevel.joined infixAt_sequence operands read).measured
  | _ + 2 => exact (operands read).measured

theorem readerAt_fails {fault : Fault}
    (failed : readerAt limit levels (level + 1) text = .error fault) :
    readerAt limit levels level text = .error fault := by
  match level with
  | 0 =>
      change joined limit '|' .choice (readerAt limit levels 1) text = .error fault
      rw [joined, failed]
  | 1 =>
      change joined limit '*' .sequence (readerAt limit levels 2) text = .error fault
      rw [joined, failed]
  | _ + 2 => exact failed

/-- The next group or unary operator at such a place is refused. -/
theorem Descends.fails (descends : Descends limit levels level text place)
    (next : skipTrivia place = sign :: after) (opening : IsOpening sign) :
    readerAt limit levels level text = .error ⟨.tooDeep limit, sign :: after, after⟩ := by
  induction descends with
  | here trivia => exact opening.refused (trivia.skipTrivia_eq.trans next)
  | tighter _ inductionHypothesis => exact readerAt_fails (inductionHypothesis next)
  | choice spelled bounded nested operator _ inductionHypothesis =>
      have behind := operator.skipTrivia_eq
      rcases spelled.accepted bounded _ nested
        (.of_skipTrivia behind (by decide) (fun _ => by decide) (fun _ => by decide)) with
        ⟨left, read, leftRead⟩
      exact read.trans (chain_fails leftRead behind (inductionHypothesis next))
  | sequence spelled bounded nested operator _ inductionHypothesis =>
      have behind := operator.skipTrivia_eq
      rcases spelled.accepted bounded _ nested
        (.of_skipTrivia behind (by decide) (fun _ => by decide) (fun zero => by cases zero)) with
        ⟨left, read, leftRead⟩
      exact read.trans (chain_fails leftRead behind (inductionHypothesis next))
  | unary before isOperator _ inductionHypothesis =>
      have failed := inductionHypothesis next
      rcases next?_of_skipTrivia (before.skipTrivia_eq.trans
        (skipTrivia_of_unaryOperator? isOperator)) with ⟨first, found, rfl, rfl⟩
      change operandAt limit (.ok (readerAt limit _ 2)) _ = _
      rw [operandAt, found]
      simp only [isOperator, Reader.unary, failed]
  | group before _ inductionHypothesis =>
      have failed : expression limit (operand limit _) _ = _ := inductionHypothesis next
      have left : skipTrivia _ = '(' :: _ := before.skipTrivia_eq
      rcases next?_of_skipTrivia left with ⟨first, found, opens, rfl⟩
      have noOperator : unaryOperator? '(' = none := rfl
      change operandAt limit (.ok (operand limit _)) _ = _
      rw [operandAt, found]
      simp only [opens, noOperator, repeatable, primary, if_pos, groupBody, failed]

theorem RulesDescend.follows (descends : RulesDescend limit text place) :
    Follows 0 text ∧ (skipTrivia text).head? ≠ some '|' := by
  cases descends with
  | here before named _ _ | later before named _ _ _ _ => exact named.follows before

/-- So it is refused in a grammar. -/
theorem RulesDescend.fails (descends : RulesDescend limit text place)
    (next : skipTrivia place = sign :: after) (opening : IsOpening sign) :
    forall start, skipTrivia start = skipTrivia text ->
      ruleDefinitions (pattern limit) start = .error ⟨.tooDeep limit, sign :: after, after⟩ := by
  induction descends with
  | here before named arrow body =>
      intro start same
      rcases named.next?_eq (same.trans before.skipTrivia_eq) with ⟨head, found, rfl⟩
      rcases name?_of_spells named with ⟨name, called, rfl, rfl⟩
      rcases pair?_of_skipTrivia arrow.skipTrivia_eq with ⟨pointer, pointed, rfl⟩
      have failed : pattern limit pointer.rest = _ := body.fails next opening
      rw [ruleDefinitions, found]
      simp only [ruleDefinition, called, pointed, failed]
  | later before named arrow spelled bounded others inductionHypothesis =>
      intro start same
      rcases named.next?_eq (same.trans before.skipTrivia_eq) with ⟨head, found, rfl⟩
      rcases others.follows with ⟨follows, ends⟩
      rcases ruleDefinition_gives named arrow spelled bounded follows ends with
        ⟨reading, read, value, left⟩
      have failed := inductionHypothesis next reading.rest (by rw [left, skipTrivia_skipTrivia])
      rw [ruleDefinitions, found]
      simp only [read, failed]

/-! ## Whatever comes behind -/

theorem Descends.oneAhead (descends : Descends limit levels level text place) :
    OneAhead (Descends limit levels level) text place := by
  induction descends with
  | here trivia => exact trivia.oneAhead.imp .here
  | tighter _ inductionHypothesis => exact inductionHypothesis.imp .tighter
  | choice spelled bounded nested operator _ inductionHypothesis =>
      exact (spelled.oneAhead.comp (operator.oneAhead_sign.comp inductionHypothesis)).imp
        fun ⟨_, spelled, _, operator, second⟩ => .choice spelled bounded nested operator second
  | sequence spelled bounded nested operator _ inductionHypothesis =>
      exact (spelled.oneAhead.comp (operator.oneAhead_sign.comp inductionHypothesis)).imp
        fun ⟨_, spelled, _, operator, second⟩ => .sequence spelled bounded nested operator second
  | unary before isOperator _ inductionHypothesis =>
      exact (before.oneAhead_sign.comp inductionHypothesis).imp
        fun ⟨_, before, inner⟩ => .unary before isOperator inner
  | group before _ inductionHypothesis =>
      exact (before.oneAhead_sign.comp inductionHypothesis).imp
        fun ⟨_, before, inner⟩ => .group before inner

theorem RulesDescend.oneAhead (descends : RulesDescend limit text place) :
    OneAhead (RulesDescend limit) text place := by
  induction descends with
  | here before named arrow body =>
      exact (before.oneAhead.comp (named.oneAhead.comp
        (arrow.oneAhead_pair.comp body.oneAhead))).imp
        fun ⟨_, before, _, named, _, arrow, body⟩ => .here before named arrow body
  | later before named arrow body bounded _ inductionHypothesis =>
      exact (before.oneAhead.comp (named.oneAhead.comp (arrow.oneAhead_pair.comp
        (body.oneAhead.comp inductionHypothesis)))).imp
        fun ⟨_, before, _, named, _, arrow, _, body, others⟩ =>
          .later before named arrow body bounded others

end Descents

/-- Opening the same group or unary operator again and again. -/
theorem descends_replicate {sign : Char} (opening : IsOpening sign) (limit levels : Nat)
    (place : List Char) : Descends limit levels 2 (List.replicate levels sign ++ place) place := by
  induction levels with
  | zero => exact .here (.nothing place)
  | succ levels inductionHypothesis =>
      rcases opening with rfl | isOperator
      · exact .group (.nothing _) (.tighter (.tighter inductionHypothesis))
      · rcases Option.isSome_iff_exists.mp isOperator with ⟨apply, isOperator⟩
        exact .unary (.nothing _) isOperator inductionHypothesis

/-! ## Reports -/

/-- No pattern of the grammar is too tall. -/
def Fits (grammar : Grammar) : Prop :=
  forall rule, rule ∈ grammar.rules -> rule.pattern.height ≤ heightLimit

/-- Reading fails with the objection that a pattern is too tall. -/
def RefusesHeight {α : Type} (result : Except Report α) : Prop :=
  Exists fun report => result = .error report ∧ report.cause = .tooDeep heightLimit

/-- The limit refuses what does not fit and leaves what does.  A fault is
reported as it is without the limit, unless something in front of it is
refused. -/
structure OnlyRefuses {α : Type} (fits : α -> Prop) (limited unlimited : Except Report α) :
    Prop where
  fails : forall report, unlimited = .error report ->
    limited = .error report ∨ RefusesHeight limited
  reads : forall value, unlimited = .ok value -> fits value -> limited = .ok value
  refuses : forall value, unlimited = .ok value -> ¬ fits value -> RefusesHeight limited

theorem Confines.onlyRefuses {α β : Type} {tall : α -> Prop} {limited unlimited : Except Fault α}
    (confined : Confines heightLimit tall limited unlimited)
    (low : forall value, limited = .ok value -> ¬ tall value) (text : List Char) (make : α -> β)
    {fits : β -> Prop} (fits_iff : forall value, fits (make value) <-> ¬ tall value) :
    OnlyRefuses fits (reported text make limited) (reported text make unlimited) := by
  cases confined with
  | fails fault =>
      exact ⟨fun _ failed => Or.inl failed, fun _ read => (nomatch read), fun _ read => nomatch read⟩
  | reads value =>
      refine ⟨fun _ failed => (nomatch failed), fun _ read _ => read, fun other read unfit => ?_⟩
      cases read
      exact absurd ((fits_iff value).mpr (low value rfl)) unfit
  | @refused place after _ above =>
      let fault : Fault := ⟨.tooDeep heightLimit, place, after⟩
      have refuses : RefusesHeight (reported text make (.error fault)) := ⟨_, rfl, rfl⟩
      refine ⟨fun _ _ => Or.inr refuses, fun other read fits => ?_, fun _ _ _ => refuses⟩
      cases unlimited with
      | error fault => cases read
      | ok value =>
          cases read
          exact absurd (above value rfl) ((fits_iff value).mp fits)

/-- The report that there is one sign too many behind a text. -/
def oneTooMany (before : List Char) : Report :=
  ⟨.tooDeep heightLimit, Text.byteLength before, Text.byteLength before + 1, before.length⟩

theorem ofFault_oneTooMany {sign : Char} (opening : IsOpening sign) (before after : List Char) :
    Report.ofFault (before ++ sign :: after) ⟨.tooDeep heightLimit, sign :: after, after⟩ =
      oneTooMany before := by
  simp only [Report.ofFault, oneTooMany, Text.byteLength_append, Text.byteLength_cons,
    opening.utf8Size, List.length_append, Report.mk.injEq, true_and]
  omega

end Reader

open Reader

/-! ## Entry points -/

theorem Grammar.ofText_onlyRefuses (text : String) :
    OnlyRefuses Fits (Grammar.ofText text) (Unlimited.grammarOfText text) := by
  have low : forall rules,
      ruleDefinitions (Reader.pattern heightLimit) text.toList = .ok rules ->
      ¬ Exists fun rule => rule ∈ rules ∧ heightLimit < rule.pattern.height := by
    rintro rules read ⟨rule, listed, tall⟩
    have bounded := ((ruleDefinitions_eq_ok (by decide) _ _).mp read).2 rule listed
    exact absurd tall (Nat.not_lt.mpr bounded)
  have confined := Confines.ruleDefinitions heightLimit text.toList
  refine confined.onlyRefuses low text.toList Grammar.mk fun rules => ?_
  simp only [Fits, not_exists, not_and, Nat.not_lt]

theorem Pattern.ofText_onlyRefuses (text : String) :
    OnlyRefuses (fun pattern : Pattern => pattern.height ≤ heightLimit) (Pattern.ofText text)
      (Unlimited.patternOfText text) := by
  have low : forall pattern,
      wholePattern (Reader.pattern heightLimit) text.toList = .ok pattern ->
      ¬ heightLimit < pattern.height := fun pattern read =>
    Nat.not_lt.mpr ((wholePattern_eq_ok (by decide) _ _).mp read).2
  have confined := Confines.wholePattern heightLimit text.toList
  exact confined.onlyRefuses low text.toList id fun pattern => Nat.not_lt.symm

theorem Pattern.ofText_of_descends {before after : List Char} {sign : Char}
    (opening : IsOpening sign)
    (descends : Descends heightLimit heightLimit 0 (before ++ sign :: after) (sign :: after))
    (other : List Char) :
    Pattern.ofText (String.ofList (before ++ sign :: other)) = .error (oneTooMany before) := by
  have failed : Reader.pattern heightLimit _ = _ :=
    (descends.oneAhead.behind_sign other).fails opening.visible opening
  rw [Pattern.ofText, patternBy, String.toList_ofList, wholePattern, failed]
  exact congrArg Except.error (ofFault_oneTooMany opening before other)

theorem Grammar.ofText_of_descends {before after : List Char} {sign : Char}
    (opening : IsOpening sign)
    (descends : RulesDescend heightLimit (before ++ sign :: after) (sign :: after))
    (other : List Char) :
    Grammar.ofText (String.ofList (before ++ sign :: other)) = .error (oneTooMany before) := by
  have failed := (descends.oneAhead.behind_sign other).fails opening.visible opening _ rfl
  rw [Grammar.ofText, grammarBy, String.toList_ofList, failed]
  exact congrArg Except.error (ofFault_oneTooMany opening before other)

/-- The limit of height refuses the grammars and patterns that are too tall and
nothing else.  The heights that it goes by are the true ones, whichever reader
they come from.  Where as many groups and unary operators are open as it allows,
the next one is refused, whatever comes behind it. -/
theorem Reader.heightLimit_onlyRefuses_tall :
    (forall text, OnlyRefuses Fits (Grammar.ofText text) (Unlimited.grammarOfText text)) ∧
    (forall text, OnlyRefuses (fun pattern : Pattern => pattern.height ≤ heightLimit)
      (Pattern.ofText text) (Unlimited.patternOfText text)) ∧
    (forall levels,
      (forall level, Measures (readerAt heightLimit levels level)) ∧
      (forall text sign reading, next? text = some sign ->
        repeatable heightLimit (deeper heightLimit levels) sign = .ok reading ->
        reading.value.height = reading.value.pattern.height) ∧
      (forall symbol after reading,
        primary heightLimit (deeper heightLimit levels) symbol after = .ok reading ->
        reading.value.height = reading.value.pattern.height)) ∧
    (forall before sign after, IsOpening sign ->
      (Descends heightLimit heightLimit 0 (before ++ sign :: after) (sign :: after) ->
        forall other, Pattern.ofText (String.ofList (before ++ sign :: other)) =
          .error (oneTooMany before)) ∧
      (RulesDescend heightLimit (before ++ sign :: after) (sign :: after) ->
        forall other, Grammar.ofText (String.ofList (before ++ sign :: other)) =
          .error (oneTooMany before))) := by
  have positive : 0 < heightLimit := by decide
  have operands : forall levels inner, deeper heightLimit levels = .ok inner ->
      ReadsLevel heightLimit 2 inner := by
    rintro (_ | levels) inner ⟨⟩
    exact ReadsLevel.operand positive levels
  refine ⟨Grammar.ofText_onlyRefuses, Pattern.ofText_onlyRefuses, fun levels => ⟨?_, ?_, ?_⟩,
    fun before sign after opening => ⟨fun descends => ?_, fun descends => ?_⟩⟩
  · exact fun level => readerAt_measures positive levels level
  · exact fun text sign reading found read =>
      (ReadsLevel.repeatable positive (operands levels) found read).measured
  · exact fun symbol after reading read =>
      (ReadsLevel.primary positive (operands levels) read).measured
  · exact Pattern.ofText_of_descends opening descends
  · exact Grammar.ofText_of_descends opening descends

/-! ## Negations of negations -/

namespace Reader

/-- A rule `a` under so many negations. -/
def negation : (count : Nat) -> Pattern
  | 0 => .rule "a"
  | count + 1 => .not (negation count)

/-- The same as a text. -/
def negationText (count : Nat) : List Char := List.replicate count '-' ++ ['a']

theorem height_negation (count : Nat) : (negation count).height = count + 1 := by
  induction count with
  | zero => rfl
  | succ count inductionHypothesis => exact congrArg (· + 1) inductionHypothesis

theorem spells_negation (count : Nat) :
    SpellsPattern 2 (negationText count) (negation count) [] := by
  induction count with
  | zero =>
      have named : SpellsName ['a'] "a" [] := spellsName_letter rfl fun _ absent => nomatch absent
      exact .tighter (.tighter (.atom (.nothing _) (.rule named)))
  | succ count inductionHypothesis => exact .unary (.nothing _) rfl inductionHypothesis

/-- Without a limit, negations are read however many there are. -/
theorem unlimited_negation (count : Nat) :
    Unlimited.patternOfText (String.ofList (negationText count)) = .ok (negation count) := by
  have whole : SpellsWhole (negationText count) (negation count) :=
    ⟨[], .tighter (.tighter (spells_negation count)), .nothing []⟩
  rw [Unlimited.patternOfText, patternBy, String.toList_ofList,
    (Unlimited.wholePattern_eq_ok _ _).mpr whole]
  rfl

/-- The last negation that fits, the first that does not, and what is refused on
the way down. -/
theorem negations_at_heightLimit :
    Pattern.ofText (String.ofList (negationText 999)) = .ok (negation 999) ∧
    RefusesHeight (Pattern.ofText (String.ofList (negationText 1000))) ∧
    Pattern.ofText (String.ofList (List.replicate 1000 '-' ++ ['-'])) =
      .error ⟨.tooDeep 1000, 1000, 1001, 1000⟩ ∧
    Grammar.ofText (String.ofList ('a' :: '<' :: '-' :: List.replicate 1000 '(' ++ ['('])) =
      .error ⟨.tooDeep 1000, 1003, 1004, 1003⟩ := by
  rcases heightLimit_onlyRefuses_tall with ⟨_, patterns, _, openings⟩
  have negates : IsOpening '-' := Or.inr rfl
  have opens : IsOpening '(' := Or.inl rfl
  refine ⟨?_, ?_, ?_, ?_⟩
  · refine (patterns _).reads _ (unlimited_negation 999) ?_
    exact Nat.le_of_eq (height_negation 999)
  · refine (patterns _).refuses _ (unlimited_negation 1000) ?_
    rw [height_negation]
    decide
  · have descends : Descends heightLimit heightLimit 0 (List.replicate 1000 '-' ++ ['-']) ['-'] :=
      .tighter (.tighter (descends_replicate negates _ _ _))
    refine ((openings _ '-' _ negates).1 descends []).trans ?_
    rw [oneTooMany, Text.byteLength_replicate, List.length_replicate]
    rfl
  · have named : SpellsName ('a' :: '<' :: '-' :: List.replicate 1000 '(' ++ ['(']) "a"
        ('<' :: '-' :: List.replicate 1000 '(' ++ ['(']) :=
      spellsName_letter rfl fun _ headed => Option.some.inj headed ▸ rfl
    have descends : RulesDescend heightLimit
        ('a' :: '<' :: '-' :: List.replicate 1000 '(' ++ ['(']) ['('] :=
      .here (.nothing _) named (.nothing _) (.tighter (.tighter (descends_replicate opens _ _ _)))
    refine ((openings _ '(' _ opens).2 descends []).trans ?_
    simp only [oneTooMany, Text.byteLength_cons, Text.byteLength_replicate, List.length_cons,
      List.length_replicate]
    rfl

end Reader
end ParsingMachine
