import ParsingMachine.Proofs.Reader.Soundness

namespace ParsingMachine
namespace Reader

/-!
# What is spelled is read

A reader that goes from left to right decides by the next sign.  What is
spelled at a level is therefore read only if the sign behind it does not go on
with it; below, that is asked of the rest of the text, and every place in the
syntax where a pattern may stand grants it.

Joins and repetitions are spelled from the left but read by loops.  The text
of a join is shown to bring its loop to where the join is what has been read so
far, which is the form in which the next operator finds it.
-/

/-! ## Signs behind a pattern -/

/-- The next sign does not go on with a pattern of the level.  A double quote
would go on with a rule name. -/
def Follows (level : Nat) (rest : List Char) : Prop :=
  forall sign, (skipTrivia rest).head? = some sign ->
    sign ≠ '"' ∧ (level ≤ 2 -> sign ≠ '{') ∧ (level = 0 -> sign ≠ '*')

namespace Follows

variable {level : Nat} {rest : List Char}

theorem succ (follows : Follows level rest) : Follows (level + 1) rest := by
  intro sign headed
  rcases follows sign headed with ⟨noQuote, noBrace, _⟩
  exact ⟨noQuote, fun loose => noBrace (by omega), fun zero => by omega⟩

theorem no_quote (follows : Follows level rest) : rest.head? ≠ some '"' := by
  intro headed
  rcases List.head?_eq_some_iff.mp headed with ⟨behind, rfl⟩
  exact (follows '"' rfl).1 rfl

theorem no_brace (follows : Follows level rest) (loose : level ≤ 2) :
    (skipTrivia rest).head? ≠ some '{' :=
  fun headed => (follows '{' headed).2.1 loose rfl

theorem no_star (follows : Follows 0 rest) : (skipTrivia rest).head? ≠ some '*' :=
  fun headed => (follows '*' headed).2.2 rfl rfl

theorem of_skipTrivia {sign : Char} {behind : List Char} (left : skipTrivia rest = sign :: behind)
    (noQuote : sign ≠ '"') (noBrace : level ≤ 2 -> sign ≠ '{') (noStar : level = 0 -> sign ≠ '*') :
    Follows level rest := by
  intro other headed
  rw [left] at headed
  cases headed
  exact ⟨noQuote, noBrace, noStar⟩

theorem of_end (ended : skipTrivia rest = []) : Follows level rest := by
  intro sign headed
  rw [ended] at headed
  cases headed

end Follows

theorem skipTrivia_skipTrivia (text : List Char) : skipTrivia (skipTrivia text) = skipTrivia text :=
  (trivia_skipTrivia text).skipTrivia_eq.symm

/-! ## Loops -/

section Loops

variable {limit : Nat} {text : List Char}

theorem chain_ends {operator : Char} {join : Pattern -> Pattern -> Pattern}
    {operand : Reader Measured} {left : Reading Measured text}
    (ends : (skipTrivia left.rest).head? ≠ some operator) :
    chain limit operator join operand left = .ok left.pastTrivia := by
  rcases sign?_cases operator left.rest with ⟨sign, _, same⟩ | ⟨absent, _⟩
  · rw [same] at ends
    exact absurd rfl ends
  · rw [chain, absent]

theorem repetitions_ends {inner : Reading Measured text}
    (ends : (skipTrivia inner.rest).head? ≠ some '{') :
    repetitions limit inner = .ok inner.pastTrivia := by
  rcases sign?_cases '{' inner.rest with ⟨sign, _, same⟩ | ⟨absent, _⟩
  · rw [same] at ends
    exact absurd rfl ends
  · rw [repetitions, absent]

/-- What has been read of a text, when the reader is about to look for more. -/
def HasRead (reading : Reading Measured text) (pattern : Pattern) (rest : List Char) : Prop :=
  reading.value = ⟨pattern, pattern.height⟩ ∧ skipTrivia reading.rest = skipTrivia rest

/-- A further operand is joined to what has been read. -/
theorem chain_goesOn {level : Nat} {operator : Char} {join : Pattern -> Pattern -> Pattern}
    (isInfix : InfixAt level operator join) {operand : Reader Measured}
    {left : Reading Measured text} {first second : Pattern} {middle behind rest : List Char}
    (leftRead : HasRead left first middle) (next : skipTrivia middle = operator :: behind)
    (secondRead : Gives (operand behind) ⟨second, second.height⟩ (skipTrivia rest))
    (room : (join first second).height ≤ limit) :
    Exists fun joined : Reading Measured text =>
      chain limit operator join operand left = chain limit operator join operand joined ∧
        HasRead joined (join first second) rest := by
  rcases leftRead with ⟨value, same⟩
  rcases sign?_of_skipTrivia (same.trans next) with ⟨sign, found, rfl⟩
  rcases secondRead with ⟨right, rightRead, rightValue, rightRest⟩
  have height := isInfix.height first second
  have fits : max left.value.height right.value.height < limit := by
    rw [value, rightValue]
    change max first.height second.height < limit
    omega
  have up := oneLevelUp_of_lt (operator :: sign.rest) sign.rest fits
  refine ⟨(left.behind (sign.behind right)).map fun measured =>
    ⟨join left.value.pattern measured.pattern, max left.value.height right.value.height + 1⟩, ?_, ?_⟩
  · rw [chain, found]
    simp only [rightRead, up]
  · constructor
    · change Measured.mk (join left.value.pattern right.value.pattern)
        (max left.value.height right.value.height + 1) = _
      rw [value, rightValue, height]
    · change skipTrivia right.rest = skipTrivia rest
      rw [rightRest, skipTrivia_skipTrivia]

/-- Further bounds are put behind what has been read. -/
theorem repetitions_goesOn {left : Reading Measured text} {inner : Pattern}
    {middle behind rest : List Char} {bounds : UInt64 × UInt64} (leftRead : HasRead left inner middle)
    (next : skipTrivia middle = '{' :: behind) (spelled : SpellsBounds behind bounds rest)
    (room : inner.height + 1 ≤ limit) :
    Exists fun longer : Reading Measured text =>
      repetitions limit left = repetitions limit longer ∧
        HasRead longer (.repeated inner bounds.1 bounds.2) rest := by
  rcases leftRead with ⟨value, same⟩
  rcases sign?_of_skipTrivia (same.trans next) with ⟨sign, found, rfl⟩
  rcases bounds_gives ('{' :: sign.rest) spelled with ⟨times, timesRead, rfl, rfl⟩
  have fits : left.value.height < limit := by
    rw [value]
    exact room
  have up := oneLevelUp_of_lt ('{' :: sign.rest) times.rest fits
  refine ⟨(left.behind (sign.behind times)).map fun bounds =>
    ⟨.repeated left.value.pattern bounds.1 bounds.2, left.value.height + 1⟩, ?_, ?_, rfl⟩
  · rw [repetitions, found]
    simp only [timesRead, up]
  · change Measured.mk (.repeated left.value.pattern times.value.1 times.value.2)
      (left.value.height + 1) = _
    rw [value]
    rfl

end Loops
/-! ## Levels -/

/-- The reader that the insides of groups and unary operators are left to. -/
def deeper (limit : Nat) : (levels : Nat) -> Except Cause (Reader Measured)
  | 0 => .error (.tooDeep limit)
  | levels + 1 => .ok (operand limit levels)

theorem operand_eq (limit levels : Nat) :
    operand limit levels = operandAt limit (deeper limit levels) := by
  cases levels <;> rfl

/-- The reader of a level reads the pattern off the text.  Where the reader is
a loop, it comes to where the pattern is what it has read so far. -/
def Accepts (limit levels level : Nat) (text : List Char) (pattern : Pattern) (rest : List Char) :
    Prop :=
  match level with
  | 0 => Exists fun left : Reading Measured text =>
      expression limit (operand limit levels) text =
        chain limit '|' .choice (joined limit '*' .sequence (operand limit levels)) left ∧
      HasRead left pattern rest
  | 1 => Exists fun left : Reading Measured text =>
      joined limit '*' .sequence (operand limit levels) text =
        chain limit '*' .sequence (operand limit levels) left ∧
      HasRead left pattern rest
  | 2 => Gives (operand limit levels text) ⟨pattern, pattern.height⟩ (skipTrivia rest)
  | 3 => Exists fun left : Reading Measured text =>
      operand limit levels text = repetitions limit left ∧ HasRead left pattern rest
  | _ => Exists fun symbol => Exists fun after => skipTrivia text = symbol :: after ∧
      unaryOperator? symbol = none ∧
        Gives (primary limit (deeper limit levels) symbol after) ⟨pattern, pattern.height⟩ rest

namespace Accepts

variable {limit levels : Nat} {text rest : List Char} {pattern : Pattern}

theorem gives_sequence (accepts : Accepts limit levels 1 text pattern rest)
    (ends : (skipTrivia rest).head? ≠ some '*') :
    Gives (joined limit '*' .sequence (operand limit levels) text) ⟨pattern, pattern.height⟩
      (skipTrivia rest) := by
  rcases accepts with ⟨left, read, value, same⟩
  rw [← same] at ends
  exact ⟨left.pastTrivia, read.trans (chain_ends ends), value, same⟩

theorem gives_choice (accepts : Accepts limit levels 0 text pattern rest)
    (ends : (skipTrivia rest).head? ≠ some '|') :
    Gives (expression limit (operand limit levels) text) ⟨pattern, pattern.height⟩
      (skipTrivia rest) := by
  rcases accepts with ⟨left, read, value, same⟩
  rw [← same] at ends
  exact ⟨left.pastTrivia, read.trans (chain_ends ends), value, same⟩

/-- What the reader of a level accepts, the reader of the level above does. -/
theorem tighter {level : Nat} (accepts : Accepts limit levels (level + 1) text pattern rest)
    (bound : level < 4) (follows : Follows level rest) :
    Accepts limit levels level text pattern rest := by
  match level with
  | 0 =>
      rcases accepts.gives_sequence follows.no_star with ⟨first, read, value, same⟩
      refine ⟨first, ?_, value, ?_⟩
      · rw [expression, joined, read]
      · rw [same, skipTrivia_skipTrivia]
  | 1 =>
      rcases accepts with ⟨first, read, value, same⟩
      refine ⟨first, ?_, value, ?_⟩
      · rw [joined, read]
      · rw [same, skipTrivia_skipTrivia]
  | 2 =>
      rcases accepts with ⟨left, read, value, same⟩
      have ends := follows.no_brace (Nat.le_refl 2)
      rw [← same] at ends
      exact ⟨left.pastTrivia, read.trans (repetitions_ends ends), value, same⟩
  | 3 =>
      rcases accepts with ⟨symbol, after, next, noOperator, reading, read, value, same⟩
      rcases next?_of_skipTrivia next with ⟨sign, found, rfl, rfl⟩
      refine ⟨reading.within sign.shorter, ?_, value, congrArg skipTrivia same⟩
      rw [operand_eq, operandAt, found]
      simp only [noOperator, repeatable, read]

theorem unary {sign : Char} {behind : List Char} {apply : Pattern -> Pattern} {inner : Pattern}
    (before : Trivia text (sign :: behind)) (isOperator : unaryOperator? sign = some apply)
    (visible : skipTrivia (sign :: behind) = sign :: behind)
    (accepts : Accepts limit levels 2 behind inner rest) (room : inner.height < limit) :
    Accepts limit (levels + 1) 2 text (apply inner) rest := by
  rcases next?_of_skipTrivia (before.skipTrivia_eq.trans visible) with ⟨first, found, rfl, rfl⟩
  rcases accepts with ⟨reading, read, value, same⟩
  have fits : reading.value.height < limit := by
    rw [value]
    exact room
  have up := oneLevelUp_of_lt first.here first.rest fits
  refine ⟨(first.behind reading).map fun measured => ⟨apply measured.pattern,
    reading.value.height + 1⟩, ?_, ?_, same⟩
  · rw [operand_eq, operandAt, found]
    simp only [isOperator, deeper, Reader.unary, read, up]
  · change Measured.mk (apply reading.value.pattern) (reading.value.height + 1) = _
    rw [value, height_of_unaryOperator? isOperator]

theorem group {behind middle : List Char} {inner : Pattern} (before : Trivia text ('(' :: behind))
    (accepts : Accepts limit levels 0 behind inner middle) (closes : Trivia middle (')' :: rest))
    (room : inner.height < limit) : Accepts limit (levels + 1) 4 text (.group inner) rest := by
  have next : skipTrivia middle = ')' :: rest := closes.skipTrivia_eq
  have ends : (skipTrivia middle).head? ≠ some '|' := by
    rw [next]
    intro same
    cases same
  rcases accepts.gives_choice ends with ⟨reading, read, value, same⟩
  have left : skipTrivia reading.rest = ')' :: rest := by
    rw [same, skipTrivia_skipTrivia, next]
  rcases sign?_of_skipTrivia left with ⟨closing, found, rfl⟩
  have fits : reading.value.height < limit := by
    rw [value]
    exact room
  have up := oneLevelUp_of_lt ('(' :: behind) behind fits
  refine ⟨'(', behind, before.skipTrivia_eq, rfl, ?_⟩
  refine ⟨(reading.behind (closing.map fun _ =>
    ⟨.group reading.value.pattern, reading.value.height + 1⟩)).behindChar '(', ?_, ?_, rfl⟩
  · simp only [primary, if_pos, deeper, groupBody, read, found, up]
  · change Measured.mk (.group reading.value.pattern) (reading.value.height + 1) = _
    rw [value]
    rfl

end Accepts

/-! ## Patterns -/

/-- The first sign of an atom begins neither a group nor a unary operator. -/
theorem SpellsAtom.first {start rest : List Char} {pattern : Pattern}
    (spelled : SpellsAtom start pattern rest) :
    Exists fun symbol => Exists fun after => start = symbol :: after ∧
      skipTrivia start = start ∧ symbol ≠ '(' ∧ unaryOperator? symbol = none := by
  cases spelled with
  | char _ => exact ⟨_, _, rfl, rfl, by decide, rfl⟩
  | literal _ => exact ⟨_, _, rfl, rfl, by decide, rfl⟩
  | literalAnyCase _ => exact ⟨_, _, rfl, rfl, by decide, rfl⟩
  | any => exact ⟨_, _, rfl, rfl, by decide, rfl⟩
  | charClass _ => exact ⟨_, _, rfl, rfl, by decide, rfl⟩
  | rule named =>
      cases named with
      | @name first _ _ starts _ _ =>
          have range := toNat_of_isNameStart starts
          have other : forall sign : Char, sign.toNat < 0x41 -> first ≠ sign := by
            rintro sign below rfl
            omega
          refine ⟨first, _, rfl, skipTrivia_nameStart starts, other '(' (by decide), ?_⟩
          rw [unaryOperator?, if_neg (other '-' (by decide)), if_neg (other '?' (by decide)),
            if_neg (other '*' (by decide)), if_neg (other '+' (by decide))]

theorem height_pos (pattern : Pattern) : 0 < pattern.height := by
  cases pattern <;> exact Nat.succ_pos _

/-- How many groups and unary operators there are at most around a leaf. -/
def nesting : Pattern -> Nat
  | .group inner | .not inner | .optional inner | .zeroOrMore inner | .oneOrMore inner =>
      nesting inner + 1
  | .repeated inner _ _ => nesting inner
  | .sequence first second | .choice first second => max (nesting first) (nesting second)
  | .rule _ | .char _ | .literal _ | .literalAnyCase _ | .any | .charClass _ => 0

theorem nesting_of_unaryOperator? {sign : Char} {apply : Pattern -> Pattern}
    (isOperator : unaryOperator? sign = some apply) (inner : Pattern) :
    nesting (apply inner) = nesting inner + 1 := by
  rcases unaryOperator?_cases isOperator with ⟨_, rfl⟩ | ⟨_, rfl⟩ | ⟨_, rfl⟩ | ⟨_, rfl⟩ <;> rfl

/-- What nests is tall, though what is tall need not nest. -/
theorem nesting_lt_height (pattern : Pattern) : nesting pattern < pattern.height := by
  fun_induction nesting pattern with
  | case1 _ inductionHypothesis | case2 _ inductionHypothesis | case3 _ inductionHypothesis
  | case4 _ inductionHypothesis | case5 _ inductionHypothesis =>
      exact Nat.succ_lt_succ inductionHypothesis
  | case6 _ _ _ inductionHypothesis => exact Nat.lt_succ_of_lt inductionHypothesis
  | case7 _ _ firstHypothesis secondHypothesis | case8 _ _ firstHypothesis secondHypothesis =>
      rw [Pattern.height]
      omega
  | _ => exact Nat.one_pos

/-- No pattern is spelled at a level tighter than the tightest. -/
theorem SpellsPattern.level_le {level : Nat} {text rest : List Char} {pattern : Pattern}
    (spelled : SpellsPattern level text pattern rest) : level ≤ 4 := by
  induction spelled with
  | tighter _ inductionHypothesis => exact Nat.le_of_succ_le inductionHypothesis
  | _ => decide

/-- The reader of a level accepts what is spelled at the level, if the pattern
is not too tall and nests no deeper than there are levels left, and the sign
behind it does not go on with it. -/
theorem SpellsPattern.accepted {limit level : Nat} {text rest : List Char} {pattern : Pattern}
    (spelled : SpellsPattern level text pattern rest) (bounded : pattern.height ≤ limit)
    (levels : Nat) (nested : nesting pattern ≤ levels) (follows : Follows level rest) :
    Accepts limit levels level text pattern rest := by
  induction spelled generalizing levels with
  | tighter spelled inductionHypothesis =>
      exact (inductionHypothesis bounded levels nested follows.succ).tighter spelled.level_le follows
  | choice _ operator _ firstHypothesis secondHypothesis =>
      have room := bounded
      rw [Pattern.height] at bounded
      rw [nesting] at nested
      have next := operator.skipTrivia_eq
      have second := (secondHypothesis (by omega) levels (by omega) follows.succ).gives_sequence
        follows.no_star
      rcases firstHypothesis (by omega) levels (by omega)
        (.of_skipTrivia next (by decide) (fun _ => by decide) (fun _ => by decide)) with
        ⟨left, read, leftRead⟩
      rcases chain_goesOn infixAt_choice leftRead next second room with ⟨whole, same, wholeRead⟩
      exact ⟨whole, read.trans same, wholeRead⟩
  | sequence _ operator _ firstHypothesis secondHypothesis =>
      have room := bounded
      rw [Pattern.height] at bounded
      rw [nesting] at nested
      have next := operator.skipTrivia_eq
      have second := secondHypothesis (by omega) levels (by omega) follows.succ
      rcases firstHypothesis (by omega) levels (by omega)
        (.of_skipTrivia next (by decide) (fun _ => by decide) (fun zero => by cases zero)) with
        ⟨left, read, leftRead⟩
      rcases chain_goesOn infixAt_sequence leftRead next second room with ⟨whole, same, wholeRead⟩
      exact ⟨whole, read.trans same, wholeRead⟩
  | unary before isOperator _ inductionHypothesis =>
      rw [height_of_unaryOperator? isOperator] at bounded
      rw [nesting_of_unaryOperator? isOperator] at nested
      cases levels with
      | zero => exact absurd nested (Nat.not_succ_le_zero _)
      | succ levels =>
          exact .unary before isOperator (skipTrivia_of_unaryOperator? isOperator)
            (inductionHypothesis (by omega) levels (by omega) follows) bounded
  | repeated _ opens bounds inductionHypothesis =>
      rw [Pattern.height] at bounded
      rw [nesting] at nested
      have next := opens.skipTrivia_eq
      rcases inductionHypothesis (by omega) levels (by omega)
        (.of_skipTrivia next (by decide) (fun loose => by omega) (fun zero => by cases zero)) with
        ⟨left, read, leftRead⟩
      rcases repetitions_goesOn leftRead next bounds bounded with ⟨longer, same, longerRead⟩
      exact ⟨longer, read.trans same, longerRead⟩
  | group before _ closes inductionHypothesis =>
      rw [Pattern.height] at bounded
      rw [nesting] at nested
      cases levels with
      | zero => exact absurd nested (Nat.not_succ_le_zero _)
      | succ levels =>
          refine .group before (inductionHypothesis (by omega) levels (by omega) ?_) closes bounded
          exact .of_skipTrivia closes.skipTrivia_eq (by decide) (fun _ => by decide)
            (fun _ => by decide)
  | atom before spelled =>
      rcases spelled.first with ⟨symbol, after, rfl, visible, noGroup, noOperator⟩
      refine ⟨symbol, after, before.skipTrivia_eq.trans visible, noOperator, ?_⟩
      rcases atom_gives spelled follows.no_quote with ⟨reading, read, rfl, rfl⟩
      refine ⟨reading.map fun pattern => ⟨pattern, 1⟩, ?_, ?_, rfl⟩
      · simp only [primary, if_neg noGroup, read]
      · exact congrArg _ (ReadsLevel.height_of_spellsAtom spelled).symm

/-- A pattern is read as it is spelled if it is not too tall, and nothing
behind it goes on with it. -/
theorem pattern_gives {limit : Nat} {text rest : List Char} {spelt : Pattern}
    (spelled : SpellsPattern 0 text spelt rest) (bounded : spelt.height ≤ limit)
    (follows : Follows 0 rest) (ends : (skipTrivia rest).head? ≠ some '|') :
    Gives (pattern limit text) ⟨spelt, spelt.height⟩ (skipTrivia rest) :=
  have nested : nesting spelt ≤ limit := Nat.le_trans (Nat.le_of_lt (nesting_lt_height spelt)) bounded
  (spelled.accepted bounded limit nested follows).gives_choice ends

end Reader
end ParsingMachine
