import ParsingMachine.Proofs.Reader.Faults
import ParsingMachine.Proofs.Reader.Language
import ParsingMachine.Proofs.Text.Utf8

namespace ParsingMachine
namespace Reader

/-!
# Reports point at the text at fault

Every fault that is found while patterns and rules are read lies in the text and
points at what its cause is about.  The readers are followed in the way in which
they are built from each other.

Offsets come in only at the end.  A report has those of the two places of its
fault, and the text can be cut at both of them.
-/

/-- What a reader objects to lies in the text and is what its cause is about. -/
def BlamesRightly {α : Type} (reader : Reader α) : Prop :=
  forall {text fault}, reader text = .error fault -> Blames text fault

theorem Reads.suffix {limit level : Nat} {text : List Char} {reading : Reading Measured text}
    (reads : Reads limit level reading) : reading.rest <:+ text := by
  rcases reads.spelled with ⟨middle, spelled, trivia⟩
  exact trivia.suffix.trans spelled.oneAhead.suffix

theorem oneLevelUp_eq_error {limit height : Nat} {place after : List Char} {fault : Fault}
    (failed : oneLevelUp limit height place after = .error fault) :
    fault = ⟨.tooDeep limit, place, after⟩ := by
  rw [oneLevelUp] at failed
  split at failed
  · cases failed
    rfl
  · cases failed

/-- A sign that opens one level too many. -/
theorem blames_sign {limit : Nat} {sign : Char} {after : List Char}
    (isSign : sign ∈ ['-', '?', '*', '+', '(', '|']) :
    Blames (sign :: after) ⟨.tooDeep limit, sign :: after, after⟩ :=
  blames_first (Or.inl ⟨sign, isSign, rfl⟩)

theorem mem_of_unaryOperator? {sign : Char} {apply : Pattern -> Pattern}
    (isOperator : unaryOperator? sign = some apply) :
    sign ∈ ['-', '?', '*', '+', '(', '|'] := by
  rcases unaryOperator?_cases isOperator with ⟨rfl, _⟩ | ⟨rfl, _⟩ | ⟨rfl, _⟩ | ⟨rfl, _⟩ <;> decide

section Readers

variable {limit level : Nat} {operator : Char} {join : Pattern -> Pattern -> Pattern}
  {inner : Reader Measured} {text whole after : List Char} {fault : Fault}

theorem blames_of_chain (isSign : operator ∈ ['-', '?', '*', '+', '(', '|'])
    (reads : ReadsLevel limit level inner) (operands : BlamesRightly inner)
    {left : Reading Measured text}
    (failed : chain limit operator join inner left = .error fault) (inside : left.rest <:+ whole) :
    Blames whole fault := by
  fun_induction chain limit operator join inner left with
  | case1 => cases failed
  | case2 left sign found fault unread =>
      cases failed
      exact (operands unread).behind ((trivia_of_sign? found).behind_sign.trans inside)
  | case3 left sign found right rightRead fault tall =>
      cases failed
      cases oneLevelUp_eq_error tall
      exact (blames_sign isSign).behind ((trivia_of_sign? found).suffix.trans inside)
  | case4 left sign found right rightRead height up inductionHypothesis =>
      refine inductionHypothesis failed ?_
      exact (reads rightRead).suffix.trans ((trivia_of_sign? found).behind_sign.trans inside)

theorem BlamesRightly.joined (isSign : operator ∈ ['-', '?', '*', '+', '(', '|'])
    (reads : ReadsLevel limit level inner) (operands : BlamesRightly inner) :
    BlamesRightly (Reader.joined limit operator join inner) := by
  intro text fault failed
  rw [Reader.joined] at failed
  split at failed
  · next unread =>
      cases failed
      exact operands unread
  · next first firstRead =>
      exact blames_of_chain isSign reads operands failed (reads firstRead).suffix

theorem BlamesRightly.expression (reads : ReadsLevel limit 2 inner)
    (operands : BlamesRightly inner) : BlamesRightly (Reader.expression limit inner) :=
  joined (by decide) (reads.joined infixAt_sequence) (joined (by decide) reads operands)

theorem blames_of_groupBody (reads : ReadsLevel limit 2 inner) (operands : BlamesRightly inner)
    (failed : groupBody limit inner ('(' :: after) after = .error fault) :
    Blames ('(' :: after) fault := by
  rw [groupBody] at failed
  split at failed
  · next unread =>
      cases failed
      exact (BlamesRightly.expression reads operands unread).behind (List.suffix_cons _ _)
  · split at failed
    · cases failed
      exact blames_first rfl
    · split at failed
      · next tall =>
          cases failed
          cases oneLevelUp_eq_error tall
          exact blames_sign (by decide)
      · cases failed

theorem blames_of_repetitions {reading : Reading Measured text}
    (failed : repetitions limit reading = .error fault) (inside : reading.rest <:+ whole) :
    Blames whole fault := by
  fun_induction repetitions limit reading with
  | case1 => cases failed
  | case2 reading sign found fault unread =>
      cases failed
      exact (blames_of_bounds unread).behind ((trivia_of_sign? found).suffix.trans inside)
  | case3 reading sign found times timesRead fault tall =>
      cases failed
      cases oneLevelUp_eq_error tall
      rcases (spellsBounds_of_bounds timesRead).exists_body with ⟨body, same⟩
      have split : '{' :: sign.rest = '{' :: (body ++ ['}']) ++ times.rest :=
        congrArg ('{' :: ·) (same.trans (List.append_assoc body ['}'] times.rest).symm)
      have here : Blames ('{' :: sign.rest) ⟨.tooDeep limit, '{' :: sign.rest, times.rest⟩ :=
        ⟨[], _, split, split, Or.inr ⟨body, rfl⟩⟩
      exact here.behind ((trivia_of_sign? found).suffix.trans inside)
  | case4 reading sign found times timesRead height up inductionHypothesis =>
      refine inductionHypothesis failed ?_
      exact (spellsBounds_of_bounds timesRead).oneAhead.suffix.trans
        ((trivia_of_sign? found).behind_sign.trans inside)

variable {deeper : Except Cause (Reader Measured)}

theorem blames_of_primary (refused : forall cause, deeper = .error cause -> cause = .tooDeep limit)
    (operands : forall inner, deeper = .ok inner -> ReadsLevel limit 2 inner ∧ BlamesRightly inner)
    {symbol : Char} (failed : primary limit deeper symbol after = .error fault) :
    Blames (symbol :: after) fault := by
  unfold primary at failed
  split at failed
  · next opens =>
      subst opens
      split at failed
      · next cause =>
          cases failed
          cases refused cause rfl
          exact blames_sign (by decide)
      · next inner =>
          split at failed
          · next unread =>
              cases failed
              rcases operands inner rfl with ⟨reads, blames⟩
              exact blames_of_groupBody reads blames unread
          · cases failed
  · split at failed
    · next unread =>
        cases failed
        exact blames_of_atom unread
    · cases failed

theorem blames_of_operandAt (positive : 0 < limit)
    (refused : forall cause, deeper = .error cause -> cause = .tooDeep limit)
    (operands : forall inner, deeper = .ok inner ->
      ReadsLevel limit 2 inner ∧ BlamesRightly inner) :
    BlamesRightly (operandAt limit deeper) := by
  intro text fault failed
  rw [operandAt] at failed
  split at failed
  · cases failed
    exact blames_end (Or.inr ⟨rfl, rfl⟩)
  · next sign found =>
      have here := (trivia_of_next? found).suffix
      split at failed
      · rw [repeatable] at failed
        split at failed
        · next unread =>
            cases failed
            exact (blames_of_primary refused operands unread).behind here
        · next reading read =>
            have reads := ReadsLevel.primary positive (fun inner known => (operands inner known).1) read
            exact blames_of_repetitions failed (reads.suffix.trans here)
      · next apply isOperator =>
          have isSign := mem_of_unaryOperator? isOperator
          split at failed
          · next cause =>
              cases failed
              cases refused cause rfl
              exact (blames_sign isSign).behind here
          · next inner =>
              rw [unary] at failed
              split at failed
              · next unread =>
                  cases failed
                  exact ((operands inner rfl).2 unread).behind ((List.suffix_cons _ _).trans here)
              · split at failed
                · next tall =>
                    cases failed
                    cases oneLevelUp_eq_error tall
                    exact (blames_sign isSign).behind here
                · cases failed

theorem BlamesRightly.operand (positive : 0 < limit) (levels : Nat) :
    BlamesRightly (Reader.operand limit levels) := by
  induction levels with
  | zero =>
      apply blames_of_operandAt positive
      · rintro cause ⟨⟩
        rfl
      · rintro inner ⟨⟩
  | succ levels inductionHypothesis =>
      apply blames_of_operandAt positive
      · rintro cause ⟨⟩
      · rintro inner ⟨⟩
        exact ⟨ReadsLevel.operand positive levels, inductionHypothesis⟩

theorem BlamesRightly.pattern (positive : 0 < limit) : BlamesRightly (Reader.pattern limit) :=
  expression (ReadsLevel.operand positive limit) (operand positive limit)

/-! ## Rules and whole texts -/

theorem ruleDefinition_suffix (positive : 0 < limit) {reading : Reading Rule text}
    (read : ruleDefinition (pattern limit) text = .ok reading) : reading.rest <:+ text := by
  rcases spells_of_ruleDefinition positive read with
    ⟨middle, behind, rest, named, arrow, spelled, trivia, _⟩
  exact trivia.suffix.trans (spelled.oneAhead.suffix.trans
    (arrow.behind_pair.trans named.oneAhead.suffix))

/-- A definition is looked for behind blanks and comments. -/
theorem blames_of_ruleDefinition (positive : 0 < limit) {symbol : Char}
    (visible : Text.isBlank symbol = false ∧ symbol ≠ '#')
    (failed : ruleDefinition (pattern limit) (symbol :: after) = .error fault) :
    Blames (symbol :: after) fault := by
  rw [ruleDefinition] at failed
  rcases name?_cases (symbol :: after) with ⟨name, found, named⟩ | ⟨absent, _⟩
  · rw [found] at failed
    dsimp only at failed
    split at failed
    · cases failed
      have split := named.split
      exact ⟨[], name.value.toList, split, split, rfl⟩
    · next arrow pointed =>
        split at failed
        · next unread =>
            cases failed
            exact (BlamesRightly.pattern positive unread).behind
              ((trivia_of_pair? pointed).behind_pair.trans named.oneAhead.suffix)
        · cases failed
  · rw [absent] at failed
    cases failed
    exact blames_atNext fun native => ⟨symbol, rfl, visible.1, visible.2, native⟩

theorem blames_of_ruleDefinitions (positive : 0 < limit)
    (failed : ruleDefinitions (pattern limit) text = .error fault) : Blames text fault := by
  fun_induction ruleDefinitions (pattern limit) text with
  | case1 => cases failed
  | case2 text next found fault unread =>
      cases failed
      have visible := visible_of_skipTriviaFrom (skipTrivia_of_next? found)
      exact (blames_of_ruleDefinition positive visible unread).behind (trivia_of_next? found).suffix
  | case3 text next found rule ruleRead fault unread inductionHypothesis =>
      cases failed
      exact (inductionHypothesis unread).behind
        ((ruleDefinition_suffix positive ruleRead).trans (trivia_of_next? found).suffix)
  | case4 => cases failed

theorem blames_of_wholePattern (positive : 0 < limit)
    (failed : wholePattern (pattern limit) text = .error fault) : Blames text fault := by
  rw [wholePattern] at failed
  split at failed
  · next unread =>
      cases failed
      exact BlamesRightly.pattern positive unread
  · next reading read =>
      split at failed
      · cases failed
      · next next found =>
          cases failed
          have visible := visible_of_skipTriviaFrom (skipTrivia_of_next? found)
          have here : Blames next.here (Fault.atNext .leftover next.here) :=
            blames_atNext fun native => ⟨next.value, rfl, visible.1, visible.2, native⟩
          exact here.behind ((trivia_of_next? found).suffix.trans
            (ReadsLevel.pattern positive read).suffix)

end Readers

/-! ## Reports -/

/-- A report on a text that consists of what comes before the text at fault, the
text at fault, and what comes behind it. -/
structure Report.Points (report : Report) (text : String) (before spanned behind : List Char) :
    Prop where
  whole : before ++ (spanned ++ behind) = text.toList
  start : report.start = Text.byteLength before
  stop : report.stop = Text.byteLength (before ++ spanned)
  charStart : report.charStart = before.length
  ordered : report.start ≤ report.stop
  within : report.stop ≤ text.utf8ByteSize
  startCuts : Text.CutsAt text report.start
  stopCuts : Text.CutsAt text report.stop
  marks : report.cause.Marks spanned behind

/-- An end of a text begins where the text can be cut. -/
theorem cutsAt_suffix {text : String} {rest : List Char} (suffix : rest <:+ text.toList) :
    Text.CutsAt text (Text.byteLength text.toList - Text.byteLength rest) := by
  rcases suffix with ⟨front, whole⟩
  rw [← whole, Text.byteLength_append, Nat.add_sub_cancel]
  exact Text.cutsAt_byteLength whole

theorem Blames.points {text : String} {fault : Fault} (blames : Blames text.toList fault) :
    Exists fun before => Exists fun spanned => Exists fun behind =>
      (Report.ofFault text.toList fault).Points text before spanned behind := by
  rcases blames with ⟨before, spanned, whole, place, marks⟩
  have size : Text.byteLength text.toList = Text.byteLength before +
      (Text.byteLength spanned + Text.byteLength fault.after) := by
    rw [whole, Text.byteLength_append, Text.byteLength_append]
  have start : (Report.ofFault text.toList fault).start = Text.byteLength before := by
    rw [Report.ofFault, place, size, Text.byteLength_append, Nat.add_sub_cancel]
  have stop : (Report.ofFault text.toList fault).stop = Text.byteLength (before ++ spanned) := by
    rw [Report.ofFault, size, Text.byteLength_append, ← Nat.add_assoc, Nat.add_sub_cancel]
  refine ⟨before, spanned, fault.after, whole.symm, start, stop, ?_, ?_, ?_, ?_, ?_, marks⟩
  · rw [Report.ofFault, place, whole, List.length_append, Nat.add_sub_cancel]
  · rw [start, stop, Text.byteLength_append]
    exact Nat.le_add_right _ _
  · rw [stop, Text.utf8ByteSize_eq_byteLength, size, Text.byteLength_append]
    omega
  · rw [start]
    exact Text.cutsAt_byteLength whole.symm
  · rw [stop]
    exact Text.cutsAt_byteLength (by rw [whole, List.append_assoc])

/-- Whatever is wrong with a text, the report on it points at what its cause is
about, between two offsets at which the text can be cut.  What is read of the
text ends at such an offset too, from wherever it is read on; and where a name
can begin, one is read. -/
theorem ofText_points (text : String) :
    (forall report, Grammar.ofText text = .error report ∨ Pattern.ofText text = .error report ->
      Exists fun before => Exists fun spanned => Exists fun behind =>
        report.Points text before spanned behind) ∧
    (forall part, part <:+ text.toList ->
      (forall reading, ruleDefinition (pattern heightLimit) part = .ok reading ->
        Text.CutsAt text (Text.byteLength text.toList - Text.byteLength reading.rest)) ∧
      (forall reading, pattern heightLimit part = .ok reading ->
        Text.CutsAt text (Text.byteLength text.toList - Text.byteLength reading.rest))) ∧
    (forall symbol after, symbol :: after <:+ text.toList -> isNameStart symbol = true ->
      Exists fun name => name? (symbol :: after) = some name ∧
        ruleReference symbol after = .ok (name.map .rule)) := by
  have positive : 0 < heightLimit := by decide
  refine ⟨?_, fun part suffix => ⟨?_, ?_⟩, fun symbol after _ starts =>
    ruleReference_of_isNameStart starts after⟩
  · rintro report (failed | failed)
    · rcases Grammar.ofText_eq_error.mp failed with ⟨fault, unread, rfl⟩
      exact (blames_of_ruleDefinitions positive unread).points
    · rcases Pattern.ofText_eq_error.mp failed with ⟨fault, unread, rfl⟩
      exact (blames_of_wholePattern positive unread).points
  · intro reading read
    exact cutsAt_suffix ((ruleDefinition_suffix positive read).trans suffix)
  · intro reading read
    exact cutsAt_suffix ((ReadsLevel.pattern positive read).suffix.trans suffix)

/-- A colon where an arrow should be, on the second line of a text with an
accent on its first one. -/
theorem missingArrow_points :
    Grammar.ofText "# é\nab: 'c'" = .error ⟨.missingArrow "ab", 5, 7, 4⟩ ∧
      Exists fun before => Exists fun spanned => Exists fun behind =>
        Report.Points ⟨.missingArrow "ab", 5, 7, 4⟩ "# é\nab: 'c'" before spanned behind := by
  have failed : Grammar.ofText "# é\nab: 'c'" = .error ⟨.missingArrow "ab", 5, 7, 4⟩ := by
    rw [Grammar.ofText, grammarBy, ruleDefinitions]
    rfl
  exact ⟨failed, (ofText_points _).1 _ (Or.inl failed)⟩

end Reader
end ParsingMachine
