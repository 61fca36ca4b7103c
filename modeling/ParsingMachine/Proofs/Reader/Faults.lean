import ParsingMachine.Proofs.Reader.Lookahead
import ParsingMachine.Proofs.Reader.Tokens

namespace ParsingMachine
namespace Reader

/-!
# What a fault points at

A reader never leaves the text that it reads: what is left when it has read
something is an end of the text, and so are the two places of a fault.  Between
these two lies the text at fault, and what it looks like depends on the cause.

That a reading leaves an end of the text follows from what the text spells.
Faults are followed through the readers one by one, and a fault that is found in
what was left by an earlier reader is a fault of the whole text.
-/

/-! ## What is left -/

section Suffixes

variable {text rest : List Char}

theorem Trivia.suffix (trivia : Trivia text rest) : rest <:+ text := trivia.oneAhead.suffix

/-- What is behind a sign that stands behind blanks and comments. -/
theorem Trivia.behind_sign {sign : Char} (trivia : Trivia text (sign :: rest)) : rest <:+ text :=
  (List.suffix_cons sign rest).trans trivia.suffix

theorem Trivia.behind_pair {first second : Char} (trivia : Trivia text (first :: second :: rest)) :
    rest <:+ text :=
  (List.suffix_cons second rest).trans trivia.behind_sign

theorem skipTrivia_suffix (text : List Char) : skipTrivia text <:+ text :=
  (trivia_skipTrivia text).suffix

theorem SpellsName.split {name : String} (spelled : SpellsName text name rest) :
    text = name.toList ++ rest := by
  cases spelled with
  | name _ _ _ => rw [String.toList_ofList]

/-- Bounds end with their closing brace. -/
theorem SpellsBounds.exists_body {value : UInt64 × UInt64}
    (spelled : SpellsBounds text value rest) : Exists fun body => text = body ++ '}' :: rest := by
  have closed : '}' :: rest <:+ text := by
    cases spelled with
    | same times closes => exact closes.suffix.trans times.oneAhead.suffix
    | dots least between most closes =>
        exact closes.suffix.trans (most.oneAhead.suffix.trans
          (between.behind_pair.trans least.oneAhead.suffix))
    | comma least between most closes =>
        exact closes.suffix.trans (most.oneAhead.suffix.trans
          (between.behind_sign.trans least.oneAhead.suffix))
  rcases closed with ⟨body, same⟩
  exact ⟨body, same.symm⟩

/-- What stands behind blanks and comments begins neither. -/
theorem visible_of_skipTriviaFrom {inComment : Bool} {symbol : Char}
    (left : skipTriviaFrom inComment text = symbol :: rest) :
    Text.isBlank symbol = false ∧ symbol ≠ '#' := by
  induction text generalizing inComment with
  | nil => cases left
  | cons character text inductionHypothesis =>
      unfold skipTriviaFrom at left
      split at left
      · exact inductionHypothesis left
      · split at left
        · exact inductionHypothesis left
        · next visible =>
            split at left
            · exact inductionHypothesis left
            · next noComment =>
                cases left
                exact ⟨Bool.eq_false_iff.mpr visible, noComment⟩

end Suffixes

/-! ## Places -/

namespace Cause

/-- What the text at fault looks like, and what comes behind it. -/
def Marks : Cause -> (spanned behind : List Char) -> Prop
  | unknownOperator symbol, spanned, _ => spanned = [symbol] ∧ isForeignOperator symbol = true
  | unexpectedChar character, spanned, _ => spanned = [character]
  | unclosedQuote quote, spanned, behind =>
      (Exists fun body => spanned = quote :: body ∧ '\n' ∉ body) ∧
        (behind = [] ∨ behind.head? = some '\n')
  | invalidEscape letter, spanned, _ => spanned = ['\\', letter]
  | escapeAtEnd, spanned, behind => spanned = ['\\'] ∧ behind = []
  | badCharLiteral, spanned, _ => Exists fun body => spanned = '\'' :: (body ++ ['\''])
  | malformedClass .neverClosed, spanned, _ => spanned = ['{']
  | malformedClass _, spanned, behind =>
      (Exists fun character => spanned = [character]) ∨ spanned = [] ∧ behind = []
  | badRepetition, spanned, _ => Exists fun body => spanned = '{' :: body
  | unclosedGroup, spanned, _ => spanned = ['(']
  | missingPattern, spanned, behind =>
      (Exists fun sign => sign ∈ [')', '|', '}'] ∧ spanned = [sign]) ∨ spanned = [] ∧ behind = []
  | missingArrow name, spanned, _ => spanned = name.toList
  | missingRule, spanned, _ | leftover, spanned, _ =>
      Exists fun character => spanned = [character] ∧ Text.isBlank character = false ∧
        character ≠ '#' ∧ isForeignOperator character = false
  | tooDeep _, spanned, _ =>
      (Exists fun sign => sign ∈ ['-', '?', '*', '+', '(', '|'] ∧ spanned = [sign]) ∨
        Exists fun body => spanned = '{' :: (body ++ ['}'])

end Cause

/-- The fault lies in the text and points at what its cause is about. -/
def Blames (text : List Char) (fault : Fault) : Prop :=
  Exists fun before => Exists fun spanned => text = before ++ (spanned ++ fault.after) ∧
    fault.place = spanned ++ fault.after ∧ fault.cause.Marks spanned fault.after

section Blames

variable {text part : List Char} {fault : Fault} {cause : Cause}

/-- A fault of an end of a text is a fault of the text. -/
theorem Blames.behind (blames : Blames part fault) (suffix : part <:+ text) :
    Blames text fault := by
  rcases blames with ⟨before, spanned, rfl, place, marks⟩
  rcases suffix with ⟨front, rfl⟩
  exact ⟨front ++ before, spanned, (List.append_assoc _ _ _).symm, place, marks⟩

theorem blames_here (spanned after : List Char) (marks : cause.Marks spanned after) :
    Blames (spanned ++ after) ⟨cause, spanned ++ after, after⟩ :=
  ⟨[], spanned, rfl, rfl, marks⟩

/-- A single character at the beginning of a text. -/
theorem blames_first {symbol : Char} {after : List Char} (marks : cause.Marks [symbol] after) :
    Blames (symbol :: after) ⟨cause, symbol :: after, after⟩ :=
  blames_here [symbol] after marks

/-- Nothing at the end of a text. -/
theorem blames_end (marks : cause.Marks [] []) : Blames text ⟨cause, [], []⟩ :=
  (blames_here [] [] marks).behind List.nil_suffix

theorem blames_atNext {symbol : Char} {after : List Char}
    (marks : isForeignOperator symbol = false -> cause.Marks [symbol] after) :
    Blames (symbol :: after) (Fault.atNext cause (symbol :: after)) := by
  rw [Fault.atNext]
  split
  · next foreign => exact blames_first ⟨rfl, foreign⟩
  · next native => exact blames_first (marks (Bool.eq_false_iff.mpr native))

end Blames

/-! ## Literals and classes -/

/-- A literal that is not closed is blamed from its opening quote on. -/
private theorem blames_unclosed {quote : Char} {opening passed after : List Char}
    (opened : opening = quote :: (passed ++ after)) (onLine : '\n' ∉ passed)
    (ends : after = [] ∨ after.head? = some '\n') :
    Blames opening ⟨.unclosedQuote quote, opening, after⟩ :=
  ⟨[], quote :: passed, opened, opened, ⟨passed, rfl, onLine⟩, ends⟩

/-- What has been read of a literal is on one line, since no escape is spelled
with a line break. -/
theorem blames_of_literalBody {quote : Char} {opening text : List Char} {fault : Fault}
    (failed : literalBody quote opening text = .error fault) (passed : List Char)
    (opened : opening = quote :: (passed ++ text)) (onLine : '\n' ∉ passed) :
    Blames opening fault := by
  fun_induction literalBody quote opening text generalizing passed with
  | case1 =>
      cases failed
      exact blames_unclosed opened onLine (Or.inl rfl)
  | case2 rest => cases failed
  | case3 =>
      cases failed
      have here : Blames ['\\'] ⟨.escapeAtEnd, ['\\'], []⟩ := blames_here ['\\'] [] ⟨rfl, rfl⟩
      exact here.behind (opened ▸ List.suffix_append (quote :: passed) _)
  | case4 letter behind unknown =>
      cases failed
      have here : Blames ('\\' :: letter :: behind)
          ⟨.invalidEscape letter, '\\' :: letter :: behind, behind⟩ :=
        blames_here ['\\', letter] behind rfl
      exact here.behind (opened ▸ List.suffix_append (quote :: passed) _)
  | case5 letter behind meant known fault failedBehind _ inductionHypothesis =>
      cases failed
      have noBreak : '\n' ≠ letter := by
        rintro rfl
        cases known
      refine inductionHypothesis failedBehind (passed ++ ['\\', letter]) ?_ ?_
      · rw [opened, List.append_assoc]
        rfl
      · rw [List.mem_append, List.mem_cons, List.mem_singleton]
        rintro (early | backslash | same)
        · exact onLine early
        · exact absurd backslash (by decide)
        · exact noBreak same
  | case6 => cases failed
  | case7 rest =>
      cases failed
      exact blames_unclosed opened onLine (Or.inr rfl)
  | case8 character rest _ _ noNewline fault failedBehind inductionHypothesis =>
      cases failed
      refine inductionHypothesis failedBehind (passed ++ [character]) ?_ ?_
      · rw [opened, List.append_assoc]
        rfl
      · rw [List.mem_append, List.mem_singleton]
        rintro (early | same)
        · exact onLine early
        · exact noNewline same.symm
  | case9 => cases failed

theorem blames_of_charLiteral {text : List Char} {fault : Fault}
    (failed : charLiteral ('\'' :: text) text = .error fault) : Blames ('\'' :: text) fault := by
  rw [charLiteral] at failed
  split at failed
  · next unread =>
      cases failed
      exact blames_of_literalBody unread [] rfl List.not_mem_nil
  · next content body =>
      split at failed
      · cases failed
      · cases failed
        rcases (spellsBody_of_literalBody body).exists_body with ⟨inside, same, _⟩
        have whole : '\'' :: text = '\'' :: (inside ++ ['\'']) ++ content.rest :=
          congrArg ('\'' :: ·) (same.trans (List.append_assoc inside ['\''] content.rest).symm)
        exact ⟨[], _, whole, whole, inside, rfl⟩

theorem blames_of_rangeEnd {text : List Char} {fault : Fault}
    (failed : rangeEnd text = .error fault) : Blames text fault := by
  rw [rangeEnd] at failed
  rcases sign?_cases '\'' text with ⟨quote, found, _⟩ | ⟨absent, _⟩
  · rw [found] at failed
    dsimp only at failed
    split at failed
    · next unread =>
        cases failed
        exact (blames_of_charLiteral unread).behind (trivia_of_sign? found).suffix
    · cases failed
  · rw [absent] at failed
    cases failed
    refine Blames.behind ?_ (skipTrivia_suffix text)
    cases skipTrivia text with
    | nil => exact blames_end (Or.inr ⟨rfl, rfl⟩)
    | cons character rest => exact blames_first (Or.inl ⟨character, rfl⟩)

theorem blames_of_classItem {text : List Char} {fault : Fault}
    (failed : classItem ('\'' :: text) text = .error fault) : Blames ('\'' :: text) fault := by
  rw [classItem] at failed
  split at failed
  · next unread =>
      cases failed
      exact blames_of_charLiteral unread
  · next first literal =>
      have behind := (spellsBody_of_charLiteral literal).oneAhead.suffix.trans (List.suffix_cons '\'' text)
      rcases pair?_cases '.' '.' first.rest with ⟨dots, found, _⟩ | ⟨absent, _⟩
      · rw [found] at failed
        dsimp only at failed
        split at failed
        · next unread =>
            cases failed
            exact (blames_of_rangeEnd unread).behind ((trivia_of_pair? found).behind_pair.trans behind)
        · cases failed
      · rw [absent] at failed
        cases failed

private theorem behind_item {text : List Char} {sign : Reading Char text}
    (found : next? text = some sign) (isQuote : sign.value = '\'')
    {item : Reading ClassItem sign.rest} (read : classItem sign.here sign.rest = .ok item) :
    item.rest <:+ text :=
  (spellsItem_of_classItem read).oneAhead.suffix.trans (isQuote ▸ (trivia_of_next? found).suffix)

/-- A class that is not closed is blamed at its opening brace. -/
theorem blames_of_classItems {opening body text : List Char} {fault : Fault}
    (failed : classItems opening text = .error fault) (opened : opening = '{' :: body)
    (inside : text <:+ opening) : Blames opening fault := by
  have unclosed : Blames opening ⟨.malformedClass .neverClosed, opening, opening.drop 1⟩ :=
    opened ▸ blames_first rfl
  fun_induction classItems opening text with
  | case1 text absent =>
      cases failed
      exact unclosed
  | case2 => cases failed
  | case3 text sign found _ isQuote fault unread =>
      cases failed
      have before := trivia_of_next? found
      rw [isQuote] at before
      rw [Reading.here, isQuote] at unread
      exact (blames_of_classItem unread).behind (before.suffix.trans inside)
  | case4 =>
      cases failed
      exact unclosed
  | case5 => cases failed
  | case6 text sign found _ isQuote item itemRead separator separated _ _ fault unread
      inductionHypothesis =>
      cases failed
      exact inductionHypothesis unread ((trivia_of_next? separated).behind_sign.trans
        ((behind_item found isQuote itemRead).trans inside))
  | case7 => cases failed
  | case8 text sign found _ isQuote item itemRead separator separated _ _ =>
      cases failed
      have here : Blames separator.here
          ⟨.malformedClass .missingSeparator, separator.here, separator.rest⟩ :=
        blames_first (Or.inl ⟨separator.value, rfl⟩)
      exact here.behind ((trivia_of_next? separated).suffix.trans
        ((behind_item found isQuote itemRead).trans inside))
  | case9 text sign found _ _ =>
      cases failed
      have here : Blames sign.here ⟨.malformedClass .notAnItem, sign.here, sign.rest⟩ :=
        blames_first (Or.inl ⟨sign.value, rfl⟩)
      exact here.behind ((trivia_of_next? found).suffix.trans inside)

/-! ## Repetition bounds -/

section Bounds

variable {opening body text : List Char} {fault : Fault}

/-- Bounds are blamed from their opening brace on, wherever in them something is
wrong. -/
private theorem blames_badRepetition {after : List Char} (opened : opening = '{' :: body)
    (inside : after <:+ body) : Blames opening ⟨.badRepetition, opening, after⟩ := by
  rcases inside with ⟨taken, rfl⟩
  exact ⟨[], '{' :: taken, opened, opened, taken, rfl⟩

private theorem blames_of_count (failed : count opening text = .error fault)
    (opened : opening = '{' :: body) (inside : text <:+ body) : Blames opening fault := by
  rw [count] at failed
  split at failed
  · cases failed
    exact blames_badRepetition opened List.nil_suffix
  · next first found =>
      have behind := (trivia_of_next? found).behind_sign.trans inside
      split at failed
      · dsimp only at failed
        split at failed
        · cases failed
        · cases failed
          exact blames_badRepetition opened ((List.dropWhile_suffix _).trans behind)
      · cases failed
        exact blames_badRepetition opened behind

private theorem blames_of_secondCount? (failed : secondCount? opening text = .error fault)
    (opened : opening = '{' :: body) (inside : text <:+ body) : Blames opening fault := by
  rw [secondCount?] at failed
  split at failed
  · cases failed
  · next separator found =>
      have behind : separator.rest <:+ text := by
        rcases pair?_cases '.' '.' text with ⟨dots, dotted, _⟩ | ⟨noDots, _⟩
        · rw [dotted, Option.orElse_some] at found
          cases found
          exact (trivia_of_pair? dotted).behind_pair
        · rw [noDots, Option.orElse_none] at found
          exact (trivia_of_sign? found).behind_sign
      split at failed
      · next unread =>
          cases failed
          exact blames_of_count unread opened (behind.trans inside)
      · cases failed

private theorem blames_of_closeBounds {reading : Reading (UInt64 × UInt64) text}
    (failed : closeBounds opening reading = .error fault) (opened : opening = '{' :: body)
    (inside : reading.rest <:+ body) : Blames opening fault := by
  rw [closeBounds] at failed
  split at failed
  · cases failed
    exact blames_badRepetition opened
      ((List.drop_suffix _ _).trans ((skipTrivia_suffix _).trans inside))
  · cases failed

theorem blames_of_bounds (failed : bounds ('{' :: text) text = .error fault) :
    Blames ('{' :: text) fault := by
  rw [bounds] at failed
  split at failed
  · next unread =>
      cases failed
      exact blames_of_count unread rfl List.suffix_rfl
  · next least counted =>
      have behind := (spellsCount_of_count counted).oneAhead.suffix
      split at failed
      · next unread =>
          cases failed
          exact blames_of_secondCount? unread rfl behind
      · exact blames_of_closeBounds failed rfl behind
      · next most second =>
          refine blames_of_closeBounds failed rfl ?_
          rcases spellsSecond_of_secondCount? second with ⟨more, dotted | separated, spelled⟩
          · exact spelled.oneAhead.suffix.trans (dotted.behind_pair.trans behind)
          · exact spelled.oneAhead.suffix.trans (separated.behind_sign.trans behind)

end Bounds

/-! ## Atoms -/

section Atoms

variable {symbol : Char} {text after : List Char} {fault : Fault}

/-- Where a name can begin there is a name, so an atom that begins like one is
never missing. -/
theorem ruleReference_of_isNameStart (starts : isNameStart symbol = true) (after : List Char) :
    Exists fun name => name? (symbol :: after) = some name ∧
      ruleReference symbol after = .ok (name.map .rule) := by
  refine ⟨_, if_pos starts, ?_⟩
  rw [ruleReference, name?, if_pos starts]

private theorem blames_of_ruleReference (failed : ruleReference symbol after = .error fault) :
    Blames (symbol :: after) fault := by
  rw [ruleReference] at failed
  split at failed
  · cases failed
  · split at failed
    · next closing =>
        cases failed
        refine blames_first (Or.inl ⟨symbol, ?_, rfl⟩)
        rcases closing with rfl | rfl | rfl <;> decide
    · cases failed
      exact blames_atNext fun _ => rfl

private theorem blames_of_textLiteral {build : String -> Pattern}
    (failed : textLiteral build text = .error fault) : Blames ('"' :: text) fault := by
  rw [textLiteral] at failed
  split at failed
  · next unread =>
      cases failed
      exact blames_of_literalBody unread [] rfl List.not_mem_nil
  · cases failed

theorem blames_of_atom (failed : atom symbol after = .error fault) :
    Blames (symbol :: after) fault := by
  unfold atom at failed
  split at failed
  · split at failed
    · next unread =>
        cases failed
        exact blames_of_charLiteral unread
    · cases failed
  · split at failed
    · next unread =>
        cases failed
        exact blames_of_textLiteral unread
    · cases failed
  · split at failed
    · next unread =>
        cases failed
        exact (blames_of_textLiteral unread).behind (List.suffix_cons _ _)
    · cases failed
  · cases failed
  · split at failed
    · next unread =>
        cases failed
        exact blames_of_classItems unread rfl (List.suffix_cons _ _)
    · cases failed
  · exact blames_of_ruleReference failed

end Atoms

end Reader
end ParsingMachine
