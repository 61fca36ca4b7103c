import ParsingMachine.Reader.Grammar

namespace ParsingMachine
namespace Reader

/-!
# The language of grammar texts

What a text spells is given by rules that know of no reader.  Each relation
below is between a text, what the beginning of the text spells, and the rest
of the text behind that.  Blanks and comments may stand in front of every
token; inside of a token there are none.

Patterns are spelled at five levels, from the loosest to the tightest: choices
at level 0, sequences at 1, unary operators at 2, repetitions at 3, and groups
and atoms at 4.  What is spelled at a level is spelled at every looser one.
There is no limit on the height of patterns here.
-/

/-- Blanks and comments stand between a text and the rest of it.  A comment
runs to the end of its line, or to the end of the text. -/
inductive Trivia : List Char -> List Char -> Prop where
  | nothing (text) : Trivia text text
  | blank {character text rest} :
      Text.isBlank character = true -> Trivia text rest -> Trivia (character :: text) rest
  | comment {words text rest} :
      '\n' ∉ words -> (text = [] ∨ text.head? = some '\n') -> Trivia text rest ->
      Trivia ('#' :: words ++ text) rest

/-! ## Tokens -/

/-- A name is as long as it can be. -/
inductive SpellsName : List Char -> String -> List Char -> Prop where
  | name {first part rest} :
      isNameStart first = true -> (forall character, character ∈ part -> isNamePart character = true) ->
      (forall character, rest.head? = some character -> isNamePart character = false) ->
      SpellsName (first :: part ++ rest) (String.ofList (first :: part)) rest

/-- The content of a literal behind its first quote, and the closing quote. -/
inductive SpellsBody (quote : Char) : List Char -> List Char -> List Char -> Prop where
  | close {rest} : SpellsBody quote (quote :: rest) [] rest
  | raw {character text content rest} :
      character ≠ quote -> character ≠ '\\' -> character ≠ '\n' ->
      SpellsBody quote text content rest ->
      SpellsBody quote (character :: text) (character :: content) rest
  | escape {letter meant text content rest} :
      Text.unescape? letter = some meant -> SpellsBody quote text content rest ->
      SpellsBody quote ('\\' :: letter :: text) (meant :: content) rest

/-- An item of a class. -/
inductive SpellsItem : List Char -> ClassItem -> List Char -> Prop where
  | char {text character rest} :
      SpellsBody '\'' text [character] rest -> SpellsItem ('\'' :: text) (.char character) rest
  | range {text first middle dots more last rest} :
      SpellsBody '\'' text [first] middle -> Trivia middle ('.' :: '.' :: dots) ->
      Trivia dots ('\'' :: more) -> SpellsBody '\'' more [last] rest ->
      SpellsItem ('\'' :: text) (.range first last) rest

/-- The items of a class and its closing brace.  Commas separate the items, and
one may stand behind the last item. -/
inductive SpellsItems : List Char -> List ClassItem -> List Char -> Prop where
  | close {text rest} : Trivia text ('}' :: rest) -> SpellsItems text [] rest
  | last {text start item middle rest} :
      Trivia text start -> SpellsItem start item middle -> Trivia middle ('}' :: rest) ->
      SpellsItems text [item] rest
  | more {text start item middle behind items rest} :
      Trivia text start -> SpellsItem start item middle -> Trivia middle (',' :: behind) ->
      SpellsItems behind items rest -> SpellsItems text (item :: items) rest

/-- A number in decimal digits. -/
inductive SpellsCount : List Char -> UInt64 -> List Char -> Prop where
  | count {text digits rest} :
      Trivia text (digits ++ rest) -> digits ≠ [] ->
      (forall digit, digit ∈ digits -> digit.isDigit = true) ->
      Nat.ofDigitChars 10 digits 0 < UInt64.size ->
      SpellsCount text (UInt64.ofNat (Nat.ofDigitChars 10 digits 0)) rest

/-- The bounds of a repetition behind the opening brace, and the closing
brace. -/
inductive SpellsBounds : List Char -> UInt64 × UInt64 -> List Char -> Prop where
  | same {text times middle rest} :
      SpellsCount text times middle -> Trivia middle ('}' :: rest) ->
      SpellsBounds text (times, times) rest
  | dots {text least middle behind most last rest} :
      SpellsCount text least middle -> Trivia middle ('.' :: '.' :: behind) ->
      SpellsCount behind most last -> Trivia last ('}' :: rest) ->
      SpellsBounds text (least, most) rest
  | comma {text least middle behind most last rest} :
      SpellsCount text least middle -> Trivia middle (',' :: behind) ->
      SpellsCount behind most last -> Trivia last ('}' :: rest) ->
      SpellsBounds text (least, most) rest

/-! ## Patterns and rules -/

/-- A pattern that holds no other pattern. -/
inductive SpellsAtom : List Char -> Pattern -> List Char -> Prop where
  | char {text character rest} :
      SpellsBody '\'' text [character] rest -> SpellsAtom ('\'' :: text) (.char character) rest
  | literal {text content rest} :
      SpellsBody '"' text content rest ->
      SpellsAtom ('"' :: text) (.literal (String.ofList content)) rest
  | literalAnyCase {text content rest} :
      SpellsBody '"' text content rest ->
      SpellsAtom ('i' :: '"' :: text) (.literalAnyCase (String.ofList content)) rest
  | any {rest} : SpellsAtom ('.' :: rest) .any rest
  | charClass {text items rest} :
      SpellsItems text items rest -> SpellsAtom ('{' :: text) (.charClass items) rest
  | rule {text name rest} : SpellsName text name rest -> SpellsAtom text (.rule name) rest

/-- A pattern at a level. -/
inductive SpellsPattern : Nat -> List Char -> Pattern -> List Char -> Prop where
  | tighter {level text pattern rest} :
      SpellsPattern (level + 1) text pattern rest -> SpellsPattern level text pattern rest
  | choice {text first middle behind second rest} :
      SpellsPattern 0 text first middle -> Trivia middle ('|' :: behind) ->
      SpellsPattern 1 behind second rest -> SpellsPattern 0 text (.choice first second) rest
  | sequence {text first middle behind second rest} :
      SpellsPattern 1 text first middle -> Trivia middle ('*' :: behind) ->
      SpellsPattern 2 behind second rest -> SpellsPattern 1 text (.sequence first second) rest
  | unary {text sign behind apply inner rest} :
      Trivia text (sign :: behind) -> unaryOperator? sign = some apply ->
      SpellsPattern 2 behind inner rest -> SpellsPattern 2 text (apply inner) rest
  | repeated {text inner middle behind bounds rest} :
      SpellsPattern 3 text inner middle -> Trivia middle ('{' :: behind) ->
      SpellsBounds behind bounds rest ->
      SpellsPattern 3 text (.repeated inner bounds.1 bounds.2) rest
  | group {text behind inner middle rest} :
      Trivia text ('(' :: behind) -> SpellsPattern 0 behind inner middle ->
      Trivia middle (')' :: rest) -> SpellsPattern 4 text (.group inner) rest
  | atom {text start pattern rest} :
      Trivia text start -> SpellsAtom start pattern rest -> SpellsPattern 4 text pattern rest

/-- Rule definitions, one behind the other, up to the end of the text. -/
inductive SpellsRules : List Char -> List Rule -> Prop where
  | none {text} : Trivia text [] -> SpellsRules text []
  | rule {text start name middle behind pattern rest rules} :
      Trivia text start -> SpellsName start name middle -> Trivia middle ('<' :: '-' :: behind) ->
      SpellsPattern 0 behind pattern rest -> SpellsRules rest rules ->
      SpellsRules text (⟨name, pattern⟩ :: rules)

/-! ## Blanks and comments -/

namespace Trivia

variable {text middle rest : List Char}

theorem trans (first : Trivia text middle) (second : Trivia middle rest) : Trivia text rest := by
  induction first with
  | nothing _ => exact second
  | blank isBlank _ inductionHypothesis => exact .blank isBlank (inductionHypothesis second)
  | comment inside ends _ inductionHypothesis =>
      exact .comment inside ends (inductionHypothesis second)

private theorem skip_comment {words : List Char} (inside : '\n' ∉ words)
    (ends : text = [] ∨ text.head? = some '\n') :
    skipTriviaFrom true (words ++ text) = skipTriviaFrom false text := by
  induction words with
  | nil =>
      rcases ends with rfl | newline
      · rfl
      · rcases List.head?_eq_some_iff.mp newline with ⟨behind, rfl⟩
        rfl
  | cons character words inductionHypothesis =>
      rw [List.mem_cons, not_or] at inside
      have stays : decide (character ≠ '\n') = true := decide_eq_true (Ne.symm inside.1)
      rw [List.cons_append, skipTriviaFrom, if_pos rfl, stays]
      exact inductionHypothesis inside.2

/-- Behind blanks and comments the same is left to be read as in front of
them. -/
theorem skipTrivia_eq (trivia : Trivia text rest) : skipTrivia text = skipTrivia rest := by
  induction trivia with
  | nothing _ => rfl
  | blank isBlank _ inductionHypothesis =>
      rw [← inductionHypothesis, skipTrivia, skipTriviaFrom, if_neg Bool.false_ne_true,
        if_pos isBlank]
      rfl
  | comment inside ends _ inductionHypothesis =>
      rw [← inductionHypothesis, skipTrivia, List.cons_append, skipTriviaFrom,
        if_neg Bool.false_ne_true, if_neg (by decide), if_pos rfl]
      exact skip_comment inside ends

end Trivia

/-- What the reader passes over are blanks and comments. -/
theorem trivia_skipTrivia (text : List Char) : Trivia text (skipTrivia text) := by
  have both : Trivia text (skipTriviaFrom false text) ∧
      Exists fun words => Exists fun behind => text = words ++ behind ∧ '\n' ∉ words ∧
        (behind = [] ∨ behind.head? = some '\n') ∧ Trivia behind (skipTriviaFrom true text) := by
    induction text with
    | nil => exact ⟨.nothing [], [], [], rfl, List.not_mem_nil, Or.inl rfl, .nothing []⟩
    | cons character text inductionHypothesis =>
        rcases inductionHypothesis with ⟨outside, words, behind, split, inside, ends, trivia⟩
        constructor
        · rw [skipTriviaFrom, if_neg Bool.false_ne_true]
          split
          · next isBlank => exact .blank isBlank outside
          · split
            · next hash =>
                subst hash split
                exact .comment inside ends trivia
            · exact .nothing _
        · rw [skipTriviaFrom, if_pos rfl]
          by_cases newline : character = '\n'
          · subst newline
            exact ⟨[], '\n' :: text, rfl, List.not_mem_nil, Or.inr rfl, .blank rfl outside⟩
          · refine ⟨character :: words, behind, ?_, ?_, ends, ?_⟩
            · rw [split, List.cons_append]
            · rw [List.mem_cons, not_or]
              exact ⟨fun same => newline same.symm, inside⟩
            · rw [decide_eq_true newline]
              exact trivia
  exact both.1

/-- A character that begins neither a blank nor a comment is not passed over. -/
theorem skipTrivia_cons {character : Char} {rest : List Char}
    (visible : Text.isBlank character = false) (noComment : character ≠ '#') :
    skipTrivia (character :: rest) = character :: rest := by
  rw [skipTrivia, skipTriviaFrom, if_neg Bool.false_ne_true, visible, if_neg Bool.false_ne_true,
    if_neg noComment]

/-- Characters of ASCII that show are not blank. -/
theorem isBlank_of_graphic {character : Char}
    (graphic : 0x21 ≤ character.toNat ∧ character.toNat ≤ 0x7E) :
    Text.isBlank character = false := by
  simp only [Text.isBlank, Text.blankRanges, List.any_cons, List.any_nil, Bool.or_false,
    Bool.or_eq_false_iff, decide_eq_false_iff_not]
  omega

theorem toNat_of_isDigit {digit : Char} (isDigit : digit.isDigit = true) :
    0x30 ≤ digit.toNat ∧ digit.toNat ≤ 0x39 := by
  simp only [Char.isDigit, Bool.and_eq_true, decide_eq_true_eq, ge_iff_le,
    UInt32.le_iff_toNat_le] at isDigit
  exact isDigit

theorem toNat_of_isNameStart {character : Char} (starts : isNameStart character = true) :
    0x41 ≤ character.toNat ∧ character.toNat ≤ 0x7A := by
  rw [isNameStart, Bool.or_eq_true] at starts
  rcases starts with letter | underscore
  · rcases Bool.or_eq_true_iff.mp letter with upper | lower
    · have between : 0x41 ≤ character.toNat ∧ character.toNat ≤ 0x5A :=
        (of_decide_eq_true upper).imp UInt32.le_iff_toNat_le.mp UInt32.le_iff_toNat_le.mp
      omega
    · rcases Bool.and_eq_true_iff.mp lower with ⟨above, below⟩
      have least : 0x61 ≤ character.toNat := UInt32.le_iff_toNat_le.mp (of_decide_eq_true above)
      have greatest : character.toNat ≤ 0x7A :=
        UInt32.le_iff_toNat_le.mp (of_decide_eq_true below)
      omega
  · rw [of_decide_eq_true underscore]
    decide

private theorem ne_hash_of_toNat {character : Char} (above : 0x24 ≤ character.toNat) :
    character ≠ '#' := by
  rintro rfl
  exact absurd above (by decide)

theorem skipTrivia_digit {digit : Char} {rest : List Char} (isDigit : digit.isDigit = true) :
    skipTrivia (digit :: rest) = digit :: rest := by
  have range := toNat_of_isDigit isDigit
  exact skipTrivia_cons (isBlank_of_graphic (by omega)) (ne_hash_of_toNat (by omega))

theorem skipTrivia_nameStart {character : Char} {rest : List Char}
    (starts : isNameStart character = true) :
    skipTrivia (character :: rest) = character :: rest := by
  have range := toNat_of_isNameStart starts
  exact skipTrivia_cons (isBlank_of_graphic (by omega)) (ne_hash_of_toNat (by omega))

theorem Trivia.eq_or_head {text rest : List Char} (trivia : Trivia text rest) :
    text = rest ∨ Exists fun character => text.head? = some character ∧
      (Text.isBlank character = true ∨ character = '#') := by
  cases trivia with
  | nothing _ => exact Or.inl rfl
  | blank isBlank _ => exact Or.inr ⟨_, rfl, Or.inl isBlank⟩
  | comment _ _ _ => exact Or.inr ⟨_, rfl, Or.inr rfl⟩

/-! ## Names -/

/-- A letter by itself is a name where no other part of a name follows it. -/
theorem spellsName_letter {letter : Char} {rest : List Char} (starts : isNameStart letter = true)
    (ends : forall character, rest.head? = some character -> isNamePart character = false) :
    SpellsName (letter :: rest) (String.ofList [letter]) rest :=
  @SpellsName.name letter [] rest starts (fun _ absent => absurd absent List.not_mem_nil) ends

/-! ## Signs -/

theorem trivia_of_next? {text : List Char} {next : Reading Char text}
    (found : next? text = some next) : Trivia text (next.value :: next.rest) := by
  have trivia := trivia_skipTrivia text
  rw [skipTrivia_of_next? found] at trivia
  exact trivia

theorem next?_of_skipTrivia {text rest : List Char} {character : Char}
    (left : skipTrivia text = character :: rest) :
    Exists fun next => next? text = some next ∧ next.value = character ∧ next.rest = rest := by
  cases found : next? text with
  | none =>
      rw [next?_eq_none_iff.mp found] at left
      cases left
  | some next =>
      rw [skipTrivia_of_next? found] at left
      cases left
      exact ⟨next, rfl, rfl, rfl⟩

/-- A sign is there, with the rest of the text behind it, or something else
comes next. -/
theorem sign?_cases (sign : Char) (text : List Char) :
    (Exists fun reading => sign? sign text = some reading ∧
        skipTrivia text = sign :: reading.rest) ∨
      (sign? sign text = none ∧ (skipTrivia text).head? ≠ some sign) := by
  rw [sign?]
  cases found : next? text with
  | none =>
      right
      rw [next?_eq_none_iff.mp found]
      exact ⟨rfl, fun same => by cases same⟩
  | some next =>
      rw [skipTrivia_of_next? found, Reading.here]
      by_cases same : next.value = sign
      · left
        refine ⟨_, if_pos same, ?_⟩
        rw [same]
        rfl
      · right
        exact ⟨if_neg same, fun equal => same (Option.some.inj equal)⟩

theorem trivia_of_sign? {sign : Char} {text : List Char} {reading : Reading Unit text}
    (found : sign? sign text = some reading) : Trivia text (sign :: reading.rest) := by
  rcases sign?_cases sign text with ⟨other, same, left⟩ | ⟨absent, _⟩
  · rw [found] at same
    cases same
    exact left ▸ trivia_skipTrivia text
  · rw [found] at absent
    cases absent

theorem sign?_of_skipTrivia {sign : Char} {text rest : List Char}
    (left : skipTrivia text = sign :: rest) :
    Exists fun reading => sign? sign text = some reading ∧ reading.rest = rest := by
  rcases sign?_cases sign text with ⟨reading, found, same⟩ | ⟨_, other⟩
  · rw [left] at same
    cases same
    exact ⟨reading, found, rfl⟩
  · rw [left] at other
    exact absurd rfl other

theorem pair?_cases (first second : Char) (text : List Char) :
    (Exists fun reading => pair? first second text = some reading ∧
        skipTrivia text = first :: second :: reading.rest) ∨
      (pair? first second text = none ∧
        forall rest, skipTrivia text ≠ first :: second :: rest) := by
  rw [pair?]
  rcases sign?_cases first text with ⟨sign, found, left⟩ | ⟨absent, other⟩
  · rw [found, left]
    dsimp only
    split
    · next ended =>
        right
        rw [ended]
        exact ⟨rfl, fun rest same => by cases same⟩
    · next character behind continued =>
        by_cases same : character = second
        · left
          exact ⟨_, if_pos same, congrArg (first :: ·) (same ▸ continued)⟩
        · right
          refine ⟨if_neg same, fun rest equal => same ?_⟩
          rw [continued] at equal
          exact (List.cons.inj (List.cons.inj equal).2).1
  · right
    rw [absent]
    refine ⟨rfl, fun rest same => other ?_⟩
    rw [same]
    rfl

theorem trivia_of_pair? {first second : Char} {text : List Char} {reading : Reading Unit text}
    (found : pair? first second text = some reading) :
    Trivia text (first :: second :: reading.rest) := by
  rcases pair?_cases first second text with ⟨other, same, left⟩ | ⟨absent, _⟩
  · rw [found] at same
    cases same
    exact left ▸ trivia_skipTrivia text
  · rw [found] at absent
    cases absent

theorem pair?_of_skipTrivia {first second : Char} {text rest : List Char}
    (left : skipTrivia text = first :: second :: rest) :
    Exists fun reading => pair? first second text = some reading ∧ reading.rest = rest := by
  rcases pair?_cases first second text with ⟨reading, found, same⟩ | ⟨_, other⟩
  · rw [left] at same
    cases same
    exact ⟨reading, found, rfl⟩
  · exact absurd left (other rest)

end Reader
end ParsingMachine
