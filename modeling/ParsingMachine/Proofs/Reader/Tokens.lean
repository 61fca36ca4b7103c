import ParsingMachine.Proofs.Reader.Spelling

namespace ParsingMachine
namespace Reader

/-!
# Tokens are read as they are spelled

For every reader of something that holds no pattern there are two lemmas: what
it reads is spelled by the text, and what a text spells is read.  A reader
takes no choice back.  Where the beginning of a text could be taken in more
than one way, the second lemma asks for what comes behind.
-/

/-- A reader has taken the value off a text and left the rest of it. -/
def Gives {α : Type} {text : List Char} (result : Except Fault (Reading α text)) (value : α)
    (rest : List Char) : Prop :=
  Exists fun reading => result = .ok reading ∧ reading.value = value ∧ reading.rest = rest

theorem gives_ok {α : Type} {text : List Char} (reading : Reading α text) :
    Gives (.ok reading) reading.value reading.rest :=
  ⟨reading, rfl, rfl, rfl⟩

/-! ## Runs of characters -/

section Runs

variable {accepted : Char -> Bool} {run rest : List Char}

private theorem mem_takeWhile {character : Char} (listed : character ∈ rest.takeWhile accepted) :
    accepted character = true :=
  List.all_eq_true.mp List.all_takeWhile character listed

private theorem head?_dropWhile {character : Char}
    (headed : (rest.dropWhile accepted).head? = some character) : accepted character = false := by
  have stopped := List.head?_dropWhile_not accepted rest
  rw [headed] at stopped
  exact stopped

private theorem takeWhile_run (inside : forall character, character ∈ run -> accepted character = true)
    (ends : forall character, rest.head? = some character -> accepted character = false) :
    (run ++ rest).takeWhile accepted = run := by
  rw [List.takeWhile_append_of_pos inside]
  cases rest with
  | nil => exact List.append_nil run
  | cons character rest =>
      rw [List.takeWhile_cons, ends character rfl, if_neg Bool.false_ne_true, List.append_nil]

private theorem dropWhile_run (inside : forall character, character ∈ run -> accepted character = true)
    (ends : forall character, rest.head? = some character -> accepted character = false) :
    (run ++ rest).dropWhile accepted = rest := by
  rw [List.dropWhile_append_of_pos inside]
  cases rest with
  | nil => rfl
  | cons character rest =>
      rw [List.dropWhile_cons, ends character rfl, if_neg Bool.false_ne_true]

end Runs

/-! ## Names -/

/-- A name is read off the beginning of a text, or no name begins there. -/
theorem name?_cases (text : List Char) :
    (Exists fun reading => name? text = some reading ∧
        SpellsName text reading.value reading.rest) ∨
      (name? text = none ∧
        forall character, text.head? = some character -> isNameStart character = false) := by
  cases text with
  | nil => exact Or.inr ⟨rfl, fun _ headed => by cases headed⟩
  | cons first rest =>
      by_cases starts : isNameStart first = true
      · refine Or.inl ⟨_, if_pos starts, ?_⟩
        have spelled : SpellsName (first :: rest.takeWhile isNamePart ++ rest.dropWhile isNamePart)
            (String.ofList (first :: rest.takeWhile isNamePart)) (rest.dropWhile isNamePart) :=
          .name starts (fun _ => mem_takeWhile) (fun _ => head?_dropWhile)
        rw [List.cons_append, List.takeWhile_append_dropWhile] at spelled
        exact spelled
      · refine Or.inr ⟨if_neg starts, ?_⟩
        intro character headed
        cases headed
        exact Bool.eq_false_iff.mpr starts

theorem name?_of_spells {text rest : List Char} {name : String}
    (spelled : SpellsName text name rest) :
    Exists fun reading => name? text = some reading ∧ reading.value = name ∧
      reading.rest = rest := by
  cases spelled with
  | name starts parts ends =>
      refine ⟨_, if_pos starts, ?_, dropWhile_run parts ends⟩
      exact congrArg (fun part => String.ofList (_ :: part)) (takeWhile_run parts ends)

/-! ## Literals -/

theorem spellsBody_of_literalBody {quote : Char} {opening text : List Char}
    {reading : Reading (List Char) text} (read : literalBody quote opening text = .ok reading) :
    SpellsBody quote text reading.value reading.rest := by
  fun_induction literalBody quote opening text with
  | case2 rest =>
      cases read
      exact .close
  | case6 letter rest meant isEscape content readRest _ inductionHypothesis =>
      cases read
      exact .escape isEscape (inductionHypothesis readRest)
  | case9 character rest noQuote noBackslash noNewline content readRest inductionHypothesis =>
      cases read
      exact .raw noQuote noBackslash noNewline (inductionHypothesis readRest)
  | _ => cases read

theorem literalBody_gives {quote : Char} (opening : List Char) {text content rest : List Char}
    (isQuote : quote ≠ '\\') (spelled : SpellsBody quote text content rest) :
    Gives (literalBody quote opening text) content rest := by
  induction spelled with
  | close =>
      rw [literalBody.eq_def]
      simp only [if_pos]
      exact gives_ok _
  | raw noQuote noBackslash noNewline _ inductionHypothesis =>
      rcases inductionHypothesis with ⟨reading, read, rfl, rfl⟩
      rw [literalBody.eq_def]
      simp only [if_neg noQuote, if_neg noBackslash, if_neg noNewline, read]
      exact gives_ok _
  | escape isEscape _ inductionHypothesis =>
      rcases inductionHypothesis with ⟨reading, read, rfl, rfl⟩
      rw [literalBody.eq_def]
      simp only [if_neg isQuote.symm, if_pos, isEscape, read]
      exact gives_ok _

theorem spellsBody_of_charLiteral {opening text : List Char} {reading : Reading Char text}
    (read : charLiteral opening text = .ok reading) :
    SpellsBody '\'' text [reading.value] reading.rest := by
  rw [charLiteral] at read
  split at read
  · cases read
  · next content body =>
      split at read
      · next character single =>
          cases read
          have spelled := spellsBody_of_literalBody body
          rw [single] at spelled
          exact spelled
      · cases read

theorem charLiteral_gives (opening : List Char) {text rest : List Char} {character : Char}
    (spelled : SpellsBody '\'' text [character] rest) :
    Gives (charLiteral opening text) character rest := by
  rcases literalBody_gives opening (by decide) spelled with ⟨reading, read, single, rfl⟩
  rw [charLiteral, read]
  simp only [single]
  exact gives_ok _

/-! ## Character classes -/

theorem spells_of_rangeEnd {text : List Char} {reading : Reading Char text}
    (read : rangeEnd text = .ok reading) :
    Exists fun more => Trivia text ('\'' :: more) ∧
      SpellsBody '\'' more [reading.value] reading.rest := by
  rw [rangeEnd] at read
  rcases sign?_cases '\'' text with ⟨quote, found, _⟩ | ⟨absent, _⟩
  · rw [found] at read
    dsimp only at read
    split at read
    · cases read
    · next last literal =>
        cases read
        exact ⟨quote.rest, trivia_of_sign? found, spellsBody_of_charLiteral literal⟩
  · rw [absent] at read
    cases read

theorem rangeEnd_gives {text more rest : List Char} {last : Char}
    (opened : Trivia text ('\'' :: more)) (spelled : SpellsBody '\'' more [last] rest) :
    Gives (rangeEnd text) last rest := by
  have left : skipTrivia text = '\'' :: more := opened.skipTrivia_eq
  rcases sign?_of_skipTrivia left with ⟨quote, found, rfl⟩
  rcases charLiteral_gives ('\'' :: quote.rest) spelled with ⟨reading, read, rfl, rfl⟩
  rw [rangeEnd, found]
  simp only [read]
  exact gives_ok _

theorem spellsItem_of_classItem {opening text : List Char} {reading : Reading ClassItem text}
    (read : classItem opening text = .ok reading) :
    SpellsItem ('\'' :: text) reading.value reading.rest := by
  rw [classItem] at read
  split at read
  · cases read
  · next first literal =>
      have spelled := spellsBody_of_charLiteral literal
      rcases pair?_cases '.' '.' first.rest with ⟨dots, found, _⟩ | ⟨absent, _⟩
      · rw [found] at read
        dsimp only at read
        split at read
        · cases read
        · next last upper =>
            cases read
            rcases spells_of_rangeEnd upper with ⟨more, opened, upperSpelled⟩
            exact .range spelled (trivia_of_pair? found) opened upperSpelled
      · rw [absent] at read
        cases read
        exact .char spelled

/-- An item is read as a single character only if no two dots follow. -/
theorem classItem_gives (opening : List Char) {text rest : List Char} {item : ClassItem}
    (spelled : SpellsItem ('\'' :: text) item rest)
    (ends : forall behind, skipTrivia rest ≠ '.' :: '.' :: behind) :
    Gives (classItem opening text) item rest := by
  cases spelled with
  | char literal =>
      rcases charLiteral_gives opening literal with ⟨first, read, rfl, rfl⟩
      rcases pair?_cases '.' '.' first.rest with ⟨dots, _, left⟩ | ⟨absent, _⟩
      · exact absurd left (ends dots.rest)
      · rw [classItem, read]
        simp only [absent]
        exact gives_ok _
  | range lower between opened upper =>
      rcases charLiteral_gives opening lower with ⟨first, read, rfl, rfl⟩
      rcases pair?_of_skipTrivia between.skipTrivia_eq with ⟨dots, found, rfl⟩
      rcases rangeEnd_gives opened upper with ⟨last, lastRead, rfl, rfl⟩
      rw [classItem, read]
      simp only [found, lastRead]
      exact gives_ok _

theorem spellsItems_of_classItems {opening text : List Char}
    {reading : Reading (List ClassItem) text} (read : classItems opening text = .ok reading) :
    SpellsItems text reading.value reading.rest := by
  fun_induction classItems opening text with
  | case2 text sign found closes =>
      cases read
      have trivia := trivia_of_next? found
      rw [closes] at trivia
      exact .close trivia
  | case5 text sign found _ opens item itemRead separator separated closes =>
      cases read
      have before := trivia_of_next? found
      have behind := trivia_of_next? separated
      rw [opens] at before
      rw [closes] at behind
      exact .last before (spellsItem_of_classItem itemRead) behind
  | case7 text sign found _ opens item itemRead separator separated _ comma items itemsRead
      inductionHypothesis =>
      cases read
      have before := trivia_of_next? found
      have behind := trivia_of_next? separated
      rw [opens] at before
      rw [comma] at behind
      exact .more before (spellsItem_of_classItem itemRead) behind (inductionHypothesis itemsRead)
  | _ => cases read

theorem SpellsItem.exists_quote {start middle : List Char} {item : ClassItem}
    (spelled : SpellsItem start item middle) : Exists fun text => start = '\'' :: text := by
  cases spelled with
  | char _ => exact ⟨_, rfl⟩
  | range _ _ _ _ => exact ⟨_, rfl⟩

/-- An item and the sign behind it, where that sign is no dot. -/
private theorem item_then_sign {text start middle behind : List Char} {item : ClassItem}
    {sign : Char} (before : Trivia text start) (spelled : SpellsItem start item middle)
    (ends : skipTrivia middle = sign :: behind) (noDot : sign ≠ '.') :
    Exists fun quote => next? text = some quote ∧ quote.value = '\'' ∧
      Exists fun reading => classItem quote.here quote.rest = .ok reading ∧ reading.value = item ∧
        Exists fun separator => next? reading.rest = some separator ∧ separator.value = sign ∧
          separator.rest = behind := by
  rcases spelled.exists_quote with ⟨body, rfl⟩
  rcases next?_of_skipTrivia before.skipTrivia_eq with
    ⟨quote, found, isQuote, rfl⟩
  have noDots : forall more, skipTrivia middle ≠ '.' :: '.' :: more := by
    intro more same
    rw [ends] at same
    exact noDot (List.cons.inj same).1
  rcases classItem_gives quote.here spelled noDots with ⟨reading, read, isItem, rfl⟩
  rcases next?_of_skipTrivia ends with ⟨separator, separated, isSign, rfl⟩
  exact ⟨quote, found, isQuote, reading, read, isItem, separator, separated, isSign, rfl⟩

theorem classItems_gives (opening : List Char) {text rest : List Char} {items : List ClassItem}
    (spelled : SpellsItems text items rest) : Gives (classItems opening text) items rest := by
  induction spelled with
  | close closes =>
      rcases next?_of_skipTrivia closes.skipTrivia_eq with
        ⟨sign, found, isBrace, rfl⟩
      rw [classItems.eq_def]
      simp only [found, if_pos isBrace]
      exact gives_ok _
  | last before item behind =>
      rcases item_then_sign before item behind.skipTrivia_eq (by decide) with
        ⟨quote, found, isQuote, reading, read, rfl, separator, separated, isBrace, rfl⟩
      have notBrace : quote.value ≠ '}' := by
        rw [isQuote]
        decide
      rw [classItems.eq_def]
      simp only [found, if_neg notBrace, if_pos isQuote, read, separated, if_pos isBrace]
      exact gives_ok _
  | more before item behind _ inductionHypothesis =>
      rcases item_then_sign before item behind.skipTrivia_eq (by decide) with
        ⟨quote, found, isQuote, reading, read, rfl, separator, separated, isComma, rfl⟩
      rcases inductionHypothesis with ⟨others, othersRead, rfl, rfl⟩
      have notBrace : quote.value ≠ '}' := by
        rw [isQuote]
        decide
      have stillNotBrace : separator.value ≠ '}' := by
        rw [isComma]
        decide
      rw [classItems.eq_def]
      simp only [found, if_neg notBrace, if_pos isQuote, read, separated, if_neg stillNotBrace,
        if_pos isComma, othersRead]
      exact gives_ok _

/-! ## Repetition bounds -/

theorem spellsCount_of_count {opening text : List Char} {reading : Reading UInt64 text}
    (read : count opening text = .ok reading) : SpellsCount text reading.value reading.rest := by
  rw [count] at read
  split at read
  · cases read
  · next first found =>
      split at read
      · next isDigit =>
          dsimp only at read
          split at read
          · next small =>
              cases read
              have trivia := trivia_of_next? found
              rw [← List.takeWhile_append_dropWhile (p := Char.isDigit) (l := first.rest),
                ← List.cons_append] at trivia
              refine .count trivia (List.cons_ne_nil _ _) ?_ small
              intro digit listed
              rcases List.mem_cons.mp listed with rfl | listed
              · exact isDigit
              · exact mem_takeWhile listed
          · cases read
      · cases read

/-- A number is read only if no further digit follows. -/
theorem count_gives (opening : List Char) {text rest : List Char} {value : UInt64}
    (spelled : SpellsCount text value rest)
    (ends : forall character, rest.head? = some character -> character.isDigit = false) :
    Gives (count opening text) value rest := by
  cases spelled with
  | count before nonempty isDigits small =>
      rcases List.exists_cons_of_ne_nil nonempty with ⟨digit, digits, rfl⟩
      have isDigit := isDigits digit List.mem_cons_self
      have others : forall other, other ∈ digits -> other.isDigit = true :=
        fun other listed => isDigits other (List.mem_cons_of_mem _ listed)
      rcases next?_of_skipTrivia (before.skipTrivia_eq.trans (skipTrivia_digit isDigit)) with
        ⟨first, found, rfl, behind⟩
      have taken : first.rest.takeWhile Char.isDigit = digits := by
        rw [behind]
        exact takeWhile_run others ends
      have dropped : first.rest.dropWhile Char.isDigit = rest := by
        rw [behind]
        exact dropWhile_run others ends
      rw [count, found]
      dsimp only
      rw [if_pos isDigit]
      simp only [taken]
      rw [if_pos small]
      exact ⟨_, rfl, rfl, dropped⟩

/-! ### Bounds -/

/-- A sign that can stand behind a number. -/
private theorem not_digit_before {text rest : List Char} {sign : Char}
    (trivia : Trivia text (sign :: rest)) (noDigit : sign.isDigit = false) :
    forall character, text.head? = some character -> character.isDigit = false := by
  intro character headed
  rcases trivia.eq_or_head with rfl | ⟨first, same, notDigit⟩
  · cases headed
    exact noDigit
  · rw [headed] at same
    cases same
    rw [Bool.eq_false_iff]
    intro isDigit
    have range := toNat_of_isDigit isDigit
    rcases notDigit with isBlank | rfl
    · rw [isBlank_of_graphic (by omega)] at isBlank
      cases isBlank
    · exact absurd isDigit (by decide)

/-- The sign in front of the second number, and the number. -/
def SpellsSecond (text : List Char) (most : UInt64) (rest : List Char) : Prop :=
  Exists fun behind =>
    (Trivia text ('.' :: '.' :: behind) ∨ Trivia text (',' :: behind)) ∧
      SpellsCount behind most rest

theorem spellsSecond_of_secondCount? {opening text : List Char}
    {reading : Reading UInt64 text} (read : secondCount? opening text = .ok (some reading)) :
    SpellsSecond text reading.value reading.rest := by
  rw [secondCount?] at read
  rcases pair?_cases '.' '.' text with ⟨dots, found, _⟩ | ⟨noDots, _⟩
  · rw [found, Option.orElse_some] at read
    dsimp only at read
    split at read
    · cases read
    · next most counted =>
        cases read
        exact ⟨dots.rest, Or.inl (trivia_of_pair? found), spellsCount_of_count counted⟩
  · rw [noDots, Option.orElse_none] at read
    rcases sign?_cases ',' text with ⟨comma, found, _⟩ | ⟨noComma, _⟩
    · rw [found] at read
      dsimp only at read
      split at read
      · cases read
      · next most counted =>
          cases read
          exact ⟨comma.rest, Or.inr (trivia_of_sign? found), spellsCount_of_count counted⟩
    · rw [noComma] at read
      cases read

private theorem secondCount?_of_brace (opening : List Char) {text rest : List Char}
    (closes : Trivia text ('}' :: rest)) : secondCount? opening text = .ok none := by
  have left := closes.skipTrivia_eq
  rw [secondCount?]
  rcases pair?_cases '.' '.' text with ⟨dots, _, other⟩ | ⟨noDots, _⟩
  · rw [left] at other
    cases other
  · rcases sign?_cases ',' text with ⟨comma, _, other⟩ | ⟨noComma, _⟩
    · rw [left] at other
      cases other
    · rw [noDots, Option.orElse_none, noComma]

private theorem secondCount?_gives (opening : List Char) {text rest : List Char} {most : UInt64}
    (spelled : SpellsSecond text most rest)
    (ends : forall character, rest.head? = some character -> character.isDigit = false) :
    Exists fun reading => secondCount? opening text = .ok (some reading) ∧ reading.value = most ∧
      reading.rest = rest := by
  rcases spelled with ⟨behind, dotted | separated, counted⟩
  · have left := dotted.skipTrivia_eq
    rcases pair?_of_skipTrivia left with ⟨dots, found, rfl⟩
    rcases count_gives opening counted ends with ⟨reading, read, rfl, rfl⟩
    rw [secondCount?, found, Option.orElse_some]
    simp only [read]
    exact ⟨_, rfl, rfl, rfl⟩
  · have left := separated.skipTrivia_eq
    rcases pair?_cases '.' '.' text with ⟨dots, _, other⟩ | ⟨noDots, _⟩
    · rw [left] at other
      cases other
    · rcases sign?_of_skipTrivia left with ⟨comma, found, rfl⟩
      rcases count_gives opening counted ends with ⟨reading, read, rfl, rfl⟩
      rw [secondCount?, noDots, Option.orElse_none, found]
      simp only [read]
      exact ⟨_, rfl, rfl, rfl⟩

private theorem trivia_of_closeBounds {opening text : List Char}
    {reading result : Reading (UInt64 × UInt64) text}
    (read : closeBounds opening reading = .ok result) :
    result.value = reading.value ∧ Trivia reading.rest ('}' :: result.rest) := by
  rw [closeBounds] at read
  rcases sign?_cases '}' reading.rest with ⟨closing, found, _⟩ | ⟨absent, _⟩
  · rw [found] at read
    cases read
    exact ⟨rfl, trivia_of_sign? found⟩
  · rw [absent] at read
    cases read

private theorem closeBounds_gives (opening : List Char) {text rest : List Char}
    {reading : Reading (UInt64 × UInt64) text} (closes : Trivia reading.rest ('}' :: rest)) :
    Gives (closeBounds opening reading) reading.value rest := by
  have left := closes.skipTrivia_eq
  rcases sign?_of_skipTrivia left with ⟨closing, found, rfl⟩
  rw [closeBounds, found]
  exact gives_ok _

theorem spellsBounds_of_bounds {opening text : List Char} {reading : Reading (UInt64 × UInt64) text}
    (read : bounds opening text = .ok reading) :
    SpellsBounds text reading.value reading.rest := by
  rw [bounds] at read
  split at read
  · cases read
  · next least counted =>
      have leastSpelled := spellsCount_of_count counted
      split at read
      · cases read
      · rcases trivia_of_closeBounds read with ⟨same, closes⟩
        rw [same]
        exact .same leastSpelled closes
      · next most second =>
          rcases trivia_of_closeBounds read with ⟨same, closes⟩
          rcases spellsSecond_of_secondCount? second with ⟨behind, dotted | separated, mostSpelled⟩
          · rw [same]
            exact .dots leastSpelled dotted mostSpelled closes
          · rw [same]
            exact .comma leastSpelled separated mostSpelled closes

theorem bounds_gives (opening : List Char) {text rest : List Char} {value : UInt64 × UInt64}
    (spelled : SpellsBounds text value rest) : Gives (bounds opening text) value rest := by
  have two : forall {least most middle last}, SpellsCount text least middle ->
      (forall character, middle.head? = some character -> character.isDigit = false) ->
      SpellsSecond middle most last -> Trivia last ('}' :: rest) ->
      Gives (bounds opening text) (least, most) rest := by
    intro least most middle last counted ends second closes
    rcases count_gives opening counted ends with ⟨first, read, rfl, rfl⟩
    rcases secondCount?_gives opening second (not_digit_before closes rfl) with
      ⟨other, otherRead, rfl, rfl⟩
    rw [bounds, read]
    simp only [otherRead]
    exact closeBounds_gives opening closes
  cases spelled with
  | same counted closes =>
      rcases count_gives opening counted (not_digit_before closes rfl) with ⟨first, read, rfl, rfl⟩
      rw [bounds, read]
      simp only [secondCount?_of_brace opening closes]
      exact closeBounds_gives opening closes
  | dots counted dotted second closes =>
      exact two counted (not_digit_before dotted rfl) ⟨_, Or.inl dotted, second⟩ closes
  | comma counted separated second closes =>
      exact two counted (not_digit_before separated rfl) ⟨_, Or.inr separated, second⟩ closes

/-! ## Atoms -/

private theorem spellsBody_of_textLiteral {build : String -> Pattern} {text : List Char}
    {reading : Reading Pattern text} (read : textLiteral build text = .ok reading) :
    Exists fun content => SpellsBody '"' text content reading.rest ∧
      reading.value = build (String.ofList content) := by
  rw [textLiteral] at read
  split at read
  · cases read
  · next content body =>
      cases read
      exact ⟨content.value, spellsBody_of_literalBody body, rfl⟩

private theorem textLiteral_gives (build : String -> Pattern) {text content rest : List Char}
    (spelled : SpellsBody '"' text content rest) :
    Gives (textLiteral build text) (build (String.ofList content)) rest := by
  rcases literalBody_gives ('"' :: text) (by decide) spelled with ⟨reading, read, rfl, rfl⟩
  rw [textLiteral, read]
  exact gives_ok _

private theorem spellsName_of_ruleReference {symbol : Char} {after : List Char}
    {reading : Reading Pattern (symbol :: after)} (read : ruleReference symbol after = .ok reading) :
    SpellsAtom (symbol :: after) reading.value reading.rest := by
  rw [ruleReference] at read
  rcases name?_cases (symbol :: after) with ⟨name, found, spelled⟩ | ⟨absent, _⟩
  · rw [found] at read
    cases read
    exact .rule spelled
  · rw [absent] at read
    dsimp only at read
    split at read
    · cases read
    · cases read

theorem spellsAtom_of_atom {symbol : Char} {after : List Char}
    {reading : Reading Pattern (symbol :: after)} (read : atom symbol after = .ok reading) :
    SpellsAtom (symbol :: after) reading.value reading.rest := by
  unfold atom at read
  split at read
  · split at read
    · cases read
    · next literal =>
        cases read
        exact .char (spellsBody_of_charLiteral literal)
  · split at read
    · cases read
    · next literal =>
        cases read
        rcases spellsBody_of_textLiteral literal with ⟨content, spelled, same⟩
        have whole := SpellsAtom.literal spelled
        rw [← same] at whole
        exact whole
  · split at read
    · cases read
    · next literal =>
        cases read
        rcases spellsBody_of_textLiteral literal with ⟨content, spelled, same⟩
        have whole := SpellsAtom.literalAnyCase spelled
        rw [← same] at whole
        exact whole
  · cases read
    exact .any
  · split at read
    · cases read
    · next items =>
        cases read
        exact .charClass (spellsItems_of_classItems items)
  · exact spellsName_of_ruleReference read

private theorem ruleReference_gives {symbol : Char} {after rest : List Char} {name : String}
    (spelled : SpellsName (symbol :: after) name rest) :
    Gives (ruleReference symbol after) (.rule name) rest := by
  rcases name?_of_spells spelled with ⟨reading, found, rfl, rfl⟩
  rw [ruleReference, found]
  exact gives_ok _

private theorem atom_of_nameStart {symbol : Char} {after : List Char}
    (starts : isNameStart symbol = true) (noLiteral : after.head? ≠ some '"') :
    atom symbol after = ruleReference symbol after := by
  unfold atom
  split
  · exact absurd starts (by decide)
  · exact absurd starts (by decide)
  · exact absurd rfl noLiteral
  · exact absurd starts (by decide)
  · exact absurd starts (by decide)
  · rfl

private theorem SpellsName.no_quote_behind {symbol : Char} {after rest : List Char} {name : String}
    (spelled : SpellsName (symbol :: after) name rest) (ends : rest.head? ≠ some '"') :
    after.head? ≠ some '"' := by
  cases spelled with
  | @name _ part _ _ parts _ =>
      cases part with
      | nil => exact ends
      | cons second part =>
          intro same
          cases same
          exact absurd (parts '"' List.mem_cons_self) (by decide)

/-- An atom is read as it is spelled if no double quote follows, which would
make a literal of the rule name `i`. -/
theorem atom_gives {symbol : Char} {after rest : List Char} {pattern : Pattern}
    (spelled : SpellsAtom (symbol :: after) pattern rest) (ends : rest.head? ≠ some '"') :
    Gives (atom symbol after) pattern rest := by
  cases spelled with
  | char literal =>
      rcases charLiteral_gives ('\'' :: after) literal with ⟨reading, read, rfl, rfl⟩
      rw [atom, read]
      exact gives_ok _
  | literal content =>
      rcases textLiteral_gives .literal content with ⟨reading, read, same, rfl⟩
      rw [atom, read, ← same]
      exact gives_ok _
  | literalAnyCase content =>
      rcases textLiteral_gives .literalAnyCase content with ⟨reading, read, same, rfl⟩
      rw [atom, read, ← same]
      exact gives_ok _
  | any => exact gives_ok _
  | charClass items =>
      rcases classItems_gives ('{' :: after) items with ⟨reading, read, rfl, rfl⟩
      rw [atom, read]
      exact gives_ok _
  | rule named =>
      rw [atom_of_nameStart]
      · exact ruleReference_gives named
      · cases named with
        | name starts _ _ => exact starts
      · exact named.no_quote_behind ends

end Reader
end ParsingMachine
