import ParsingMachine.Proofs.Reader.Language

namespace ParsingMachine

open Reader

/-!
# What is written is spelled

A written pattern spells a pattern with the same meaning: the parentheses that
writing puts in are groups when they are read.  Where no parentheses are put
in, the pattern itself is spelled.

The rest of the text behind what is written is arbitrary here, except that it
must not go on with a name.
-/

namespace Pattern

/-- What the parentheses around a pattern make of what is read back of it. -/
def grouped (pattern : Pattern) (required : Nat) (inner : Pattern) : Pattern :=
  if pattern.binding < required then .group inner else inner

/-- What a pattern is read back as when it was written at a place that asks it
to bind at least as tightly as `required`. -/
def regrouped : Pattern -> (required : Nat) -> Pattern
  | choice first second, required =>
      grouped (choice first second) required (choice (first.regrouped 0) (second.regrouped 1))
  | sequence first second, required =>
      grouped (sequence first second) required (sequence (first.regrouped 1) (second.regrouped 2))
  | not inner, required => grouped (not inner) required (not (inner.regrouped 2))
  | optional inner, required => grouped (optional inner) required (optional (inner.regrouped 2))
  | zeroOrMore inner, required =>
      grouped (zeroOrMore inner) required (zeroOrMore (inner.regrouped 2))
  | oneOrMore inner, required => grouped (oneOrMore inner) required (oneOrMore (inner.regrouped 2))
  | repeated inner least most, required =>
      grouped (repeated inner least most) required (repeated (inner.regrouped 4) least most)
  | group inner, _ => group (inner.regrouped 0)
  | char character, _ => char character
  | literal text, _ => literal text
  | literalAnyCase text, _ => literalAnyCase text
  | any, _ => any
  | charClass items, _ => charClass items
  | rule name, _ => rule name

end Pattern

/-- A name as it can stand in a text. -/
def IsName (name : String) : Prop :=
  Exists fun first => Exists fun part => name = String.ofList (first :: part) ∧
    isNameStart first = true ∧ forall character, character ∈ part -> isNamePart character = true

/-- The rest of a text does not go on with a name. -/
def EndsName (rest : List Char) : Prop :=
  forall character, rest.head? = some character -> isNamePart character = false

/-! ## Literals, classes and bounds -/

theorem spellsName_written {name : String} (isName : IsName name) {rest : List Char}
    (ends : EndsName rest) : SpellsName (name.toList ++ rest) name rest := by
  rcases isName with ⟨first, part, rfl, starts, parts⟩
  rw [String.toList_ofList]
  exact .name starts parts ends

/-- A character without an escape can stand in a literal as it is. -/
theorem raw_of_escapeLetter? {quote character : Char}
    (unescaped : Text.escapeLetter? quote character = none) :
    character ≠ quote ∧ character ≠ '\\' ∧ character ≠ '\n' := by
  unfold Text.escapeLetter? at unescaped
  repeat' split at unescaped
  all_goals cases unescaped
  next _ _ noNewline _ noBackslash noQuote => exact ⟨noQuote, noBackslash, noNewline⟩

theorem spellsBody_escaped {quote : Char} (isQuote : quote = '\'' ∨ quote = '"')
    (content rest : List Char) :
    SpellsBody quote (Text.escaped quote content ++ quote :: rest) content rest := by
  induction content with
  | nil => exact .close
  | cons character content inductionHypothesis =>
      rw [Text.escaped_cons, List.append_assoc, Text.escapedChar]
      cases written : Text.escapeLetter? quote character with
      | some letter =>
          exact .escape (Text.unescape?_of_escapeLetter? isQuote written) inductionHypothesis
      | none =>
          rcases raw_of_escapeLetter? written with ⟨noQuote, noBackslash, noNewline⟩
          exact .raw noQuote noBackslash noNewline inductionHypothesis

theorem spellsBody_writtenLiteral {quote : Char} (isQuote : quote = '\'' ∨ quote = '"')
    (content rest : List Char) :
    Exists fun text => Pattern.writtenLiteral quote content ++ rest = quote :: text ∧
      SpellsBody quote text content rest := by
  have whole : Pattern.writtenLiteral quote content ++ rest =
      quote :: (Text.escaped quote content ++ quote :: rest) := List.append_assoc _ _ _
  exact ⟨_, whole, spellsBody_escaped isQuote content rest⟩

theorem spellsBody_writtenChar (character : Char) (rest : List Char) :
    Exists fun text => Pattern.writtenChar character ++ rest = '\'' :: text ∧
      SpellsBody '\'' text [character] rest :=
  spellsBody_writtenLiteral (Or.inl rfl) [character] rest

theorem spellsItem_written (item : ClassItem) (rest : List Char) :
    SpellsItem (item.written ++ rest) item rest := by
  cases item with
  | char character =>
      rcases spellsBody_writtenChar character rest with ⟨text, same, spelled⟩
      rw [ClassItem.written, same]
      exact .char spelled
  | range first last =>
      rcases spellsBody_writtenChar last rest with ⟨upper, upperSame, upperSpelled⟩
      rcases spellsBody_writtenChar first ('.' :: '.' :: '\'' :: upper) with
        ⟨lower, lowerSame, lowerSpelled⟩
      have whole : (ClassItem.range first last).written ++ rest = '\'' :: lower := by
        rw [ClassItem.written, List.append_assoc, upperSame, List.append_assoc, ← lowerSame]
        rfl
      rw [whole]
      exact .range lowerSpelled (.nothing _) (.nothing _) upperSpelled

theorem trivia_space (rest : List Char) : Trivia (' ' :: rest) rest :=
  .blank rfl (.nothing rest)

private theorem Reader.SpellsItems.behind_space {text rest : List Char} {items : List ClassItem}
    (spelled : SpellsItems text items rest) : SpellsItems (' ' :: text) items rest := by
  cases spelled with
  | close closes => exact .close ((trivia_space text).trans closes)
  | last before item closes => exact .last ((trivia_space text).trans before) item closes
  | more before item comma others => exact .more ((trivia_space text).trans before) item comma others

private theorem spellsItems_written (first : ClassItem) (items : List ClassItem)
    (rest : List Char) :
    SpellsItems ([',', ' '].intercalate ((first :: items).map ClassItem.written) ++
      ' ' :: '}' :: rest) (first :: items) rest := by
  induction items generalizing first with
  | nil =>
      have single : [',', ' '].intercalate ([first].map ClassItem.written) = first.written :=
        List.append_nil _
      rw [single]
      exact .last (.nothing _) (spellsItem_written first _) (trivia_space _)
  | cons second items inductionHypothesis =>
      have several : [',', ' '].intercalate ((first :: second :: items).map ClassItem.written) =
          first.written ++ ',' :: ' ' ::
            [',', ' '].intercalate ((second :: items).map ClassItem.written) := rfl
      rw [several, List.append_assoc]
      exact .more (.nothing _) (spellsItem_written first _) (.nothing _)
        (inductionHypothesis second).behind_space

theorem spellsItems_writtenClass (items : List ClassItem) (rest : List Char) :
    Exists fun text => Pattern.writtenClass items ++ rest = '{' :: text ∧
      SpellsItems text items rest := by
  cases items with
  | nil => exact ⟨_, rfl, .close (.nothing _)⟩
  | cons first items =>
      have whole : Pattern.writtenClass (first :: items) ++ rest = '{' :: ' ' ::
          ([',', ' '].intercalate ((first :: items).map ClassItem.written) ++
            ' ' :: '}' :: rest) := List.append_assoc _ _ _
      exact ⟨_, whole, (spellsItems_written first items rest).behind_space⟩

theorem spellsCount_written (value : UInt64) {rest : List Char} :
    SpellsCount ((toString value).toList ++ rest) value rest := by
  have digits : (toString value).toList = Nat.toDigits 10 value.toNat := Nat.toList_repr
  have counted : Nat.ofDigitChars 10 (Nat.toDigits 10 value.toNat) 0 = value.toNat :=
    Nat.ofDigitChars_ten_toDigits
  have spelled := SpellsCount.count (.nothing (Nat.toDigits 10 value.toNat ++ rest))
    Nat.toDigits_ne_nil (fun _ => Nat.isDigit_of_mem_toDigits (by decide) (by decide))
    (by rw [counted]; exact value.toNat_lt)
  rw [counted, UInt64.ofNat_toNat] at spelled
  rw [digits]
  exact spelled

theorem spellsBounds_written (least most : UInt64) (rest : List Char) :
    Exists fun text => Pattern.writtenBounds least most ++ rest = '{' :: text ∧
      SpellsBounds text (least, most) rest := by
  rw [Pattern.writtenBounds]
  split
  · next same =>
      subst same
      have whole : ('{' :: (toString least).toList ++ ['}']) ++ rest =
          '{' :: ((toString least).toList ++ '}' :: rest) := List.append_assoc _ _ _
      exact ⟨_, whole, .same (spellsCount_written least) (.nothing _)⟩
  · have whole : ('{' :: (toString least).toList ++ ['.', '.'] ++ (toString most).toList ++ ['}']) ++
        rest = '{' :: ((toString least).toList ++ '.' :: '.' ::
          ((toString most).toList ++ '}' :: rest)) := by
      simp only [List.cons_append, List.append_assoc, List.nil_append]
    exact ⟨_, whole, .dots (spellsCount_written least) (.nothing _) (spellsCount_written most)
      (.nothing _)⟩

/-! ## Patterns -/

namespace Reader.SpellsPattern

variable {text rest : List Char} {pattern : Pattern}

theorem looser {level : Nat} (more : Nat) (spelled : SpellsPattern (level + more) text pattern rest) :
    SpellsPattern level text pattern rest := by
  induction more with
  | zero => exact spelled
  | succ more inductionHypothesis => exact inductionHypothesis (.tighter spelled)

theorem of_le {level tight : Nat} (spelled : SpellsPattern tight text pattern rest)
    (ordered : level ≤ tight) : SpellsPattern level text pattern rest := by
  rcases Nat.exists_eq_add_of_le ordered with ⟨more, rfl⟩
  exact spelled.looser more

end Reader.SpellsPattern

/-- What was written at a place is spelled at its level, with parentheses or
without. -/
private theorem spells_parenthesized {pattern inner : Pattern} {required : Nat} {body : List Char}
    (possible : required ≤ 4) (spelled : forall rest, EndsName rest ->
      SpellsPattern pattern.binding (body ++ rest) inner rest) {rest : List Char}
    (ends : EndsName rest) :
    SpellsPattern required (pattern.parenthesized required body ++ rest)
      (pattern.grouped required inner) rest := by
  rw [Pattern.parenthesized, Pattern.grouped]
  split
  · have closing : EndsName (')' :: rest) := by
      rintro character ⟨⟩
      rfl
    have inside := (spelled _ closing).of_le (Nat.zero_le _)
    have whole : SpellsPattern 4 ('(' :: (body ++ ')' :: rest)) (.group inner) rest :=
      .group (.nothing _) inside (.nothing _)
    rw [List.cons_append, List.cons_append, List.append_assoc]
    exact whole.of_le possible
  · next binds => exact (spelled rest ends).of_le (Nat.not_lt.mp binds)

private theorem endsName_space (rest : List Char) : EndsName (' ' :: rest) := by
  rintro character ⟨⟩
  rfl

/-- A written pattern spells the pattern with groups where parentheses were put
in. -/
theorem spellsPattern_written (pattern : Pattern)
    (names : forall name, name ∈ pattern.references -> IsName name) {required : Nat}
    (possible : required ≤ 4) {rest : List Char} (ends : EndsName rest) :
    SpellsPattern required (pattern.written required ++ rest) (pattern.regrouped required) rest := by
  induction pattern generalizing required rest with
  | choice first second firstHypothesis secondHypothesis =>
      refine spells_parenthesized possible (fun rest ends => ?_) ends
      have left := firstHypothesis (fun name listed => names name (List.mem_append_left _ listed))
        (Nat.zero_le 4) (endsName_space ('|' :: ' ' :: (second.written 1 ++ rest)))
      have right := secondHypothesis (fun name listed => names name (List.mem_append_right _ listed))
        (by decide : 1 ≤ 4) ends
      simp only [List.append_assoc, List.cons_append, List.nil_append]
      exact .choice left (trivia_space _) (right.behind_trivia (trivia_space _))
  | sequence first second firstHypothesis secondHypothesis =>
      refine spells_parenthesized possible (fun rest ends => ?_) ends
      have left := firstHypothesis (fun name listed => names name (List.mem_append_left _ listed))
        (by decide : 1 ≤ 4) (endsName_space ('*' :: ' ' :: (second.written 2 ++ rest)))
      have right := secondHypothesis (fun name listed => names name (List.mem_append_right _ listed))
        (by decide : 2 ≤ 4) ends
      simp only [List.append_assoc, List.cons_append, List.nil_append]
      exact .sequence left (trivia_space _) (right.behind_trivia (trivia_space _))
  | not inner inductionHypothesis | optional inner inductionHypothesis
  | zeroOrMore inner inductionHypothesis | oneOrMore inner inductionHypothesis =>
      refine spells_parenthesized possible (fun rest ends => ?_) ends
      exact .unary (.nothing _) rfl (inductionHypothesis names (by decide) ends)
  | repeated inner least most inductionHypothesis =>
      refine spells_parenthesized possible (fun rest ends => ?_) ends
      rcases spellsBounds_written least most rest with ⟨text, same, bounds⟩
      have braced : EndsName ('{' :: text) := by
        rintro character ⟨⟩
        rfl
      rw [List.append_assoc, same]
      exact .repeated (inductionHypothesis names (Nat.le_refl 4) braced).tighter (.nothing _) bounds
  | group inner inductionHypothesis =>
      have closing : EndsName (')' :: rest) := by
        rintro character ⟨⟩
        rfl
      have inside := inductionHypothesis names (Nat.zero_le 4) closing
      have whole : SpellsPattern 4 ('(' :: (inner.written 0 ++ ')' :: rest))
          (.group (inner.regrouped 0)) rest := .group (.nothing _) inside (.nothing _)
      rw [Pattern.written, List.cons_append, List.cons_append, List.append_assoc]
      exact whole.of_le possible
  | char character =>
      rcases spellsBody_writtenChar character rest with ⟨text, same, spelled⟩
      rw [Pattern.written, same]
      exact (SpellsPattern.atom (.nothing _) (.char spelled)).of_le possible
  | literal text =>
      rcases spellsBody_writtenLiteral (Or.inr rfl) text.toList rest with ⟨body, same, spelled⟩
      have whole := SpellsAtom.literal spelled
      rw [String.ofList_toList] at whole
      rw [Pattern.written, same]
      exact (SpellsPattern.atom (.nothing _) whole).of_le possible
  | literalAnyCase text =>
      rcases spellsBody_writtenLiteral (Or.inr rfl) text.toList rest with ⟨body, same, spelled⟩
      have whole := SpellsAtom.literalAnyCase spelled
      rw [String.ofList_toList] at whole
      rw [Pattern.written, List.cons_append, same]
      exact (SpellsPattern.atom (.nothing _) whole).of_le possible
  | any => exact (SpellsPattern.atom (.nothing _) .any).of_le possible
  | charClass items =>
      rcases spellsItems_writtenClass items rest with ⟨text, same, spelled⟩
      rw [Pattern.written, same]
      exact (SpellsPattern.atom (.nothing _) (.charClass spelled)).of_le possible
  | rule name =>
      have named := spellsName_written (names name List.mem_cons_self) ends
      exact (SpellsPattern.atom (.nothing _) (.rule named)).of_le possible

theorem spellsWhole_written (pattern : Pattern)
    (names : forall name, name ∈ pattern.references -> IsName name) :
    SpellsWhole pattern.toText.toList (pattern.regrouped 0) := by
  have ends : EndsName [] := fun character headed => by cases headed
  have spelled := spellsPattern_written pattern names (Nat.zero_le 4) ends
  rw [List.append_nil] at spelled
  rw [Pattern.toText, String.toList_ofList]
  exact ⟨[], spelled, .nothing []⟩

/-! ## Grammars -/

/-- The names of a rule and of the rules that it refers to can stand in a
text. -/
def Rule.IsNamed (rule : Rule) : Prop :=
  IsName rule.name ∧ forall name, name ∈ rule.pattern.references -> IsName name

/-- What a rule is read back as. -/
def Rule.regrouped (rule : Rule) : Rule := ⟨rule.name, rule.pattern.regrouped 0⟩

/-- A written grammar spells the grammar with groups where parentheses were put
in. -/
theorem spellsRules_written (rules : List Rule) (named : forall rule, rule ∈ rules -> rule.IsNamed) :
    SpellsRules (Grammar.mk rules).written (rules.map Rule.regrouped) := by
  induction rules with
  | nil => exact .none (.nothing [])
  | cons rule rules inductionHypothesis =>
      have others := inductionHypothesis fun other listed => named other (List.mem_cons_of_mem _ listed)
      rcases named rule List.mem_cons_self with ⟨isName, references⟩
      have ends : EndsName ('\n' :: (Grammar.mk rules).written) := by
        rintro character ⟨⟩
        rfl
      have body := spellsPattern_written rule.pattern references (Nat.zero_le 4) ends
      have name := spellsName_written isName
        (endsName_space ('<' :: '-' :: ' ' :: (rule.pattern.written 0 ++ '\n' ::
          (Grammar.mk rules).written)))
      have whole : (Grammar.mk (rule :: rules)).written = rule.name.toList ++ ' ' :: '<' :: '-' ::
          ' ' :: (rule.pattern.written 0 ++ '\n' :: (Grammar.mk rules).written) := by
        simp only [Grammar.written, List.flatMap_cons, Rule.written, List.append_assoc,
          List.cons_append, List.nil_append]
      rw [whole]
      exact .rule (.nothing _) name (trivia_space _) (body.behind_trivia (trivia_space _))
        (others.behind_trivia (.blank rfl (.nothing _)))

end ParsingMachine
