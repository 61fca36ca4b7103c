import ParsingMachine.Grammar
import ParsingMachine.Proofs.Machine.CaseFolding

namespace ParsingMachine

open Text

/-!
# What patterns match

The meaning of a pattern is a relation between a text and what becomes of it:
either the text is cut in two, or the pattern fails.  It is given by rules for
the operators alone and knows of no machine.  Nothing that was matched is ever
given back: where two alternatives are tried, or rounds of a repetition are
counted, the rules leave one way to go on only.

A pattern may have no outcome at all on a text, when rules refer to themselves
before they match anything.  Failing is an outcome; having none is not.
-/

/-- A text cut in two: the beginning that was matched, and what is left. -/
structure Cut where
  taken : List Char
  left : List Char
  deriving DecidableEq

/-- Nothing is taken off a text. -/
def Cut.nothing (text : List Char) : Cut := ⟨[], text⟩

/-- Whether an item of a class covers a character. -/
def ClassItem.Covers : ClassItem -> Char -> Prop
  | .char own, character => character = own
  | .range first last, character => first ≤ character ∧ character ≤ last

namespace Pattern

/-- Whether a pattern is matched by itself, without a look at other patterns. -/
def isAtom : Pattern -> Bool
  | char _ | literal _ | literalAnyCase _ | any | charClass _ => true
  | _ => false

/-- The texts that an atom stands for. -/
def Admits : Pattern -> List Char -> Prop
  | char own, taken => taken = [own]
  | literal text, taken => taken = text.toList
  | literalAnyCase text, taken => folded taken = folded text.toList
  | any, taken => Exists fun character => taken = [character]
  | charClass items, taken =>
      Exists fun character => taken = [character] ∧
        Exists fun item => item ∈ items ∧ item.Covers character
  | _, _ => False

theorem Admits.isAtom {pattern : Pattern} {taken : List Char} (admits : pattern.Admits taken) :
    pattern.isAtom = true := by
  cases pattern <;> first | rfl | exact False.elim admits

end Pattern

namespace Grammar

/-- What becomes of a text where a pattern is matched against its beginning.
The pattern may refer to the rules of the grammar. -/
inductive Matches (grammar : Grammar) : Pattern -> List Char -> Option Cut -> Prop where
  | atom {pattern taken left} :
      pattern.Admits taken -> Matches grammar pattern (taken ++ left) (some ⟨taken, left⟩)
  | atomFails {pattern text} :
      pattern.isAtom = true -> (forall taken, taken <+: text -> ¬ pattern.Admits taken) ->
      Matches grammar pattern text none
  | group {inner text outcome} :
      Matches grammar inner text outcome -> Matches grammar (.group inner) text outcome
  | notPresent {inner text} :
      Matches grammar inner text none -> Matches grammar (.not inner) text (some (.nothing text))
  | notFails {inner text cut} :
      Matches grammar inner text (some cut) -> Matches grammar (.not inner) text none
  | sequence {first second text taken middle more left} :
      Matches grammar first text (some ⟨taken, middle⟩) ->
      Matches grammar second middle (some ⟨more, left⟩) ->
      Matches grammar (.sequence first second) text (some ⟨taken ++ more, left⟩)
  | sequenceFailsFirst {first second text} :
      Matches grammar first text none -> Matches grammar (.sequence first second) text none
  | sequenceFailsSecond {first second text taken middle} :
      Matches grammar first text (some ⟨taken, middle⟩) -> Matches grammar second middle none ->
      Matches grammar (.sequence first second) text none
  | choiceFirst {first second text cut} :
      Matches grammar first text (some cut) -> Matches grammar (.choice first second) text (some cut)
  | choiceSecond {first second text outcome} :
      Matches grammar first text none -> Matches grammar second text outcome ->
      Matches grammar (.choice first second) text outcome
  | optionalTaken {inner text cut} :
      Matches grammar inner text (some cut) -> Matches grammar (.optional inner) text (some cut)
  | optionalSkipped {inner text} :
      Matches grammar inner text none ->
      Matches grammar (.optional inner) text (some (.nothing text))
  | zeroOrMoreStops {inner text} :
      Matches grammar inner text none ->
      Matches grammar (.zeroOrMore inner) text (some (.nothing text))
  /-- A round that matches nothing is the last one. -/
  | zeroOrMoreIdles {inner text left} :
      Matches grammar inner text (some ⟨[], left⟩) ->
      Matches grammar (.zeroOrMore inner) text (some ⟨[], left⟩)
  | zeroOrMoreGoesOn {inner text taken middle more left} :
      Matches grammar inner text (some ⟨taken, middle⟩) -> taken ≠ [] ->
      Matches grammar (.zeroOrMore inner) middle (some ⟨more, left⟩) ->
      Matches grammar (.zeroOrMore inner) text (some ⟨taken ++ more, left⟩)
  | oneOrMore {inner text outcome} :
      Matches grammar (.sequence inner (.zeroOrMore inner)) text outcome ->
      Matches grammar (.oneOrMore inner) text outcome
  | repeatedDone {inner text} :
      Matches grammar (.repeated inner 0 0) text (some (.nothing text))
  | repeatedRequired {inner least most text outcome} :
      0 < least -> least ≤ most ->
      Matches grammar (.sequence inner (.repeated inner (least - 1) (most - 1))) text outcome ->
      Matches grammar (.repeated inner least most) text outcome
  | repeatedAllowed {inner most text outcome} :
      0 < most ->
      Matches grammar (.sequence (.optional inner) (.repeated inner 0 (most - 1))) text outcome ->
      Matches grammar (.repeated inner 0 most) text outcome
  | rule {name rule text outcome} :
      grammar.get? name = some rule -> Matches grammar rule.pattern text outcome ->
      Matches grammar (.rule name) text outcome

namespace Matches

variable {grammar : Grammar} {pattern : Pattern} {text : List Char} {outcome : Option Cut}

/-- What is taken and what is left make up the text. -/
theorem whole (matched : grammar.Matches pattern text outcome) :
    forall cut, outcome = some cut -> text = cut.taken ++ cut.left := by
  induction matched with
  | atom _ => intro cut equal; cases equal; rfl
  | atomFails _ _ => intro cut equal; cases equal
  | group _ inner => exact inner
  | notPresent _ _ => intro cut equal; cases equal; rfl
  | notFails _ _ => intro cut equal; cases equal
  | sequence _ _ first second | zeroOrMoreGoesOn _ _ _ first second =>
      intro cut equal
      cases equal
      rw [first _ rfl, List.append_assoc]
      exact congrArg _ (second _ rfl)
  | sequenceFailsFirst _ _ => intro cut equal; cases equal
  | sequenceFailsSecond _ _ _ _ => intro cut equal; cases equal
  | choiceFirst _ first => exact first
  | choiceSecond _ _ _ second => exact second
  | optionalTaken _ inner => exact inner
  | optionalSkipped _ _ => intro cut equal; cases equal; rfl
  | zeroOrMoreStops _ _ => intro cut equal; cases equal; rfl
  | zeroOrMoreIdles _ inner => exact inner
  | oneOrMore _ inner => exact inner
  | repeatedDone => intro cut equal; cases equal; rfl
  | repeatedRequired _ _ _ inner => exact inner
  | repeatedAllowed _ _ inner => exact inner
  | rule _ _ inner => exact inner

/-- Where something is taken, less of the text is left. -/
theorem shorter {cut : Cut} (matched : grammar.Matches pattern text (some cut))
    (consumed : cut.taken ≠ []) : cut.left.length < text.length := by
  rw [matched.whole cut rfl, List.length_append]
  have := List.length_pos_iff.mpr consumed
  omega

/-- A repetition without bounds never fails. -/
theorem zeroOrMore_succeeds {inner : Pattern}
    (matched : grammar.Matches (.zeroOrMore inner) text outcome) :
    Exists fun cut => outcome = some cut := by
  cases matched with
  | atom admits => cases admits.isAtom
  | atomFails isAtom _ => cases isAtom
  | _ => exact ⟨_, rfl⟩

end Matches

/-- A pattern has an outcome on a text. -/
def Settles (grammar : Grammar) (pattern : Pattern) (text : List Char) : Prop :=
  Exists fun outcome => grammar.Matches pattern text outcome

namespace Settles

variable {grammar : Grammar} {text : List Char}

/-- An atom has an outcome on every text. -/
theorem atom {pattern : Pattern} (isAtom : pattern.isAtom = true) (text : List Char) :
    grammar.Settles pattern text := by
  by_cases admitted : Exists fun taken => taken <+: text ∧ pattern.Admits taken
  · rcases admitted with ⟨taken, ⟨left, rfl⟩, admits⟩
    exact ⟨_, .atom admits⟩
  · exact ⟨_, .atomFails isAtom fun taken begins admits => admitted ⟨taken, begins, admits⟩⟩

theorem sequence {first second : Pattern} (before : grammar.Settles first text)
    (behind : forall cut, grammar.Matches first text (some cut) ->
      grammar.Settles second cut.left) :
    grammar.Settles (.sequence first second) text := by
  rcases before with ⟨_ | ⟨taken, middle⟩, matched⟩
  · exact ⟨_, .sequenceFailsFirst matched⟩
  · rcases behind _ matched with ⟨_ | ⟨more, left⟩, next⟩
    · exact ⟨_, .sequenceFailsSecond matched next⟩
    · exact ⟨_, .sequence matched next⟩

theorem choice {first second : Pattern} (one : grammar.Settles first text)
    (other : grammar.Matches first text none -> grammar.Settles second text) :
    grammar.Settles (.choice first second) text := by
  rcases one with ⟨_ | cut, matched⟩
  · rcases other matched with ⟨outcome, next⟩
    exact ⟨_, .choiceSecond matched next⟩
  · exact ⟨_, .choiceFirst matched⟩

theorem not {inner : Pattern} (settled : grammar.Settles inner text) :
    grammar.Settles (.not inner) text := by
  rcases settled with ⟨_ | cut, matched⟩
  · exact ⟨_, .notPresent matched⟩
  · exact ⟨_, .notFails matched⟩

theorem optional {inner : Pattern} (settled : grammar.Settles inner text) :
    grammar.Settles (.optional inner) text := by
  rcases settled with ⟨_ | cut, matched⟩
  · exact ⟨_, .optionalSkipped matched⟩
  · exact ⟨_, .optionalTaken matched⟩

/-- A repetition has an outcome if its first round has one, and the rest of it
wherever that round took something off. -/
theorem zeroOrMore {inner : Pattern} (settled : grammar.Settles inner text)
    (onward : forall cut, grammar.Matches inner text (some cut) -> cut.taken ≠ [] ->
      Exists fun last => grammar.Matches (.zeroOrMore inner) cut.left (some last)) :
    Exists fun last => grammar.Matches (.zeroOrMore inner) text (some last) := by
  rcases settled with ⟨_ | ⟨taken, middle⟩, matched⟩
  · exact ⟨_, .zeroOrMoreStops matched⟩
  · by_cases idle : taken = []
    · subst idle
      exact ⟨_, .zeroOrMoreIdles matched⟩
    · rcases onward _ matched idle with ⟨⟨more, left⟩, rest⟩
      exact ⟨_, .zeroOrMoreGoesOn matched idle rest⟩

end Settles
end Grammar

/-! ## Counting bounds down -/

theorem toNat_sub_one {count : UInt64} (positive : 0 < count) :
    (count - 1).toNat + 1 = count.toNat := by
  have counted := UInt64.lt_iff_toNat_lt.mp positive
  have zero : (0 : UInt64).toNat = 0 := rfl
  have one : (1 : UInt64).toNat = 1 := rfl
  have least : (1 : UInt64) ≤ count := by
    rw [UInt64.le_iff_toNat_le]
    omega
  rw [UInt64.toNat_sub_of_le _ _ least]
  omega

theorem sub_one_le_sub_one {least most : UInt64} (positive : 0 < least) (ordered : least ≤ most) :
    least - 1 ≤ most - 1 := by
  have leastBefore := toNat_sub_one positive
  have mostBefore := toNat_sub_one (UInt64.lt_of_lt_of_le positive ordered)
  have := UInt64.le_iff_toNat_le.mp ordered
  rw [UInt64.le_iff_toNat_le]
  omega

/-- Bounds in order are counted down to nothing in the way in which the rules
for repetitions count them down. -/
@[elab_as_elim]
theorem bounds_induction {motive : UInt64 -> UInt64 -> Prop} {least most : UInt64}
    (ordered : least ≤ most) (done : motive 0 0)
    (required : forall least most, 0 < least -> least ≤ most ->
      motive (least - 1) (most - 1) -> motive least most)
    (allowed : forall most, 0 < most -> motive 0 (most - 1) -> motive 0 most) :
    motive least most := by
  induction counted : most.toNat generalizing least most with
  | zero =>
      have mostZero : most = 0 := UInt64.toNat_inj.mp counted
      subst mostZero
      rw [UInt64.le_zero_iff.mp ordered]
      exact done
  | succ count inductionHypothesis =>
      have mostPositive : 0 < most := by
        rw [UInt64.lt_iff_toNat_lt, counted]
        exact Nat.succ_pos count
      have mostBefore : (most - 1).toNat = count := by
        have := toNat_sub_one mostPositive
        omega
      by_cases free : least = 0
      · subst free
        exact allowed most mostPositive (inductionHypothesis UInt64.zero_le mostBefore)
      · have leastPositive : 0 < least := UInt64.pos_iff_ne_zero.mpr free
        exact required least most leastPositive ordered
          (inductionHypothesis (sub_one_le_sub_one leastPositive ordered) mostBefore)

end ParsingMachine
