import Mathlib.Logic.Relation
import ParsingMachine.Proofs.Reader.Spelling

namespace ParsingMachine
namespace Reader

/-!
# What is spelled whatever comes behind it

The relations of the syntax are between a text and what is left of it, so that
they could depend on all of what is left.  They do not: the first character
that is left is enough to tell, for a name, that it ends there, and for a
comment, that its line does.  Behind that character the text may go on in any
way.

A new line ends names and comments alike.  It may come behind anything that is
spelled, also where the text had come to its end.
-/

/-- Something else that is left begins with the same character, or with a new
line. -/
def BeginsLike (rest other : List Char) : Prop :=
  other.head? = rest.head? ∨ other.head? = some '\n'

theorem BeginsLike.append {rest other : List Char} (alike : BeginsLike rest other)
    (part : List Char) : BeginsLike (part ++ rest) (part ++ other) := by
  cases part with
  | nil => exact alike
  | cons _ _ => exact Or.inl rfl

/-- A relation holds between a text and what is left of it, and holds on when
something else that begins like this is left behind the same part of the text. -/
def OneAhead (relation : List Char -> List Char -> Prop) (text rest : List Char) : Prop :=
  Exists fun part => text = part ++ rest ∧
    forall other, BeginsLike rest other -> relation (part ++ other) other

namespace OneAhead

variable {first second relation : List Char -> List Char -> Prop} {text middle rest : List Char}

theorem here (holds : forall other, relation other other) : OneAhead relation text text :=
  ⟨[], rfl, fun other _ => holds other⟩

theorem suffix (ahead : OneAhead relation text rest) : rest <:+ text := by
  rcases ahead with ⟨part, split, _⟩
  exact ⟨part, split.symm⟩

theorem imp (ahead : OneAhead first text rest)
    (implies : forall {text rest}, first text rest -> second text rest) :
    OneAhead second text rest := by
  rcases ahead with ⟨part, split, holds⟩
  exact ⟨part, split, fun other alike => implies (holds other alike)⟩

theorem comp (one : OneAhead first text middle) (other : OneAhead second middle rest) :
    OneAhead (Relation.Comp first second) text rest := by
  rcases one with ⟨front, rfl, frontHolds⟩
  rcases other with ⟨back, rfl, backHolds⟩
  refine ⟨front ++ back, (List.append_assoc _ _ _).symm, fun other alike => ?_⟩
  rw [List.append_assoc]
  exact ⟨back ++ other, frontHolds _ (alike.append back), backHolds other alike⟩

/-- The relation is to the text behind what is left, if this begins with fixed
signs. -/
theorem behind (signs : List Char) (ahead : OneAhead relation text (signs ++ rest)) :
    OneAhead (fun text rest => relation text (signs ++ rest)) text rest := by
  rcases ahead with ⟨part, rfl, holds⟩
  refine ⟨part ++ signs, (List.append_assoc _ _ _).symm, fun other alike => ?_⟩
  rw [List.append_assoc]
  exact holds _ (alike.append signs)

/-- The relation is from a text that begins with fixed signs. -/
theorem front (signs : List Char) (ahead : OneAhead first text rest)
    (implies : forall {text rest}, first text rest -> second (signs ++ text) rest) :
    OneAhead second (signs ++ text) rest := by
  rcases ahead with ⟨part, rfl, holds⟩
  refine ⟨signs ++ part, (List.append_assoc _ _ _).symm, fun other alike => ?_⟩
  rw [List.append_assoc]
  exact implies (holds other alike)

/-- Behind a sign the text may be any other. -/
theorem behind_sign {before after : List Char} {sign : Char}
    (ahead : OneAhead relation (before ++ sign :: after) (sign :: after))
    (other : List Char) : relation (before ++ sign :: other) (sign :: other) := by
  rcases ahead with ⟨part, split, holds⟩
  rw [List.append_cancel_right split]
  exact holds _ (Or.inl rfl)

/-- A further line may be put behind the text. -/
theorem before_line (ahead : OneAhead relation text rest) (line : List Char) :
    relation (text ++ '\n' :: line) (rest ++ '\n' :: line) := by
  rcases ahead with ⟨part, rfl, holds⟩
  rw [List.append_assoc]
  apply holds
  cases rest with
  | nil => exact Or.inr rfl
  | cons _ _ => exact Or.inl rfl

end OneAhead

section Spelled

variable {text rest : List Char}

theorem Trivia.oneAhead (trivia : Trivia text rest) : OneAhead Trivia text rest := by
  induction trivia with
  | nothing => exact .here .nothing
  | blank isBlank _ inductionHypothesis => exact inductionHypothesis.front [_] (.blank isBlank)
  | @comment words text rest inside ends _ inductionHypothesis =>
      rcases inductionHypothesis with ⟨part, rfl, holds⟩
      refine ⟨'#' :: words ++ part, (List.append_assoc ('#' :: words) part rest).symm,
        fun other alike => ?_⟩
      rw [List.append_assoc]
      refine .comment inside ?_ (holds other alike)
      -- What ends the comment is its line or the text, and either can be told from one character.
      rcases alike.append part with same | newline
      · rw [← List.head?_eq_none_iff, same, List.head?_eq_none_iff]
        exact ends
      · exact Or.inr newline

theorem Trivia.oneAhead_sign {sign : Char} (trivia : Trivia text (sign :: rest)) :
    OneAhead (fun text rest => Trivia text (sign :: rest)) text rest :=
  trivia.oneAhead.behind [sign]

theorem Trivia.oneAhead_pair {first second : Char}
    (trivia : Trivia text (first :: second :: rest)) :
    OneAhead (fun text rest => Trivia text (first :: second :: rest)) text rest :=
  trivia.oneAhead.behind [first, second]

theorem SpellsName.oneAhead {name : String} (spelled : SpellsName text name rest) :
    OneAhead (SpellsName · name ·) text rest := by
  cases spelled with
  | name starts inside ends =>
      refine ⟨_, rfl, fun other alike => .name starts inside ?_⟩
      rcases alike with same | newline
      · rw [same]
        exact ends
      · rintro character headed
        rw [newline] at headed
        cases headed
        rfl

/-- A literal ends with its closing quote, whatever comes behind it. -/
theorem SpellsBody.exists_body {quote : Char} {content : List Char}
    (spelled : SpellsBody quote text content rest) :
    Exists fun body => text = body ++ quote :: rest ∧
      forall other, SpellsBody quote (body ++ quote :: other) content other := by
  induction spelled with
  | close => exact ⟨[], rfl, fun _ => .close⟩
  | @raw character _ _ _ noQuote noEscape noNewline _ inductionHypothesis =>
      rcases inductionHypothesis with ⟨body, rfl, holds⟩
      exact ⟨character :: body, rfl, fun other => .raw noQuote noEscape noNewline (holds other)⟩
  | @escape letter _ _ _ _ known _ inductionHypothesis =>
      rcases inductionHypothesis with ⟨body, rfl, holds⟩
      exact ⟨'\\' :: letter :: body, rfl, fun other => .escape known (holds other)⟩

theorem SpellsBody.oneAhead {quote : Char} {content : List Char}
    (spelled : SpellsBody quote text content rest) :
    OneAhead (SpellsBody quote · content ·) text rest := by
  rcases spelled.exists_body with ⟨body, rfl, holds⟩
  refine ⟨body ++ [quote], (List.append_assoc body [quote] rest).symm, fun other _ => ?_⟩
  rw [List.append_assoc]
  exact holds other

theorem SpellsItem.oneAhead {item : ClassItem} (spelled : SpellsItem text item rest) :
    OneAhead (SpellsItem · item ·) text rest := by
  cases spelled with
  | char literal => exact literal.oneAhead.front ['\''] .char
  | range lower between opened upper =>
      exact (lower.oneAhead.comp (between.oneAhead_pair.comp
        (opened.oneAhead_sign.comp upper.oneAhead))).front ['\'']
        fun ⟨_, lower, _, between, _, opened, upper⟩ => .range lower between opened upper

theorem SpellsItems.oneAhead {items : List ClassItem} (spelled : SpellsItems text items rest) :
    OneAhead (SpellsItems · items ·) text rest := by
  induction spelled with
  | close closes => exact closes.oneAhead_sign.imp .close
  | last before item closes =>
      exact (before.oneAhead.comp (item.oneAhead.comp closes.oneAhead_sign)).imp
        fun ⟨_, before, _, item, closes⟩ => .last before item closes
  | more before item separator _ inductionHypothesis =>
      exact (before.oneAhead.comp (item.oneAhead.comp
        (separator.oneAhead_sign.comp inductionHypothesis))).imp
        fun ⟨_, before, _, item, _, separator, others⟩ => .more before item separator others

theorem SpellsCount.oneAhead {value : UInt64} (spelled : SpellsCount text value rest) :
    OneAhead (SpellsCount · value ·) text rest := by
  cases spelled with
  | count before some areDigits small =>
      exact (before.oneAhead.behind _).imp fun before => .count before some areDigits small

theorem SpellsBounds.oneAhead {value : UInt64 × UInt64} (spelled : SpellsBounds text value rest) :
    OneAhead (SpellsBounds · value ·) text rest := by
  cases spelled with
  | same times closes =>
      exact (times.oneAhead.comp closes.oneAhead_sign).imp
        fun ⟨_, times, closes⟩ => .same times closes
  | dots least between most closes =>
      exact (least.oneAhead.comp (between.oneAhead_pair.comp
        (most.oneAhead.comp closes.oneAhead_sign))).imp
        fun ⟨_, least, _, between, _, most, closes⟩ => .dots least between most closes
  | comma least between most closes =>
      exact (least.oneAhead.comp (between.oneAhead_sign.comp
        (most.oneAhead.comp closes.oneAhead_sign))).imp
        fun ⟨_, least, _, between, _, most, closes⟩ => .comma least between most closes

theorem SpellsAtom.oneAhead {pattern : Pattern} (spelled : SpellsAtom text pattern rest) :
    OneAhead (SpellsAtom · pattern ·) text rest := by
  cases spelled with
  | char literal => exact literal.oneAhead.front ['\''] .char
  | literal content => exact content.oneAhead.front ['"'] .literal
  | literalAnyCase content => exact content.oneAhead.front ['i', '"'] .literalAnyCase
  | any => exact ⟨['.'], rfl, fun _ _ => .any⟩
  | charClass items => exact items.oneAhead.front ['{'] .charClass
  | rule name => exact name.oneAhead.imp .rule

theorem SpellsPattern.oneAhead {level : Nat} {pattern : Pattern}
    (spelled : SpellsPattern level text pattern rest) :
    OneAhead (SpellsPattern level · pattern ·) text rest := by
  induction spelled with
  | tighter _ inductionHypothesis => exact inductionHypothesis.imp .tighter
  | choice _ operator _ firstHypothesis secondHypothesis =>
      exact (firstHypothesis.comp (operator.oneAhead_sign.comp secondHypothesis)).imp
        fun ⟨_, first, _, operator, second⟩ => .choice first operator second
  | sequence _ operator _ firstHypothesis secondHypothesis =>
      exact (firstHypothesis.comp (operator.oneAhead_sign.comp secondHypothesis)).imp
        fun ⟨_, first, _, operator, second⟩ => .sequence first operator second
  | unary before isOperator _ inductionHypothesis =>
      exact (before.oneAhead_sign.comp inductionHypothesis).imp
        fun ⟨_, before, inner⟩ => .unary before isOperator inner
  | repeated _ opens bounds inductionHypothesis =>
      exact (inductionHypothesis.comp (opens.oneAhead_sign.comp bounds.oneAhead)).imp
        fun ⟨_, inner, _, opens, bounds⟩ => .repeated inner opens bounds
  | group before _ closes inductionHypothesis =>
      exact (before.oneAhead_sign.comp (inductionHypothesis.comp closes.oneAhead_sign)).imp
        fun ⟨_, before, _, inner, closes⟩ => .group before inner closes
  | atom before spelled =>
      exact (before.oneAhead.comp spelled.oneAhead).imp
        fun ⟨_, before, spelled⟩ => .atom before spelled

end Spelled

end Reader
end ParsingMachine
