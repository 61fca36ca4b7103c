import ParsingMachine.Program
import ParsingMachine.Proofs.Grammar.Semantics

namespace ParsingMachine

/-!
# Code that implements a pattern

Which code may stand for which pattern is a relation of its own.  It leaves
open what lowering decides by looking at other rules and at lengths: whether a
reference is a copy of the rule's code or a call, whether two alternatives are
joined into one set, and which address a call holds.  Everything that is
proved of related code therefore holds of linked and of unlinked code, and of
every way of lowering that stays inside the relation.
-/

/-- The range that an item of a class stands for. -/
def ClassItem.toRange : ClassItem -> CharRange
  | .char character => ⟨character, character⟩
  | .range first last => ⟨first, last⟩

theorem ClassItem.toRange_contains (item : ClassItem) (character : Char) :
    item.toRange.contains character = true <-> item.Covers character := by
  rw [CharRange.contains, decide_eq_true_iff]
  cases item with
  | char own =>
      constructor
      · rintro ⟨above, below⟩
        exact Char.le_antisymm below above
      · intro same
        exact same ▸ ⟨Char.le_refl _, Char.le_refl _⟩
  | range first last => exact Iff.rfl

/-- The code may stand for the pattern. -/
inductive Grammar.Implements (grammar : Grammar) : Pattern -> Code -> Prop where
  | group {inner code} : Implements grammar inner code -> Implements grammar (.group inner) code
  | char (character) :
      Implements grammar (.char character) [.matchText (String.singleton character)]
  | literal (text) : Implements grammar (.literal text) [.matchText text]
  | literalAnyCase (text) : Implements grammar (.literalAnyCase text) [.matchTextAnyCase text]
  | any : Implements grammar .any [.matchAny]
  | charClass (items) :
      Implements grammar (.charClass items)
        [.matchSet (CharSet.ofRanges (items.map ClassItem.toRange))]
  | not {inner code} :
      Implements grammar inner code -> Implements grammar (.not inner) code.absent
  | sequence {first second before behind} :
      Implements grammar first before -> Implements grammar second behind ->
      Implements grammar (.sequence first second) (before ++ behind)
  | choice {first second one other} :
      Implements grammar first one -> Implements grammar second other ->
      Implements grammar (.choice first second) (one.alternative other)
  /-- Two alternatives that are one set each need no choice point. -/
  | fused {first second one other} :
      Implements grammar first [.matchSet one] -> Implements grammar second [.matchSet other] ->
      Implements grammar (.choice first second) [.matchSet (one.union other)]
  | optional {inner code} :
      Implements grammar inner code -> Implements grammar (.optional inner) code.optional
  | zeroOrMore {inner code} :
      Implements grammar inner code -> Implements grammar (.zeroOrMore inner) code.loop
  | oneOrMore {inner code} :
      Implements grammar (.sequence inner (.zeroOrMore inner)) code ->
      Implements grammar (.oneOrMore inner) code
  | repeatedDone {inner} : Implements grammar (.repeated inner 0 0) []
  | repeatedRequired {inner least most code} :
      0 < least -> least ≤ most ->
      Implements grammar (.sequence inner (.repeated inner (least - 1) (most - 1))) code ->
      Implements grammar (.repeated inner least most) code
  | repeatedAllowed {inner most code} :
      0 < most ->
      Implements grammar (.sequence (.optional inner) (.repeated inner 0 (most - 1))) code ->
      Implements grammar (.repeated inner 0 most) code
  /-- A copy of the code of a rule has a comment in front. -/
  | pasted {name rule code} (comment) :
      grammar.get? name = some rule -> Implements grammar rule.pattern code ->
      Implements grammar (.rule name) (.comment comment :: code)
  | called (name address) : Implements grammar (.rule name) [.call name address]

/-! ## Lowering -/

/-- What is made of a result, where there is one, was made of that result. -/
theorem exists_of_bind_eq_ok {ε α β : Type} {first : Except ε α} {next : α -> Except ε β} {value : β}
    (made : first >>= next = .ok value) :
    Exists fun middle => first = .ok middle ∧ next middle = .ok value := by
  cases first with
  | error error => cases made
  | ok middle => exact ⟨middle, rfl, made⟩

theorem Lowering.classRanges_eq {rule : String} {items : List ClassItem} {ranges : List CharRange}
    (lowered : Lowering.classRanges rule items = .ok ranges) :
    ranges = items.map ClassItem.toRange := by
  induction items generalizing ranges with
  | nil =>
      cases lowered
      rfl
  | cons item items inductionHypothesis =>
      cases item with
      | char character =>
          rcases exists_of_bind_eq_ok lowered with ⟨others, rest, made⟩
          cases made
          rw [inductionHypothesis rest]
          rfl
      | range first last =>
          rw [Lowering.classRanges] at lowered
          split at lowered
          · rcases exists_of_bind_eq_ok lowered with ⟨others, rest, made⟩
            cases made
            rw [inductionHypothesis rest]
            rfl
          · cases lowered

theorem Code.repeated_required (code : Code) (least most : Nat) :
    code.repeated (least + 1) (most + 1) = code ++ code.repeated least most := by
  simp only [Code.repeated, List.replicate_succ, List.flatten_cons, Nat.add_sub_add_right,
    List.append_assoc]

theorem Code.repeated_allowed (code : Code) (most : Nat) :
    code.repeated 0 (most + 1) = code.optional ++ code.repeated 0 most := by
  simp only [Code.repeated, List.replicate_zero, List.flatten_nil, List.nil_append, Nat.sub_zero,
    List.replicate_succ, List.flatten_cons]

theorem Grammar.Implements.repeated {grammar : Grammar} {inner : Pattern} {code : Code}
    (implemented : grammar.Implements inner code) {least most : UInt64} (ordered : least ≤ most) :
    grammar.Implements (.repeated inner least most) (code.repeated least.toNat most.toNat) := by
  refine bounds_induction ordered .repeatedDone ?_ ?_
  · intro least most positive ordered behind
    have mostPositive : 0 < most := UInt64.lt_of_lt_of_le positive ordered
    rw [← toNat_sub_one positive, ← toNat_sub_one mostPositive, Code.repeated_required]
    exact .repeatedRequired positive ordered (.sequence implemented behind)
  · intro most positive behind
    rw [← toNat_sub_one positive, UInt64.toNat_zero, Code.repeated_allowed]
    exact .repeatedAllowed positive (.sequence (.optional implemented) behind)

/-- A way of lowering whose two open shapes stay inside the relation. -/
structure Lowering.Sound (lowering : Lowering) (grammar : Grammar) : Prop where
  reference : forall name, grammar.Implements (.rule name) (lowering.reference name)
  alternative : forall {first second one other},
    grammar.Implements first one -> grammar.Implements second other ->
    grammar.Implements (.choice first second) (lowering.alternative one other)

/-- The code that a pattern is lowered to implements it. -/
theorem Lowering.Sound.implements_of_lower {lowering : Lowering} {grammar : Grammar}
    (sound : lowering.Sound grammar) {rule : String} {pattern : Pattern} {code : Code}
    (lowered : lowering.lower rule pattern = .ok code) : grammar.Implements pattern code := by
  induction pattern generalizing code with
  | group inner inductionHypothesis => exact .group (inductionHypothesis lowered)
  | char character =>
      cases lowered
      exact .char character
  | literal text =>
      cases lowered
      exact .literal text
  | literalAnyCase text =>
      cases lowered
      exact .literalAnyCase text
  | any =>
      cases lowered
      exact .any
  | charClass items =>
      rcases exists_of_bind_eq_ok lowered with ⟨ranges, listed, made⟩
      cases made
      rw [classRanges_eq listed]
      exact .charClass items
  | not inner inductionHypothesis =>
      rcases exists_of_bind_eq_ok lowered with ⟨innerCode, part, made⟩
      cases made
      exact .not (inductionHypothesis part)
  | sequence first second firstHypothesis secondHypothesis =>
      rcases exists_of_bind_eq_ok lowered with ⟨before, firstPart, rest⟩
      rcases exists_of_bind_eq_ok rest with ⟨behind, secondPart, made⟩
      cases made
      exact .sequence (firstHypothesis firstPart) (secondHypothesis secondPart)
  | choice first second firstHypothesis secondHypothesis =>
      rcases exists_of_bind_eq_ok lowered with ⟨one, firstPart, rest⟩
      rcases exists_of_bind_eq_ok rest with ⟨other, secondPart, made⟩
      cases made
      exact sound.alternative (firstHypothesis firstPart) (secondHypothesis secondPart)
  | optional inner inductionHypothesis =>
      rcases exists_of_bind_eq_ok lowered with ⟨innerCode, part, made⟩
      cases made
      exact .optional (inductionHypothesis part)
  | zeroOrMore inner inductionHypothesis =>
      rcases exists_of_bind_eq_ok lowered with ⟨innerCode, part, made⟩
      cases made
      exact .zeroOrMore (inductionHypothesis part)
  | oneOrMore inner inductionHypothesis =>
      rcases exists_of_bind_eq_ok lowered with ⟨innerCode, part, made⟩
      cases made
      have implemented := inductionHypothesis part
      exact .oneOrMore (.sequence implemented (.zeroOrMore implemented))
  | repeated inner least most inductionHypothesis =>
      rw [lower] at lowered
      split at lowered
      · cases lowered
      · next ordered =>
          have inOrder := UInt64.not_lt.mp ordered
          split at lowered
          · next never =>
              cases lowered
              subst never
              rw [UInt64.le_zero_iff.mp inOrder]
              exact .repeatedDone
          · rcases exists_of_bind_eq_ok lowered with ⟨innerCode, part, made⟩
            cases made
            exact .repeated (inductionHypothesis part) inOrder
  | rule name =>
      cases lowered
      exact sound.reference name

end ParsingMachine
