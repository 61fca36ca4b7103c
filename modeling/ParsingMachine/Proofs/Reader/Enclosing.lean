import ParsingMachine.Proofs.Reader.RoundTrip
import ParsingMachine.Proofs.Reader.Unlimited

namespace ParsingMachine

open Reader

/-!
# Grammars that were built and not read

A tree that no text was read for may hold patterns at places where the syntax
has no room for them.  Such a tree is written with parentheses and read back
with groups; which ones is said here place by place, as the syntax has the
places, and not by a table of precedences.

The groups make a tree higher.  Only when one of its patterns gets too high by
them does reading fail, and then that is what it objects to.
-/

namespace Pattern

def isChoice : Pattern -> Bool
  | choice _ _ => true
  | _ => false

/-- Whether a pattern is made by an infix operator. -/
def isJoin : Pattern -> Bool
  | choice _ _ | sequence _ _ => true
  | _ => false

/-- Whether a pattern is an atom or stands in parentheses. -/
def isPrimary : Pattern -> Bool
  | group _ | char _ | literal _ | literalAnyCase _ | any | charClass _ | rule _ => true
  | _ => false

/-- A pattern in a group where there is no room for it without. -/
def groupIf (loose : Bool) (pattern : Pattern) : Pattern :=
  if loose then group pattern else pattern

/-- A pattern with a group around every part that binds less tightly than its
place needs: a choice on the right of a choice; a choice, or a sequence on the
right, under a sequence; either of them under a unary operator; and anything
but an atom or a group under bounds. -/
def enclosed : Pattern -> Pattern
  | choice first second => choice first.enclosed (groupIf second.isChoice second.enclosed)
  | sequence first second =>
      sequence (groupIf first.isChoice first.enclosed) (groupIf second.isJoin second.enclosed)
  | not inner => not (groupIf inner.isJoin inner.enclosed)
  | optional inner => optional (groupIf inner.isJoin inner.enclosed)
  | zeroOrMore inner => zeroOrMore (groupIf inner.isJoin inner.enclosed)
  | oneOrMore inner => oneOrMore (groupIf inner.isJoin inner.enclosed)
  | repeated inner least most => repeated (groupIf (!inner.isPrimary) inner.enclosed) least most
  | group inner => group inner.enclosed
  | char character => char character
  | literal text => literal text
  | literalAnyCase text => literalAnyCase text
  | any => any
  | charClass items => charClass items
  | rule name => rule name

variable (pattern : Pattern)

/-! ## Places and precedences -/

theorem isChoice_eq : pattern.isChoice = decide (pattern.binding < 1) := by cases pattern <;> rfl

theorem isJoin_eq : pattern.isJoin = decide (pattern.binding < 2) := by cases pattern <;> rfl

theorem not_isPrimary_eq : (!pattern.isPrimary) = decide (pattern.binding < 4) := by
  cases pattern <;> rfl

theorem grouped_eq (required : Nat) (inner : Pattern) :
    pattern.grouped required inner = groupIf (decide (pattern.binding < required)) inner := by
  simp only [grouped, groupIf, decide_eq_true_eq]

/-- A pattern is read back with those groups, and in one more where it binds
less tightly than its own place asks. -/
theorem regrouped_eq_groupIf {required : Nat} (possible : required ≤ 4) :
    pattern.regrouped required =
      groupIf (decide (pattern.binding < required)) pattern.enclosed := by
  have loosest (inner : Pattern) : groupIf (decide (inner.binding < 0)) inner.enclosed =
      inner.enclosed := rfl
  induction pattern generalizing required with
  | choice first second firstHypothesis secondHypothesis =>
      rw [regrouped, grouped_eq, firstHypothesis (by decide), secondHypothesis (by decide), loosest,
        enclosed, isChoice_eq]
  | sequence first second firstHypothesis secondHypothesis =>
      rw [regrouped, grouped_eq, firstHypothesis (by decide), secondHypothesis (by decide),
        enclosed, isChoice_eq, isJoin_eq]
  | not inner inductionHypothesis | optional inner inductionHypothesis
  | zeroOrMore inner inductionHypothesis | oneOrMore inner inductionHypothesis =>
      rw [regrouped, grouped_eq, inductionHypothesis (by decide), enclosed, isJoin_eq]
  | repeated inner least most inductionHypothesis =>
      rw [regrouped, grouped_eq, inductionHypothesis (by decide), enclosed, not_isPrimary_eq]
  | group inner inductionHypothesis =>
      rw [regrouped, inductionHypothesis (by decide), loosest, ← grouped_eq]
      exact (grouped_of_le possible _).symm
  | _ =>
      rw [← grouped_eq]
      exact (grouped_of_le possible _).symm

/-! ## What is written -/

variable {pattern} {required : Nat}

theorem parenthesized_of_le (binds : required ≤ pattern.binding) (text : List Char) :
    pattern.parenthesized required text = text :=
  if_neg (Nat.not_lt.mpr binds)

/-- A pattern that does not bind tightly enough for a place is written there as a
group of it would be. -/
theorem written_of_lt (loose : pattern.binding < required) (possible : required ≤ 4) :
    pattern.written required = (group pattern).written required := by
  have loosest := Nat.zero_le pattern.binding
  cases pattern <;>
    first
      | rw [written, parenthesized, if_pos loose, written, written, parenthesized_of_le loosest]
      | exact absurd possible (Nat.not_le.mpr loose)

/-- Parentheses that were put in are written as such. -/
private theorem written_groupIf {enclosed : Pattern} (possible : required ≤ 4)
    (same : forall required, enclosed.written required = pattern.written required) :
    (groupIf (decide (pattern.binding < required)) enclosed).written required =
      pattern.written required := by
  rcases Nat.lt_or_ge pattern.binding required with loose | binds
  · rw [written_of_lt loose possible, groupIf, if_pos (decide_eq_true loose), written, written,
      same 0]
  · rw [groupIf, if_neg (by simpa using binds), same required]

/-- A pattern with those groups is written like the pattern without them. -/
theorem written_enclosed (pattern : Pattern) (required : Nat) :
    pattern.enclosed.written required = pattern.written required := by
  induction pattern generalizing required with
  | choice first second firstHypothesis secondHypothesis =>
      rw [enclosed, written, written, isChoice_eq, firstHypothesis,
        written_groupIf (by decide) secondHypothesis]
      rfl
  | sequence first second firstHypothesis secondHypothesis =>
      rw [enclosed, written, written, isChoice_eq, isJoin_eq,
        written_groupIf (by decide) firstHypothesis,
        written_groupIf (by decide) secondHypothesis]
      rfl
  | not inner inductionHypothesis | optional inner inductionHypothesis
  | zeroOrMore inner inductionHypothesis | oneOrMore inner inductionHypothesis =>
      rw [enclosed, written, written, isJoin_eq,
        written_groupIf (by decide) inductionHypothesis]
      rfl
  | repeated inner least most inductionHypothesis =>
      rw [enclosed, written, written, not_isPrimary_eq,
        written_groupIf (by decide) inductionHypothesis]
      rfl
  | group inner inductionHypothesis => rw [enclosed, written, written, inductionHypothesis]
  | _ => rfl

end Pattern

/-! ## Grammars -/

/-- A rule with groups where its pattern has no room without. -/
def Rule.enclosed (rule : Rule) : Rule := ⟨rule.name, rule.pattern.enclosed⟩

theorem Rule.regrouped_eq_enclosed (rule : Rule) : rule.regrouped = rule.enclosed := by
  rw [regrouped, Pattern.regrouped_eq_groupIf _ (Nat.zero_le 4)]
  rfl

namespace Grammar

/-- A grammar with groups where its patterns have no room without. -/
def enclosed (grammar : Grammar) : Grammar := ⟨grammar.rules.map Rule.enclosed⟩

theorem toText_enclosed (grammar : Grammar) : grammar.enclosed.toText = grammar.toText := by
  have rule (rule : Rule) : rule.enclosed.written = rule.written := by
    rw [Rule.written, Rule.written, Rule.enclosed, Pattern.written_enclosed]
  rw [toText, toText, written, written, enclosed, List.flatMap_map]
  simp only [rule]

theorem spellsRules_toText {grammar : Grammar}
    (named : forall rule, rule ∈ grammar.rules -> rule.IsNamed) :
    SpellsRules grammar.toText.toList grammar.enclosed.rules := by
  have spelled := spellsRules_written grammar.rules named
  rw [List.map_congr_left fun rule _ => rule.regrouped_eq_enclosed] at spelled
  rw [toText, String.toList_ofList]
  exact spelled

/-- If anything is read from what was written of a grammar, it is the grammar
with those groups. -/
theorem eq_enclosed_of_ofText {grammar again : Grammar}
    (named : forall rule, rule ∈ grammar.rules -> rule.IsNamed)
    (read : Grammar.ofText grammar.toText = .ok again) : again = grammar.enclosed := by
  have same := (spellsRules_toText named).unique (spells_of_ofText read).1
  cases again
  exact congrArg Grammar.mk same.symm

/-- Where a text spells a grammar, reading it fails at most because a pattern of
the grammar is too tall. -/
theorem ofText_of_spells {text : String} {grammar : Grammar}
    (spelled : SpellsRules text.toList grammar.rules) :
    Grammar.ofText text = .ok grammar ∨ Exists fun report =>
      Grammar.ofText text = .error report ∧ report.cause = .tooDeep heightLimit := by
  have confined := Confines.ruleDefinitions heightLimit text.toList
  rw [(Unlimited.ruleDefinitions_eq_ok _ _).mpr spelled] at confined
  rcases confined.eq_ok_or_refused with read | ⟨place, after, refused⟩
  · exact Or.inl (Grammar.ofText_eq_ok.mpr read)
  · exact Or.inr ⟨_, Grammar.ofText_eq_error.mpr ⟨_, refused, rfl⟩, rfl⟩

/-- A grammar that was built and written is read back with groups where its
patterns have no room without, unless one of them is too tall with these groups;
and that is what is objected to in this case.  The groups change nothing about
what is written. -/
theorem ofText_toText_enclosed (grammar : Grammar)
    (named : forall rule, rule ∈ grammar.rules -> rule.IsNamed) :
    ((forall rule, rule ∈ grammar.enclosed.rules -> rule.pattern.height ≤ heightLimit) ->
      Grammar.ofText grammar.toText = .ok grammar.enclosed) ∧
    ((Exists fun rule => rule ∈ grammar.enclosed.rules ∧ heightLimit < rule.pattern.height) ->
      Exists fun report => Grammar.ofText grammar.toText = .error report ∧
        report.cause = .tooDeep heightLimit) ∧
    grammar.enclosed.toText = grammar.toText ∧
    forall again, Grammar.ofText grammar.toText = .ok again -> again.toText = grammar.toText := by
  have spelled := spellsRules_toText named
  refine ⟨fun low => ?_, ?_, toText_enclosed grammar, fun again read => ?_⟩
  · exact Grammar.ofText_eq_ok.mpr ((ruleDefinitions_eq_ok (by decide) _ _).mpr ⟨spelled, low⟩)
  · rintro ⟨rule, listed, tall⟩
    rcases ofText_of_spells spelled with read | refused
    · have low := (spells_of_ofText read).2 rule listed
      exact absurd tall (Nat.not_lt.mpr low)
    · exact refused
  · rw [eq_enclosed_of_ofText named read, toText_enclosed]

/-- Twice an `x` or another such choice, with no room for the choice under the
bounds, and with bounds that are the wrong way round. -/
def repeatedChoice : Grammar :=
  ⟨[⟨"a", .repeated (.choice (.char 'x') (.choice (.any) (.rule "a"))) 2 1⟩]⟩

/-- It comes back with two groups. -/
theorem repeatedChoice_read_back :
    (forall rule, rule ∈ repeatedChoice.rules -> rule.IsNamed) ∧
      Grammar.ofText repeatedChoice.toText = .ok ⟨[⟨"a", .repeated
        (.group (.choice (.char 'x') (.group (.choice .any (.rule "a"))))) 2 1⟩]⟩ := by
  have isName : IsName "a" := ⟨'a', [], rfl, rfl, fun _ inside => absurd inside List.not_mem_nil⟩
  have named : forall rule, rule ∈ repeatedChoice.rules -> rule.IsNamed := by
    intro rule listed
    rcases List.mem_singleton.mp listed with rfl
    refine ⟨isName, fun name refers => ?_⟩
    rcases List.mem_singleton.mp refers with rfl
    exact isName
  refine ⟨named, (ofText_toText_enclosed repeatedChoice named).1 fun rule listed => ?_⟩
  rcases List.mem_singleton.mp listed with rfl
  decide

end Grammar

end ParsingMachine
