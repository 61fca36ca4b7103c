import ParsingMachine.Proofs.Program.Shapes

namespace ParsingMachine

open Machine

/-!
# Plain code

Lowering without copies of rules and without joined sets gives plain code: every
reference is a call, and every choice puts down a choice point.  Plain code is
determined by its pattern, so that it can serve as a measure: what other code
of a pattern takes is held against what plain code takes.
-/

/-! ## Code of a pattern -/

namespace Lowering

/-- The code of a pattern, whatever may be objected to in it. -/
def code (lowering : Lowering) : Pattern -> Code
  | .group inner => lowering.code inner
  | .char character => [.matchText (String.singleton character)]
  | .literal text => [.matchText text]
  | .literalAnyCase text => [.matchTextAnyCase text]
  | .any => [.matchAny]
  | .charClass items => [.matchSet (CharSet.ofRanges (items.map ClassItem.toRange))]
  | .not inner => (lowering.code inner).absent
  | .sequence first second => lowering.code first ++ lowering.code second
  | .choice first second => lowering.alternative (lowering.code first) (lowering.code second)
  | .optional inner => (lowering.code inner).optional
  | .zeroOrMore inner => (lowering.code inner).loop
  | .oneOrMore inner => lowering.code inner ++ (lowering.code inner).loop
  | .repeated inner least most => (lowering.code inner).repeated least.toNat most.toNat
  | .rule name => lowering.reference name

variable {lowering : Lowering}

/-- Where there is nothing to object to, this is the code that lowering gives. -/
theorem code_eq_of_lower {rule : String} {pattern : Pattern} {code : Code}
    (lowered : lowering.lower rule pattern = .ok code) : lowering.code pattern = code := by
  induction pattern generalizing code with
  | group inner inductionHypothesis => exact inductionHypothesis lowered
  | charClass items =>
      rcases exists_of_bind_eq_ok lowered with ⟨ranges, listed, made⟩
      cases made
      rw [Lowering.code, classRanges_eq listed]
  | not inner inductionHypothesis | optional inner inductionHypothesis
  | zeroOrMore inner inductionHypothesis | oneOrMore inner inductionHypothesis =>
      rcases exists_of_bind_eq_ok lowered with ⟨innerCode, part, made⟩
      cases made
      rw [Lowering.code, inductionHypothesis part]
  | sequence first second firstHypothesis secondHypothesis
  | choice first second firstHypothesis secondHypothesis =>
      rcases exists_of_bind_eq_ok lowered with ⟨before, firstPart, rest⟩
      rcases exists_of_bind_eq_ok rest with ⟨behind, secondPart, made⟩
      cases made
      rw [Lowering.code, firstHypothesis firstPart, secondHypothesis secondPart]
  | repeated inner least most inductionHypothesis =>
      rw [lower] at lowered
      split at lowered
      · cases lowered
      · next ordered =>
          have inOrder := UInt64.not_lt.mp ordered
          split at lowered
          · next never =>
              cases lowered
              subst never
              rw [UInt64.le_zero_iff.mp inOrder]
              rfl
          · rcases exists_of_bind_eq_ok lowered with ⟨innerCode, part, made⟩
            cases made
            rw [Lowering.code, inductionHypothesis part]
  | _ =>
      cases lowered
      rfl

/-- A required round comes first. -/
theorem code_required (lowering : Lowering) (inner : Pattern) {least most : UInt64}
    (positive : 0 < least) (ordered : least ≤ most) :
    lowering.code (.repeated inner least most) =
      lowering.code (.sequence inner (.repeated inner (least - 1) (most - 1))) := by
  have mostPositive : 0 < most := UInt64.lt_of_lt_of_le positive ordered
  change (lowering.code inner).repeated least.toNat most.toNat =
    lowering.code inner ++ (lowering.code inner).repeated (least - 1).toNat (most - 1).toNat
  rw [← toNat_sub_one positive, ← toNat_sub_one mostPositive, Code.repeated_required]

/-- Where no round is required, an allowed one comes first. -/
theorem code_allowed (lowering : Lowering) (inner : Pattern) {most : UInt64} (positive : 0 < most) :
    lowering.code (.repeated inner 0 most) =
      lowering.code (.sequence (.optional inner) (.repeated inner 0 (most - 1))) := by
  change (lowering.code inner).repeated 0 most.toNat =
    (lowering.code inner).optional ++ (lowering.code inner).repeated 0 (most - 1).toNat
  rw [← toNat_sub_one positive, Code.repeated_allowed]

/-- Lowering with nothing but calls and choice points.  The calls get the given
addresses. -/
def plain (address : String -> Option Nat) : Lowering where
  reference name := [.call name (address name)]
  alternative := Code.alternative

end Lowering

/-- The plain code of a pattern. -/
def Pattern.plainCode (pattern : Pattern) (address : String -> Option Nat) : Code :=
  (Lowering.plain address).code pattern

/-- Filling in addresses leaves plain code plain. -/
theorem Pattern.plainCode_addressed (pattern : Pattern) (address : String -> Option Nat)
    (entries : List (String × Nat)) :
    (pattern.plainCode address).map (RuleTable.addressed entries) =
      pattern.plainCode fun name => (entries.find? fun entry => entry.1 = name).map Prod.snd := by
  simp only [plainCode]
  induction pattern with
  | group inner inductionHypothesis => exact inductionHypothesis
  | not inner inductionHypothesis =>
      rw [Lowering.code, Lowering.code, Code.map_absent, inductionHypothesis]
  | optional inner inductionHypothesis =>
      rw [Lowering.code, Lowering.code, Code.map_optional, inductionHypothesis]
  | zeroOrMore inner inductionHypothesis =>
      rw [Lowering.code, Lowering.code, Code.map_loop, inductionHypothesis]
  | oneOrMore inner inductionHypothesis =>
      rw [Lowering.code, Lowering.code, List.map_append, Code.map_loop, inductionHypothesis]
  | repeated inner least most inductionHypothesis =>
      rw [Lowering.code, Lowering.code, Code.map_repeated, inductionHypothesis]
  | sequence first second firstHypothesis secondHypothesis =>
      rw [Lowering.code, Lowering.code, List.map_append, firstHypothesis, secondHypothesis]
  | choice first second firstHypothesis secondHypothesis =>
      rw [Lowering.code, Lowering.code]
      simp only [Lowering.plain] at firstHypothesis secondHypothesis ⊢
      rw [Code.map_alternative, firstHypothesis, secondHypothesis]
  | _ => rfl

/-! ## What plain code takes -/

/-- The plain code of every rule lies in the program where the program says, and
goes back to the caller behind it. -/
def Program.HoldsPlainly (program : Program) (grammar : Grammar) : Prop :=
  forall name rule, grammar.get? name = some rule ->
    Exists fun entry => program.entry? name = some entry ∧
      program.Holds entry (rule.pattern.plainCode program.entry? ++ [.returnToCaller])

/-- Plain code of the pattern takes at least so many steps to the outcome, and
builds the stack at least so high. -/
def Grammar.Needs (grammar : Grammar) (pattern : Pattern) (text : List Char) (outcome : Option Cut)
    (steps height : Nat) : Prop :=
  forall (program : Program) (address position : Nat), program.HoldsPlainly grammar ->
    program.Holds address (pattern.plainCode program.entry?) ->
    Exists fun more => Exists fun higher => steps ≤ more ∧ height ≤ higher ∧
      Spends program address (pattern.plainCode program.entry?) text position outcome more higher

namespace Grammar.Needs

open Program (holds_append holds_cons holds_guarded)

variable {grammar : Grammar} {pattern inner first second : Pattern}
variable {text taken middle rest left : List Char} {outcome : Option Cut} {cut : Cut}
variable {steps height more higher : Nat}

theorem weaken (needs : grammar.Needs pattern text outcome more higher) (fewer : steps ≤ more)
    (lower : height ≤ higher) : grammar.Needs pattern text outcome steps height := by
  intro program address position plainly held
  rcases needs program address position plainly held with ⟨_, _, enough, high, spends⟩
  exact ⟨_, _, Nat.le_trans fewer enough, Nat.le_trans lower high, spends⟩

/-- What code takes does not depend on what it was made of. -/
theorem of_eq {other : Pattern} (needs : grammar.Needs other text outcome steps height)
    (same : forall address, pattern.plainCode address = other.plainCode address) :
    grammar.Needs pattern text outcome steps height := by
  intro program address position plainly held
  rw [same] at held ⊢
  exact needs program address position plainly held

private theorem implements_plainCode (grammar : Grammar) (isAtom : pattern.isAtom = true)
    (address : String -> Option Nat) :
    grammar.Implements pattern (pattern.plainCode address) := by
  cases pattern with
  | char character => exact .char character
  | literal text => exact .literal text
  | literalAnyCase text => exact .literalAnyCase text
  | any => exact .any
  | charClass items => exact .charClass items
  | _ => cases isAtom

theorem atom (admits : pattern.Admits taken) :
    grammar.Needs pattern (taken ++ left) (some ⟨taken, left⟩) 1 0 := by
  intro program address position _ held
  have implemented := implements_plainCode grammar admits.isAtom program.entry?
  exact ⟨1, 0, Nat.le_refl 1, Nat.le_refl 0, spends_atom implemented admits held⟩

theorem atom_of_fails (isAtom : pattern.isAtom = true)
    (refused : forall taken, taken <+: text -> ¬ pattern.Admits taken) :
    grammar.Needs pattern text none 1 0 := by
  intro program address position _ held
  have implemented := implements_plainCode grammar isAtom program.entry?
  exact ⟨1, 0, Nat.le_refl 1, Nat.le_refl 0, spends_atom_of_fails implemented isAtom refused held⟩

/-- Behind a choice point the code of a part takes what it takes anywhere, and
the shape around it adds to that. -/
private theorem of_guarded {result : Option Cut} {extra : Nat}
    (needs : grammar.Needs inner text outcome steps height)
    (wraps : forall (program : Program) (address position : Nat),
      program.Holds address (pattern.plainCode program.entry?) ->
      program.Holds (address + 1) (inner.plainCode program.entry?) ∧ forall more higher,
        Spends program (address + 1) (inner.plainCode program.entry?) text position outcome more
          higher ->
        Spends program address (pattern.plainCode program.entry?) text position result
          (more + extra) (higher + 1)) :
    grammar.Needs pattern text result (steps + extra) (height + 1) := by
  intro program address position plainly held
  rcases wraps program address position held with ⟨inside, wrapped⟩
  rcases needs program _ position plainly inside with ⟨more, higher, fewer, lower, spends⟩
  exact ⟨more + extra, higher + 1, by omega, by omega, wrapped more higher spends⟩

theorem absent_of_fails (needs : grammar.Needs inner text none steps height) :
    grammar.Needs (.not inner) text (some (.nothing text)) (steps + 1) (height + 1) :=
  needs.of_guarded fun _ _ _ held =>
    ⟨(holds_guarded.mp held).2.1, fun _ _ => spends_absent_of_fails held⟩

theorem absent_of_matches (needs : grammar.Needs inner text (some cut) steps height) :
    grammar.Needs (.not inner) text none (steps + 3) (height + 1) :=
  needs.of_guarded fun _ _ _ held =>
    ⟨(holds_guarded.mp held).2.1, fun _ _ => spends_absent_of_matches held⟩

theorem sequence (needs : grammar.Needs first text (some ⟨taken, middle⟩) steps height)
    (next : grammar.Needs second middle (some ⟨rest, left⟩) more higher) :
    grammar.Needs (.sequence first second) text (some ⟨taken ++ rest, left⟩) (steps + more)
      (max height higher) := by
  intro program address position plainly held
  rcases holds_append.mp held with ⟨firstHeld, secondHeld⟩
  rcases needs program _ position plainly firstHeld with ⟨_, _, fewer, lower, spends⟩
  rcases next program _ _ plainly secondHeld with ⟨_, _, nextFewer, nextLower, nextSpends⟩
  exact ⟨_, _, by omega, by omega, spends_append spends nextSpends⟩

theorem sequence_of_first_fails (needs : grammar.Needs first text none steps height) :
    grammar.Needs (.sequence first second) text none steps height := by
  intro program address position plainly held
  rcases needs program _ position plainly (holds_append.mp held).1 with ⟨_, _, fewer, lower, spends⟩
  exact ⟨_, _, fewer, lower, spends_append_of_first_fails spends⟩

theorem sequence_of_fails (needs : grammar.Needs first text (some ⟨taken, middle⟩) steps height)
    (next : grammar.Needs second middle none more higher) :
    grammar.Needs (.sequence first second) text none (steps + more) (max height higher) := by
  intro program address position plainly held
  rcases holds_append.mp held with ⟨firstHeld, secondHeld⟩
  rcases needs program _ position plainly firstHeld with ⟨_, _, fewer, lower, spends⟩
  rcases next program _ _ plainly secondHeld with ⟨_, _, nextFewer, nextLower, nextSpends⟩
  exact ⟨_, _, by omega, by omega, spends_append_of_fails spends nextSpends⟩

theorem choice_first (needs : grammar.Needs first text (some cut) steps height) :
    grammar.Needs (.choice first second) text (some cut) (steps + 2) (height + 1) :=
  needs.of_guarded fun _ _ _ held =>
    ⟨(holds_guarded.mp held).2.1, fun _ _ => spends_alternative_first held⟩

theorem choice_second (needs : grammar.Needs first text none steps height)
    (next : grammar.Needs second text outcome more higher) :
    grammar.Needs (.choice first second) text outcome (steps + 1 + more)
      (max (height + 1) higher) := by
  intro program address position plainly held
  rcases holds_guarded.mp held with ⟨_, firstHeld, _, secondHeld⟩
  rcases needs program _ position plainly firstHeld with ⟨_, _, fewer, lower, spends⟩
  rcases next program _ position plainly secondHeld with ⟨_, _, nextFewer, nextLower, nextSpends⟩
  exact ⟨_, _, by omega, by omega, spends_alternative_second held spends nextSpends⟩

theorem optional_taken (needs : grammar.Needs inner text (some cut) steps height) :
    grammar.Needs (.optional inner) text (some cut) (steps + 2) (height + 1) :=
  needs.of_guarded fun _ _ _ held =>
    ⟨(holds_guarded.mp held).2.1, fun _ _ => spends_optional_taken held⟩

theorem optional_skipped (needs : grammar.Needs inner text none steps height) :
    grammar.Needs (.optional inner) text (some (.nothing text)) (steps + 1) (height + 1) :=
  needs.of_guarded fun _ _ _ held =>
    ⟨(holds_guarded.mp held).2.1, fun _ _ => spends_optional_skipped held⟩

theorem loop_stops (needs : grammar.Needs inner text none steps height) :
    grammar.Needs (.zeroOrMore inner) text (some (.nothing text)) (steps + 1) (height + 1) :=
  needs.of_guarded fun _ _ _ held =>
    ⟨(holds_guarded.mp held).2.1, fun _ _ => spends_loop_stops held⟩

theorem loop_idles (needs : grammar.Needs inner text (some ⟨[], left⟩) steps height) :
    grammar.Needs (.zeroOrMore inner) text (some ⟨[], left⟩) (steps + 2) (height + 1) :=
  needs.of_guarded fun _ _ _ held =>
    ⟨(holds_guarded.mp held).2.1, fun _ _ => spends_loop_idles held⟩

theorem loop_goesOn (needs : grammar.Needs inner text (some ⟨taken, middle⟩) steps height)
    (onward : taken ≠ [])
    (next : grammar.Needs (.zeroOrMore inner) middle (some ⟨rest, left⟩) more higher) :
    grammar.Needs (.zeroOrMore inner) text (some ⟨taken ++ rest, left⟩) (steps + 2 + more)
      (max (height + 1) higher) := by
  intro program address position plainly held
  rcases needs program _ position plainly (holds_guarded.mp held).2.1 with ⟨_, _, fewer, lower, spends⟩
  rcases next program _ _ plainly held with ⟨_, _, nextFewer, nextLower, nextSpends⟩
  exact ⟨_, _, by omega, by omega, spends_loop_goesOn held spends onward nextSpends⟩

theorem repeated_done : grammar.Needs (.repeated inner 0 0) text (some (.nothing text)) 0 0 := by
  intro program address position _ _
  exact ⟨0, 0, Nat.le_refl 0, Nat.le_refl 0, spends_nothing⟩

private theorem called_at {name : String} {program : Program} {entry : Nat}
    (located : program.entry? name = some entry) :
    (Pattern.rule name).plainCode program.entry? = [.call name (some entry)] := by
  change [Instruction.call name (program.entry? name)] = _
  rw [located]

theorem called {name : String} {rule : Rule} (defined : grammar.get? name = some rule)
    (needs : grammar.Needs rule.pattern text (some cut) steps height) :
    grammar.Needs (.rule name) text (some cut) (steps + 2) (height + 1) := by
  intro program address position plainly held
  rcases plainly name rule defined with ⟨entry, located, body⟩
  rcases holds_append.mp body with ⟨bodyHeld, closing⟩
  rcases needs program _ position plainly bodyHeld with ⟨_, _, fewer, lower, spends⟩
  rw [called_at located] at held ⊢
  exact ⟨_, _, by omega, by omega,
    spends_called (holds_cons.mp held).1 (holds_cons.mp closing).1 spends⟩

theorem called_of_fails {name : String} {rule : Rule} (defined : grammar.get? name = some rule)
    (needs : grammar.Needs rule.pattern text none steps height) :
    grammar.Needs (.rule name) text none (steps + 1) (height + 1) := by
  intro program address position plainly held
  rcases plainly name rule defined with ⟨entry, located, body⟩
  rcases needs program _ position plainly (holds_append.mp body).1 with ⟨_, _, fewer, lower, spends⟩
  rw [called_at located] at held ⊢
  exact ⟨_, _, by omega, by omega, spends_called_of_fails (holds_cons.mp held).1 spends⟩

end Grammar.Needs

end ParsingMachine
