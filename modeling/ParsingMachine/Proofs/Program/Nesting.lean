import ParsingMachine.Machine
import ParsingMachine.Proofs.Program.Layout

namespace ParsingMachine

open Machine

/-!
# How choice points are nested in code

Which choice points are open at an address can be read off the code in front
of it, instruction by instruction: a choice opens one and a commit closes the
last one.  That this reading is right for jumps as well has to be proved.  The
code that patterns are lowered to jumps only between addresses at which the
same choice points are open, so that it does not matter how the machine comes
to an address.

Calls do not count.  Every rule begins and ends with no choice point open.
-/

namespace Program

/-- The choice points that are open behind an instruction, given the ones that
are open in front of it.  Each is named by the address where it resumes. -/
def openBehind (address : Nat) (outer : List Nat) : Instruction -> List Nat
  | .choice offset => jump address offset :: outer
  | .commit _ => outer.tail
  | _ => outer

/-- The choice points that are open at an address, the last one first. -/
def openAt (program : Program) : Nat -> List Nat
  | 0 => []
  | address + 1 =>
      match program.code[address]? with
      | some instruction => openBehind address (program.openAt address) instruction
      | none => program.openAt address

/-- An offset leads from an address to a target that the program has, at which
the given choice points are open. -/
def LeadsTo (program : Program) (address : Nat) (offset : Int) (outer : List Nat)
    (target : Nat) : Prop :=
  (target : Int) = address + offset ∧ target < program.size ∧ program.openAt target = outer

/-- An instruction at an address does not disturb the nesting: wherever it
leads to, the choice points are open that it leaves open. -/
def Fits (program : Program) (address : Nat) : Instruction -> Prop
  | .choice offset => address + 1 < program.size ∧
      Exists fun target => program.LeadsTo address offset (program.openAt address) target
  | .commit offset => Exists fun resume => Exists fun outer =>
      program.openAt address = resume :: outer ∧ Exists fun target =>
        program.LeadsTo address offset outer target ∧ (offset < 0 -> Exists fun exit =>
          program.code[target]? = some (.choice exit))
  | .returnToCaller => program.openAt address = []
  | _ => address + 1 < program.size

/-- Instructions from an address on do not disturb the nesting. -/
def FitsFrom (program : Program) : Nat -> Code -> Prop
  | _, [] => True
  | address, instruction :: code =>
      program.Fits address instruction ∧ program.FitsFrom (address + 1) code

variable {program : Program} {address : Nat}

theorem openAt_succ {instruction : Instruction}
    (located : program.code[address]? = some instruction) :
    program.openAt (address + 1) = openBehind address (program.openAt address) instruction := by
  rw [openAt, located]

theorem LeadsTo.jump_eq {offset : Int} {outer : List Nat} {target : Nat}
    (leads : program.LeadsTo address offset outer target) : jump address offset = target := by
  rw [jump, ← leads.1]
  exact Int.toNat_natCast target

theorem fitsFrom_append {first second : Code} :
    program.FitsFrom address (first ++ second) <->
      program.FitsFrom address first ∧ program.FitsFrom (address + first.length) second := by
  induction first generalizing address with
  | nil => exact ⟨fun fits => ⟨True.intro, fits⟩, And.right⟩
  | cons instruction first inductionHypothesis =>
      rw [List.cons_append, FitsFrom, FitsFrom, inductionHypothesis, and_assoc, List.length_cons,
        show address + 1 + first.length = address + (first.length + 1) from by omega]

theorem FitsFrom.fits {code : Code} (fits : program.FitsFrom address code) {index : Nat}
    {instruction : Instruction} (found : code[index]? = some instruction) :
    program.Fits (address + index) instruction := by
  induction code generalizing address index with
  | nil => cases found
  | cons first code inductionHypothesis =>
      cases index with
      | zero =>
          cases found
          exact fits.1
      | succ index =>
          rw [List.getElem?_cons_succ] at found
          rw [Nat.add_comm index 1, ← Nat.add_assoc]
          exact inductionHypothesis fits.2 found

/-! ## Code of patterns -/

/-- Code that leaves the choice points as it found them. -/
structure Balances (program : Program) (address : Nat) (code : Code) : Prop where
  same : program.openAt (address + code.length) = program.openAt address
  fits : program.FitsFrom address code

theorem balances_nil : program.Balances address [] := ⟨rfl, True.intro⟩

theorem Balances.append {first second : Code} (before : program.Balances address first)
    (behind : program.Balances (address + first.length) second) :
    program.Balances address (first ++ second) where
  same := by rw [List.length_append, ← Nat.add_assoc, behind.same, before.same]
  fits := fitsFrom_append.mpr ⟨before.fits, behind.fits⟩

/-- An instruction that neither opens nor closes a choice point, nor goes
back. -/
def isPlain : Instruction -> Bool
  | .choice _ | .commit _ | .returnToCaller => false
  | _ => true

theorem balances_plain {instruction : Instruction} {code : Code}
    (plain : isPlain instruction = true) (held : program.Holds address (instruction :: code))
    (inside : address + 1 < program.size) (rest : program.Balances (address + 1) code) :
    program.Balances address (instruction :: code) where
  same := by
    have located := (holds_cons.mp held).1
    rw [List.length_cons, show address + (code.length + 1) = address + 1 + code.length from by omega,
      rest.same, openAt_succ located]
    cases instruction <;> first | rfl | cases plain
  fits := by
    refine ⟨?_, rest.fits⟩
    cases instruction <;> first | exact inside | cases plain

private theorem length_guarded {offset away : Int} {inner rest : Code} :
    (Instruction.choice offset :: inner ++ Instruction.commit away :: rest).length =
      inner.length + 2 + rest.length := by
  simp only [List.length_append, List.length_cons]
  omega

/-- A choice may lead behind the commit that belongs to it, or behind the code
that follows this commit.  The commit may lead to either of the two places, or
back to the choice. -/
theorem balances_guarded {offset away : Int} {inner rest : Code}
    (held : program.Holds address (.choice offset :: inner ++ .commit away :: rest))
    (inside : address + (Instruction.choice offset :: inner ++ .commit away :: rest).length <
      program.size)
    (guarded : address + 1 + inner.length < program.size -> program.Balances (address + 1) inner)
    (behind : address + 1 + inner.length + 1 + rest.length < program.size ->
      program.Balances (address + 1 + inner.length + 1) rest)
    (resumes : offset = inner.jumpOver 2 ∨ offset = inner.jumpOver (2 + rest.length))
    (leaves : away = 1 ∨ away = rest.jumpOver 1 ∨ away = -inner.jumpOver 1) :
    program.Balances address (.choice offset :: inner ++ .commit away :: rest) := by
  rw [length_guarded] at inside
  have innerBalances := guarded (by omega)
  have restBalances := behind (by omega)
  rcases holds_guarded.mp held with ⟨opening, _, closing, _⟩
  have opened : program.openAt (address + 1) = jump address offset :: program.openAt address :=
    openAt_succ opening
  have still : program.openAt (address + 1 + inner.length) =
      jump address offset :: program.openAt address := innerBalances.same.trans opened
  have closed : program.openAt (address + 1 + inner.length + 1) = program.openAt address := by
    rw [openAt_succ closing, still]
    rfl
  have ended : program.openAt (address + 1 + inner.length + 1 + rest.length) =
      program.openAt address := restBalances.same.trans closed
  have choiceFits : program.Fits address (.choice offset) := by
    refine ⟨by omega, ?_⟩
    rcases resumes with same | same
    all_goals rw [Code.jumpOver] at same
    · exact ⟨_, by omega, by omega, closed⟩
    · exact ⟨_, by omega, by omega, ended⟩
  have commitFits : program.Fits (address + 1 + inner.length) (.commit away) := by
    refine ⟨_, _, still, ?_⟩
    rcases leaves with same | same | same
    · exact ⟨_, ⟨by omega, by omega, closed⟩, fun backward => by omega⟩
    · rw [Code.jumpOver] at same
      exact ⟨_, ⟨by omega, by omega, ended⟩, fun backward => by omega⟩
    · rw [Code.jumpOver] at same
      exact ⟨address, ⟨by omega, by omega, rfl⟩, fun _ => ⟨offset, opening⟩⟩
  constructor
  · rw [← ended, length_guarded]
    exact congrArg _ (by omega)
  · rw [List.cons_append, FitsFrom, fitsFrom_append, FitsFrom]
    exact ⟨choiceFits, innerBalances.fits, commitFits, restBalances.fits⟩

end Program

open Program (holds_append holds_cons holds_guarded balances_nil balances_plain balances_guarded)

/-- The code of a pattern leaves the choice points as it found them. -/
theorem Grammar.Implements.balances {grammar : Grammar} {program : Program} {pattern : Pattern}
    {code : Code} (implemented : grammar.Implements pattern code) {address : Nat}
    (held : program.Holds address code) (inside : address + code.length < program.size) :
    program.Balances address code := by
  induction implemented generalizing address with
  | group _ inductionHypothesis => exact inductionHypothesis held inside
  | char _ => exact balances_plain rfl held inside balances_nil
  | literal _ => exact balances_plain rfl held inside balances_nil
  | literalAnyCase _ => exact balances_plain rfl held inside balances_nil
  | any => exact balances_plain rfl held inside balances_nil
  | charClass _ => exact balances_plain rfl held inside balances_nil
  | fused _ _ _ _ => exact balances_plain rfl held inside balances_nil
  | called _ _ => exact balances_plain rfl held inside balances_nil
  | sequence _ _ firstHypothesis secondHypothesis =>
      rw [List.length_append] at inside
      rcases holds_append.mp held with ⟨firstHeld, secondHeld⟩
      exact (firstHypothesis firstHeld (by omega)).append (secondHypothesis secondHeld (by omega))
  | not _ inductionHypothesis =>
      rcases holds_guarded.mp held with ⟨_, innerHeld, _, failHeld⟩
      refine balances_guarded held inside (inductionHypothesis innerHeld) ?_ (Or.inr rfl)
        (Or.inl rfl)
      exact fun inside => balances_plain rfl failHeld inside balances_nil
  | choice _ _ firstHypothesis secondHypothesis =>
      rcases holds_guarded.mp held with ⟨_, firstHeld, _, secondHeld⟩
      exact balances_guarded held inside (firstHypothesis firstHeld) (secondHypothesis secondHeld)
        (Or.inl rfl) (Or.inr (Or.inl rfl))
  | optional _ inductionHypothesis =>
      exact balances_guarded held inside (inductionHypothesis (holds_guarded.mp held).2.1)
        (fun _ => balances_nil) (Or.inl rfl) (Or.inl rfl)
  | zeroOrMore _ inductionHypothesis =>
      exact balances_guarded held inside (inductionHypothesis (holds_guarded.mp held).2.1)
        (fun _ => balances_nil) (Or.inl rfl) (Or.inr (Or.inr rfl))
  | oneOrMore _ inductionHypothesis => exact inductionHypothesis held inside
  | repeatedDone => exact balances_nil
  | repeatedRequired _ _ _ inductionHypothesis => exact inductionHypothesis held inside
  | repeatedAllowed _ _ inductionHypothesis => exact inductionHypothesis held inside
  | pasted comment _ _ inductionHypothesis =>
      rw [List.length_cons] at inside
      exact balances_plain rfl held (by omega)
        (inductionHypothesis (holds_cons.mp held).2 (by omega))

/-! ## Whole programs -/

namespace Program

/-- Rules that are put down from an address on, where no choice point is open.
Each of them begins where no choice point is open. -/
theorem fitsFrom_rules {grammar : Grammar} {program : Program} {rules : List (String × Code)}
    (implemented : forall name code, (name, code) ∈ rules ->
      Exists fun rule => grammar.get? name = some rule ∧ grammar.Implements rule.pattern code)
    {address : Nat} (held : program.Holds address (rules.flatMap RuleTable.closed))
    (opened : program.openAt address = []) :
    program.FitsFrom address (rules.flatMap RuleTable.closed) ∧
      forall entry, entry ∈ RuleTable.addressesFrom address rules ->
        entry.2 < program.size ∧ program.openAt entry.2 = [] := by
  induction rules generalizing address with
  | nil => exact ⟨True.intro, fun _ listed => absurd listed List.not_mem_nil⟩
  | cons rule rules inductionHypothesis =>
      rcases rule with ⟨name, code⟩
      rw [List.flatMap_cons, holds_append] at held
      rcases held with ⟨ruleHeld, restHeld⟩
      rcases holds_append.mp ruleHeld with ⟨codeHeld, closing⟩
      have returns := (holds_cons.mp closing).1
      have inside : address + code.length < program.size := (Array.getElem?_eq_some_iff.mp returns).1
      rcases implemented name code List.mem_cons_self with ⟨rule, _, ruleImplemented⟩
      have balanced := ruleImplemented.balances codeHeld inside
      have ended : program.openAt (address + code.length) = [] := balanced.same.trans opened
      have behind : program.openAt (address + (RuleTable.closed (name, code)).length) = [] := by
        rw [RuleTable.closed, List.length_append, List.length_singleton, ← Nat.add_assoc,
          openAt_succ returns, ended]
        rfl
      rcases inductionHypothesis
        (fun name code listed => implemented name code (List.mem_cons_of_mem _ listed))
        restHeld behind with ⟨restFits, entries⟩
      constructor
      · rw [List.flatMap_cons, fitsFrom_append]
        exact ⟨fitsFrom_append.mpr ⟨balanced.fits, ended, True.intro⟩, restFits⟩
      · intro entry listed
        rw [RuleTable.addressesFrom, List.mem_cons] at listed
        rcases listed with rfl | listed
        · exact ⟨by omega, opened⟩
        · refine entries entry ?_
          rw [RuleTable.closed, List.length_append, List.length_singleton, ← Nat.add_assoc]
          exact listed

/-- A program whose instructions keep the nesting of choice points, and whose
calls lead to where rules begin. -/
structure Nested (program : Program) : Prop where
  begins : 0 < program.size
  fits : forall address instruction, program.code[address]? = some instruction ->
    program.Fits address instruction
  called : forall name address, .call name address ∈ program.code ->
    Exists fun entry => address = some entry ∧ program.entry? name = some entry ∧
      entry < program.size ∧ program.openAt entry = []

theorem Laid.nested {program : Program} {grammar : Grammar} {start : String}
    {rules : List (String × Code)} (laid : program.Laid grammar start rules) :
    program.Nested := by
  have held : program.Holds 0 (rules.flatMap RuleTable.closed) := by
    intro index instruction found
    rw [laid.code, Nat.zero_add, List.getElem?_toArray]
    exact found
  rcases fitsFrom_rules laid.implemented held rfl with ⟨fits, entries⟩
  constructor
  · rcases laid.holds_start with ⟨code, _, _, startHeld⟩
    have closing := (holds_cons.mp (holds_append.mp startHeld).2).1
    exact Nat.lt_of_le_of_lt (Nat.zero_le _) (Array.getElem?_eq_some_iff.mp closing).1
  · intro address instruction located
    rw [laid.code, List.getElem?_toArray] at located
    have fitted := fits.fits located
    rw [Nat.zero_add] at fitted
    exact fitted
  · intro name address listed
    rcases laid.linked name address listed with ⟨entry, linked, found⟩
    rcases Option.map_eq_some_iff.mp found with ⟨⟨own, place⟩, among, same⟩
    cases same
    have member := List.mem_of_find?_eq_some among
    rw [laid.entries] at member
    exact ⟨place, linked, found, entries _ member⟩

end Program
end ParsingMachine
