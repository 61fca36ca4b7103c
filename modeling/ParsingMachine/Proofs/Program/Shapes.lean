import ParsingMachine.Proofs.Machine.Depth
import ParsingMachine.Proofs.Machine.Instructions
import ParsingMachine.Proofs.Program.Layout

namespace ParsingMachine

open Text Machine

/-!
# What the shapes of code do

The code of a pattern, entered at its first instruction, runs off its end
where the pattern matches, and falls back where the pattern fails.  For each
shape of code it is shown here how it does so if its parts do, how many steps
it takes, and how high it builds the stack.  The stack is arbitrary, and so is
the code around, so that the parts can be used as they stand.
-/

namespace Machine

variable {program : Program} {address position exit : Nat} {stack : Stack} {text : List Char}

/-- Where the machine goes on behind code whose pattern has the outcome: at
the exit of the code, or at the last choice point. -/
def resumed (exit position : Nat) (stack : Stack) : Option Cut -> Step
  | some cut => .next ⟨exit, ⟨cut.left, position + byteLength cut.taken⟩, stack⟩
  | none => backtrack stack

/-- The machine gets from the address to where code with this exit leaves it,
if the pattern of the code has the outcome. -/
def Arrives (program : Program) (address : Nat) (text : List Char) (position : Nat)
    (stack : Stack) (exit : Nat) (outcome : Option Cut) : Prop :=
  Exists fun count =>
    Leads program count ⟨address, ⟨text, position⟩, stack⟩ (resumed exit position stack outcome)

/-- The machine gets from one state to another. -/
def Reaches (program : Program) (state following : State) : Prop :=
  Exists fun count => Leads program count state (.next following)

/-! ## Guarded code -/

section Guarded

variable {offset away : Int} {inside steps peak : Nat}

/-- Where guarded code fails, the machine resumes at the target of the choice,
with the subject as it was. -/
theorem Climbs.resumes (opening : program.code[address]? = some (.choice offset))
    (failed : Climbs program steps peak
      ⟨address + 1, ⟨text, position⟩,
        stack.push (.choicePoint (jump address offset) ⟨text, position⟩)⟩
      (resumed inside position
        (stack.push (.choicePoint (jump address offset) ⟨text, position⟩)) none)) :
    Climbs program (steps + 1) (max stack.depth peak) ⟨address, ⟨text, position⟩, stack⟩
      (.next ⟨jump address offset, ⟨text, position⟩, stack⟩) :=
  .onward (step_choice opening _ _) failed

/-- Where guarded code succeeds, its commit jumps, unless it closes a round
that matched nothing. -/
theorem Climbs.commits {resume : Nat} {cut : Cut}
    (matched : Climbs program steps peak
      ⟨address, ⟨text, position⟩, stack.push (.choicePoint resume ⟨text, position⟩)⟩
      (resumed inside position (stack.push (.choicePoint resume ⟨text, position⟩)) (some cut)))
    (closing : program.code[inside]? = some (.commit away)) (onward : away < 0 -> cut.taken ≠ []) :
    Climbs program (steps + 1) peak
      ⟨address, ⟨text, position⟩, stack.push (.choicePoint resume ⟨text, position⟩)⟩
      (.next ⟨jump inside away, ⟨cut.left, position + byteLength cut.taken⟩, stack⟩) := by
  have leaves := matched.trans (.once (step_commit closing ?_))
  · have start := matched.depth_le
    refine leaves.of_eq rfl ?_
    simp only [Stack.depth_push] at start ⊢
    omega
  · intro backward same
    have nothing : byteLength cut.taken = 0 := Nat.left_eq_add.mp same
    exact onward backward (byteLength_eq_zero_iff.mp nothing)

theorem Arrives.resumes (opening : program.code[address]? = some (.choice offset))
    (arrived : Arrives program (address + 1) text position
      (stack.push (.choicePoint (jump address offset) ⟨text, position⟩)) inside none) :
    Reaches program ⟨address, ⟨text, position⟩, stack⟩
      ⟨jump address offset, ⟨text, position⟩, stack⟩ := by
  rcases arrived with ⟨count, leads⟩
  rcases leads.climbs with ⟨peak, climbs⟩
  exact ⟨_, (climbs.resumes opening).leads⟩

theorem Arrives.commits {resume : Nat} {cut : Cut}
    (arrived : Arrives program address text position
      (stack.push (.choicePoint resume ⟨text, position⟩)) inside (some cut))
    (closing : program.code[inside]? = some (.commit away)) (onward : away < 0 -> cut.taken ≠ []) :
    Reaches program ⟨address, ⟨text, position⟩, stack.push (.choicePoint resume ⟨text, position⟩)⟩
      ⟨jump inside away, ⟨cut.left, position + byteLength cut.taken⟩, stack⟩ := by
  rcases arrived with ⟨count, leads⟩
  rcases leads.climbs with ⟨peak, climbs⟩
  exact ⟨_, (climbs.commits closing onward).leads⟩

end Guarded

/-! ## Shapes of code -/

section Shapes

variable {inner : Code} {steps height more higher : Nat}

/-- Code that matches a pattern in a place, whatever the stack is. -/
def Performs (program : Program) (address : Nat) (code : Code) (text : List Char) (position : Nat)
    (outcome : Option Cut) : Prop :=
  forall stack, Arrives program address text position stack (address + code.length) outcome

/-- Code that matches a pattern in a place in so many steps, and puts so many
frames at most on top of whatever stack there is. -/
def Spends (program : Program) (address : Nat) (code : Code) (text : List Char) (position : Nat)
    (outcome : Option Cut) (steps height : Nat) : Prop :=
  forall stack, Climbs program steps (stack.depth + height) ⟨address, ⟨text, position⟩, stack⟩
    (resumed (address + code.length) position stack outcome)

theorem Spends.performs {outcome : Option Cut}
    (spends : Spends program address inner text position outcome steps height) :
    Performs program address inner text position outcome :=
  fun stack => ⟨steps, (spends stack).leads⟩

/-- Where guarded code fails it has been under one frame more. -/
theorem Spends.resumes {offset : Int}
    (failed : Spends program (address + 1) inner text position none steps height)
    (opening : program.code[address]? = some (.choice offset)) (stack : Stack) :
    Climbs program (steps + 1) (stack.depth + (height + 1)) ⟨address, ⟨text, position⟩, stack⟩
      (.next ⟨jump address offset, ⟨text, position⟩, stack⟩) := by
  refine ((failed (stack.push _)).resumes opening).of_eq rfl ?_
  rw [Stack.depth_push]
  omega

/-- Code that never closes a loop is left by its commit where it succeeds. -/
theorem Spends.leaves {offset away : Int} {cut : Cut}
    (matched : Spends program (address + 1) inner text position (some cut) steps height)
    (opening : program.code[address]? = some (.choice offset))
    (closing : program.code[address + 1 + inner.length]? = some (.commit away))
    (onward : away < 0 -> cut.taken ≠ []) (stack : Stack) :
    Climbs program (steps + 2) (stack.depth + (height + 1)) ⟨address, ⟨text, position⟩, stack⟩
      (.next ⟨jump (address + 1 + inner.length) away,
        ⟨cut.left, position + byteLength cut.taken⟩, stack⟩) := by
  have inside := (matched (stack.push (.choicePoint (jump address offset) ⟨text, position⟩))).commits
    closing onward
  refine (Climbs.onward (step_choice opening _ _) inside).of_eq rfl ?_
  simp only [Stack.depth_push]
  omega

theorem spends_absent_of_fails (held : program.Holds address inner.absent)
    (failed : Spends program (address + 1) inner text position none steps height) :
    Spends program address inner.absent text position (some (.nothing text)) (steps + 1)
      (height + 1) := by
  intro stack
  rcases Program.holds_guarded.mp held with ⟨opening, _, _, _⟩
  have reached := failed.resumes opening stack
  have exit : address + inner.absent.length = address + (inner.length + 3) := by
    simp only [Code.absent, List.length_append, List.length_cons, List.length_nil]
  rw [jump_jumpOver, ← exit] at reached
  exact reached

theorem spends_absent_of_matches {cut : Cut} (held : program.Holds address inner.absent)
    (matched : Spends program (address + 1) inner text position (some cut) steps height) :
    Spends program address inner.absent text position none (steps + 3) (height + 1) := by
  intro stack
  rcases Program.holds_guarded.mp held with ⟨opening, _, closing, behind⟩
  have reached := matched.leaves opening closing (fun backward => absurd backward (by decide)) stack
  rw [jump_one] at reached
  have fails : Climbs program 1 stack.depth
      ⟨address + 1 + inner.length + 1, ⟨cut.left, position + byteLength cut.taken⟩, stack⟩
      (backtrack stack) := .of_backtrack (step_fail (Program.holds_cons.mp behind).1)
  exact (reached.trans fails).of_eq rfl (by omega)

theorem spends_nothing : Spends program address [] text position (some (.nothing text)) 0 0 :=
  fun stack => .here ⟨address, ⟨text, position⟩, stack⟩

theorem spends_append {second : Code} {taken middle left rest : List Char}
    (first : Spends program address inner text position (some ⟨taken, middle⟩) steps height)
    (next : Spends program (address + inner.length) second middle (position + byteLength taken)
      (some ⟨rest, left⟩) more higher) :
    Spends program address (inner ++ second) text position (some ⟨taken ++ rest, left⟩)
      (steps + more) (max height higher) := by
  intro stack
  have reached := ((first stack).trans (next stack)).of_eq rfl
    (show _ = stack.depth + max height higher from by omega)
  rw [resumed, List.length_append, byteLength_append, ← Nat.add_assoc, ← Nat.add_assoc]
  exact reached

theorem spends_append_of_first_fails {second : Code}
    (failed : Spends program address inner text position none steps height) :
    Spends program address (inner ++ second) text position none steps height :=
  fun stack => failed stack

theorem spends_append_of_fails {second : Code} {taken middle : List Char}
    (first : Spends program address inner text position (some ⟨taken, middle⟩) steps height)
    (next : Spends program (address + inner.length) second middle (position + byteLength taken)
      none more higher) :
    Spends program address (inner ++ second) text position none (steps + more)
      (max height higher) :=
  fun stack => ((first stack).trans (next stack)).of_eq rfl (by omega)

theorem spends_alternative_first {second : Code} {cut : Cut}
    (held : program.Holds address (inner.alternative second))
    (matched : Spends program (address + 1) inner text position (some cut) steps height) :
    Spends program address (inner.alternative second) text position (some cut) (steps + 2)
      (height + 1) := by
  intro stack
  rcases Program.holds_guarded.mp held with ⟨opening, _, closing, _⟩
  have forward : (0 : Int) ≤ second.jumpOver 1 := Int.natCast_nonneg _
  have reached := matched.leaves opening closing
    (fun backward => absurd backward (Int.not_lt.mpr forward)) stack
  have exit : address + (inner.alternative second).length =
      address + 1 + inner.length + (second.length + 1) := by
    simp only [Code.alternative, List.length_append, List.length_cons]
    omega
  rw [jump_jumpOver, ← exit] at reached
  exact reached

theorem spends_alternative_second {second : Code} {outcome : Option Cut}
    (held : program.Holds address (inner.alternative second))
    (failed : Spends program (address + 1) inner text position none steps height)
    (next : Spends program (address + 1 + inner.length + 1) second text position outcome more
      higher) :
    Spends program address (inner.alternative second) text position outcome (steps + 1 + more)
      (max (height + 1) higher) := by
  intro stack
  rcases Program.holds_guarded.mp held with ⟨opening, _, _, _⟩
  have reached := failed.resumes opening stack
  have exit : address + (inner.alternative second).length =
      address + 1 + inner.length + 1 + second.length := by
    simp only [Code.alternative, List.length_append, List.length_cons]
    omega
  rw [jump_jumpOver_two] at reached
  rw [exit]
  exact (reached.trans (next stack)).of_eq rfl (by omega)

private theorem length_optional : address + inner.optional.length = address + 1 + inner.length + 1 := by
  simp only [Code.optional, List.length_append, List.length_cons, List.length_nil]
  omega

private theorem length_loop : address + inner.loop.length = address + 1 + inner.length + 1 := by
  simp only [Code.loop, List.length_append, List.length_cons, List.length_nil]
  omega

theorem spends_optional_taken {cut : Cut} (held : program.Holds address inner.optional)
    (matched : Spends program (address + 1) inner text position (some cut) steps height) :
    Spends program address inner.optional text position (some cut) (steps + 2) (height + 1) := by
  intro stack
  rcases Program.holds_guarded.mp held with ⟨opening, _, closing, _⟩
  have reached := matched.leaves opening closing (fun backward => absurd backward (by decide)) stack
  rw [jump_one, ← length_optional] at reached
  exact reached

theorem spends_optional_skipped (held : program.Holds address inner.optional)
    (failed : Spends program (address + 1) inner text position none steps height) :
    Spends program address inner.optional text position (some (.nothing text)) (steps + 1)
      (height + 1) := by
  intro stack
  rcases Program.holds_guarded.mp held with ⟨opening, _, _, _⟩
  have reached := failed.resumes opening stack
  rw [jump_jumpOver_two, ← length_optional] at reached
  exact reached

theorem spends_loop_stops (held : program.Holds address inner.loop)
    (failed : Spends program (address + 1) inner text position none steps height) :
    Spends program address inner.loop text position (some (.nothing text)) (steps + 1)
      (height + 1) := by
  intro stack
  rcases Program.holds_guarded.mp held with ⟨opening, _, _, _⟩
  have reached := failed.resumes opening stack
  rw [jump_jumpOver_two, ← length_loop] at reached
  exact reached

private theorem jump_loop_end :
    jump (address + 1 + inner.length) (-inner.jumpOver 1) = address := by
  rw [show address + 1 + inner.length = address + (inner.length + 1) from by omega]
  exact jump_back inner 1

/-- A round that matched nothing ends the loop behind its last instruction. -/
theorem spends_loop_idles {left : List Char} (held : program.Holds address inner.loop)
    (matched : Spends program (address + 1) inner text position (some ⟨[], left⟩) steps height) :
    Spends program address inner.loop text position (some ⟨[], left⟩) (steps + 2)
      (height + 1) := by
  intro stack
  rcases Program.holds_guarded.mp held with ⟨opening, _, closing, _⟩
  have target : program.code[jump (address + 1 + inner.length) (-inner.jumpOver 1)]? =
      some (.choice (inner.jumpOver 2)) := by
    rw [jump_loop_end]
    exact opening
  have idle : (Cursor.mk text position).position = (Cursor.mk left position).position := rfl
  have leaves := step_commit_idle closing (jumpOver_backward inner) idle target
    (jump address (inner.jumpOver 2)) stack
  have exit : address + inner.loop.length = jump address (inner.jumpOver 2) := by
    rw [jump_jumpOver_two, length_loop]
  rw [jump_loop_end] at leaves
  rw [exit]
  have inside := (matched (stack.push _)).trans (.once leaves)
  refine (Climbs.onward (step_choice opening _ _) inside).of_eq rfl ?_
  simp only [Stack.depth_push]
  omega

/-- After a round that took something off, the loop begins again. -/
theorem reaches_next_round {resume : Nat} {taken middle : List Char}
    (held : program.Holds address inner.loop)
    (performed : Performs program (address + 1) inner text position (some ⟨taken, middle⟩))
    (onward : taken ≠ []) :
    Reaches program
      ⟨address + 1, ⟨text, position⟩, stack.push (.choicePoint resume ⟨text, position⟩)⟩
      ⟨address, ⟨middle, position + byteLength taken⟩, stack⟩ := by
  rcases Program.holds_guarded.mp held with ⟨_, _, closing, _⟩
  have reached := (performed (stack.push (.choicePoint resume ⟨text, position⟩))).commits closing
    fun _ => onward
  rw [jump_loop_end] at reached
  exact reached

theorem spends_loop_goesOn {taken middle rest left : List Char}
    (held : program.Holds address inner.loop)
    (matched : Spends program (address + 1) inner text position (some ⟨taken, middle⟩) steps height)
    (onward : taken ≠ [])
    (next : Spends program address inner.loop middle (position + byteLength taken)
      (some ⟨rest, left⟩) more higher) :
    Spends program address inner.loop text position (some ⟨taken ++ rest, left⟩)
      (steps + 2 + more) (max (height + 1) higher) := by
  intro stack
  rcases Program.holds_guarded.mp held with ⟨opening, _, closing, _⟩
  have around := matched.leaves opening closing (fun _ => onward) stack
  rw [jump_loop_end] at around
  have reached := (around.trans (next stack)).of_eq rfl
    (show _ = stack.depth + max (height + 1) higher from by omega)
  rw [resumed, byteLength_append, ← Nat.add_assoc]
  exact reached

theorem spends_pasted {comment : String} {outcome : Option Cut}
    (held : program.Holds address (.comment comment :: inner))
    (spends : Spends program (address + 1) inner text position outcome steps height) :
    Spends program address (.comment comment :: inner) text position outcome (steps + 1)
      height := by
  intro stack
  have located := (Program.holds_cons.mp held).1
  have exit : address + (Instruction.comment comment :: inner).length =
      address + 1 + inner.length := by
    rw [List.length_cons]
    omega
  rw [exit]
  exact (Climbs.onward (step_comment located) (spends stack)).of_eq rfl (by dsimp only; omega)

/-- A call comes back behind itself where the rule matches. -/
theorem spends_called {name : String} {entry : Nat} {cut : Cut}
    (located : program.code[address]? = some (.call name (some entry)))
    (closing : program.code[entry + inner.length]? = some .returnToCaller)
    (matched : Spends program entry inner text position (some cut) steps height) :
    Spends program address [.call name (some entry)] text position (some cut) (steps + 2)
      (height + 1) := by
  intro stack
  have inside := (matched (stack.push (.caller (address + 1)))).trans (.once (step_return closing))
  refine (Climbs.onward (step_call located _ _) inside).of_eq rfl ?_
  simp only [Stack.depth_push]
  omega

/-- A failure of the rule is a failure of the call. -/
theorem spends_called_of_fails {name : String} {entry : Nat}
    (located : program.code[address]? = some (.call name (some entry)))
    (failed : Spends program entry inner text position none steps height) :
    Spends program address [.call name (some entry)] text position none (steps + 1)
      (height + 1) := by
  intro stack
  refine (Climbs.onward (step_call located _ _) (failed (stack.push _))).of_eq rfl ?_
  simp only [Stack.depth_push]
  omega

/-- The code that a match begins with ends it where it goes back. -/
theorem Spends.finishes {outcome : Option Cut}
    (spends : Spends program 0 inner text 0 outcome steps height)
    (closing : program.code[0 + inner.length]? = some .returnToCaller) :
    Climbs program (steps + outcome.isSome.toNat) height (.start text)
      (.finished (outcome.map fun cut => byteLength cut.taken)) := by
  have arrived := (spends .empty).of_eq rfl (Nat.zero_add height)
  cases outcome with
  | none => exact arrived
  | some cut =>
      have ended := Climbs.last (step_return_empty closing ⟨cut.left, 0 + byteLength cut.taken⟩)
      have whole := (arrived.trans ended).of_eq rfl (Nat.max_zero height)
      simp only [Nat.zero_add (byteLength cut.taken)] at whole
      exact whole

end Shapes

end Machine

/-! ## Atoms and sets -/

/-- The set for a class has the characters that an item of the class covers. -/
theorem ClassItem.contains_ofRanges {items : List ClassItem} {character : Char} :
    (CharSet.ofRanges (items.map ClassItem.toRange)).contains character = true <->
      Exists fun item => item ∈ items ∧ item.Covers character := by
  simp only [CharSet.contains_ofRanges, List.any_map, List.any_eq_true, Function.comp_apply,
    ClassItem.toRange_contains]

namespace Grammar

/-- The code of an atom is one instruction, which takes what the atom stands
for. -/
theorem Implements.tests {grammar : Grammar} {pattern : Pattern} {code : Code}
    (implemented : grammar.Implements pattern code) (isAtom : pattern.isAtom = true) :
    Exists fun instruction => code = [instruction] ∧ Tests instruction pattern.Admits := by
  cases implemented with
  | char character =>
      refine ⟨_, rfl, ?_⟩
      have tests := tests_matchText (String.singleton character)
      rw [String.toList_singleton] at tests
      exact tests
  | literal text => exact ⟨_, rfl, tests_matchText text⟩
  | literalAnyCase text => exact ⟨_, rfl, tests_matchTextAnyCase text⟩
  | any => exact ⟨_, rfl, tests_matchAny⟩
  | charClass items =>
      refine ⟨_, rfl, ?_⟩
      have tests := tests_matchSet (CharSet.ofRanges (items.map ClassItem.toRange))
      have covered : (fun taken : List Char => Exists fun character => taken = [character] ∧
          (CharSet.ofRanges (items.map ClassItem.toRange)).contains character = true) =
          Pattern.Admits (.charClass items) := by
        funext taken
        simp only [ClassItem.contains_ofRanges]
        rfl
      rw [covered] at tests
      exact tests
  | _ => cases isAtom

end Grammar

namespace Machine

variable {program : Program} {address position exit : Nat} {stack : Stack} {text : List Char}

theorem spends_atom {grammar : Grammar} {pattern : Pattern} {code : Code}
    {taken left : List Char} (implemented : grammar.Implements pattern code)
    (admits : pattern.Admits taken) (held : program.Holds address code) :
    Spends program address code (taken ++ left) position (some ⟨taken, left⟩) 1 0 := by
  intro stack
  rcases implemented.tests admits.isAtom with ⟨instruction, rfl, tests⟩
  have stepped := tests.step_of_admits (Program.holds_cons.mp held).1 admits left position stack
  exact (Climbs.once stepped).of_eq rfl (Nat.max_self _)

theorem spends_atom_of_fails {grammar : Grammar} {pattern : Pattern} {code : Code}
    (implemented : grammar.Implements pattern code) (isAtom : pattern.isAtom = true)
    (refused : forall taken, taken <+: text -> ¬ pattern.Admits taken)
    (held : program.Holds address code) :
    Spends program address code text position none 1 0 := by
  intro stack
  rcases implemented.tests isAtom with ⟨instruction, rfl, tests⟩
  exact Climbs.of_backtrack (tests.step_of_not_admits (Program.holds_cons.mp held).1 refused)

/-! ## Sets -/

/-- What becomes of a text where a set is matched against its beginning. -/
def TakesMember (set : CharSet) (text : List Char) : Option Cut -> Prop
  | some cut => Exists fun character => text = character :: cut.left ∧
      set.contains character = true ∧ byteLength cut.taken = byteLength [character]
  | none => forall character left, text = character :: left -> set.contains character = false

/-- The program that is one set, with nothing behind it. -/
def justSet (set : CharSet) : Program := ⟨#[.matchSet set], []⟩

theorem justSet_callsRules {grammar : Grammar} {set : CharSet} :
    (justSet set).CallsRules grammar := by
  intro name address listed
  rw [justSet, Array.mem_singleton] at listed
  cases listed

theorem justSet_holds {set : CharSet} : (justSet set).Holds 0 [.matchSet set] :=
  Program.holds_cons.mpr ⟨rfl, Program.holds_nil⟩

private theorem step_justSet (set : CharSet) (text : List Char) :
    (step (justSet set) ⟨0, ⟨text, 0⟩, .empty⟩ = .finished none ∧
        TakesMember set text none) ∨
      Exists fun character => Exists fun left => text = character :: left ∧
        set.contains character = true ∧
          step (justSet set) ⟨0, ⟨text, 0⟩, .empty⟩ =
            .next ⟨1, ⟨left, 0 + byteLength [character]⟩, .empty⟩ := by
  have located : (justSet set).code[0]? = some (.matchSet set) := rfl
  have tests := tests_matchSet set
  by_cases taken : Exists fun character => Exists fun left =>
      text = character :: left ∧ set.contains character = true
  · rcases taken with ⟨character, left, rfl, inside⟩
    have stepped := tests.step_of_admits located ⟨character, rfl, inside⟩ left 0 .empty
    exact Or.inr ⟨character, left, rfl, inside, stepped⟩
  · refine Or.inl ⟨?_, ?_⟩
    · apply tests.step_of_not_admits located
      rintro own ⟨left, rfl⟩ ⟨character, rfl, inside⟩
      exact taken ⟨character, left, rfl, inside⟩
    · intro character left same
      exact Bool.eq_false_iff.mpr fun inside => taken ⟨character, left, same, inside⟩

/-- What a set does is already told by the program that is just this set. -/
theorem Performs.takesMember {set : CharSet} {outcome : Option Cut}
    (performed : Performs (justSet set) 0 [.matchSet set] text 0 outcome) :
    TakesMember set text outcome := by
  rcases performed .empty with ⟨count, leads⟩
  rcases step_justSet set text with ⟨failed, refused⟩ | ⟨character, left, rfl, inside, stepped⟩
  · cases outcome with
    | none => exact refused
    | some cut =>
        cases leads with
        | onward again _ =>
            rw [failed] at again
            cases again
  · cases outcome with
    | none =>
        rcases leads.after (.once stepped) with ⟨rest, _, onward⟩
        cases onward with
        | last ended => cases ended
        | onward again _ => cases again
    | some cut =>
        cases leads with
        | onward again onward =>
            rw [stepped] at again
            cases again
            have stopped := onward.eq_of_stuck rfl
            injection stopped with _ cursor _
            injection cursor with left counted
            exact ⟨character, left ▸ rfl, inside, Nat.add_left_cancel counted⟩

theorem spends_set {set : CharSet} {outcome : Option Cut}
    (located : program.code[address]? = some (.matchSet set)) (takes : TakesMember set text outcome) :
    Spends program address [.matchSet set] text position outcome 1 0 := by
  intro stack
  have tests := tests_matchSet set
  cases outcome with
  | none =>
      refine Climbs.of_backtrack (tests.step_of_not_admits located ?_)
      rintro taken ⟨left, rfl⟩ ⟨character, rfl, inside⟩
      have outside := takes character left rfl
      rw [inside] at outside
      cases outside
  | some cut =>
      rcases takes with ⟨character, rfl, inside, same⟩
      have stepped := tests.step_of_admits located ⟨character, rfl, inside⟩ cut.left position stack
      rw [← same] at stepped
      exact (Climbs.once stepped).of_eq rfl (Nat.max_self _)

theorem TakesMember.union_first {one other : CharSet} {cut : Cut}
    (takes : TakesMember one text (some cut)) : TakesMember (one.union other) text (some cut) := by
  rcases takes with ⟨character, same, inside, counted⟩
  exact ⟨character, same, by rw [CharSet.contains_union, inside, Bool.true_or], counted⟩

theorem TakesMember.union_second {one other : CharSet} {outcome : Option Cut}
    (fails : TakesMember one text none) (takes : TakesMember other text outcome) :
    TakesMember (one.union other) text outcome := by
  cases outcome with
  | none =>
      intro character left same
      rw [CharSet.contains_union, fails character left same, takes character left same,
        Bool.or_false]
  | some cut =>
      rcases takes with ⟨character, same, inside, counted⟩
      exact ⟨character, same, by rw [CharSet.contains_union, inside, Bool.or_true], counted⟩

end Machine
end ParsingMachine
