import ParsingMachine.Proofs.Program.Layout

namespace ParsingMachine

/-!
# Code is closed and balanced

The code of a rule is put down in many places, on its own and as a copy inside
of other rules, and no address in it is ever adjusted.  This is sound because
no jump leaves the code, and because whatever way the machine takes through
the code, it closes as many choice points as it has opened.

Both are said without a machine.  At every index the number of open choice
points is counted from the instructions in front of it, and every jump leads
to an index at which the count agrees.  Counts are differences, so that code
keeps its balance wherever it is put.
-/

/-- By how many an instruction changes the number of open choice points. -/
def Instruction.opens : Instruction -> Int
  | .choice _ => 1
  | .commit _ => -1
  | _ => 0

namespace Code

/-- How many more choice points are open in front of an index than at the
beginning of the code. -/
def level : Code -> Nat -> Int
  | _, 0 => 0
  | [], _ + 1 => 0
  | instruction :: code, index + 1 => instruction.opens + level code index

/-- An offset leads from an index to a target in the code or at its end, where
so many choice points are open. -/
def LeadsTo (code : Code) (index : Nat) (offset opened : Int) (target : Nat) : Prop :=
  (target : Int) = index + offset ∧ target ≤ code.length ∧ code.level target = opened

/-- An instruction at an index keeps the balance.  A commit that leads back
closes the loop that a choice has opened, and this choice leads to behind the
commit. -/
def Keeps (code : Code) (index : Nat) : Instruction -> Prop
  | .choice offset => 0 < offset ∧
      Exists fun target => code.LeadsTo index offset (code.level index) target
  | .commit offset => 0 < code.level index ∧
      Exists fun target => code.LeadsTo index offset (code.level index - 1) target ∧
        (offset < 0 -> Exists fun exit => code[target]? = some (.choice exit) ∧
          (target : Int) + exit = index + 1)
  | .returnToCaller => False
  | _ => True

/-- Code in which no jump leads outside, and which leaves as many choice points
open as it has found. -/
structure Balanced (code : Code) : Prop where
  ends : code.level code.length = 0
  keeps : forall index instruction, code[index]? = some instruction -> code.Keeps index instruction

/-! ## Counting -/

theorem level_zero (code : Code) : code.level 0 = 0 := by
  cases code <;> rfl

theorem level_succ {code : Code} {index : Nat} {instruction : Instruction}
    (located : code[index]? = some instruction) :
    code.level (index + 1) = code.level index + instruction.opens := by
  induction code generalizing index with
  | nil => cases located
  | cons first code inductionHypothesis =>
      cases index with
      | zero =>
          cases located
          rw [level_zero, level, level_zero, Int.add_comm]
      | succ index =>
          rw [level, level, inductionHypothesis located, Int.add_assoc]

theorem level_append_of_le {before : Code} {index : Nat} (inside : index ≤ before.length)
    (behind : Code) : level (before ++ behind) index = before.level index := by
  induction before generalizing index with
  | nil =>
      rw [Nat.le_zero.mp inside, level_zero, level_zero]
  | cons first before inductionHypothesis =>
      cases index with
      | zero => rw [level_zero, level_zero]
      | succ index =>
          rw [List.cons_append, level, level,
            inductionHypothesis (Nat.le_of_succ_le_succ inside)]

theorem level_append (before behind : Code) (index : Nat) :
    level (before ++ behind) (before.length + index) =
      before.level before.length + behind.level index := by
  induction before with
  | nil => rw [List.nil_append, List.length_nil, Nat.zero_add, level_zero, Int.zero_add]
  | cons first before inductionHypothesis =>
      rw [List.cons_append, List.length_cons, Nat.add_right_comm, level, level,
        inductionHypothesis, Int.add_assoc]

/-- No more choice points are closed than were opened. -/
theorem Balanced.level_nonneg {code : Code} (balanced : code.Balanced) {index : Nat}
    (inside : index ≤ code.length) : 0 ≤ code.level index := by
  induction index with
  | zero => exact Int.le_of_eq (level_zero code).symm
  | succ index inductionHypothesis =>
      have before := inductionHypothesis (Nat.le_of_succ_le inside)
      have located := List.getElem?_eq_getElem inside
      have kept := balanced.keeps index _ located
      rw [level_succ located]
      cases same : code[index] with
      | commit offset =>
          rw [same] at kept
          exact Int.sub_nonneg_of_le kept.1
      | choice offset => exact Int.add_nonneg before Int.one_nonneg
      | _ => exact Int.add_nonneg before (Int.le_refl 0)

/-! ## Code inside of other code -/

section Placed

variable {code : Code} {index : Nat} {instruction : Instruction} (before behind : Code)

theorem level_placed (inside : index ≤ code.length) :
    level (before ++ (code ++ behind)) (before.length + index) =
      before.level before.length + code.level index := by
  rw [level_append, level_append_of_le inside]

theorem getElem?_placed (located : code[index]? = some instruction) :
    (before ++ (code ++ behind))[before.length + index]? = some instruction := by
  rw [List.getElem?_append_right (Nat.le_add_right _ _), Nat.add_sub_cancel_left,
    List.getElem?_append_left (List.getElem?_eq_some_iff.mp located).1, located]

theorem LeadsTo.placed {offset opened : Int} {target : Nat}
    (leads : code.LeadsTo index offset opened target) :
    LeadsTo (before ++ (code ++ behind)) (before.length + index) offset
      (before.level before.length + opened) (before.length + target) := by
  rcases leads with ⟨reached, inside, agrees⟩
  refine ⟨by omega, ?_, ?_⟩
  · simp only [List.length_append]
    omega
  · rw [level_placed before behind inside, agrees]

variable {before} in
/-- An instruction that keeps the balance of its code keeps the balance of all
the code around. -/
theorem Keeps.placed (kept : code.Keeps index instruction)
    (located : code[index]? = some instruction) (opened : 0 ≤ before.level before.length) :
    Keeps (before ++ (code ++ behind)) (before.length + index) instruction := by
  have inside : index ≤ code.length := Nat.le_of_lt (List.getElem?_eq_some_iff.mp located).1
  cases instruction with
  | choice offset =>
      rcases kept with ⟨onward, target, leads⟩
      refine ⟨onward, before.length + target, ?_⟩
      rw [level_placed before behind inside]
      exact leads.placed before behind
  | commit offset =>
      rcases kept with ⟨positive, target, leads, closes⟩
      refine ⟨?_, before.length + target, ?_, fun backward => ?_⟩
      · rw [level_placed before behind inside]
        omega
      · rw [level_placed before behind inside, Int.add_sub_assoc]
        exact leads.placed before behind
      · rcases closes backward with ⟨exit, opening, left⟩
        exact ⟨exit, getElem?_placed before behind opening, by omega⟩
  | returnToCaller => exact kept.elim
  | _ => trivial

end Placed

/-- Every instruction of appended code is an instruction of one of the parts. -/
theorem forall_getElem?_append {motive : Nat -> Instruction -> Prop} {first second : Code}
    (inFirst : forall index instruction, first[index]? = some instruction ->
      motive index instruction)
    (inSecond : forall index instruction, second[index]? = some instruction ->
      motive (first.length + index) instruction) (index : Nat) (instruction : Instruction)
    (located : (first ++ second)[index]? = some instruction) : motive index instruction := by
  rcases Nat.lt_or_ge index first.length with inside | behind
  · rw [List.getElem?_append_left inside] at located
    exact inFirst index instruction located
  · rw [List.getElem?_append_right behind] at located
    have found := inSecond _ instruction located
    rw [Nat.add_sub_cancel' behind] at found
    exact found

/-! ## Shapes -/

namespace Balanced

theorem nil : Balanced [] where
  ends := rfl
  keeps index instruction located := by cases located

/-- An instruction that neither opens nor closes a choice point is balanced,
unless it goes back. -/
theorem single {instruction : Instruction} (same : instruction.opens = 0)
    (stays : instruction ≠ .returnToCaller) : Balanced [instruction] where
  ends := by
    rw [List.length_singleton, level, level_zero, same]
    rfl
  keeps index other located := by
    have found := List.mem_of_getElem? located
    rw [List.mem_singleton.mp found]
    cases instruction with
    | choice offset => cases same
    | commit offset => cases same
    | returnToCaller => exact absurd rfl stays
    | _ => trivial

theorem append {first second : Code} (before : first.Balanced) (behind : second.Balanced) :
    Balanced (first ++ second) where
  ends := by
    rw [List.length_append, level_append, before.ends, behind.ends]
    rfl
  keeps := by
    apply forall_getElem?_append
    · intro index instruction located
      have front : 0 ≤ level [] 0 := Int.le_refl 0
      have kept := (before.keeps index instruction located).placed second located front
      rw [List.nil_append, List.length_nil, Nat.zero_add] at kept
      exact kept
    · intro index instruction located
      have kept := (behind.keeps index instruction located).placed [] located
        (Int.le_of_eq before.ends.symm)
      rw [List.append_nil] at kept
      exact kept

section Guarded

variable {offset away : Int} {inner rest : Code}

private theorem level_inside (offset away : Int) (rest : Code) (balanced : inner.Balanced) :
    level (.choice offset :: inner ++ .commit away :: rest) (inner.length + 1) = 1 := by
  rw [List.cons_append, level, level_append_of_le (Nat.le_refl _), balanced.ends]
  rfl

private theorem level_behind (offset away : Int) (rest : Code) (balanced : inner.Balanced)
    (index : Nat) :
    level (.choice offset :: inner ++ .commit away :: rest) (inner.length + 1 + (index + 1)) =
      rest.level index := by
  rw [List.cons_append, Nat.add_right_comm, level, level_append, level, balanced.ends,
    Instruction.opens, Instruction.opens]
  omega

private theorem size_guarded (offset away : Int) (inner rest : Code) :
    (Instruction.choice offset :: inner ++ Instruction.commit away :: rest).length =
      inner.length + 1 + (rest.length + 1) := by
  rw [List.length_append, List.length_cons, List.length_cons]

private theorem keeps_opening (away : Int) (innerBalanced : inner.Balanced)
    (restBalanced : rest.Balanced)
    (resumes : offset = inner.jumpOver 2 ∨ offset = inner.jumpOver (2 + rest.length)) :
    Keeps (.choice offset :: inner ++ .commit away :: rest) 0 (.choice offset) := by
  have size := size_guarded offset away inner rest
  have closed := level_behind offset away rest innerBalanced 0
  have ended := level_behind offset away rest innerBalanced rest.length
  rw [level_zero] at closed
  rw [restBalanced.ends] at ended
  simp only [jumpOver] at resumes
  refine ⟨by omega, ?_⟩
  rw [level_zero]
  rcases resumes with same | same
  · exact ⟨_, by omega, by omega, closed⟩
  · exact ⟨_, by omega, by omega, ended⟩

private theorem keeps_closing (innerBalanced : inner.Balanced) (restBalanced : rest.Balanced)
    (leaves : away = 1 ∨ away = rest.jumpOver 1 ∨
      (away = -inner.jumpOver 1 ∧ offset = inner.jumpOver 2)) :
    Keeps (.choice offset :: inner ++ .commit away :: rest) (inner.length + 1)
      (.commit away) := by
  have size := size_guarded offset away inner rest
  have closed := level_behind offset away rest innerBalanced 0
  have ended := level_behind offset away rest innerBalanced rest.length
  rw [level_zero] at closed
  rw [restBalanced.ends] at ended
  simp only [jumpOver] at leaves
  rw [Keeps, level_inside offset away rest innerBalanced]
  refine ⟨by decide, ?_⟩
  rcases leaves with same | same | ⟨same, opens⟩
  · exact ⟨_, ⟨by omega, by omega, closed⟩, fun backward => by omega⟩
  · exact ⟨_, ⟨by omega, by omega, ended⟩, fun backward => by omega⟩
  · exact ⟨0, ⟨by omega, by omega, level_zero _⟩, fun _ => ⟨offset, rfl, by omega⟩⟩

private theorem keeps_inside (offset away : Int) (rest : Code) (innerBalanced : inner.Balanced)
    {index : Nat} {instruction : Instruction} (located : inner[index]? = some instruction) :
    Keeps (.choice offset :: inner ++ .commit away :: rest) (index + 1) instruction := by
  have front : 0 ≤ level [.choice offset] 1 := Int.one_nonneg
  have kept := (innerBalanced.keeps index instruction located).placed (.commit away :: rest)
    located front
  rw [List.length_singleton, Nat.add_comm 1 index] at kept
  exact kept

private theorem keeps_behind (offset away : Int) (innerBalanced : inner.Balanced)
    (restBalanced : rest.Balanced) {index : Nat} {instruction : Instruction}
    (located : rest[index]? = some instruction) :
    Keeps (.choice offset :: inner ++ .commit away :: rest) (inner.length + 1 + (index + 1))
      instruction := by
  have whole : (.choice offset :: inner ++ [.commit away]) ++ (rest ++ []) =
      .choice offset :: inner ++ .commit away :: rest := by
    rw [List.append_nil, List.append_assoc, List.singleton_append]
  have front : (Instruction.choice offset :: inner ++ [Instruction.commit away]).length =
      inner.length + 1 + 1 := size_guarded offset away inner []
  have opened := level_behind offset away [] innerBalanced 0
  rw [level_zero, ← front] at opened
  have kept := (restBalanced.keeps index instruction located).placed [] located
    (Int.le_of_eq opened.symm)
  rw [whole, front, Nat.add_assoc, Nat.add_comm 1 index] at kept
  exact kept

/-- A choice may lead behind the commit that belongs to it, or behind the code
that follows this commit.  The commit may lead to either of the two places, or
back to the choice. -/
theorem guarded (innerBalanced : inner.Balanced) (restBalanced : rest.Balanced)
    (resumes : offset = inner.jumpOver 2 ∨ offset = inner.jumpOver (2 + rest.length))
    (leaves : away = 1 ∨ away = rest.jumpOver 1 ∨
      (away = -inner.jumpOver 1 ∧ offset = inner.jumpOver 2)) :
    Balanced (.choice offset :: inner ++ .commit away :: rest) where
  ends := by
    rw [size_guarded, level_behind offset away rest innerBalanced, restBalanced.ends]
  keeps := by
    apply forall_getElem?_append
    · intro index instruction located
      cases index with
      | zero =>
          cases located
          exact keeps_opening away innerBalanced restBalanced resumes
      | succ index => exact keeps_inside offset away rest innerBalanced located
    · intro index instruction located
      cases index with
      | zero =>
          cases located
          exact keeps_closing innerBalanced restBalanced leaves
      | succ index => exact keeps_behind offset away innerBalanced restBalanced located

end Guarded
end Balanced
end Code

/-! ## Code of patterns -/

/-- The code of a pattern is balanced. -/
theorem Grammar.Implements.balanced {grammar : Grammar} {pattern : Pattern} {code : Code}
    (implemented : grammar.Implements pattern code) : code.Balanced := by
  induction implemented with
  | group _ inductionHypothesis => exact inductionHypothesis
  | char _ | literal _ | literalAnyCase _ | any | charClass _ | fused _ _ _ _ | called _ _ =>
      exact .single rfl Instruction.noConfusion
  | not _ inductionHypothesis =>
      exact .guarded inductionHypothesis (.single rfl Instruction.noConfusion) (Or.inr rfl)
        (Or.inl rfl)
  | sequence _ _ firstHypothesis secondHypothesis => exact firstHypothesis.append secondHypothesis
  | choice _ _ firstHypothesis secondHypothesis =>
      exact .guarded firstHypothesis secondHypothesis (Or.inl rfl) (Or.inr (Or.inl rfl))
  | optional _ inductionHypothesis =>
      exact .guarded inductionHypothesis .nil (Or.inl rfl) (Or.inl rfl)
  | zeroOrMore _ inductionHypothesis =>
      exact .guarded inductionHypothesis .nil (Or.inl rfl) (Or.inr (Or.inr ⟨rfl, rfl⟩))
  | oneOrMore _ inductionHypothesis => exact inductionHypothesis
  | repeatedDone => exact .nil
  | repeatedRequired _ _ _ inductionHypothesis => exact inductionHypothesis
  | repeatedAllowed _ _ inductionHypothesis => exact inductionHypothesis
  | pasted comment _ _ inductionHypothesis =>
      exact (Code.Balanced.single rfl Instruction.noConfusion).append inductionHypothesis

namespace RuleTable

variable {grammar : Grammar} {table : RuleTable}

theorem known_of_build (built : build grammar = .ok table) : table.Known grammar :=
  known_of_buildBy (fun _ known => known.lowering_sound) built

/-- Every code in a table that was built is balanced. -/
theorem balanced_of_build (built : build grammar = .ok table) {name : String} {code : Code}
    (listed : (name, code) ∈ table.entries) : code.Balanced := by
  rcases known_of_build built name code listed with ⟨rule, _, implemented⟩
  exact implemented.balanced

/-- So is every code that is made against such a table, whatever the rule is. -/
theorem balanced_of_compileRule (built : build grammar = .ok table) {rule : Rule} {code : Code}
    (compiled : table.compileRule rule = .ok code) : code.Balanced :=
  ((known_of_build built).lowering_sound.implements_of_lower compiled).balanced

end RuleTable

/-! ## Depths -/

namespace Code

/-- How many choice points are open at every index of the code and at its end,
so that this fits every jump. -/
structure Nests (code : Code) (depth : Nat -> Nat) : Prop where
  begins : depth 0 = 0
  ends : depth code.length = 0
  choice : forall index offset, code[index]? = some (.choice offset) ->
    0 < offset ∧ depth (index + 1) = depth index + 1 ∧ Exists fun target : Nat =>
      (target : Int) = index + offset ∧ target ≤ code.length ∧ depth target = depth index
  commit : forall index offset, code[index]? = some (.commit offset) ->
    1 ≤ depth index ∧ Exists fun target : Nat =>
      (target : Int) = index + offset ∧ target ≤ code.length ∧ depth target = depth index - 1 ∧
        (offset < 0 -> Exists fun exit => code[target]? = some (.choice exit) ∧
          (target : Int) + exit = index + 1)
  steady : forall index instruction, code[index]? = some instruction ->
    instruction.opcode ≠ .choice -> instruction.opcode ≠ .commit ->
    depth (index + 1) = depth index
  stays : .returnToCaller ∉ code
  /-- There are as many choices as commits. -/
  even : code.countP (fun instruction => instruction.opcode = .choice) =
    code.countP fun instruction => instruction.opcode = .commit

/-- The count at the end is that of the choices less that of the commits. -/
theorem level_length (code : Code) : code.level code.length =
    code.countP (fun instruction => instruction.opcode = .choice) -
      code.countP fun instruction => instruction.opcode = .commit := by
  induction code with
  | nil => rfl
  | cons instruction code inductionHypothesis =>
      rw [List.length_cons, level, inductionHypothesis, List.countP_cons, List.countP_cons]
      cases instruction <;> simp [Instruction.opens, Instruction.opcode] <;> omega

/-- The counts of balanced code are such depths. -/
theorem Balanced.nests {code : Code} (balanced : code.Balanced) :
    code.Nests fun index => (code.level index).toNat where
  begins := by rw [level_zero, Int.toNat_zero]
  ends := by rw [balanced.ends, Int.toNat_zero]
  choice index offset located := by
    rcases balanced.keeps index _ located with ⟨onward, target, reached, inside, same⟩
    have opened := level_succ located
    have nonneg := balanced.level_nonneg (Nat.le_of_lt (List.getElem?_eq_some_iff.mp located).1)
    change _ = _ + 1 at opened
    exact ⟨onward, by omega, target, reached, inside, by rw [same]⟩
  commit index offset located := by
    rcases balanced.keeps index _ located with ⟨positive, target, ⟨reached, inside, same⟩, closes⟩
    exact ⟨by omega, target, reached, inside, by omega, closes⟩
  steady index instruction located notChoice notCommit := by
    have same : instruction.opens = 0 := by
      cases instruction <;> first | rfl | exact absurd rfl notChoice | exact absurd rfl notCommit
    rw [level_succ located, same, Int.add_zero]
  stays listed := by
    rcases List.mem_iff_getElem?.mp listed with ⟨index, located⟩
    exact (balanced.keeps index _ located).elim
  even := by
    have counted := level_length code
    rw [balanced.ends] at counted
    omega

end Code

/-- Code in a table that was built, and code that is made of any rule against
such a table, is closed and balanced: there are depths that fit all its
jumps. -/
theorem RuleTable.exists_nests_of_build {grammar : Grammar} {table : RuleTable}
    (built : build grammar = .ok table) :
    (forall entry, entry ∈ table.entries -> Exists fun depth => entry.2.Nests depth) ∧
      forall rule code, table.compileRule rule = .ok code -> Exists fun depth => code.Nests depth :=
  ⟨fun _ listed => ⟨_, (balanced_of_build built listed).nests⟩,
    fun _ _ compiled => ⟨_, (balanced_of_compileRule built compiled).nests⟩⟩

/-- A rule with an alternative that is inside of a loop. -/
def optionalDigits : Grammar :=
  ⟨[⟨"digits", .zeroOrMore (.choice (.range '0' '9') (.literal "_"))⟩]⟩

/-- A copy of that rule inside of a lookahead, behind a loop around no code at
all. -/
theorem optionalDigits_nests :
    Exists fun table => Exists fun code => RuleTable.build optionalDigits = .ok table ∧
      table.compileRule ⟨"number", .sequence (.zeroOrMore (.repeated (.char '0') 0 0))
        (.not (.sequence (.rule "digits") (.rule "number")))⟩ = .ok code ∧ code.length = 13 ∧
      Exists fun depth => code.Nests depth := by
  have compiled : Exists fun table => Exists fun code =>
      RuleTable.build optionalDigits = .ok table ∧
        table.compileRule ⟨"number", .sequence (.zeroOrMore (.repeated (.char '0') 0 0))
          (.not (.sequence (.rule "digits") (.rule "number")))⟩ = .ok code ∧ code.length = 13 :=
    ⟨_, _, rfl, rfl, rfl⟩
  rcases compiled with ⟨table, code, built, compiled, length⟩
  exact ⟨table, code, built, compiled, length,
    (RuleTable.exists_nests_of_build built).2 _ code compiled⟩

end ParsingMachine
