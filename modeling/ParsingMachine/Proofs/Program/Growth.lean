import Mathlib.Algebra.Order.BigOperators.Group.List
import Mathlib.Algebra.Order.Ring.Nat
import ParsingMachine.Proofs.Program.Linking
import ParsingMachine.Proofs.Program.Plain

namespace ParsingMachine

/-!
# How far copies let code grow

The code that is copied may hold copies itself, and may be copied again where
the copy stands.  All the same code cannot grow beyond a constant factor: what
is copied is measured as it stands in the table, with everything that was
copied into it, so that one reference never takes more than the limit and the
comment in front.

The factor is against the rule compiled alone, where every reference is a
call.  For this the code has to have the same shape in both cases.  The one
place where the shape depends on the code of the parts is a choice between two
sets; a reference is no set in either case, even if it is a copy of one.
-/

namespace Code

/-! ## Code with copies against code without -/

/-- Code that differs from other code in what stands for references.  It is
nothing, or a single set, only where the other code is, and it is longer by no
more than a factor. -/
structure Expands (code alone : Code) : Prop where
  nothing : code = [] <-> alone = []
  set : forall set, code = [.matchSet set] <-> alone = [.matchSet set]
  length_le : code.length ≤ (RuleTable.inlineLimit + 1) * alone.length

namespace Expands

variable {code alone first firstAlone second secondAlone inner innerAlone : Code}

theorem refl (code : Code) : code.Expands code where
  nothing := Iff.rfl
  set _ := Iff.rfl
  length_le := Nat.le_mul_of_pos_left _ (Nat.succ_pos _)

theorem append (before : first.Expands firstAlone) (behind : second.Expands secondAlone) :
    Expands (first ++ second) (firstAlone ++ secondAlone) where
  nothing := by rw [List.append_eq_nil_iff, List.append_eq_nil_iff, before.nothing, behind.nothing]
  set set := by
    simp only [List.append_eq_singleton_iff, before.nothing, before.set, behind.nothing, behind.set]
  length_le :=
    calc
      (first ++ second).length = first.length + second.length := List.length_append
      _ ≤ (RuleTable.inlineLimit + 1) * firstAlone.length +
          (RuleTable.inlineLimit + 1) * secondAlone.length :=
        Nat.add_le_add before.length_le behind.length_le
      _ = (RuleTable.inlineLimit + 1) * (firstAlone ++ secondAlone).length := by
        rw [List.length_append, Nat.mul_add]

/-- An instruction more on both sides, which may jump farther on one of them,
as long as neither of the two is a set. -/
private theorem cons {instruction other : Instruction} (expands : code.Expands alone)
    (noSet : forall set, instruction ≠ .matchSet set)
    (otherNoSet : forall set, other ≠ .matchSet set) :
    Expands (instruction :: code) (other :: alone) where
  nothing := iff_of_false (List.cons_ne_nil _ _) (List.cons_ne_nil _ _)
  set set := iff_of_false (fun same => noSet set (List.cons.inj same).1)
    (fun same => otherNoSet set (List.cons.inj same).1)
  length_le := by
    have length := expands.length_le
    simp only [List.length_cons, Nat.mul_add]
    omega

/-- Code behind a choice point.  The offsets of the jumps are larger where the
code is longer. -/
private theorem guarded {offset away otherOffset otherAway : Int}
    (expands : inner.Expands innerAlone) (rest : second.Expands secondAlone) :
    Expands (.choice offset :: inner ++ .commit away :: second)
      (.choice otherOffset :: innerAlone ++ .commit otherAway :: secondAlone) := by
  have closed : Expands (.commit away :: second) (.commit otherAway :: secondAlone) :=
    rest.cons (fun _ => Instruction.noConfusion) (fun _ => Instruction.noConfusion)
  exact (expands.append closed).cons (fun _ => Instruction.noConfusion)
    (fun _ => Instruction.noConfusion)

theorem optional (expands : inner.Expands innerAlone) :
    inner.optional.Expands innerAlone.optional :=
  expands.guarded (refl [])

theorem loop (expands : inner.Expands innerAlone) : inner.loop.Expands innerAlone.loop :=
  expands.guarded (refl [])

theorem absent (expands : inner.Expands innerAlone) : inner.absent.Expands innerAlone.absent :=
  expands.guarded (refl [.fail])

theorem alternative (one : first.Expands firstAlone) (other : second.Expands secondAlone) :
    (first.alternative second).Expands (firstAlone.alternative secondAlone) :=
  one.guarded other

/-- Alternatives that are not both a set stay apart. -/
private theorem fusedAlternative_of_apart
    (apart : forall set other, first = [.matchSet set] -> second ≠ [.matchSet other]) :
    first.fusedAlternative second = first.alternative second := by
  unfold Code.fusedAlternative
  split
  · next set other => exact absurd rfl (apart set other rfl)
  · rfl

/-- Two alternatives become one set with copies exactly if they do without. -/
theorem fusedAlternative (one : first.Expands firstAlone) (other : second.Expands secondAlone) :
    (first.fusedAlternative second).Expands (firstAlone.fusedAlternative secondAlone) := by
  by_cases sets : Exists fun set => Exists fun otherSet =>
      firstAlone = [.matchSet set] ∧ secondAlone = [.matchSet otherSet]
  · rcases sets with ⟨set, otherSet, rfl, rfl⟩
    rw [(one.set set).mpr rfl, (other.set otherSet).mpr rfl]
    exact refl _
  · have apartAlone : forall set otherSet, firstAlone = [.matchSet set] ->
        secondAlone ≠ [.matchSet otherSet] :=
      fun set otherSet same otherSame => sets ⟨set, otherSet, same, otherSame⟩
    have apart : forall set otherSet, first = [.matchSet set] -> second ≠ [.matchSet otherSet] :=
      fun set otherSet same otherSame =>
        apartAlone set otherSet ((one.set set).mp same) ((other.set otherSet).mp otherSame)
    rw [fusedAlternative_of_apart apart, fusedAlternative_of_apart apartAlone]
    exact one.alternative other

private theorem copies (expands : code.Expands alone) (count : Nat) :
    Expands (List.replicate count code).flatten (List.replicate count alone).flatten := by
  induction count with
  | zero => exact refl []
  | succ count inductionHypothesis => exact expands.append inductionHypothesis

theorem repeated (expands : inner.Expands innerAlone) (least most : Nat) :
    (inner.repeated least most).Expands (innerAlone.repeated least most) :=
  (expands.copies least).append (expands.optional.copies (most - least))

end Expands
end Code

namespace RuleTable

/-! ## Rules -/

/-- What stands for a reference takes no more room than one call, up to the
factor. -/
theorem inlineOrCall_expands (table : RuleTable) (name : String) :
    (table.inlineOrCall name).Expands (empty.inlineOrCall name) := by
  change (table.inlineOrCall name).Expands [.call name none]
  unfold inlineOrCall
  split
  · next code found =>
      split
      · next short =>
          constructor
          · exact iff_of_false (List.cons_ne_nil _ _) (List.cons_ne_nil _ _)
          · exact fun set => iff_of_false (fun same => nomatch same) (fun same => nomatch same)
          · exact Nat.succ_le_succ short
      · exact .refl _
  · exact .refl _

/-- Against any table the code of a pattern differs from its code without rules
only in what stands for references. -/
theorem code_expands (table : RuleTable) (pattern : Pattern) :
    (table.lowering.code pattern).Expands (empty.lowering.code pattern) := by
  induction pattern with
  | group inner inductionHypothesis => exact inductionHypothesis
  | not inner inductionHypothesis => exact inductionHypothesis.absent
  | sequence first second firstHypothesis secondHypothesis =>
      exact firstHypothesis.append secondHypothesis
  | choice first second firstHypothesis secondHypothesis =>
      exact firstHypothesis.fusedAlternative secondHypothesis
  | optional inner inductionHypothesis => exact inductionHypothesis.optional
  | zeroOrMore inner inductionHypothesis => exact inductionHypothesis.loop
  | oneOrMore inner inductionHypothesis => exact inductionHypothesis.append inductionHypothesis.loop
  | repeated inner least most inductionHypothesis =>
      exact inductionHypothesis.repeated least.toNat most.toNat
  | rule name => exact inlineOrCall_expands table name
  | _ => exact .refl _

theorem length_le_of_compileRule {table : RuleTable} {rule : Rule} {code alone : Code}
    (compiled : table.compileRule rule = .ok code)
    (compiledAlone : empty.compileRule rule = .ok alone) :
    code.length ≤ (inlineLimit + 1) * alone.length := by
  have expands := code_expands table rule.pattern
  rw [Lowering.code_eq_of_lower compiled, Lowering.code_eq_of_lower compiledAlone] at expands
  exact expands.length_le

theorem compileRule_succeeds_iff_alone (table : RuleTable) (rule : Rule) :
    Succeeds (table.compileRule rule) <-> Succeeds (empty.compileRule rule) :=
  Lowering.lower_succeeds_iff.trans Lowering.lower_succeeds_iff.symm

/-! ## Programs -/

/-- A program is as long as all the code in its table, and one instruction more
for every rule. -/
theorem size_of_link {grammar : Grammar} {table : RuleTable} {start : String} {program : Program}
    (built : build grammar = .ok table) (linked : table.link start = .ok program) :
    program.size = (table.entries.map fun entry => entry.2.length + 1).sum := by
  rcases names_of_buildBy built with ⟨names, distinct⟩
  rcases (known_of_build built).laid_of_link (names ▸ distinct) linked with ⟨code, found, _⟩
  have laidOut := congrArg List.length (laysOut_of_link built found linked).code
  simp only [Array.length_toList, List.length_flatMap, List.length_append, List.length_map,
    List.length_singleton] at laidOut
  have reordered := (linedUp_layout found (names ▸ distinct)).perm
  exact laidOut.trans (reordered.map _).sum_eq

/-- The table of a grammar has the code of its rules, in their order. -/
theorem entries_of_build {grammar : Grammar} {table : RuleTable}
    (built : build grammar = .ok table) :
    table.entries = grammar.rules.map fun rule => (rule.name, (table.get? rule.name).getD []) := by
  rcases names_of_buildBy built with ⟨names, distinct⟩
  have known : forall entry, entry ∈ table.entries ->
      (entry.1, (table.get? entry.1).getD []) = entry := by
    intro entry listed
    rw [(get?_eq_some_iff (names ▸ distinct)).mpr listed]
    rfl
  calc
    table.entries = table.entries.map fun entry => (entry.1, (table.get? entry.1).getD []) :=
      ((List.map_congr_left known).trans (List.map_id _)).symm
    _ = (table.entries.map Prod.fst).map fun name => (name, (table.get? name).getD []) := by
      rw [List.map_map]
      rfl
    _ = grammar.rules.map fun rule => (rule.name, (table.get? rule.name).getD []) := by
      rw [names, List.map_map]
      rfl

/-- The code of a rule in the table of a grammar against the rule alone. -/
theorem alone_of_build {grammar : Grammar} {table : RuleTable} (built : build grammar = .ok table)
    {rule : Rule} (listed : rule ∈ grammar.rules) :
    empty.compileRule rule = .ok (empty.lowering.code rule.pattern) ∧
      ((table.get? rule.name).getD []).length ≤
        (inlineLimit + 1) * (empty.lowering.code rule.pattern).length := by
  rcases names_of_buildBy built with ⟨names, distinct⟩
  rcases exists_lowered_of_buildBy built listed with ⟨before, code, _, compiled, member⟩
  rcases (compileRule_succeeds_iff_alone before rule).mp ⟨code, compiled⟩ with
    ⟨alone, compiledAlone⟩
  rw [(get?_eq_some_iff (names ▸ distinct)).mpr member, Lowering.code_eq_of_lower compiledAlone]
  exact ⟨compiledAlone, length_le_of_compileRule compiled compiledAlone⟩

/-- Copies cost no more than a constant factor.  A rule has code against any
table exactly if it has code alone, and its code is then at most so many times
as long.  A program is at most as long as the sum of this over its rules, with
one instruction more for each of them, however the rules refer to each other. -/
theorem length_le_alone :
    (forall (table : RuleTable) (rule : Rule),
      (Succeeds (table.compileRule rule) <-> Succeeds (empty.compileRule rule)) ∧
      forall code alone, table.compileRule rule = .ok code -> empty.compileRule rule = .ok alone ->
        code.length ≤ (inlineLimit + 1) * alone.length) ∧
    forall (grammar : Grammar) (start : String) (program : Program),
      grammar.compile start = .ok program ->
      Exists fun alone : Rule -> Code =>
        (forall rule, rule ∈ grammar.rules -> empty.compileRule rule = .ok (alone rule)) ∧
        program.size ≤
          (grammar.rules.map fun rule => (inlineLimit + 1) * (alone rule).length + 1).sum := by
  constructor
  · intro table rule
    exact ⟨compileRule_succeeds_iff_alone table rule, fun _ _ => length_le_of_compileRule⟩
  · intro grammar start program compiled
    rcases exists_of_bind_eq_ok compiled with ⟨table, built, linked⟩
    refine ⟨fun rule => empty.lowering.code rule.pattern,
      fun rule listed => (alone_of_build built listed).1, ?_⟩
    rw [size_of_link built linked, entries_of_build built, List.map_map]
    exact List.sum_le_sum fun rule listed => Nat.succ_le_succ (alone_of_build built listed).2

/-- Each rule is twice the one before it. -/
def doubling : Grammar :=
  ⟨[⟨"one", .char 'a'⟩, ⟨"two", .sequence (.rule "one") (.rule "one")⟩,
    ⟨"four", .sequence (.rule "two") (.rule "two")⟩]⟩

/-- The last rule holds two copies of the second, and each of these two copies
of the first. -/
theorem doubling_length_le_alone :
    (Exists fun program => doubling.compile "four" = .ok program ∧ program.size = 18 ∧
      program.size ≤ 33 * 1 + 1 + (33 * 2 + 1 + (33 * 2 + 1))) ∧
    Exists fun table => build doubling = .ok table ∧
      Exists fun code =>
        table.compileRule ⟨"five", .sequence (.rule "four") (.rule "one")⟩ = .ok code ∧
          code.length = 13 ∧ code.length ≤ 33 * 2 := by
  constructor
  · have compiled : Exists fun program => doubling.compile "four" = .ok program ∧
        program.size = 18 := ⟨_, rfl, rfl⟩
    rcases compiled with ⟨program, compiled, size⟩
    rcases length_le_alone.2 doubling "four" program compiled with ⟨alone, compiledAlone, bound⟩
    simp only [doubling, List.forall_mem_cons] at compiledAlone
    rcases compiledAlone with ⟨one, two, four, _⟩
    simp only [doubling, List.map_cons, ← Except.ok.inj one, ← Except.ok.inj two,
      ← Except.ok.inj four] at bound
    exact ⟨program, compiled, size, bound⟩
  · refine ⟨_, rfl, _, rfl, rfl, ?_⟩
    exact (length_le_alone.1 _ ⟨"five", .sequence (.rule "four") (.rule "one")⟩).2 _ _ rfl rfl

end RuleTable
end ParsingMachine
