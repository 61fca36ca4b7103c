import Mathlib.Logic.Relation
import ParsingMachine.Proofs.Program.Objections

namespace ParsingMachine

/-!
# Who is to blame for a missing rule

A reference to a rule that is not defined becomes a call, and the call is found
out when the program is linked.  By then there are no patterns any more.  The
rule in whose code the call stands is to blame, and it need not be the rule that
refers to the missing one: the call may have come there with a copy of the code
of a rule that was defined before, or with a copy in that copy.

Such copies are followed back here to the pattern that refers to the missing
rule.
-/

/-- A rule refers to a name, in a place that code is made of. -/
def Grammar.AsksFor (grammar : Grammar) (name other : String) : Prop :=
  Exists fun rule => grammar.get? name = some rule ∧ .rule other ∈ rule.pattern.codedParts

namespace RuleTable

/-- The table of the rules that were defined before a rule. -/
def before (table : RuleTable) (name : String) : RuleTable :=
  ⟨table.entries.takeWhile fun entry => entry.1 ≠ name⟩

/-- The code of a rule has copies of the code of another one: it refers to it, and
the other one was defined before and has short code. -/
def Pastes (table : RuleTable) (grammar : Grammar) (name other : String) : Prop :=
  grammar.AsksFor name other ∧
    Exists fun code => (table.before name).get? other = some code ∧ code.length ≤ inlineLimit

/-- A rule refers to a missing one, or has a copy of the code of a rule that does,
or a copy of such a copy. -/
def Lacks (table : RuleTable) (grammar : Grammar) (name missing : String) : Prop :=
  Exists fun maker => Relation.ReflTransGen (table.Pastes grammar) name maker ∧
    grammar.AsksFor maker missing

variable {grammar : Grammar} {table : RuleTable} {name other missing : String} {code : Code}

/-! ## The rules before a rule -/

theorem before_eq {front behind : List (String × Code)}
    (split : table.entries = front ++ (name, code) :: behind)
    (distinct : (table.entries.map Prod.fst).Nodup) : table.before name = ⟨front⟩ := by
  have others : forall entry, entry ∈ front -> decide (entry.1 ≠ name) = true := by
    rw [split, List.map_append, List.map_cons, List.nodup_middle, List.nodup_cons] at distinct
    intro entry listed
    have named := List.mem_map_of_mem (f := Prod.fst) listed
    exact decide_eq_true fun same => distinct.1 (List.mem_append_left _ (same ▸ named))
  have stops : ¬ decide ((name, code).1 ≠ name) = true :=
    fun different => of_decide_eq_true different rfl
  rw [before, split, List.takeWhile_append_of_pos others, List.takeWhile_cons, if_neg stops,
    List.append_nil]

/-- The code of every rule was made against the table of the rules before it. -/
theorem exists_lowered_before {way : RuleTable -> Lowering}
    (built : buildBy way grammar = .ok table) (found : table.get? name = some code) :
    Exists fun rule => grammar.get? name = some rule ∧
      (way (table.before name)).lower name rule.pattern = .ok code := by
  have origins : forall front entry behind, table.entries = front ++ entry :: behind ->
      Exists fun rule => rule ∈ grammar.rules ∧ rule.name = entry.1 ∧
        (way ⟨front⟩).lower rule.name rule.pattern = .ok entry.2 := by
    refine buildBy_induction ?_ ?_ built
    · intro front entry behind split
      exact absurd split.symm (List.append_ne_nil_of_right_ne_nil _ (List.cons_ne_nil _ _))
    · intro rule listed earlier code known lowered front entry behind split
      rcases List.eq_nil_or_concat behind with rfl | ⟨others, last, rfl⟩
      · rcases List.append_inj' split rfl with ⟨rfl, same⟩
        cases same
        exact ⟨rule, listed, rfl, lowered⟩
      · rw [List.concat_eq_append, ← List.cons_append, ← List.append_assoc] at split
        exact known front entry others (List.append_inj' split rfl).1
  rcases names_of_buildBy built with ⟨names, distinct⟩
  rcases List.append_of_mem (mem_entries_of_get? found) with ⟨front, behind, split⟩
  rcases origins front _ behind split with ⟨rule, listed, rfl, lowered⟩
  rw [before_eq split (names ▸ distinct)]
  exact ⟨rule, get?_of_mem_rules distinct listed, lowered⟩

theorem get?_of_get?_before (found : (table.before name).get? other = some code) :
    table.get? other = some code := by
  rcases List.takeWhile_prefix (p := fun entry => decide (entry.1 ≠ name)) (l := table.entries) with
    ⟨behind, whole⟩
  rw [get?, ← whole, List.find?_append]
  rcases Option.map_eq_some_iff.mp found with ⟨entry, first, same⟩
  rw [before] at first
  rw [first, Option.some_or, Option.map_some, same]

/-- Who stops at something that others pass has passed less. -/
private theorem length_takeWhile_lt {α : Type} {passes stops : α -> Bool} {items : List α}
    {item : α} (passed : item ∈ items.takeWhile passes) (stopped : stops item = false) :
    (items.takeWhile stops).length < (items.takeWhile passes).length := by
  induction items with
  | nil => cases passed
  | cons first items inductionHypothesis =>
      rw [List.takeWhile_cons] at passed
      split at passed
      · next goesOn =>
          rw [List.takeWhile_cons, List.takeWhile_cons, if_pos goesOn]
          split
          · next further =>
              rcases List.mem_cons.mp passed with rfl | later
              · rw [stopped] at further
                cases further
              · exact Nat.succ_lt_succ (inductionHypothesis later)
          · exact Nat.succ_pos _
      · cases passed

/-- A rule that was defined before another one has fewer rules before it. -/
theorem size_before_lt (found : (table.before name).get? other = some code) :
    (table.before other).size < (table.before name).size :=
  length_takeWhile_lt (mem_entries_of_get? found)
    (decide_eq_false (not_not_intro rfl))

/-! ## Calls of missing rules -/

theorem get?_eq_none_iff : table.get? name = none <-> name ∉ table.entries.map Prod.fst := by
  rw [← contains_iff, contains, Option.not_isSome_iff_eq_none]

/-- What stands for a reference calls a missing rule if the reference is to that
rule, or if it is a copy of code that calls it. -/
theorem mem_calls_reference_iff (undefined : table.get? missing = none) :
    missing ∈ (table.lowering.reference name).calls <-> missing = name ∨
      Exists fun code => table.get? name = some code ∧ code.length ≤ inlineLimit ∧
        missing ∈ code.calls := by
  change missing ∈ (table.inlineOrCall name).calls <-> _
  unfold inlineOrCall
  split
  · next code found =>
      have different : missing ≠ name := by
        rintro rfl
        rw [undefined] at found
        cases found
      split
      · next short =>
          rw [Code.calls_cons_of_none rfl]
          simp only [different, found, Option.some.injEq, exists_eq_left', short, true_and,
            false_or]
      · next long =>
          simp only [found, Option.some.injEq, exists_eq_left', long, false_and, or_false]
          exact List.mem_singleton
  · next absent =>
      simp only [absent, reduceCtorEq, false_and, exists_false, or_false]
      exact List.mem_singleton

/-- Code calls a missing rule if its pattern refers to that rule, or if it has a
copy of code that calls it. -/
theorem mem_calls_iff_asksFor (built : build grammar = .ok table)
    (undefined : table.get? missing = none) (found : table.get? name = some code) :
    missing ∈ code.calls <-> grammar.AsksFor name missing ∨
      Exists fun other => table.Pastes grammar name other ∧
        Exists fun copied => table.get? other = some copied ∧ missing ∈ copied.calls := by
  rcases exists_lowered_before built found with ⟨rule, defined, lowered⟩
  have undefinedBefore : (table.before name).get? missing = none := by
    rw [← Option.not_isSome_iff_eq_none, Option.isSome_iff_exists]
    rintro ⟨copied, earlier⟩
    rw [get?_of_get?_before earlier] at undefined
    cases undefined
  rw [(lowering_copies (table.before name)).mem_calls_iff lowered]
  simp only [mem_calls_reference_iff undefinedBefore]
  constructor
  · rintro ⟨other, coded, rfl | ⟨copied, earlier, short, called⟩⟩
    · exact Or.inl ⟨rule, defined, coded⟩
    · exact Or.inr ⟨other, ⟨⟨rule, defined, coded⟩, copied, earlier, short⟩, copied,
        get?_of_get?_before earlier, called⟩
  · rintro (⟨again, redefined, coded⟩ |
      ⟨other, ⟨⟨again, redefined, coded⟩, copied, earlier, short⟩, same, otherFound, called⟩)
    · rw [defined] at redefined
      cases redefined
      exact ⟨missing, coded, Or.inl rfl⟩
    · rw [defined] at redefined
      cases redefined
      rw [get?_of_get?_before earlier] at otherFound
      cases otherFound
      exact ⟨other, coded, Or.inr ⟨copied, earlier, short, called⟩⟩

/-- The code of a rule calls a missing rule exactly if that rule is lacking. -/
theorem mem_calls_iff_lacks (built : build grammar = .ok table)
    (undefined : table.get? missing = none) (found : table.get? name = some code) :
    missing ∈ code.calls <-> table.Lacks grammar name missing := by
  induction size : (table.before name).size using Nat.strongRecOn
    generalizing name code with
  | ind count inductionHypothesis =>
      -- A copy is of the code of an earlier rule.
      have copies {other : String} {copied : Code} (pastes : table.Pastes grammar name other)
          (otherFound : table.get? other = some copied) :
          missing ∈ copied.calls <-> table.Lacks grammar other missing := by
        rcases pastes.2 with ⟨_, earlier, _⟩
        exact inductionHypothesis _ (size ▸ size_before_lt earlier) otherFound rfl
      rw [mem_calls_iff_asksFor built undefined found]
      constructor
      · rintro (asks | ⟨other, pastes, copied, otherFound, called⟩)
        · exact ⟨name, .refl, asks⟩
        · rcases (copies pastes otherFound).mp called with ⟨maker, reached, asks⟩
          exact ⟨maker, .head pastes reached, asks⟩
      · rintro ⟨maker, reached, asks⟩
        rcases reached.cases_head with rfl | ⟨other, pastes, rest⟩
        · exact Or.inl asks
        · rcases pastes.2 with ⟨copied, earlier, _⟩
          have otherFound := get?_of_get?_before earlier
          exact Or.inr ⟨other, pastes, copied, otherFound,
            (copies pastes otherFound).mpr ⟨maker, rest, asks⟩⟩

end RuleTable

/-! ## Compiling -/

namespace Grammar

/-- Compiling objects to a missing rule exactly if linking does. -/
theorem compile_eq_unresolvedRule_iff {grammar : Grammar} {start rule missing : String} :
    grammar.compile start = .error (.unresolvedRule rule missing) <->
      Exists fun table => RuleTable.build grammar = .ok table ∧
        table.link start = .error (.unresolvedRule rule missing) :=
  bind_eq_error_iff.trans (or_iff_right RuleTable.buildBy_ne_unresolvedRule)

/-- A rule that compiling or linking says is missing is indeed not defined.  The
rule that is to blame for it refers to it, or has a copy of the code of a rule
that lacks it.  It is the first one, in the order in which the rules are put
down, that lacks any rule. -/
theorem unresolvedRule_blames_first_lacking {grammar : Grammar} {start rule missing : String}
    (fails : grammar.compile start = .error (.unresolvedRule rule missing) ∨
      Exists fun table => RuleTable.build grammar = .ok table ∧
        table.link start = .error (.unresolvedRule rule missing)) :
    missing ∉ grammar.rules.map Rule.name ∧
      Exists fun table => RuleTable.build grammar = .ok table ∧
        (grammar.AsksFor rule missing ∨
          Exists fun other => table.Pastes grammar rule other ∧ table.Lacks grammar other missing) ∧
        Exists fun earlier => Exists fun code => Exists fun later =>
          table.LinedUp start (earlier ++ (rule, code) :: later) ∧
            forall other, other ∈ earlier -> forall name, name ∉ grammar.rules.map Rule.name ->
              ¬ table.Lacks grammar other.1 name := by
  rw [compile_eq_unresolvedRule_iff, or_self] at fails
  rcases fails with ⟨table, built, failed⟩
  rcases RuleTable.names_of_buildBy built with ⟨names, grammarDistinct⟩
  have distinct : (table.entries.map Prod.fst).Nodup := names ▸ grammarDistinct
  rcases (RuleTable.link_eq_error_iff distinct).mp failed with
    ⟨_, ⟨⟩⟩ | ⟨startCode, found, _, _, ⟨earlier, code, later, split, called, stray⟩, ⟨⟩⟩
  have linedUp := RuleTable.linedUp_layout found distinct
  rw [split] at linedUp
  have listed (entry) (inOrder : entry ∈ earlier ++ (rule, code) :: later) :
      table.get? entry.1 = some entry.2 :=
    (RuleTable.get?_eq_some_iff distinct).mpr (linedUp.perm.mem_iff.mp inOrder)
  have ruleFound := listed (rule, code) (List.mem_append_right _ List.mem_cons_self)
  rcases stray with ⟨before, address, behind, rfl, _, undefined⟩
  have missingCalled : missing ∈ Code.calls (before ++ .call missing address :: behind) :=
    Code.mem_calls_iff.mpr ⟨address, List.mem_append_right _ List.mem_cons_self⟩
  have absent := RuleTable.get?_eq_none_iff.mpr undefined
  refine ⟨names ▸ undefined, table, built, ?_, earlier, _, later, linedUp, ?_⟩
  · exact ((RuleTable.mem_calls_iff_asksFor built absent ruleFound).mp missingCalled).imp_right
      fun ⟨other, pastes, copied, otherFound, otherCalled⟩ =>
        ⟨other, pastes, (RuleTable.mem_calls_iff_lacks built absent otherFound).mp otherCalled⟩
  · intro other inFront name nameUndefined lacks
    rw [← names] at nameUndefined
    have otherFound := listed other (List.mem_append_left _ inFront)
    have otherCalled := (RuleTable.mem_calls_iff_lacks built
      (RuleTable.get?_eq_none_iff.mpr nameUndefined) otherFound).mpr lacks
    exact nameUndefined (called other inFront name otherCalled)

/-- A rule that is missing, and a rule with a copy of the code of the one that
refers to it. -/
def missingBehindCopy : Grammar :=
  ⟨[⟨"a", .rule "missing"⟩, ⟨"b", .rule "a"⟩]⟩

/-- The rule with the copy is to blame if it comes first, though it does not refer
to the missing rule. -/
theorem missingBehindCopy_blames_copy :
    missingBehindCopy.compile "b" = .error (.unresolvedRule "b" "missing") ∧
      ¬ Exists fun rule => missingBehindCopy.get? "b" = some rule ∧
        "missing" ∈ rule.pattern.references := by
  refine ⟨rfl, ?_⟩
  rintro ⟨rule, ⟨⟩, refers⟩
  exact absurd (List.mem_singleton.mp refers) (by decide)

/-- The rule with the copy is the first one, and the copy is the code of a rule
that refers to the missing one. -/
theorem missingBehindCopy_blames_first_lacking :
    missingBehindCopy.compile "b" = .error (.unresolvedRule "b" "missing") ∧
      "missing" ∉ missingBehindCopy.rules.map Rule.name ∧
      Exists fun table => RuleTable.build missingBehindCopy = .ok table ∧
        Exists fun other => table.Pastes missingBehindCopy "b" other ∧
          table.Lacks missingBehindCopy other "missing" := by
  have failed : missingBehindCopy.compile "b" = .error (.unresolvedRule "b" "missing") := rfl
  rcases unresolvedRule_blames_first_lacking (Or.inl failed) with
    ⟨undefined, table, built, ⟨rule, ⟨⟩, coded⟩ | pasted, _⟩
  · exact absurd (Pattern.rule.inj (List.mem_singleton.mp coded)) (by decide)
  · exact ⟨failed, undefined, table, built, pasted⟩

end Grammar
end ParsingMachine
