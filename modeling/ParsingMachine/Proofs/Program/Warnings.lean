import ParsingMachine.Log
import ParsingMachine.Proofs.Grammar.Reachability
import ParsingMachine.Proofs.Program.Layout

namespace ParsingMachine

/-!
# What compiling warns of

Compiling has much to say about the rules and where their code begins, but the
only thing that it warns of are rules that are never reached, and it does that
when there is a program.  What is never reached was found out by a search.  It
can be said without one: no chain of references leads there from the start rule.
-/

namespace Log

/-- Entries that matter less than a warning. -/
def Quiet (entries : List Entry) : Prop :=
  forall entry, entry ∈ entries -> entry.level ≠ .warn

theorem atLeast_append (level : Level) (first second : List Entry) :
    atLeast level (first ++ second) = atLeast level first ++ atLeast level second :=
  List.filter_append first second

theorem Quiet.atLeast_warn {entries : List Entry} (quiet : Quiet entries) :
    atLeast .warn entries = [] := by
  rw [atLeast, List.filter_eq_nil_iff]
  intro entry listed
  have other := quiet entry listed
  simp only [Level.andAbove, List.contains_iff_mem, List.mem_singleton]
  exact other

end Log

open Log (Quiet)

theorem RuleTable.quiet_buildLogFrom (table : RuleTable) (rules : List Rule) :
    Quiet (table.buildLogFrom rules) := by
  induction rules generalizing table with
  | nil => exact fun entry listed => absurd listed List.not_mem_nil
  | cons rule rules inductionHypothesis =>
      intro entry listed
      rw [buildLogFrom] at listed
      split at listed
      · cases listed
      · rcases List.mem_cons.mp listed with rfl | later
        · exact fun same => by cases same
        · split at later
          · cases later
          · next extended _ => exact inductionHypothesis extended entry later

theorem RuleTable.quiet_buildLog (grammar : Grammar) : Quiet (buildLog grammar) :=
  quiet_buildLogFrom empty grammar.rules

theorem Program.quiet_linkedLog (program : Program) (start : String) :
    Quiet (program.linkedLog start) := by
  intro entry listed
  rw [linkedLog, List.mem_cons, List.mem_mergeSort, List.mem_map] at listed
  rcases listed with rfl | ⟨placed, _, rfl⟩
  · exact fun same => by cases same
  · exact fun same => by cases same

namespace Grammar

theorem atLeast_warn_warnings (grammar : Grammar) (start : String) :
    Log.atLeast .warn (grammar.warnings start) = grammar.warnings start := by
  rw [Log.atLeast, List.filter_eq_self]
  intro entry listed
  rcases List.mem_map.mp listed with ⟨rule, _, rfl⟩
  rfl

/-- Where there is a program compiling warns of the rules that are never reached,
and where there is none it warns of nothing. -/
theorem atLeast_warn_compileLog (grammar : Grammar) (start : String) :
    Log.atLeast .warn (grammar.compileLog start) =
      match grammar.compile start with
      | .ok _ => grammar.warnings start
      | .error _ => [] := by
  rw [compileLog, Log.atLeast_append, (RuleTable.quiet_buildLog grammar).atLeast_warn,
    List.nil_append, compile]
  cases RuleTable.build grammar with
  | error _ => rfl
  | ok table =>
      simp only [bind, Except.bind]
      cases table.link start with
      | error _ => rfl
      | ok program =>
          dsimp only
          rw [Log.atLeast_append, (program.quiet_linkedLog start).atLeast_warn, List.nil_append,
            atLeast_warn_warnings]

/-- A search that has come to its end leaves out the rules that are never
reached, in whatever order it took the names off. -/
theorem unreachableRules_of_rounds {grammar : Grammar} {start : String} {visited : List String}
    (searched : Relation.ReflTransGen grammar.Round ⟨[], [start]⟩ ⟨visited, []⟩) :
    grammar.unreachableRules start =
      (grammar.rules.map Rule.name).filter fun name => name ∉ visited := by
  rw [unreachableRules]
  apply List.filter_congr
  intro name _
  rw [decide_eq_decide, mem_visit_iff, (explores_of_rounds searched).mem_visited_iff]

open scoped Classical in
/-- The rules that are never reached are those that are not the start rule and
that no chain of references leads to from there, in the order of their
definitions. -/
theorem unreachableRules_eq_filter (grammar : Grammar) (start : String) :
    grammar.unreachableRules start = (grammar.rules.map Rule.name).filter fun name =>
      name ≠ start ∧ ¬ Relation.TransGen grammar.Refers start name := by
  rw [unreachableRules]
  apply List.filter_congr
  intro name listed
  rw [decide_eq_decide, mem_visit_iff, Relation.reflTransGen_iff_eq_or_transGen, and_iff_right listed,
    not_or]

open scoped Classical in
/-- The search for rules goes on as long as a name is waiting, and it does not go
on for ever.  Whatever order the names are taken off in, it leaves out the rules
that no chain of references leads to from the start rule, whether this is defined
or not.  If there is a program, compiling warns of each of them, in the order of
their definitions, and of nothing else; and if there is none it warns of
nothing. -/
theorem unreachableRules_exact_and_warned (grammar : Grammar) (start : String) :
    ((WellFounded fun after before => grammar.Round before after) ∧
      (forall search : Search, search.waiting ≠ [] -> Exists fun after => grammar.Round search after) ∧
      forall visited, Relation.ReflTransGen grammar.Round ⟨[], [start]⟩ ⟨visited, []⟩ ->
        grammar.unreachableRules start =
          (grammar.rules.map Rule.name).filter fun name => name ∉ visited) ∧
    (grammar.unreachableRules start = (grammar.rules.map Rule.name).filter fun name =>
      name ≠ start ∧ ¬ Relation.TransGen grammar.Refers start name) ∧
    (forall program, grammar.compile start = .ok program ->
      Log.atLeast .warn (grammar.compileLog start) =
        (grammar.unreachableRules start).map fun rule => .unreachable rule start) ∧
    forall error, grammar.compile start = .error error ->
      Log.atLeast .warn (grammar.compileLog start) = [] := by
  have warned := grammar.atLeast_warn_compileLog start
  refine ⟨⟨grammar.round_wellFounded, fun _ => exists_round, fun _ => unreachableRules_of_rounds⟩,
    grammar.unreachableRules_eq_filter start, fun program compiled => ?_, fun error failed => ?_⟩
  · rw [warned, compiled]
    rfl
  · rw [warned, failed]

/-- Two rules that refer to each other, a rule that refers to them, and a rule
that stands alone. -/
def islands : Grammar :=
  ⟨[⟨"main", .sequence (.rule "a") .any⟩, ⟨"a", .optional (.rule "main")⟩,
    ⟨"lonely", .rule "a"⟩, ⟨"b", .any⟩]⟩

/-- From the first rule two of them are never reached, and from the one that
refers to it only the last.  Where the start rule is missing there is no warning. -/
theorem islands_warned :
    (Exists fun program => islands.compile "main" = .ok program) ∧
      Log.atLeast .warn (islands.compileLog "main") =
        [.unreachable "lonely" "main", .unreachable "b" "main"] ∧
      Log.atLeast .warn (islands.compileLog "lonely") = [.unreachable "b" "lonely"] ∧
      Log.atLeast .warn (islands.compileLog "other") = [] := by
  have unreachable : islands.unreachableRules "main" = ["lonely", "b"] := by cbv
  have unreachableThere : islands.unreachableRules "lonely" = ["b"] := by cbv
  have compiled : Exists fun program => islands.compile "main" = .ok program := ⟨_, rfl⟩
  have compiledThere : Exists fun program => islands.compile "lonely" = .ok program := ⟨_, rfl⟩
  rcases unreachableRules_exact_and_warned islands "main" with ⟨_, _, warned, _⟩
  rcases unreachableRules_exact_and_warned islands "lonely" with ⟨_, _, warnedThere, _⟩
  rcases unreachableRules_exact_and_warned islands "other" with ⟨_, _, _, unwarned⟩
  refine ⟨compiled, ?_, ?_, unwarned (.missingStart "other") rfl⟩
  · rcases compiled with ⟨program, compiled⟩
    rw [warned program compiled, unreachable]
    rfl
  · rcases compiledThere with ⟨program, compiled⟩
    rw [warnedThere program compiled, unreachableThere]
    rfl

end Grammar
end ParsingMachine
