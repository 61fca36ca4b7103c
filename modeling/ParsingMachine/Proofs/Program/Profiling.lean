import Mathlib.Algebra.BigOperators.Group.Finset.Basic
import Mathlib.Algebra.GroupWithZero.Nat
import Mathlib.Algebra.Order.BigOperators.Group.Finset
import ParsingMachine.Log
import ParsingMachine.Proofs.Machine.Depth
import ParsingMachine.Proofs.Machine.Executions
import ParsingMachine.Proofs.Program.Budget
import ParsingMachine.Proofs.Program.Compiling

namespace ParsingMachine

open Machine

/-!
# What profiles and traces tell of a match

A match that ends has one execution, and whatever looks on sees this execution
and nothing else.  So the counters of a profile and the lines of a trace need not
be compared with each other: each is compared with the instructions that are
executed and with the states that these find.

Calls need a word more.  They are counted for the rule at the address that they
lead to, and it takes the layout of a compiled program to know that this is the
rule that they name.
-/

namespace Machine

variable {program : Program} {visits : List Visit}

/-- The rules that an execution calls, from the first call to the last. -/
def callees (visits : List Visit) : List String :=
  visits.filterMap fun visit => visit.instruction.callee?

theorem length_callees (visits : List Visit) : (callees visits).length = timesExecuted .call visits := by
  rw [callees, List.length_filterMap_eq_countP, timesExecuted]
  refine List.countP_congr fun visit _ => ?_
  rw [decide_eq_true_eq]
  cases visit.instruction with
  | call rule address => exact iff_of_true rfl rfl
  | _ => exact iff_of_false (fun same => by cases same) (fun same => by cases same)

/-- Every call is a call of one of the rules. -/
theorem sum_count_callees {names : List String} (distinct : names.Nodup)
    (called : forall callee, callee ∈ callees visits -> callee ∈ names) :
    (names.map fun name => (callees visits).count name).sum = timesExecuted .call visits := by
  have added := Multiset.sum_count_eq_card (m := (callees visits : Multiset String))
    fun callee listed => List.mem_toFinset.mpr (called callee listed)
  rw [List.sum_toFinset _ distinct, Multiset.coe_card, length_callees] at added
  simpa only [Multiset.coe_count] using added

end Machine

namespace Program

variable {program : Program} {visits : List Visit}

/-- The address of a call is that of the rule that it names. -/
def CallsByName (program : Program) : Prop :=
  forall name address, .call name address ∈ program.code ->
    (address.bind program.ruleAt?).getD name = name

theorem Laid.callsByName {grammar : Grammar} {start : String} {rules : List (String × Code)}
    (laid : program.Laid grammar start rules) : program.CallsByName := by
  intro name address listed
  rcases laid.call_of_mem listed with ⟨_, entry, rfl, found⟩
  rw [Option.bind_some, found, Option.getD_some]

/-- Every rule that is called is a rule of the grammar. -/
theorem Laid.mem_names_of_callees {grammar : Grammar} {start : String}
    {rules : List (String × Code)} (laid : program.Laid grammar start rules)
    (inside : forall visit, visit ∈ visits -> visit.instruction ∈ program.code) {callee : String}
    (called : callee ∈ callees visits) : callee ∈ grammar.rules.map Rule.name := by
  rcases List.mem_filterMap.mp called with ⟨⟨state, instruction⟩, listed, named⟩
  cases instruction with
  | call rule address =>
      cases named
      exact (laid.call_of_mem (inside _ listed)).1
  | _ => cases named

end Program

/-! ## Counters -/

namespace Profile

variable {program : Program} {visits : List Visit}

theorem count_throughout (opcode : Opcode) (seen : Profile) :
    ((watch program).throughout visits seen).count opcode =
      seen.count opcode + timesExecuted opcode visits := by
  refine (watch program).throughout_eq_countP (fun profile => profile.count opcode) _
    (fun visit _ noted => ?_) (fun _ _ => rfl) seen
  refine (Tally.count_add noted.opcodes visit.instruction.opcode opcode).trans ?_
  simp only [decide_eq_true_eq, eq_comm (a := opcode)]
  rfl

theorem total_throughout (seen : Profile) :
    ((watch program).throughout visits seen).total = seen.total + visits.length := by
  rw [(watch program).throughout_eq_countP total (fun _ => true)
    (fun visit _ noted => Tally.total_add noted.opcodes visit.instruction.opcode)
    (fun _ _ => rfl) seen, List.countP_true]

/-- Calls are counted for the rules that they name. -/
theorem callsOf_throughout (byName : program.CallsByName)
    (inside : forall visit, visit ∈ visits -> visit.instruction ∈ program.code) (rule : String)
    (seen : Profile) :
    ((watch program).throughout visits seen).callsOf rule =
      seen.callsOf rule + (callees visits).count rule := by
  rw [callees, List.count_filterMap]
  refine (watch program).throughout_eq_countP (fun profile => profile.callsOf rule) _
    (fun visit listed noted => ?_) (fun _ _ => rfl) seen
  rcases visit with ⟨state, instruction⟩
  cases instruction with
  | call name address =>
      have named := byName name address (inside _ listed)
      change (noted.calls.add ((address.bind program.ruleAt?).getD name)).count rule = _
      rw [named, Tally.count_add]
      simp only [Instruction.callee?, beq_iff_eq, Option.some.injEq, eq_comm (a := rule)]
      rfl
  | _ => rfl

end Profile

/-! ## Traces -/

namespace Log

/-- The line of a trace about an instruction that is executed. -/
def lineOf (visit : Visit) : Entry :=
  .executing visit.state.address visit.instruction visit.state.cursor.position
    visit.state.stack.depth

/-- The number of frames that a line of a trace shows. -/
def Entry.depth? : Entry -> Option Nat
  | executing _ _ _ depth => some depth
  | _ => none

/-- The lines of a trace. -/
def traced (entries : List Entry) : List Entry :=
  entries.filter fun entry => entry.level = .trace

theorem traced_entriesAt (program : Program) (visit : Visit) :
    traced (entriesAt program visit.state visit.instruction) = [lineOf visit] := by
  rcases visit with ⟨state, instruction⟩
  cases instruction with
  | commit offset =>
      rw [traced, entriesAt, List.filter_cons_of_pos rfl, lineOf]
      dsimp only
      split <;> rfl
  | _ => rfl

theorem throughout_watch (program : Program) (visits : List Visit) (seen : List Entry) :
    ((watch program).throughout visits seen).reverse =
      seen.reverse ++ visits.flatMap fun visit => entriesAt program visit.state visit.instruction := by
  induction visits generalizing seen with
  | nil => exact (List.append_nil _).symm
  | cons visit rest inductionHypothesis =>
      have noted : ((watch program).before visit.state visit.instruction seen).reverse =
          seen.reverse ++ entriesAt program visit.state visit.instruction := by
        rw [watch, List.reverse_append, List.reverse_reverse]
      cases rest with
      | nil => exact noted.trans (by rw [List.flatMap_singleton])
      | cons next others =>
          refine (inductionHypothesis _).trans ?_
          rw [watch] at noted ⊢
          dsimp only at noted ⊢
          rw [noted, List.append_assoc]
          rfl

end Log

/-! ## Matches -/

namespace Program

variable {program : Program} {subject : String} {visits : List Visit} {limit : Option UInt64}

/-- The lines of the trace of a match. -/
def trace (program : Program) (limit : Option UInt64) (subject : String) : List Log.Entry :=
  Log.traced (program.matchLog limit subject)

/-- Behind every answer is an execution, and the limit lasts to the end of
it. -/
theorem exists_executes_of_matchWith {config : MatchConfig} {outcome : Outcome}
    (answered : program.matchWith config subject = .ok outcome) :
    Exists fun visits => Executes program visits (.start subject.toList) outcome.matched ∧
      visits.length = outcome.steps ∧ visits.length ≤ budget config.stepLimit := by
  rcases leads_of_matchWith answered with ⟨count, whole⟩
  rcases whole.exists_executes with ⟨visits, executes, rfl⟩
  rcases exists_outcome_of_leads whole config.profile with ⟨found, _, counted, _, decided⟩
  have same := (decided config.stepLimit).symm.trans answered
  split at same
  · next enough =>
      cases same
      exact ⟨visits, executes, counted.symm, enough⟩
  · cases same

variable {matched : Option Nat}

theorem matchWith_of_executes
    (executes : Executes program visits (.start subject.toList) matched)
    (enough : visits.length ≤ budget limit) :
    program.matchWith ⟨limit, true⟩ subject =
      .ok ⟨matched, visits.length, some ((Profile.watch program).throughout visits .empty)⟩ := by
  rw [matchWith, if_pos rfl, run, runFrom_of_executes _ executes enough, Nat.zero_add]
  rfl

/-- The trace has one line for each instruction that is executed. -/
theorem trace_of_executes
    (executes : Executes program visits (.start subject.toList) matched)
    (enough : visits.length ≤ budget limit) :
    program.trace limit subject = visits.map Log.lineOf := by
  rw [trace, matchLog, run, runFrom_of_executes _ executes enough, Log.throughout_watch,
    List.reverse_nil, List.nil_append, Log.traced, List.filter_flatMap, List.map_eq_flatMap]
  exact congrArg (fun lines => visits.flatMap lines) (funext (Log.traced_entriesAt program))

/-- The depth of a profile is the greatest number of frames at any time. -/
theorem isGreatest_maxDepth
    (executes : Executes program visits (.start subject.toList) matched) :
    IsGreatest {depth | Exists fun count => Exists fun state =>
        Leads program count (.start subject.toList) (.next state) ∧ state.stack.depth = depth}
      ((Profile.watch program).throughout visits .empty).maxDepth := by
  rcases executes.leads.climbs with ⟨peak, climbs⟩
  have empty : (State.start subject.toList).stack.depth ≤ Profile.empty.maxDepth := Nat.le_refl 0
  rcases runFrom_profiled climbs (Nat.le_refl _) 0 empty with ⟨profile, depth, ended⟩
  rw [runFrom_of_executes _ executes (Nat.le_refl _)] at ended
  have seen : (Profile.watch program).throughout visits .empty = profile := congrArg Run.seen ended
  have greatest : max Profile.empty.maxDepth peak = peak := Nat.zero_max peak
  rw [seen, depth, greatest]
  exact climbs.isGreatest

theorem trace_depth_iff {depth : Nat}
    (executes : Executes program visits (.start subject.toList) matched)
    (enough : visits.length ≤ budget limit) :
    (Exists fun line => line ∈ program.trace limit subject ∧ line.depth? = some depth) <->
      Exists fun count => Exists fun state =>
        Leads program count (.start subject.toList) (.next state) ∧ state.stack.depth = depth := by
  rw [trace_of_executes executes enough]
  constructor
  · rintro ⟨line, listed, shown⟩
    rcases List.mem_map.mp listed with ⟨visit, member, rfl⟩
    rcases executes.exists_visit_iff.mp ⟨visit, member, rfl⟩ with ⟨count, leads⟩
    exact ⟨count, visit.state, leads, Option.some.inj shown⟩
  · rintro ⟨count, state, leads, rfl⟩
    rcases executes.exists_visit_iff.mpr ⟨count, leads⟩ with ⟨visit, member, rfl⟩
    exact ⟨_, List.mem_map_of_mem member, rfl⟩

/-- A profile and a trace that tell what was executed in a match. -/
structure Accounts (program : Program) (grammar : Grammar) (limit : Option UInt64)
    (subject : String) (outcome : Outcome) (profile : Profile) (visits : List Visit) : Prop where
  executes : Executes program visits (.start subject.toList) outcome.matched
  steps : visits.length = outcome.steps
  total : profile.total = outcome.steps
  count : forall opcode, profile.count opcode = timesExecuted opcode visits
  callsOf : forall rule, profile.callsOf rule = (callees visits).count rule
  callsAddUp : (grammar.rules.map fun rule => profile.callsOf rule.name).sum = profile.count .call
  maxDepth : IsGreatest {depth | Exists fun count => Exists fun state =>
    Leads program count (.start subject.toList) (.next state) ∧ state.stack.depth = depth}
    profile.maxDepth
  traceLines : program.trace limit subject = visits.map Log.lineOf
  traceLength : (program.trace limit subject).length = outcome.steps
  traceDepth : IsGreatest {depth | Exists fun line =>
    line ∈ program.trace limit subject ∧ line.depth? = some depth} profile.maxDepth
  commits : profile.count .commit ≤ profile.count .choice
  returns : profile.count .returnToCaller ≤
    profile.count .call + if outcome.isMatch then 1 else 0

/-- The profile of a match that comes to an end agrees with what was executed,
and so does its trace. -/
theorem exists_accounts_of_matchWith {grammar : Grammar} {start : String} {program : Program}
    (compiled : grammar.compile start = .ok program) {limit : Option UInt64} {subject : String}
    {outcome : Outcome} (answered : program.matchWith ⟨limit, true⟩ subject = .ok outcome) :
    Exists fun profile => Exists fun visits => outcome.profile = some profile ∧
      program.Accounts grammar limit subject outcome profile visits := by
  rcases exists_executes_of_matchWith answered with ⟨visits, executes, steps, enough⟩
  rcases Grammar.laid_of_compile compiled with ⟨rules, laid⟩
  rcases exists_of_bind_eq_ok compiled with ⟨table, built, _⟩
  have profiled := matchWith_of_executes executes enough
  have kept : outcome.profile = some ((Profile.watch program).throughout visits .empty) := by
    rw [answered] at profiled
    exact congrArg Outcome.profile (Except.ok.inj profiled)
  have count (opcode : Opcode) : ((Profile.watch program).throughout visits .empty).count opcode =
      timesExecuted opcode visits := (Profile.count_throughout opcode .empty).trans (Nat.zero_add _)
  have callsOf (rule : String) : ((Profile.watch program).throughout visits .empty).callsOf rule =
      (callees visits).count rule :=
    (Profile.callsOf_throughout laid.callsByName executes.mem_code rule .empty).trans (Nat.zero_add _)
  have greatest := isGreatest_maxDepth executes
  have traced := trace_of_executes executes enough
  refine ⟨_, visits, kept, executes, steps, ?_, count, callsOf, ?_, greatest, traced, ?_, ?_, ?_, ?_⟩
  · exact (Profile.total_throughout .empty).trans ((Nat.zero_add _).trans steps)
  · have added := sum_count_callees (RuleTable.names_of_buildBy built).2 fun callee =>
      laid.mem_names_of_callees executes.mem_code
    simp only [callsOf, count, ← added, List.map_map, Function.comp_def]
  · rw [traced, List.length_map, steps]
  · simpa only [trace_depth_iff executes enough] using greatest
  · rw [count, count]
    exact executes.commits_le_choices
  · rw [count, count]
    exact executes.returns_le_calls

/-- A pair of parentheses takes a call of the one rule, which fails with two
frames on the stack. -/
theorem nestedProgram_accounts :
    nestedParentheses.compile "nested" = .ok nestedProgram ∧
    Exists fun outcome => nestedProgram.matchWith ⟨some 6, true⟩ "()" = .ok outcome ∧
      Exists fun profile => Exists fun visits => outcome.profile = some profile ∧
        nestedProgram.Accounts nestedParentheses (some 6) "()" outcome profile visits ∧
        profile.callsOf "nested" = 1 ∧ profile.maxDepth = 2 := by
  have answered : nestedProgram.matchWith ⟨some 6, true⟩ "()" = .ok ⟨some 2, 6, some
      ⟨⟨[(.matchText, 3), (.choice, 1), (.call, 1), (.returnToCaller, 1)]⟩, ⟨[("nested", 1)]⟩, 2⟩⟩ :=
    rfl
  rcases exists_accounts_of_matchWith nestedParentheses_compile answered with
    ⟨profile, visits, kept, accounts⟩
  cases kept
  exact ⟨nestedParentheses_compile, _, answered, _, visits, rfl, accounts, rfl, rfl⟩

end Program
end ParsingMachine
