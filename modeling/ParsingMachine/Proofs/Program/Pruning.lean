import ParsingMachine.Proofs.Grammar.Reachability
import ParsingMachine.Proofs.Program.Balance
import ParsingMachine.Proofs.Program.Relocation
import ParsingMachine.Proofs.Program.Safety

namespace ParsingMachine

/-!
# Rules that are never reached are dead code

Leaving rules out of a grammar shifts the code of the rules behind them and
with it the addresses in their calls.  It changes no code besides, as long as
no rule that is kept refers to one that is left out: whatever is copied into
the code of a rule that is kept is the code of rules that are kept.

So the code of the rules that are kept lies in both programs.  It is closed, for
a jump stays inside of the code of its rule, and a call leads to a rule that is
kept.  A machine that starts in it never leaves it, and it does not matter what
else a program has.
-/

/-! ## Code -/

/-- The code of a pattern depends on those references only that code is made
of. -/
theorem Lowering.lower_eq_of_references {one other : Lowering} {pattern : Pattern} (rule : String)
    (joined : one.alternative = other.alternative)
    (same : forall name, .rule name ∈ pattern.codedParts ->
      one.reference name = other.reference name) :
    one.lower rule pattern = other.lower rule pattern := by
  induction pattern with
  | group inner inductionHypothesis =>
      rw [lower, lower]
      exact inductionHypothesis fun name coded => same name (List.mem_cons_of_mem _ coded)
  | not inner inductionHypothesis | optional inner inductionHypothesis
  | zeroOrMore inner inductionHypothesis | oneOrMore inner inductionHypothesis =>
      rw [lower, lower,
        inductionHypothesis fun name coded => same name (List.mem_cons_of_mem _ coded)]
  | sequence first second firstHypothesis secondHypothesis =>
      rw [lower, lower,
        firstHypothesis fun name coded =>
          same name (List.mem_cons_of_mem _ (List.mem_append_left _ coded)),
        secondHypothesis fun name coded =>
          same name (List.mem_cons_of_mem _ (List.mem_append_right _ coded))]
  | choice first second firstHypothesis secondHypothesis =>
      rw [lower, lower, joined,
        firstHypothesis fun name coded =>
          same name (List.mem_cons_of_mem _ (List.mem_append_left _ coded)),
        secondHypothesis fun name coded =>
          same name (List.mem_cons_of_mem _ (List.mem_append_right _ coded))]
  | repeated inner least most inductionHypothesis =>
      by_cases happens : most = 0
      · rw [lower, lower, if_pos happens, if_pos happens]
      · rw [Pattern.codedParts, if_neg happens] at same
        rw [lower, lower,
          inductionHypothesis fun name coded => same name (List.mem_cons_of_mem _ coded)]
  | rule name => rw [lower, lower, same name List.mem_cons_self]
  | _ => rfl

/-! ## Tables -/

namespace RuleTable

/-- The table without the rules that have these names. -/
def without (table : RuleTable) (names : List String) : RuleTable :=
  ⟨table.entries.filter fun entry => entry.1 ∉ names⟩

variable {table following : RuleTable} {names : List String}

theorem mem_entries_without {entry : String × Code} :
    entry ∈ (table.without names).entries <-> entry ∈ table.entries ∧ entry.1 ∉ names := by
  rw [without, List.mem_filter, decide_eq_true_eq]

theorem get?_without {name : String} (kept : name ∉ names) :
    (table.without names).get? name = table.get? name := by
  rw [get?, get?, without, List.find?_filter]
  congr 2
  funext entry
  exact decide_eq_decide.mpr ⟨fun both => of_decide_eq_true both.2,
    fun same => ⟨decide_eq_true (same ▸ kept), decide_eq_true same⟩⟩

/-- What stands for a reference to a rule that is kept is the same. -/
theorem reference_without (table : RuleTable) {name : String} (kept : name ∉ names) :
    (table.without names).lowering.reference name = table.lowering.reference name := by
  simp only [lowering, inlineOrCall, get?_without kept]

/-- A rule that is left out leaves no trace. -/
theorem without_of_addRule {rule : Rule} (dropped : rule.name ∈ names)
    (added : addRule lowering table rule = .ok following) :
    following.without names = table.without names := by
  rcases exists_of_bind_eq_ok added with ⟨code, _, inserted⟩
  have absent : ¬ decide (rule.name ∉ names) = true := fun kept => of_decide_eq_true kept dropped
  rw [without, (insert_eq_ok inserted).2, List.filter_append, List.filter_cons, if_neg absent,
    List.filter_nil, List.append_nil, without]

/-- A rule that is kept, and refers to such rules only, has the same code. -/
theorem addRule_without {rule : Rule} (kept : rule.name ∉ names)
    (coded : forall name, .rule name ∈ rule.pattern.codedParts -> name ∉ names)
    (added : addRule lowering table rule = .ok following) :
    addRule lowering (table.without names) rule = .ok (following.without names) := by
  rcases exists_of_bind_eq_ok added with ⟨code, lowered, inserted⟩
  rcases insert_eq_ok inserted with ⟨fresh, entries⟩
  have same : (table.without names).lowering.lower rule.name rule.pattern = .ok code := by
    rw [← lowered]
    exact Lowering.lower_eq_of_references rule.name rfl fun name among =>
      reference_without table (coded name among)
  have absent : (table.without names).contains rule.name = false := by
    rw [contains, get?_without kept, ← contains]
    exact Bool.eq_false_iff.mpr fun listed => fresh (contains_iff.mp listed)
  have appended : following.without names =
      ⟨(table.without names).entries ++ [(rule.name, code)]⟩ := by
    rw [without, entries, List.filter_append, List.filter_cons, if_pos (decide_eq_true kept),
      List.filter_nil, without]
  rw [addRule, same, appended]
  change (table.without names).insert rule.name code = _
  rw [insert, absent]
  rfl

private theorem foldlM_without {rules : List Rule}
    (coded : forall rule, rule ∈ rules -> rule.name ∉ names ->
      forall name, .rule name ∈ rule.pattern.codedParts -> name ∉ names)
    (built : rules.foldlM (addRule lowering) table = .ok following) :
    (rules.filter fun rule => rule.name ∉ names).foldlM (addRule lowering) (table.without names) =
      .ok (following.without names) := by
  induction rules generalizing table with
  | nil =>
      cases built
      rfl
  | cons rule rules inductionHypothesis =>
      rw [List.foldlM_cons] at built
      rcases exists_of_bind_eq_ok built with ⟨middle, added, rest⟩
      have others := inductionHypothesis
        (fun other later => coded other (List.mem_cons_of_mem _ later)) rest
      by_cases dropped : rule.name ∈ names
      · have absent : ¬ decide (rule.name ∉ names) = true :=
          fun kept => of_decide_eq_true kept dropped
        rw [List.filter_cons, if_neg absent, ← without_of_addRule dropped added]
        exact others
      · rw [List.filter_cons, if_pos (decide_eq_true dropped), List.foldlM_cons,
          addRule_without dropped (coded rule List.mem_cons_self dropped) added]
        exact others

/-- The table of the rules that are kept, if they refer to such rules only, is
what is kept of the table of all the rules. -/
theorem build_without {grammar : Grammar}
    (coded : forall rule, rule ∈ grammar.rules -> rule.name ∉ names ->
      forall name, .rule name ∈ rule.pattern.codedParts -> name ∉ names)
    (built : build grammar = .ok table) :
    build (grammar.without names) = .ok (table.without names) :=
  foldlM_without coded built

end RuleTable

/-! ## Code in programs -/

namespace Program

open Machine

variable {one other program : Program} {table : RuleTable}

/-- The code of a rule lies in a program where the program says it does, with
the addresses of the program in its calls. -/
structure Carries (program : Program) (name : String) (code : Code) (entry : Nat) : Prop where
  entered : program.entry? name = some entry
  owned : program.ruleAt? entry = some name
  held : program.Holds entry (code.map (RuleTable.addressed program.entries) ++ [.returnToCaller])

/-- Two addresses in two programs at the same place of the code of one rule. -/
inductive SamePlace (table : RuleTable) (one other : Program) : Nat -> Nat -> Prop where
  | inside {name code entry target index} : (name, code) ∈ table.entries ->
      one.Carries name code entry -> other.Carries name code target -> index ≤ code.length ->
      SamePlace table one other (entry + index) (target + index)

namespace Carries

variable {name : String} {code : Code} {entry : Nat} (carries : program.Carries name code entry)

include carries

theorem located {index : Nat} {instruction : Instruction}
    (found : code[index]? = some instruction) :
    program.code[entry + index]? = some (RuleTable.addressed program.entries instruction) := by
  apply (holds_append.mp carries.held).1
  rw [List.getElem?_map, found]
  rfl

theorem closed : program.code[entry + code.length]? = some .returnToCaller := by
  have behind := (holds_append.mp carries.held).2 0 .returnToCaller rfl
  rw [List.length_map] at behind
  exact behind

end Carries

private theorem jump_inside {entry index target : Nat} {offset : Int}
    (reached : (target : Int) = index + offset) : jump (entry + index) offset = entry + target := by
  rw [jump]
  omega

/-- Two programs with the code of the same rules, which is balanced and calls
none but these rules, do the same at the same places of that code. -/
theorem relocates_samePlace
    (balanced : forall entry, entry ∈ table.entries -> entry.2.Balanced)
    (called : forall entry, entry ∈ table.entries ->
      forall callee, callee ∈ entry.2.calls -> callee ∈ table.entries.map Prod.fst)
    (carried : forall name code, (name, code) ∈ table.entries ->
      Exists fun entry => one.Carries name code entry)
    (otherCarried : forall name code, (name, code) ∈ table.entries ->
      Exists fun target => other.Carries name code target) :
    Relocates one other (SamePlace table one other) := by
  rintro _ _ @⟨name, code, entry, target, index, listed, carries, otherCarries, inside⟩
  have place {further : Nat} (within : further ≤ code.length) :
      SamePlace table one other (entry + further) (target + further) :=
    .inside listed carries otherCarries within
  rcases Nat.lt_or_eq_of_le inside with before | rfl
  · have found := List.getElem?_eq_getElem before
    have kept := (balanced _ listed).keeps index _ found
    refine ⟨_, _, carries.located found, otherCarries.located found, ?_⟩
    cases same : code[index] with
    | choice offset =>
        rw [same] at kept
        rcases kept with ⟨_, resume, reached, within, _⟩
        refine .choice offset (place before) ?_
        rw [jump_inside reached, jump_inside reached]
        exact place within
    | commit offset =>
        rw [same] at kept
        rcases kept with ⟨_, leaves, ⟨reached, within, _⟩, closes⟩
        refine .commit offset ?_ fun backward => ?_
        · rw [jump_inside reached, jump_inside reached]
          exact place within
        · rcases closes backward with ⟨exit, opening, _⟩
          rw [jump_inside reached]
          exact ⟨exit, carries.located opening⟩
    | call callee address =>
        have among : callee ∈ code.calls :=
          Code.mem_calls_iff.mpr ⟨address, List.mem_of_getElem? (same ▸ found)⟩
        rcases List.mem_map.mp (called _ listed callee among) with ⟨⟨own, body⟩, calleeListed, rfl⟩
        rcases carried own body calleeListed with ⟨begins, calleeCarries⟩
        rcases otherCarried own body calleeListed with ⟨otherBegins, otherCalleeCarries⟩
        rw [RuleTable.addressed, RuleTable.addressed, ← entry?, ← entry?, calleeCarries.entered,
          otherCalleeCarries.entered]
        exact .call own (place before)
          (.inside calleeListed calleeCarries otherCalleeCarries (Nat.zero_le _))
          (calleeCarries.owned.trans otherCalleeCarries.owned.symm)
    | returnToCaller =>
        rw [same] at kept
        exact kept.elim
    | _ => exact .onward rfl rfl (place before)
  · -- Behind the code of a rule both programs go back to the caller.
    exact ⟨_, _, carries.closed, otherCarries.closed, .returnToCaller⟩

/-- A linked program has the code of all the rules of its table, and that of
the start rule at its beginning. -/
theorem carries_of_link {grammar : Grammar} {start : String}
    (built : RuleTable.build grammar = .ok table) (linked : table.link start = .ok program)
    {name : String} {code : Code} (listed : (name, code) ∈ table.entries) :
    Exists fun entry => program.Carries name code entry ∧ (name = start -> entry = 0) := by
  rcases RuleTable.names_of_buildBy built with ⟨names, distinct⟩
  have tableDistinct : (table.entries.map Prod.fst).Nodup := names ▸ distinct
  rcases (RuleTable.known_of_build built).laid_of_link tableDistinct linked with
    ⟨startCode, found, laid⟩
  have placed := List.mem_map_of_mem (f := RuleTable.addressedRule program.entries)
    ((RuleTable.mem_layout_iff found tableDistinct).mpr listed)
  rcases laid.holds placed with ⟨entry, entered, held⟩
  refine ⟨entry, ⟨entered, laid.ruleAt?_of_entry? entered, held⟩, ?_⟩
  rintro rfl
  rcases laid.holds_start with ⟨_, _, begins, _⟩
  rw [begins] at entered
  exact (Option.some.inj entered).symm

/-- What is linked from a table, and what is linked from the rules of it that
are kept, do the same at the same places of the code that is kept, and begin at
the same place. -/
theorem relocates_of_link {grammar kept : Grammar} {start : String} {names : List String}
    {pruned : Program} (built : RuleTable.build grammar = .ok table)
    (keptBuilt : RuleTable.build kept = .ok (table.without names))
    (linked : table.link start = .ok program)
    (keptLinked : (table.without names).link start = .ok pruned) :
    Relocates program pruned (SamePlace (table.without names) program pruned) ∧
      SamePlace (table.without names) program pruned 0 0 := by
  rcases RuleTable.names_of_buildBy keptBuilt with ⟨keptNames, distinct⟩
  rcases (RuleTable.link_succeeds_iff (keptNames ▸ distinct)).mp ⟨pruned, keptLinked⟩ with
    ⟨starts, called⟩
  have carried {name code} (listed : (name, code) ∈ (table.without names).entries) :=
    carries_of_link built linked (RuleTable.mem_entries_without.mp listed).1
  have keptCarried {name code} (listed : (name, code) ∈ (table.without names).entries) :=
    carries_of_link keptBuilt keptLinked listed
  constructor
  · exact relocates_samePlace (fun entry listed => RuleTable.balanced_of_build keptBuilt listed)
      called (fun name code listed => (carried listed).imp fun _ => And.left)
      (fun name code listed => (keptCarried listed).imp fun _ => And.left)
  · rcases List.mem_map.mp starts with ⟨⟨own, code⟩, listed, rfl⟩
    rcases carried listed with ⟨entry, carries, zero⟩
    rcases keptCarried listed with ⟨target, keptCarries, keptZero⟩
    cases zero rfl
    cases keptZero rfl
    exact .inside listed carries keptCarries (Nat.zero_le _)

/-! ## Profiles -/

/-- A profile counts calls of rules of the grammar only. -/
theorem Laid.callsOf_eq_zero {grammar : Grammar} {start : String} {rules : List (String × Code)}
    (laid : program.Laid grammar start rules) {name : String}
    (undefined : name ∉ grammar.rules.map Rule.name) {config : MatchConfig} {subject : String}
    {outcome : Outcome} {profile : Profile}
    (answered : program.matchWith config subject = .ok outcome)
    (profiled : outcome.profile = some profile) : profile.callsOf name = 0 := by
  have counted : forall state instruction (seen : Profile), instruction ∈ program.code ->
      seen.callsOf name = 0 ->
      ((Profile.watch program).before state instruction seen).callsOf name = 0 := by
    intro state instruction seen inside none
    cases instruction with
    | call callee address =>
        rcases laid.call_of_mem inside with ⟨known, entry, rfl, found⟩
        have different : name ≠ callee := fun same => undefined (same ▸ known)
        change (seen.calls.add ((program.ruleAt? entry).getD callee)).count name = 0
        rw [found, Option.getD_some, Tally.count_add, if_neg different]
        exact none
    | _ => exact none
  rw [profile_of_matchWith answered profiled]
  exact runFrom_seen (motive := fun seen : Profile => seen.callsOf name = 0) counted
    (fun _ _ none => none) _ _ _ rfl

end Program

/-! ## Grammars -/

namespace Grammar

/-- Without the rules that are never reached a grammar has a program as well,
and no match tells the two programs apart: either both of them give up at the limit
that they are given, or they give the same answer after the same number of steps
and with the same profile, in which none of those rules was called.  Without a
limit neither of them gives up: where one match takes more steps than can be
counted, so does the other. -/
theorem compile_without_unreachableRules {grammar : Grammar} {start : String} {program : Program}
    (compiled : grammar.compile start = .ok program) :
    Exists fun pruned =>
      (grammar.without (grammar.unreachableRules start)).compile start = .ok pruned ∧
      forall config subject,
        (Exists fun limit => config.stepLimit = some limit ∧
          program.matchWith config subject = .error (.stepLimit limit) ∧
          pruned.matchWith config subject = .error (.stepLimit limit)) ∨
        (config.stepLimit = none ∧ program.matchWith config subject = .error .unfinished ∧
          pruned.matchWith config subject = .error .unfinished) ∨
        Exists fun outcome => program.matchWith config subject = .ok outcome ∧
          pruned.matchWith config subject = .ok outcome ∧
          forall profile, outcome.profile = some profile ->
            forall name, name ∈ grammar.unreachableRules start -> profile.callsOf name = 0 := by
  have wellFormed : grammar.WellFormed start Pattern.codedParts :=
    (compileBy_succeeds_iff RuleTable.lowering_copies).mp ⟨program, compiled⟩
  rcases exists_of_bind_eq_ok compiled with ⟨table, built, linked⟩
  have prunedBuilt := RuleTable.build_without
    (fun rule listed reached name => wellFormed.coded_notMem_unreachableRules listed reached) built
  rcases (compileBy_succeeds_iff RuleTable.lowering_copies).mpr
    wellFormed.without_unreachableRules with ⟨pruned, prunedCompiled⟩
  rcases exists_of_bind_eq_ok prunedCompiled with ⟨prunedTable, again, prunedLinked⟩
  rw [RuleTable.build] at prunedBuilt
  rw [prunedBuilt] at again
  cases again
  rcases Program.relocates_of_link built prunedBuilt linked prunedLinked with ⟨relocates, begins⟩
  rcases laid_of_compile prunedCompiled with ⟨rules, laid⟩
  refine ⟨pruned, prunedCompiled, fun config subject => ?_⟩
  have unbroken (address : Nat) : program.matchWith config subject ≠ .error (.broken address) :=
    fun broken => MatchError.ofLimit_ne_broken _ _ (Program.error_of_matchWith compiled broken).symm
  have same := Program.matchWith_eq_of_relocates relocates begins unbroken
  cases answer : program.matchWith config subject with
  | error error =>
      rw [answer] at same
      rcases Program.error_of_matchWith compiled answer with rfl
      cases limited : config.stepLimit with
      | none =>
          rw [limited] at same
          exact Or.inr (Or.inl ⟨rfl, rfl, same⟩)
      | some limit =>
          rw [limited] at same
          exact Or.inl ⟨limit, rfl, rfl, same⟩
  | ok outcome =>
      rw [answer] at same
      refine Or.inr (Or.inr ⟨outcome, rfl, same, fun profile profiled name unreachable => ?_⟩)
      have undefined :
          name ∉ (grammar.without (grammar.unreachableRules start)).rules.map Rule.name :=
        fun listed => (mem_names_without.mp listed).2 unreachable
      exact laid.callsOf_eq_zero undefined same profiled

/-- A rule that is never reached, between two rules that refer to each other. -/
def idleBetween : Grammar :=
  ⟨[⟨"list", .sequence (.rule "item") (.optional (.sequence (.char ',') (.rule "list")))⟩,
    ⟨"unused", .sequence (.rule "list") (.rule "item")⟩,
    ⟨"item", .choice (.char 'x') (.sequence (.sequence (.char '(') (.rule "list")) (.char ')'))⟩]⟩

/-- Without that rule the calls of the other one have another address, but a
list gets the same answer. -/
theorem idleBetween_pruned : idleBetween.unreachableRules "list" = ["unused"] ∧
    Exists fun program => Exists fun pruned => Exists fun outcome => Exists fun profile =>
      idleBetween.compile "list" = .ok program ∧ program.entry? "item" = some 14 ∧
        (idleBetween.without ["unused"]).compile "list" = .ok pruned ∧
        pruned.entry? "item" = some 6 ∧
        program.matchWith ⟨some 99, true⟩ "x,(x)" = .ok outcome ∧
        pruned.matchWith ⟨some 99, true⟩ "x,(x)" = .ok outcome ∧ outcome.matched = some 5 ∧
        outcome.profile = some profile ∧ profile.callsOf "item" = 3 ∧
        profile.callsOf "unused" = 0 := by
  have unreachable : idleBetween.unreachableRules "list" = ["unused"] := by cbv
  have answered : Exists fun program => Exists fun outcome => Exists fun profile =>
      idleBetween.compile "list" = .ok program ∧ program.entry? "item" = some 14 ∧
        program.matchWith ⟨some 99, true⟩ "x,(x)" = .ok outcome ∧ outcome.matched = some 5 ∧
        outcome.profile = some profile ∧ profile.callsOf "item" = 3 :=
    ⟨_, _, _, rfl, rfl, rfl, rfl, rfl, rfl⟩
  have moved : ((idleBetween.without ["unused"]).compile "list").map (fun pruned =>
      pruned.entry? "item") = .ok (some 6) := rfl
  rcases answered with ⟨program, outcome, profile, compiled, entered, answered, matched, profiled,
    called⟩
  rcases compile_without_unreachableRules compiled with ⟨pruned, prunedCompiled, agree⟩
  rw [unreachable] at prunedCompiled agree
  rw [prunedCompiled] at moved
  rcases agree ⟨some 99, true⟩ "x,(x)" with
    ⟨_, _, stopped, _⟩ | ⟨_, stopped, _⟩ | ⟨_, again, prunedAnswered, uncalled⟩
  · rw [answered] at stopped
    cases stopped
  · rw [answered] at stopped
    cases stopped
  · rw [answered] at again
    cases again
    exact ⟨unreachable, program, pruned, outcome, profile, compiled, entered, prunedCompiled,
      Except.ok.inj moved, answered, prunedAnswered, matched, profiled, called,
      uncalled profile profiled "unused" List.mem_cons_self⟩

end Grammar
end ParsingMachine
