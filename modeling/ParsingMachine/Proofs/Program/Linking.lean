import ParsingMachine.Proofs.Program.Balance
import ParsingMachine.Proofs.Program.Compiling

namespace ParsingMachine

/-!
# What comes of linking

Linking goes over the rules of a table three times: it looks for the start
rule, it adds up where the code of every rule will begin, and it fills these
addresses in.  What comes of it can be said without any of that.  Either there
is no start rule; or some call leads nowhere, and then the first one of them is
to blame; or the program consists of the code of all rules, the start rule first,
and the addresses follow from the lengths of the code.

A table that was built has no name twice, and since every rule has an
instruction behind it that goes back, no two rules begin at one address, however
short they are.  So names and addresses determine each other.
-/

section Errors

variable {ε α β : Type}

theorem bind_eq_error_iff {first : Except ε α} {next : α -> Except ε β} {error : ε} :
    first >>= next = .error error <-> first = .error error ∨
      Exists fun middle => first = .ok middle ∧ next middle = .error error := by
  constructor
  · intro failed
    cases first with
    | error other =>
        cases failed
        exact Or.inl rfl
    | ok middle => exact Or.inr ⟨middle, rfl, failed⟩
  · rintro (rfl | ⟨middle, rfl, failed⟩)
    · rfl
    · exact failed

@[simp] theorem bind_pure_eq_error_iff {first : Except ε α} {convert : α -> β} {error : ε} :
    (first >>= fun value => pure (convert value)) = .error error <-> first = .error error := by
  rw [bind_eq_error_iff]
  refine or_iff_left ?_
  rintro ⟨middle, _, ⟨⟩⟩

/-- The objection to a list is the one to its first element that nothing can be
made of. -/
theorem mapM_eq_error_iff {convert : α -> Except ε β} {items : List α} {error : ε} :
    items.mapM convert = .error error <->
      Exists fun before => Exists fun item => Exists fun behind =>
        items = before ++ item :: behind ∧
          (forall earlier, earlier ∈ before -> Succeeds (convert earlier)) ∧
          convert item = .error error := by
  induction items with
  | nil =>
      refine iff_of_false (fun failed => by cases failed) ?_
      rintro ⟨before, item, behind, split, _⟩
      exact List.append_ne_nil_of_right_ne_nil before (List.cons_ne_nil item behind) split.symm
  | cons first items inductionHypothesis =>
      rw [List.mapM_cons, bind_eq_error_iff]
      simp only [bind_pure_eq_error_iff, inductionHypothesis]
      constructor
      · rintro (failed | ⟨made, firstMade, before, item, behind, rfl, earlier, failed⟩)
        · exact ⟨[], first, items, rfl, fun _ listed => absurd listed List.not_mem_nil, failed⟩
        · exact ⟨first :: before, item, behind, rfl,
            List.forall_mem_cons.mpr ⟨⟨made, firstMade⟩, earlier⟩, failed⟩
      · rintro ⟨before, item, behind, split, earlier, failed⟩
        cases before with
        | nil =>
            cases split
            exact Or.inl failed
        | cons other before =>
            cases split
            rcases List.forall_mem_cons.mp earlier with ⟨⟨made, firstMade⟩, others⟩
            exact Or.inr ⟨made, firstMade, before, item, behind, rfl, others, failed⟩

end Errors

/-! ## Calls that lead nowhere -/

/-- The code calls none but rules with the given names. -/
def Code.CallsOnly (code : Code) (names : List String) : Prop :=
  forall callee, callee ∈ code.calls -> callee ∈ names

/-- The first call in the code to a rule that does not have one of the names
is a call to this rule. -/
def Code.FirstStrayCall (code : Code) (names : List String) (missing : String) : Prop :=
  Exists fun before => Exists fun address => Exists fun behind =>
    code = before ++ .call missing address :: behind ∧ Code.CallsOnly before names ∧
      missing ∉ names

namespace RuleTable

/-- The first call in the code of some rules, one rule after the other, to a
rule that does not have one of the names stands in the code of the owner. -/
def FirstStrayCall (names : List String) (rules : List (String × Code))
    (owner missing : String) : Prop :=
  Exists fun before => Exists fun code => Exists fun behind =>
    rules = before ++ (owner, code) :: behind ∧
      (forall earlier, earlier ∈ before -> earlier.2.CallsOnly names) ∧
      code.FirstStrayCall names missing

theorem firstStrayCall_congr {names others : List String}
    (same : forall name, name ∈ names <-> name ∈ others) {rules : List (String × Code)}
    {owner missing : String} :
    FirstStrayCall names rules owner missing <-> FirstStrayCall others rules owner missing := by
  simp only [FirstStrayCall, Code.FirstStrayCall, Code.CallsOnly, same]

variable {entries : List (String × Nat)}

theorem resolve_eq_error_iff {owner : String} {instruction : Instruction} {error : CompileError} :
    resolve entries owner instruction = .error error <->
      Exists fun missing => Exists fun address => instruction = .call missing address ∧
        missing ∉ entries.map Prod.fst ∧ error = .unresolvedRule owner missing := by
  cases instruction with
  | call rule address =>
      have named : Succeeds (resolve entries owner (.call rule address)) <-> _ :=
        resolve_succeeds_iff
      constructor
      · intro failed
        refine ⟨rule, address, rfl, fun listed => ?_, ?_⟩
        · have succeeds := named.mpr fun callee same => Option.some.inj same ▸ listed
          rw [failed] at succeeds
          exact not_succeeds_error error succeeds
        · rw [resolve] at failed
          split at failed
          · cases failed
          · cases failed
            rfl
      · rintro ⟨_, _, ⟨⟩, absent, rfl⟩
        rw [resolve]
        split
        · next entry found =>
            have accepted := List.find?_some found
            have same : entry.1 = rule := of_decide_eq_true accepted
            exact absurd (same ▸ List.mem_map_of_mem (List.mem_of_find?_eq_some found)) absent
        · rfl
  | _ =>
      refine iff_of_false (fun failed => by cases failed) ?_
      rintro ⟨_, _, ⟨⟩, _⟩

/-- The objection to the code of a rule is that of its first call which leads
nowhere. -/
theorem placed_eq_error_iff {rule : String × Code} {error : CompileError} :
    placed entries rule = .error error <->
      Exists fun missing => rule.2.FirstStrayCall (entries.map Prod.fst) missing ∧
        error = .unresolvedRule rule.1 missing := by
  rw [placed, bind_pure_eq_error_iff, mapM_eq_error_iff]
  simp only [resolve_eq_error_iff, resolve_succeeds_iff]
  constructor
  · rintro ⟨before, _, behind, split, earlier, missing, address, rfl, absent, blamed⟩
    refine ⟨missing, ⟨before, address, behind, split, fun callee called => ?_, absent⟩, blamed⟩
    rcases Code.mem_calls_iff.mp called with ⟨calledAddress, listed⟩
    exact earlier _ listed callee rfl
  · rintro ⟨missing, ⟨before, address, behind, split, earlier, absent⟩, blamed⟩
    refine ⟨before, _, behind, split, fun instruction listed callee same => ?_, missing, address,
      rfl, absent, blamed⟩
    exact earlier callee (List.mem_filterMap.mpr ⟨instruction, listed, same⟩)

theorem mapM_placed_eq_error_iff {rules : List (String × Code)} {error : CompileError} :
    rules.mapM (placed entries) = .error error <->
      Exists fun owner => Exists fun missing =>
        FirstStrayCall (entries.map Prod.fst) rules owner missing ∧
          error = .unresolvedRule owner missing := by
  rw [mapM_eq_error_iff]
  simp only [placed_eq_error_iff, placed_succeeds_iff]
  constructor
  · rintro ⟨before, ⟨owner, code⟩, behind, split, earlier, missing, stray, blamed⟩
    exact ⟨owner, missing, ⟨before, code, behind, split, earlier, stray⟩, blamed⟩
  · rintro ⟨owner, missing, ⟨before, code, behind, split, earlier, stray⟩, blamed⟩
    exact ⟨before, (owner, code), behind, split, earlier, missing, stray, blamed⟩

/-! ## The order of the rules -/

/-- The rules of a table with the start rule first and the others in the order
of the table. -/
def LinedUp (table : RuleTable) (start : String) (rules : List (String × Code)) : Prop :=
  Exists fun before => Exists fun code => Exists fun behind =>
    table.entries = before ++ (start, code) :: behind ∧ rules = (start, code) :: (before ++ behind)

variable {table : RuleTable} {start : String} {rules : List (String × Code)}

theorem LinedUp.perm (linedUp : table.LinedUp start rules) : rules.Perm table.entries := by
  rcases linedUp with ⟨before, code, behind, split, rfl⟩
  rw [split]
  exact List.perm_middle.symm

theorem linedUp_layout {code : Code} (found : table.get? start = some code)
    (distinct : (table.entries.map Prod.fst).Nodup) :
    table.LinedUp start (table.layout start code) := by
  rcases List.append_of_mem (mem_entries_of_get? found) with ⟨before, behind, split⟩
  rw [split, List.map_append, List.map_cons, List.nodup_middle, List.nodup_cons,
    ← List.map_append] at distinct
  have others : forall entry, entry ∈ before ++ behind -> decide (entry.1 ≠ start) = true := by
    intro entry listed
    have named := List.mem_map_of_mem (f := Prod.fst) listed
    exact decide_eq_true fun same => distinct.1 (same ▸ named)
  have dropped : ¬ decide ((start, code).1 ≠ start) = true :=
    fun different => of_decide_eq_true different rfl
  refine ⟨before, code, behind, split, ?_⟩
  rw [layout, split, List.filter_append, List.filter_cons, if_neg dropped, ← List.filter_append,
    List.filter_eq_self.mpr others]

/-- Linking objects to a missing start rule, and else to the first call that
leads nowhere. -/
theorem link_eq_error_iff (distinct : (table.entries.map Prod.fst).Nodup)
    {error : CompileError} :
    table.link start = .error error <->
      start ∉ table.entries.map Prod.fst ∧ error = .missingStart start ∨
      Exists fun code => table.get? start = some code ∧
        Exists fun owner => Exists fun missing =>
          FirstStrayCall (table.entries.map Prod.fst) (table.layout start code) owner missing ∧
            error = .unresolvedRule owner missing := by
  rw [← contains_iff, contains, link]
  cases found : table.get? start with
  | none => simp [eq_comm]
  | some code =>
      have named : forall callee, callee ∈ (table.layout start code).map Prod.fst <->
          callee ∈ table.entries.map Prod.fst := by
        intro callee
        simp only [List.mem_map, mem_layout_iff found distinct]
      simp only [bind_pure_eq_error_iff, mapM_placed_eq_error_iff, map_fst_addressesFrom,
        firstStrayCall_congr named, Option.isSome_some, not_true, false_and, false_or,
        Option.some.injEq, exists_eq_left']

end RuleTable

/-! ## Addresses -/

theorem map_find?_eq_some_iff_of_nodup {α β γ : Type} [DecidableEq β] {key : α -> β}
    {made : α -> γ} {items : List α} (distinct : (items.map key).Nodup) {value : β} {result : γ} :
    (items.find? fun other => key other = value).map made = some result <->
      Exists fun item => item ∈ items ∧ key item = value ∧ made item = result := by
  simp only [Option.map_eq_some_iff, find?_eq_some_iff_of_nodup distinct, and_assoc]

/-- Where no name comes up twice, a name stands for any code that has it. -/
theorem RuleTable.get?_eq_some_iff {table : RuleTable}
    (distinct : (table.entries.map Prod.fst).Nodup) {name : String} {code : Code} :
    table.get? name = some code <-> (name, code) ∈ table.entries := by
  refine (map_find?_eq_some_iff_of_nodup distinct).trans ⟨?_, fun listed => ⟨_, listed, rfl, rfl⟩⟩
  rintro ⟨entry, listed, rfl, rfl⟩
  exact listed

/-- The addresses that rules take up, each of them one more than its code. -/
def RuleTable.extent : List (String × Code) -> Nat
  | [] => 0
  | rule :: rest => rule.2.length + 1 + extent rest

namespace Program

variable {program : Program}

theorem entry?_eq_some_iff (distinct : (program.entries.map Prod.fst).Nodup) {name : String}
    {address : Nat} :
    program.entry? name = some address <-> (name, address) ∈ program.entries := by
  refine (map_find?_eq_some_iff_of_nodup distinct).trans ⟨?_, fun listed => ⟨_, listed, rfl, rfl⟩⟩
  rintro ⟨entry, listed, rfl, rfl⟩
  exact listed

theorem ruleAt?_eq_some_iff (distinct : (program.entries.map Prod.snd).Nodup) {name : String}
    {address : Nat} :
    program.ruleAt? address = some name <-> (name, address) ∈ program.entries := by
  refine (map_find?_eq_some_iff_of_nodup distinct).trans ⟨?_, fun listed => ⟨_, listed, rfl, rfl⟩⟩
  rintro ⟨entry, listed, rfl, rfl⟩
  exact listed

/-- Rules that have been listed at ascending addresses are in order already. -/
theorem rules_eq_entries (ascends : program.entries.Pairwise fun one other => one.2 < other.2) :
    program.rules = program.entries :=
  List.mergeSort_of_pairwise (ascends.imp fun before => decide_eq_true (Nat.le_of_lt before))

/-- What a program is made of when it is linked: the code of the rules in this
order, each with an instruction behind it that goes back, and nothing else.  The
calls have the addresses of the rules that they name, and no other instruction
has changed.

In the order of their addresses the rules are in this order too, and a rule
begins behind the code of the rules in front of it.  Names and addresses determine
each other. -/
structure LaysOut (program : Program) (rules : List (String × Code)) : Prop where
  code : program.code.toList = rules.flatMap fun rule =>
    rule.2.map (RuleTable.addressed program.entries) ++ [.returnToCaller]
  called : forall callee address, .call callee address ∈ program.code ->
    Exists fun entry => address = some entry ∧ program.entry? callee = some entry
  listed : program.rules.map Prod.fst = rules.map Prod.fst
  placed : forall before name code behind, rules = before ++ (name, code) :: behind ->
    program.rules[before.length]? = some (name, RuleTable.extent before)
  entered : forall name address,
    program.entry? name = some address <-> (name, address) ∈ program.rules
  inverse : forall name address,
    program.entry? name = some address <-> program.ruleAt? address = some name

end Program

namespace RuleTable

theorem length_addressesFrom (address : Nat) (rules : List (String × Code)) :
    (addressesFrom address rules).length = rules.length := by
  rw [← List.length_map Prod.fst, map_fst_addressesFrom, List.length_map]

theorem length_flatMap_closed (rules : List (String × Code)) :
    (rules.flatMap closed).length = extent rules := by
  induction rules with
  | nil => rfl
  | cons rule rest inductionHypothesis =>
      rw [List.flatMap_cons, List.length_append, inductionHypothesis, closed, List.length_append]
      rfl

/-- Every rule begins behind the rules in front of it. -/
theorem getElem?_addressesFrom {before behind : List (String × Code)} {name : String}
    {code : Code} :
    (addressesFrom 0 (before ++ (name, code) :: behind))[before.length]? =
      some (name, extent before) := by
  rw [addressesFrom_append,
    List.getElem?_append_right (Nat.le_of_eq (length_addressesFrom 0 before)),
    length_addressesFrom, Nat.sub_self, addressesFrom, List.getElem?_cons_zero,
    length_flatMap_closed, Nat.zero_add]

/-- What is linked is laid out in the order of the rules. -/
theorem laysOut_of_link {grammar : Grammar} {table : RuleTable} {start : String} {code : Code}
    {program : Program} (built : build grammar = .ok table)
    (found : table.get? start = some code) (linked : table.link start = .ok program) :
    program.LaysOut (table.layout start code) := by
  rcases names_of_buildBy built with ⟨names, distinct⟩
  rcases (known_of_build built).laid_of_link (names ▸ distinct) linked with
    ⟨startCode, again, laid⟩
  rw [found] at again
  cases again
  have entries : program.entries = addressesFrom 0 (table.layout start code) :=
    laid.entries.trans (addressesFrom_map_addressedRule _ _ _)
  have listed : program.entries.map Prod.fst = (table.layout start code).map Prod.fst := by
    rw [entries, map_fst_addressesFrom]
  have distinctNames : (program.entries.map Prod.fst).Nodup := by
    rw [listed, ((linedUp_layout found (names ▸ distinct)).perm.map Prod.fst).nodup_iff, names]
    exact distinct
  have distinctAddresses : (program.entries.map Prod.snd).Nodup :=
    entries ▸ nodup_map_snd_addressesFrom 0 _
  have rules : program.rules = program.entries :=
    Program.rules_eq_entries (entries ▸ ascending_addressesFrom 0 _)
  constructor
  · rw [laid.code, List.toList_toArray, List.flatMap_map]
    rfl
  · exact laid.linked
  · rw [rules]
    exact listed
  · intro before name body behind split
    rw [rules, entries, split]
    exact getElem?_addressesFrom
  · intro name address
    rw [rules]
    exact Program.entry?_eq_some_iff distinctNames
  · intro name address
    rw [Program.entry?_eq_some_iff distinctNames, Program.ruleAt?_eq_some_iff distinctAddresses]

/-- Linking a table that was built has one of three outcomes.  If the start rule
is not in the table, that is the objection.  Else, if the code of some rule calls
a rule that is not in the table, the objection is to the first such call in the
order of the rules, and the rule in whose code it stands is to blame.  Else there
is a program, in which the rules are laid out in this order from address zero
on. -/
theorem link_lays_out_or_blames {grammar : Grammar} {table : RuleTable}
    (built : build grammar = .ok table) (start : String) :
    (forall name, table.link start = .error (.missingStart name) <->
      start ∉ table.entries.map Prod.fst ∧ name = start) ∧
    (start ∈ table.entries.map Prod.fst ->
      Exists fun rules => table.LinedUp start rules ∧
        ((Exists fun owner => Exists fun missing =>
            table.link start = .error (.unresolvedRule owner missing)) <->
          Exists fun rule => rule ∈ table.entries ∧
            ¬ rule.2.CallsOnly (table.entries.map Prod.fst)) ∧
        (forall owner missing, table.link start = .error (.unresolvedRule owner missing) <->
          FirstStrayCall (table.entries.map Prod.fst) rules owner missing) ∧
        ((forall rule, rule ∈ table.entries -> rule.2.CallsOnly (table.entries.map Prod.fst)) ->
          Exists fun program => table.link start = .ok program ∧ program.LaysOut rules ∧
            program.entry? start = some 0)) := by
  rcases names_of_buildBy built with ⟨names, grammarDistinct⟩
  have distinct : (table.entries.map Prod.fst).Nodup := names ▸ grammarDistinct
  constructor
  · intro name
    simp only [link_eq_error_iff distinct, CompileError.missingStart.injEq, reduceCtorEq, and_false,
      exists_false, or_false]
  intro starts
  rcases Option.isSome_iff_exists.mp (contains_iff.mpr starts) with ⟨code, found⟩
  have blamed : forall owner missing, table.link start = .error (.unresolvedRule owner missing) <->
      FirstStrayCall (table.entries.map Prod.fst) (table.layout start code) owner missing := by
    intro owner missing
    simp only [link_eq_error_iff distinct, reduceCtorEq, and_false, false_or, found,
      Option.some.injEq, exists_eq_left', CompileError.unresolvedRule.injEq, ↓existsAndEq,
      and_true]
  have succeeds : Succeeds (table.link start) <-> forall rule, rule ∈ table.entries ->
      rule.2.CallsOnly (table.entries.map Prod.fst) :=
    (link_succeeds_iff distinct).trans (and_iff_right starts)
  refine ⟨_, linedUp_layout found distinct, ?_, blamed, fun called => ?_⟩
  · constructor
    · rintro ⟨owner, missing, failed⟩
      have unlinked : ¬ Succeeds (table.link start) := failed ▸ not_succeeds_error _
      rw [succeeds] at unlinked
      simpa only [not_forall, exists_prop] using unlinked
    · rintro ⟨rule, listed, stray⟩
      cases linked : table.link start with
      | ok program => exact absurd (succeeds.mp ⟨program, linked⟩ rule listed) stray
      | error error =>
          rcases (link_eq_error_iff distinct).mp linked with
            ⟨absent, _⟩ | ⟨_, _, owner, missing, _, rfl⟩
          · exact absurd starts absent
          · exact ⟨owner, missing, rfl⟩
  · rcases succeeds.mpr called with ⟨program, linked⟩
    have laysOut := laysOut_of_link built found linked
    have first := laysOut.placed [] start code _ rfl
    exact ⟨program, linked, laysOut, (laysOut.entered start 0).mpr (List.mem_of_getElem? first)⟩

/-- Two rules that refer to each other, and between them one without any
code. -/
def alternatingAroundNothing : Grammar :=
  ⟨[⟨"even", .optional (.sequence (.char 'x') (.rule "odd"))⟩,
    ⟨"nothing", .repeated .any 0 0⟩,
    ⟨"odd", .sequence (.sequence (.char 'x') (.rule "even")) (.rule "nothing")⟩]⟩

/-- The last rule comes first, and the rule without code has an address of its
own. -/
theorem alternatingAroundNothing_laid_out :
    Exists fun table => build alternatingAroundNothing = .ok table ∧
      Exists fun rules => table.LinedUp "odd" rules ∧
        Exists fun program => table.link "odd" = .ok program ∧ program.LaysOut rules ∧
          program.rules = [("odd", 0), ("even", 8), ("nothing", 13)] := by
  have made : Exists fun table => build alternatingAroundNothing = .ok table ∧
      "odd" ∈ table.entries.map Prod.fst ∧
      (forall rule, rule ∈ table.entries -> rule.2.CallsOnly (table.entries.map Prod.fst)) ∧
      (table.link "odd").map Program.entries =
        .ok [("odd", 0), ("even", 8), ("nothing", 13)] := by
    refine ⟨_, rfl, by decide, ?_, rfl⟩
    unfold Code.CallsOnly
    decide
  rcases made with ⟨table, built, starts, called, entries⟩
  rcases (link_lays_out_or_blames built "odd").2 starts with ⟨rules, linedUp, _, _, succeeds⟩
  rcases succeeds called with ⟨program, linked, laysOut, _⟩
  rw [linked] at entries
  have listed : program.entries = [("odd", 0), ("even", 8), ("nothing", 13)] :=
    Except.ok.inj entries
  have ordered : program.rules = program.entries :=
    Program.rules_eq_entries (listed ▸ by decide)
  exact ⟨table, built, rules, linedUp, program, linked, laysOut, ordered.trans listed⟩

end RuleTable
end ParsingMachine
