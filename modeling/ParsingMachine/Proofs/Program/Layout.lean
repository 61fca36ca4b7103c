import Mathlib.Data.List.Nodup
import ParsingMachine.Proofs.Program.Implementation

namespace ParsingMachine

/-!
# What a compiled program is made of

A program that compiling gives is the code of all rules, one behind the other,
where every code implements its rule and every call leads to the code of the
rule that it names.  This is all that is needed to know of compiling; how the
table of rules was filled, and in which order the addresses were found, does
not matter any more behind this module.
-/

/-- Where no key comes up twice, the element with a key is the one that is
found. -/
theorem find?_eq_some_iff_of_nodup {α β : Type} [DecidableEq β] {key : α -> β} {items : List α}
    (distinct : (items.map key).Nodup) {value : β} {item : α} :
    (items.find? fun other => key other = value) = some item <->
      item ∈ items ∧ key item = value := by
  constructor
  · intro found
    have accepted := List.find?_some found
    exact ⟨List.mem_of_find?_eq_some found, of_decide_eq_true accepted⟩
  · rintro ⟨listed, same⟩
    have some : (items.find? fun other => key other = value).isSome = true :=
      List.find?_isSome.mpr ⟨item, listed, decide_eq_true same⟩
    rcases Option.isSome_iff_exists.mp some with ⟨other, found⟩
    have accepted := List.find?_some found
    have otherSame : key other = value := of_decide_eq_true accepted
    rw [found, List.inj_on_of_nodup_map distinct (List.mem_of_find?_eq_some found) listed
      (otherSame.trans same.symm)]

/-! ## Tables of implemented rules -/

namespace RuleTable

/-- Every code in the table implements the rule with its name. -/
def Known (table : RuleTable) (grammar : Grammar) : Prop :=
  forall name code, (name, code) ∈ table.entries ->
    Exists fun rule => grammar.get? name = some rule ∧ grammar.Implements rule.pattern code

theorem mem_entries_of_get? {table : RuleTable} {name : String} {code : Code}
    (found : table.get? name = some code) : (name, code) ∈ table.entries := by
  rcases Option.map_eq_some_iff.mp found with ⟨entry, listed, same⟩
  have accepted := List.find?_some listed
  have named : entry.1 = name := of_decide_eq_true accepted
  have member := List.mem_of_find?_eq_some listed
  rw [← named, ← same]
  exact member

theorem contains_iff {table : RuleTable} {name : String} :
    table.contains name = true <-> name ∈ table.entries.map Prod.fst := by
  rw [contains, get?, Option.isSome_map, List.find?_isSome, List.mem_map]
  constructor
  · rintro ⟨entry, listed, same⟩
    exact ⟨entry, listed, of_decide_eq_true same⟩
  · rintro ⟨entry, listed, same⟩
    exact ⟨entry, listed, decide_eq_true same⟩

/-- Lowering with copies of known rules stays inside the relation. -/
theorem Known.lowering_sound {table : RuleTable} {grammar : Grammar} (known : table.Known grammar) :
    table.lowering.Sound grammar where
  reference name := by
    change grammar.Implements (.rule name) (table.inlineOrCall name)
    unfold inlineOrCall
    split
    · next code found =>
        split
        · rcases known name code (mem_entries_of_get? found) with ⟨rule, defined, implemented⟩
          exact .pasted _ defined implemented
        · exact .called name none
    · exact .called name none
  alternative {first second one other} firstImplemented secondImplemented := by
    change grammar.Implements (.choice first second) (Code.fusedAlternative one other)
    unfold Code.fusedAlternative
    split
    · exact .fused firstImplemented secondImplemented
    · exact .choice firstImplemented secondImplemented

theorem insert_eq_ok {table following : RuleTable} {name : String} {code : Code}
    (inserted : table.insert name code = .ok following) :
    name ∉ table.entries.map Prod.fst ∧ following.entries = table.entries ++ [(name, code)] := by
  rw [insert] at inserted
  split at inserted
  · cases inserted
  · next absent =>
      cases inserted
      exact ⟨fun listed => absent (contains_iff.mpr listed), rfl⟩

private theorem foldlM_names {way : RuleTable -> Lowering} {rules : List Rule}
    {table following : RuleTable}
    (built : rules.foldlM (addRule way) table = .ok following)
    (distinct : (table.entries.map Prod.fst).Nodup) :
    following.entries.map Prod.fst = table.entries.map Prod.fst ++ rules.map Rule.name ∧
      (following.entries.map Prod.fst).Nodup := by
  induction rules generalizing table with
  | nil =>
      cases built
      exact ⟨(List.append_nil _).symm, distinct⟩
  | cons rule rules inductionHypothesis =>
      rw [List.foldlM_cons] at built
      rcases exists_of_bind_eq_ok built with ⟨middle, added, rest⟩
      rcases exists_of_bind_eq_ok added with ⟨code, _, inserted⟩
      rcases insert_eq_ok inserted with ⟨fresh, entries⟩
      have names : middle.entries.map Prod.fst = table.entries.map Prod.fst ++ [rule.name] := by
        rw [entries, List.map_append]
        rfl
      have middleDistinct : (middle.entries.map Prod.fst).Nodup := by
        rw [names]
        refine List.nodup_append.mpr ⟨distinct, List.pairwise_singleton _ _, ?_⟩
        intro name listed other last equal
        rw [equal, List.mem_singleton.mp last] at listed
        exact fresh listed
      rcases inductionHypothesis rest middleDistinct with ⟨followingNames, followingDistinct⟩
      refine ⟨?_, followingDistinct⟩
      rw [followingNames, names, List.append_assoc]
      rfl

/-- A table has the rules of its grammar under their names, in order, and no
name twice. -/
theorem names_of_buildBy {way : RuleTable -> Lowering} {grammar : Grammar} {table : RuleTable}
    (built : buildBy way grammar = .ok table) :
    table.entries.map Prod.fst = grammar.rules.map Rule.name ∧
      (grammar.rules.map Rule.name).Nodup := by
  rcases foldlM_names built List.nodup_nil with ⟨names, distinct⟩
  have same : table.entries.map Prod.fst = grammar.rules.map Rule.name := names
  exact ⟨same, same ▸ distinct⟩

theorem get?_of_mem_rules {grammar : Grammar} (distinct : (grammar.rules.map Rule.name).Nodup)
    {rule : Rule} (listed : rule ∈ grammar.rules) : grammar.get? rule.name = some rule :=
  (find?_eq_some_iff_of_nodup distinct).mpr ⟨listed, rfl⟩

/-- What holds of the table without rules, and still holds whenever a rule of
the grammar is added, holds of the table of the whole grammar. -/
@[elab_as_elim] theorem buildBy_induction {way : RuleTable -> Lowering} {grammar : Grammar}
    {motive : RuleTable -> Prop} (begins : motive .empty)
    (adds : forall rule, rule ∈ grammar.rules -> forall (before : RuleTable) (code : Code),
      motive before -> (way before).lower rule.name rule.pattern = .ok code ->
      motive ⟨before.entries ++ [(rule.name, code)]⟩)
    {table : RuleTable} (built : buildBy way grammar = .ok table) : motive table := by
  have onward : forall (rules : List Rule) (before : RuleTable),
      (forall rule, rule ∈ rules -> rule ∈ grammar.rules) -> motive before ->
      rules.foldlM (addRule way) before = .ok table -> motive table := by
    intro rules
    induction rules with
    | nil =>
        intro before _ holds rest
        cases rest
        exact holds
    | cons rule rules inductionHypothesis =>
        intro before listed holds rest
        rw [List.foldlM_cons] at rest
        rcases exists_of_bind_eq_ok rest with ⟨middle, added, others⟩
        rcases exists_of_bind_eq_ok added with ⟨code, lowered, inserted⟩
        refine inductionHypothesis middle
          (fun other later => listed other (List.mem_cons_of_mem _ later)) ?_ others
        have same : middle = ⟨before.entries ++ [(rule.name, code)]⟩ :=
          congrArg RuleTable.mk (insert_eq_ok inserted).2
        rw [same]
        exact adds rule (listed rule List.mem_cons_self) before code holds lowered
  exact onward grammar.rules .empty (fun _ listed => listed) begins built

/-- Whatever way of lowering is used against known tables, the table of a
whole grammar is known. -/
theorem known_of_buildBy {way : RuleTable -> Lowering} {grammar : Grammar} {table : RuleTable}
    (sound : forall known : RuleTable, known.Known grammar -> (way known).Sound grammar)
    (built : buildBy way grammar = .ok table) : table.Known grammar := by
  have distinct := (names_of_buildBy built).2
  refine buildBy_induction ?_ ?_ built
  · intro name code member
    exact absurd member List.not_mem_nil
  · intro rule listed before code known lowered name otherCode member
    rcases List.mem_append.mp member with earlier | new
    · exact known name otherCode earlier
    · cases List.mem_singleton.mp new
      exact ⟨rule, get?_of_mem_rules distinct listed,
        (sound before known).implements_of_lower lowered⟩

/-! ## Linking -/

/-- An instruction with the address that a call gets. -/
def addressed (entries : List (String × Nat)) : Instruction -> Instruction
  | .call rule _ => .call rule ((entries.find? fun entry => entry.1 = rule).map Prod.snd)
  | instruction => instruction

/-- A call has the address of the rule that it names. -/
def Linked (entries : List (String × Nat)) (instruction : Instruction) : Prop :=
  forall rule address, instruction = .call rule address ->
    Exists fun entry => address = some entry ∧
      (entries.find? fun entry => entry.1 = rule).map Prod.snd = some entry

private theorem resolve_eq_ok {entries : List (String × Nat)} {owner : String}
    {instruction resolved : Instruction} (linked : resolve entries owner instruction = .ok resolved) :
    resolved = addressed entries instruction ∧ Linked entries resolved := by
  cases instruction with
  | call rule address =>
      rw [resolve] at linked
      split at linked
      · next entry found =>
          cases linked
          constructor
          · rw [addressed, found]
            rfl
          · rintro _ _ ⟨⟩
            exact ⟨entry.2, rfl, by rw [found]; rfl⟩
      · cases linked
  | _ =>
      cases linked
      exact ⟨rfl, by rintro _ _ ⟨⟩⟩

private theorem mapM_resolve_eq_ok {entries : List (String × Nat)} {owner : String}
    {code resolved : Code} (linked : code.mapM (resolve entries owner) = .ok resolved) :
    resolved = code.map (addressed entries) ∧
      forall instruction, instruction ∈ resolved -> Linked entries instruction := by
  induction code generalizing resolved with
  | nil =>
      cases linked
      exact ⟨rfl, fun _ listed => absurd listed List.not_mem_nil⟩
  | cons instruction code inductionHypothesis =>
      rw [List.mapM_cons] at linked
      rcases exists_of_bind_eq_ok linked with ⟨first, firstLinked, rest⟩
      rcases exists_of_bind_eq_ok rest with ⟨others, othersLinked, made⟩
      cases made
      rcases resolve_eq_ok firstLinked with ⟨firstSame, firstAddressed⟩
      rcases inductionHypothesis othersLinked with ⟨othersSame, othersAddressed⟩
      constructor
      · rw [firstSame, othersSame, List.map_cons]
      · intro other listed
        rcases List.mem_cons.mp listed with same | later
        · exact same ▸ firstAddressed
        · exact othersAddressed other later

/-- The code of a rule with the instruction behind it that goes back. -/
def closed (rule : String × Code) : Code :=
  rule.2 ++ [.returnToCaller]

/-- A rule with the addresses of its calls filled in. -/
def addressedRule (entries : List (String × Nat)) (rule : String × Code) : String × Code :=
  (rule.1, rule.2.map (addressed entries))

private theorem mapM_placed_eq_ok {entries : List (String × Nat)} {rules : List (String × Code)}
    {bodies : List Code} (linked : rules.mapM (placed entries) = .ok bodies) :
    bodies = (rules.map (addressedRule entries)).map closed ∧
      forall body, body ∈ bodies -> forall instruction, instruction ∈ body ->
        Linked entries instruction := by
  induction rules generalizing bodies with
  | nil =>
      cases linked
      exact ⟨rfl, fun _ listed => absurd listed List.not_mem_nil⟩
  | cons rule rules inductionHypothesis =>
      rw [List.mapM_cons] at linked
      rcases exists_of_bind_eq_ok linked with ⟨first, firstPlaced, rest⟩
      rcases exists_of_bind_eq_ok rest with ⟨others, othersPlaced, made⟩
      cases made
      rcases exists_of_bind_eq_ok firstPlaced with ⟨resolved, firstLinked, closedBody⟩
      cases closedBody
      rcases mapM_resolve_eq_ok firstLinked with ⟨firstSame, firstAddressed⟩
      rcases inductionHypothesis othersPlaced with ⟨othersSame, othersAddressed⟩
      constructor
      · rw [firstSame, othersSame]
        rfl
      · intro body listed
        rcases List.mem_cons.mp listed with same | later
        · subst same
          intro instruction inside
          rcases List.mem_append.mp inside with inCode | last
          · exact firstAddressed instruction inCode
          · cases List.mem_singleton.mp last
            rintro _ _ ⟨⟩
        · exact othersAddressed body later

theorem addressesFrom_map_addressedRule (entries : List (String × Nat)) (address : Nat)
    (rules : List (String × Code)) :
    addressesFrom address (rules.map (addressedRule entries)) = addressesFrom address rules := by
  induction rules generalizing address with
  | nil => rfl
  | cons rule rules inductionHypothesis =>
      simp only [List.map_cons, addressedRule, addressesFrom, List.length_map]
      exact congrArg _ (inductionHypothesis _)

end RuleTable

namespace Code

variable (entries : List (String × Nat))

theorem jumpOver_map (code : Code) (more : Nat) :
    jumpOver (code.map (RuleTable.addressed entries)) more = code.jumpOver more := by
  rw [jumpOver, jumpOver, List.length_map]

theorem map_alternative (first second : Code) :
    (first.alternative second).map (RuleTable.addressed entries) =
      alternative (first.map (RuleTable.addressed entries))
        (second.map (RuleTable.addressed entries)) := by
  simp only [alternative, jumpOver_map, List.map_append, List.map_cons]
  rfl

theorem map_optional (inner : Code) :
    inner.optional.map (RuleTable.addressed entries) =
      optional (inner.map (RuleTable.addressed entries)) := by
  simp only [optional, jumpOver_map, List.map_append, List.map_cons]
  rfl

theorem map_loop (inner : Code) :
    inner.loop.map (RuleTable.addressed entries) =
      loop (inner.map (RuleTable.addressed entries)) := by
  simp only [loop, jumpOver_map, List.map_append, List.map_cons]
  rfl

theorem map_absent (inner : Code) :
    inner.absent.map (RuleTable.addressed entries) =
      absent (inner.map (RuleTable.addressed entries)) := by
  simp only [absent, jumpOver_map, List.map_append, List.map_cons]
  rfl

theorem map_repeated (inner : Code) (least most : Nat) :
    (inner.repeated least most).map (RuleTable.addressed entries) =
      repeated (inner.map (RuleTable.addressed entries)) least most := by
  simp only [repeated, List.map_append, List.map_flatten, List.map_replicate, map_optional]

end Code

/-- Filling in addresses does not change what code implements. -/
theorem Grammar.Implements.addressed {grammar : Grammar} {pattern : Pattern} {code : Code}
    (implemented : grammar.Implements pattern code) (entries : List (String × Nat)) :
    grammar.Implements pattern (code.map (RuleTable.addressed entries)) := by
  induction implemented with
  | group _ inner => exact .group inner
  | char character => exact .char character
  | literal text => exact .literal text
  | literalAnyCase text => exact .literalAnyCase text
  | any => exact .any
  | charClass items => exact .charClass items
  | not _ inner =>
      rw [Code.map_absent]
      exact .not inner
  | sequence _ _ first second =>
      rw [List.map_append]
      exact .sequence first second
  | choice _ _ first second =>
      rw [Code.map_alternative]
      exact .choice first second
  | fused _ _ first second => exact .fused first second
  | optional _ inner =>
      rw [Code.map_optional]
      exact .optional inner
  | zeroOrMore _ inner =>
      rw [Code.map_loop]
      exact .zeroOrMore inner
  | oneOrMore _ inner => exact .oneOrMore inner
  | repeatedDone => exact .repeatedDone
  | repeatedRequired positive ordered _ inner => exact .repeatedRequired positive ordered inner
  | repeatedAllowed positive _ inner => exact .repeatedAllowed positive inner
  | pasted comment defined _ inner => exact .pasted comment defined inner
  | called name address => exact .called name _

/-! ## Programs -/

namespace Program

/-- The code lies in the program from the address on. -/
def Holds (program : Program) (address : Nat) (code : Code) : Prop :=
  forall index instruction, code[index]? = some instruction ->
    program.code[address + index]? = some instruction

/-- What a program is made of that starts with the rule `start`: the code of
each rule, in the order of the addresses. -/
structure Laid (program : Program) (grammar : Grammar) (start : String)
    (rules : List (String × Code)) : Prop where
  code : program.code = (rules.flatMap RuleTable.closed).toArray
  entries : program.entries = RuleTable.addressesFrom 0 rules
  distinct : (rules.map Prod.fst).Nodup
  first : Exists fun code => Exists fun others => rules = (start, code) :: others
  implemented : forall name code, (name, code) ∈ rules ->
    Exists fun rule => grammar.get? name = some rule ∧ grammar.Implements rule.pattern code
  linked : forall name address, .call name address ∈ program.code ->
    Exists fun entry => address = some entry ∧ program.entry? name = some entry

end Program

/-- A rule list whose first rule is the start rule has no name twice, if the
table has none. -/
private theorem layout_distinct {table : RuleTable} {start : String} {code : Code}
    (distinct : (table.entries.map Prod.fst).Nodup) :
    ((table.layout start code).map Prod.fst).Nodup := by
  rw [RuleTable.layout, List.map_cons, List.nodup_cons]
  constructor
  · intro listed
    rcases List.mem_map.mp listed with ⟨entry, kept, same⟩
    exact of_decide_eq_true (List.mem_filter.mp kept).2 same
  · exact distinct.sublist (List.filter_sublist.map _)

/-- Linking a known table lays its rules out, with the addresses of the program
in their calls. -/
theorem RuleTable.Known.laid_of_link {table : RuleTable} {grammar : Grammar} {start : String}
    {program : Program} (known : table.Known grammar)
    (distinct : (table.entries.map Prod.fst).Nodup) (linked : table.link start = .ok program) :
    Exists fun code => table.get? start = some code ∧
      program.Laid grammar start
        ((table.layout start code).map (addressedRule program.entries)) := by
  unfold link at linked
  split at linked
  · cases linked
  · next code found =>
      rcases exists_of_bind_eq_ok linked with ⟨bodies, placedAll, made⟩
      cases made
      rcases mapM_placed_eq_ok placedAll with ⟨bodiesSame, callsLinked⟩
      refine ⟨code, found, ?_⟩
      constructor
      · rw [bodiesSame, List.flatMap_def]
      · exact (addressesFrom_map_addressedRule _ _ _).symm
      · rw [List.map_map]
        exact layout_distinct distinct
      · exact ⟨_, _, rfl⟩
      · intro name body listed
        rcases List.mem_map.mp listed with ⟨⟨own, unlinked⟩, member, same⟩
        cases same
        have inTable : (own, unlinked) ∈ table.entries := by
          rcases List.mem_cons.mp member with first | later
          · cases first
            exact mem_entries_of_get? found
          · exact (List.mem_filter.mp later).1
        rcases known own unlinked inTable with ⟨rule, defined, implemented⟩
        exact ⟨rule, defined, implemented.addressed _⟩
      · intro name address listed
        rcases List.mem_flatten.mp (List.mem_toArray.mp listed) with ⟨body, member, inside⟩
        exact callsLinked body member _ inside name address rfl

/-- A compiled program lays the rules of its grammar out. -/
theorem Grammar.laid_of_compile {grammar : Grammar} {start : String} {program : Program}
    (compiled : grammar.compile start = .ok program) :
    Exists fun rules => program.Laid grammar start rules := by
  rcases exists_of_bind_eq_ok compiled with ⟨table, built, linked⟩
  rcases RuleTable.names_of_buildBy built with ⟨names, distinct⟩
  have known := RuleTable.known_of_buildBy
    (fun _ tableKnown => RuleTable.Known.lowering_sound tableKnown) built
  rcases known.laid_of_link (names ▸ distinct) linked with ⟨code, _, laid⟩
  exact ⟨_, laid⟩

/-- Parentheses that are closed in the order in which they are opened. -/
def nestedParentheses : Grammar :=
  ⟨[⟨"nested", .sequence (.sequence (.char '(') (.zeroOrMore (.rule "nested"))) (.char ')')⟩]⟩

/-- The program for nested parentheses. -/
def nestedProgram : Program where
  code := #[.matchText "(", .choice 3, .call "nested" (some 0), .commit (-2), .matchText ")",
    .returnToCaller]
  entries := [("nested", 0)]

theorem nestedParentheses_compile : nestedParentheses.compile "nested" = .ok nestedProgram := rfl

/-! ## Where the code of a rule lies -/

namespace RuleTable

theorem map_fst_addressesFrom (address : Nat) (rules : List (String × Code)) :
    (addressesFrom address rules).map Prod.fst = rules.map Prod.fst := by
  induction rules generalizing address with
  | nil => rfl
  | cons rule rules inductionHypothesis =>
      rw [addressesFrom, List.map_cons, List.map_cons, inductionHypothesis]

private theorem le_of_mem_addressesFrom {address : Nat} {rules : List (String × Code)}
    {entry : String × Nat} (listed : entry ∈ addressesFrom address rules) : address ≤ entry.2 := by
  induction rules generalizing address with
  | nil => cases listed
  | cons rule rules inductionHypothesis =>
      rcases List.mem_cons.mp listed with rfl | later
      · exact Nat.le_refl address
      · have behind := inductionHypothesis later
        omega

/-- Rules begin at ascending addresses. -/
theorem ascending_addressesFrom (address : Nat) (rules : List (String × Code)) :
    (addressesFrom address rules).Pairwise fun one other => one.2 < other.2 := by
  induction rules generalizing address with
  | nil => exact .nil
  | cons rule rules inductionHypothesis =>
      refine .cons (fun entry later => ?_) (inductionHypothesis _)
      have behind := le_of_mem_addressesFrom later
      change address < entry.2
      omega

/-- No two rules begin at one address. -/
theorem nodup_map_snd_addressesFrom (address : Nat) (rules : List (String × Code)) :
    ((addressesFrom address rules).map Prod.snd).Nodup :=
  List.pairwise_map.mpr ((ascending_addressesFrom address rules).imp Nat.ne_of_lt)

/-- The addresses of further rules begin behind the code of the earlier
ones. -/
theorem addressesFrom_append (address : Nat) (before behind : List (String × Code)) :
    addressesFrom address (before ++ behind) =
      addressesFrom address before ++
        addressesFrom (address + (before.flatMap closed).length) behind := by
  induction before generalizing address with
  | nil => rfl
  | cons rule before inductionHypothesis =>
      have shifted : address + ((rule :: before).flatMap closed).length =
          address + rule.2.length + 1 + (before.flatMap closed).length := by
        rw [List.flatMap_cons, List.length_append, closed, List.length_append,
          List.length_singleton]
        omega
      rw [List.cons_append, addressesFrom, addressesFrom, inductionHypothesis, shifted]
      rfl

end RuleTable

namespace Program

theorem holds_append {program : Program} {address : Nat} {first second : Code} :
    program.Holds address (first ++ second) <->
      program.Holds address first ∧ program.Holds (address + first.length) second := by
  constructor
  · intro held
    constructor
    · intro index instruction found
      have inside := (List.getElem?_eq_some_iff.mp found).1
      exact held index instruction (by rw [List.getElem?_append_left inside]; exact found)
    · intro index instruction found
      rw [Nat.add_assoc]
      apply held
      rw [List.getElem?_append_right (Nat.le_add_right _ _), Nat.add_sub_cancel_left]
      exact found
  · rintro ⟨firstHeld, secondHeld⟩ index instruction found
    rcases Nat.lt_or_ge index first.length with inside | behind
    · rw [List.getElem?_append_left inside] at found
      exact firstHeld index instruction found
    · rw [List.getElem?_append_right behind] at found
      have located := secondHeld _ instruction found
      rw [Nat.add_assoc, Nat.add_sub_cancel' behind] at located
      exact located

theorem holds_cons {program : Program} {address : Nat} {instruction : Instruction} {code : Code} :
    program.Holds address (instruction :: code) <->
      program.code[address]? = some instruction ∧ program.Holds (address + 1) code := by
  rw [← List.singleton_append, holds_append]
  refine and_congr_left fun _ => ⟨fun held => held 0 instruction rfl, ?_⟩
  intro located index other found
  cases index with
  | zero =>
      cases found
      exact located
  | succ index => cases found

theorem holds_nil {program : Program} {address : Nat} : program.Holds address [] := by
  intro index instruction found
  cases found

theorem holds_toArray (before code behind : Code) (entries : List (String × Nat)) :
    Holds ⟨(before ++ (code ++ behind)).toArray, entries⟩ before.length code := by
  intro index instruction found
  have inside := (List.getElem?_eq_some_iff.mp found).1
  change (before ++ (code ++ behind)).toArray[before.length + index]? = some instruction
  rw [List.getElem?_toArray, List.getElem?_append_right (Nat.le_add_right _ _),
    Nat.add_sub_cancel_left, List.getElem?_append_left inside]
  exact found

/-- Where the code of a rule begins is where the program says it does. -/
theorem Laid.holds {program : Program} {grammar : Grammar} {start : String}
    {rules : List (String × Code)} (laid : program.Laid grammar start rules) {name : String}
    {code : Code} (listed : (name, code) ∈ rules) :
    Exists fun entry => program.entry? name = some entry ∧
      program.Holds entry (code ++ [.returnToCaller]) := by
  rcases List.append_of_mem listed with ⟨before, behind, rfl⟩
  refine ⟨(before.flatMap RuleTable.closed).length, ?_, ?_⟩
  · have absent : (RuleTable.addressesFrom 0 before).find? (fun entry => entry.1 = name) = none := by
      rw [List.find?_eq_none]
      intro entry member
      rw [decide_eq_true_iff]
      intro same
      have named := List.mem_map_of_mem (f := Prod.fst) member
      rw [RuleTable.map_fst_addressesFrom, same] at named
      have distinct := laid.distinct
      rw [List.map_append, List.map_cons, List.nodup_append] at distinct
      exact distinct.2.2 name named name List.mem_cons_self rfl
    unfold entry?
    rw [laid.entries, RuleTable.addressesFrom_append, List.find?_append, absent,
      Option.none_or, RuleTable.addressesFrom, List.find?_cons, decide_eq_true rfl, Nat.zero_add]
    rfl
  · have parts : program = ⟨(before.flatMap RuleTable.closed ++
        (RuleTable.closed (name, code) ++ behind.flatMap RuleTable.closed)).toArray,
          program.entries⟩ := by
      have code := laid.code
      rw [List.flatMap_append, List.flatMap_cons] at code
      cases program
      cases code
      rfl
    rw [parts]
    exact holds_toArray _ _ _ _

/-- The code of the start rule begins the program. -/
theorem Laid.holds_start {program : Program} {grammar : Grammar} {start : String}
    {rules : List (String × Code)} (laid : program.Laid grammar start rules) :
    Exists fun code => (start, code) ∈ rules ∧ program.entry? start = some 0 ∧
      program.Holds 0 (code ++ [.returnToCaller]) := by
  rcases laid.first with ⟨code, others, rfl⟩
  rcases laid.holds List.mem_cons_self with ⟨entry, found, held⟩
  have zero : program.entry? start = some 0 := by
    unfold entry?
    rw [laid.entries, RuleTable.addressesFrom, List.find?_cons, decide_eq_true rfl]
    rfl
  rw [zero] at found
  cases found
  exact ⟨code, List.mem_cons_self, zero, held⟩

/-- An address that the program has for a name is where a rule with this name
begins. -/
theorem Laid.holds_entry {program : Program} {grammar : Grammar} {start : String}
    {rules : List (String × Code)} (laid : program.Laid grammar start rules) {name : String}
    {entry : Nat} (found : program.entry? name = some entry) :
    Exists fun code => (name, code) ∈ rules ∧
      program.Holds entry (code ++ [.returnToCaller]) := by
  have named : name ∈ rules.map Prod.fst := by
    rcases Option.map_eq_some_iff.mp found with ⟨⟨own, address⟩, listed, _⟩
    have accepted := List.find?_some listed
    have same : own = name := of_decide_eq_true accepted
    have member := List.mem_map_of_mem (f := Prod.fst) (List.mem_of_find?_eq_some listed)
    rw [laid.entries, RuleTable.map_fst_addressesFrom] at member
    exact same ▸ member
  rcases List.mem_map.mp named with ⟨⟨own, code⟩, listed, same⟩
  cases same
  rcases laid.holds listed with ⟨address, located, held⟩
  rw [located] at found
  cases found
  exact ⟨code, listed, held⟩

/-- The rule at the address that the program has for a name is the rule with
this name. -/
theorem Laid.ruleAt?_of_entry? {program : Program} {grammar : Grammar} {start : String}
    {rules : List (String × Code)} (laid : program.Laid grammar start rules) {name : String}
    {address : Nat} (found : program.entry? name = some address) :
    program.ruleAt? address = some name := by
  have distinct : (program.entries.map Prod.snd).Nodup :=
    laid.entries ▸ RuleTable.nodup_map_snd_addressesFrom 0 rules
  rcases Option.map_eq_some_iff.mp found with ⟨entry, first, same⟩
  have listed := List.mem_of_find?_eq_some first
  have accepted := List.find?_some first
  have named : entry.1 = name := of_decide_eq_true accepted
  have located : program.entries.find? (fun entry => entry.2 = address) = some entry :=
    (find?_eq_some_iff_of_nodup distinct).mpr ⟨listed, same⟩
  rw [ruleAt?, located, Option.map_some, named]

/-- The parts of code that guards its inner code by a choice point. -/
theorem holds_guarded {program : Program} {address : Nat} {offset away : Int} {inner rest : Code} :
    program.Holds address (.choice offset :: inner ++ .commit away :: rest) <->
      program.code[address]? = some (.choice offset) ∧ program.Holds (address + 1) inner ∧
        program.code[address + 1 + inner.length]? = some (.commit away) ∧
          program.Holds (address + 1 + inner.length + 1) rest := by
  rw [List.cons_append, holds_cons, holds_append, holds_cons]

/-! ## Rules in a program -/

/-- Code that implements the rule lies in the program from the address on, and
goes back to the caller behind it. -/
def HoldsRule (program : Program) (grammar : Grammar) (name : String) (entry : Nat) : Prop :=
  Exists fun rule => Exists fun code => grammar.get? name = some rule ∧
    grammar.Implements rule.pattern code ∧ program.Holds entry (code ++ [.returnToCaller])

/-- Every call in the program leads to the rule that it names. -/
def CallsRules (program : Program) (grammar : Grammar) : Prop :=
  forall name address, .call name address ∈ program.code ->
    Exists fun entry => address = some entry ∧ program.HoldsRule grammar name entry

theorem Laid.callsRules {program : Program} {grammar : Grammar} {start : String}
    {rules : List (String × Code)} (laid : program.Laid grammar start rules) :
    program.CallsRules grammar := by
  intro name address listed
  rcases laid.linked name address listed with ⟨entry, linked, found⟩
  rcases laid.holds_entry found with ⟨code, member, held⟩
  rcases laid.implemented name code member with ⟨rule, defined, implemented⟩
  exact ⟨entry, linked, rule, code, defined, implemented, held⟩

theorem Laid.holdsRule_start {program : Program} {grammar : Grammar} {start : String}
    {rules : List (String × Code)} (laid : program.Laid grammar start rules) :
    program.HoldsRule grammar start 0 := by
  rcases laid.holds_start with ⟨code, member, _, held⟩
  rcases laid.implemented start code member with ⟨rule, defined, implemented⟩
  exact ⟨rule, code, defined, implemented, held⟩

end Program
end ParsingMachine
