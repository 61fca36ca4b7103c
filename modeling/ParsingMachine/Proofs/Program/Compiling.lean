import Mathlib.Data.List.Nodup
import ParsingMachine.Proofs.Grammar.WellFormed
import ParsingMachine.Proofs.Program.Layout

namespace ParsingMachine

/-!
# Which grammars have a program

Three passes can object to a grammar: lowering to what stands in a pattern,
the table to a second definition, and linking to a missing rule.  Linking sees
no pattern any more, only the calls in the code; a reference to an earlier
rule may have left a copy there instead of a call, and the copy has calls of
its own.

What is shown here holds for every way of lowering that makes of a reference
either a call or such a copy.
-/

/-- There is a result, and no error. -/
def Succeeds {ε α : Type} (result : Except ε α) : Prop :=
  Exists fun value => result = .ok value

section Succeeds

variable {ε α β : Type}

variable {first : Except ε α}

@[simp] theorem succeeds_ok (value : α) : Succeeds (.ok value : Except ε α) := ⟨value, rfl⟩

@[simp] theorem succeeds_pure (value : α) : Succeeds (pure value : Except ε α) := ⟨value, rfl⟩

@[simp] theorem not_succeeds_error (error : ε) : ¬ Succeeds (.error error : Except ε α) := by
  rintro ⟨value, same⟩
  cases same

theorem succeeds_bind_iff {next : α -> Except ε β} :
    Succeeds (first >>= next) <->
      Exists fun middle => first = .ok middle ∧ Succeeds (next middle) := by
  constructor
  · rintro ⟨value, made⟩
    rcases exists_of_bind_eq_ok made with ⟨middle, found, rest⟩
    exact ⟨middle, found, value, rest⟩
  · rintro ⟨middle, rfl, value, made⟩
    exact ⟨value, made⟩

@[simp] theorem succeeds_bind_pure_iff {convert : α -> β} :
    Succeeds (first >>= fun value => pure (convert value)) <-> Succeeds first := by
  simp only [succeeds_bind_iff, succeeds_pure, and_true]
  exact Iff.rfl

/-- Something is made of the elements of a list if it can be made of each. -/
theorem succeeds_mapM_iff {convert : α -> Except ε β} {items : List α} :
    Succeeds (items.mapM convert) <-> forall item, item ∈ items -> Succeeds (convert item) := by
  induction items with
  | nil => exact ⟨fun _ item listed => absurd listed List.not_mem_nil, fun _ => ⟨[], rfl⟩⟩
  | cons first items inductionHypothesis =>
      rw [List.mapM_cons, succeeds_bind_iff, List.forall_mem_cons, ← inductionHypothesis]
      constructor
      · rintro ⟨made, firstMade, others⟩
        rcases succeeds_bind_iff.mp others with ⟨rest, restMade, _⟩
        exact ⟨⟨made, firstMade⟩, rest, restMade⟩
      · rintro ⟨⟨made, firstMade⟩, rest, restMade⟩
        exact ⟨made, firstMade, succeeds_bind_iff.mpr ⟨rest, restMade, succeeds_pure _⟩⟩

end Succeeds

/-! ## Lowering -/

theorem Lowering.classRanges_succeeds_iff {rule : String} {items : List ClassItem} :
    Succeeds (classRanges rule items) <->
      forall first last, .range first last ∈ items -> first ≤ last := by
  induction items with
  | nil => simp [classRanges]
  | cons item items inductionHypothesis =>
      cases item with
      | char character =>
          simp only [classRanges, succeeds_bind_iff, succeeds_pure, and_true, List.mem_cons,
            reduceCtorEq, false_or]
          exact inductionHypothesis
      | range first last =>
          rw [classRanges]
          split
          · next forward =>
              simp only [succeeds_bind_iff, succeeds_pure, and_true, List.mem_cons]
              refine inductionHypothesis.trans ⟨fun others one other listed => ?_,
                fun all one other listed => all one other (Or.inr listed)⟩
              rcases listed with same | listed
              · cases same
                exact forward
              · exact others one other listed
          · next backward =>
              refine iff_of_false (not_succeeds_error _) fun all => backward ?_
              exact all first last List.mem_cons_self

/-- A pattern can be lowered if everything that code is made of is in order. -/
theorem Lowering.lower_succeeds_iff {lowering : Lowering} {rule : String} {pattern : Pattern} :
    Succeeds (lowering.lower rule pattern) <->
      forall part, part ∈ pattern.codedParts -> part.IsOrdered := by
  induction pattern with
  | group inner inductionHypothesis =>
      rw [lower, Pattern.codedParts, List.forall_mem_cons, inductionHypothesis]
      simp only [Pattern.IsOrdered, true_and]
  | not inner inductionHypothesis | optional inner inductionHypothesis
  | zeroOrMore inner inductionHypothesis | oneOrMore inner inductionHypothesis =>
      rw [lower, Pattern.codedParts, List.forall_mem_cons, succeeds_bind_pure_iff,
        inductionHypothesis]
      simp only [Pattern.IsOrdered, true_and]
  | sequence first second firstHypothesis secondHypothesis
  | choice first second firstHypothesis secondHypothesis =>
      rw [lower, Pattern.codedParts, List.forall_mem_cons, List.forall_mem_append,
        ← firstHypothesis, ← secondHypothesis, succeeds_bind_iff]
      simp only [Pattern.IsOrdered, true_and, succeeds_bind_pure_iff, exists_and_right]
      exact Iff.rfl
  | repeated inner least most inductionHypothesis =>
      rw [lower, Pattern.codedParts, List.forall_mem_cons, Pattern.IsOrdered]
      split
      · next disordered =>
          refine iff_of_false (not_succeeds_error _) fun all => ?_
          exact absurd all.1 (UInt64.not_le.mpr disordered)
      · next ordered =>
          have inOrder := UInt64.not_lt.mp ordered
          split
          · exact iff_of_true (succeeds_ok _)
              ⟨inOrder, fun part listed => absurd listed List.not_mem_nil⟩
          · rw [succeeds_bind_pure_iff, inductionHypothesis]
            exact (and_iff_right inOrder).symm
  | charClass items =>
      rw [lower, Pattern.codedParts, List.forall_mem_singleton, Pattern.IsOrdered,
        succeeds_bind_pure_iff, classRanges_succeeds_iff]
  | _ =>
      rw [lower, Pattern.codedParts, List.forall_mem_singleton]
      exact iff_of_true (succeeds_ok _) True.intro

/-! ## Calls -/

/-- The rule that an instruction calls. -/
def Instruction.callee? : Instruction -> Option String
  | .call rule _ => some rule
  | _ => none

namespace Code

/-- The rules that code calls, from its beginning to its end and as often as it
does. -/
def calls (code : Code) : List String :=
  code.filterMap Instruction.callee?

theorem calls_cons_of_none {instruction : Instruction} {code : Code}
    (noCall : instruction.callee? = none) : calls (instruction :: code) = code.calls :=
  List.filterMap_cons_none noCall

theorem calls_append (first second : Code) :
    calls (first ++ second) = first.calls ++ second.calls :=
  List.filterMap_append

theorem mem_calls_iff {code : Code} {name : String} :
    name ∈ code.calls <-> Exists fun address => .call name address ∈ code := by
  rw [calls, List.mem_filterMap]
  constructor
  · rintro ⟨instruction, listed, same⟩
    cases instruction with
    | call rule address =>
        cases same
        exact ⟨address, listed⟩
    | _ => cases same
  · rintro ⟨address, listed⟩
    exact ⟨_, listed, rfl⟩

/-- The choice point around code has no calls of its own. -/
theorem calls_guarded (offset away : Int) (inner rest : Code) :
    calls (.choice offset :: inner ++ .commit away :: rest) = inner.calls ++ rest.calls := by
  rw [List.cons_append, calls_cons_of_none rfl, calls_append, calls_cons_of_none rfl]

theorem calls_alternative (first second : Code) :
    (first.alternative second).calls = first.calls ++ second.calls :=
  calls_guarded _ _ first second

theorem calls_optional (inner : Code) : inner.optional.calls = inner.calls :=
  (calls_guarded _ _ inner []).trans (List.append_nil _)

theorem calls_loop (inner : Code) : inner.loop.calls = inner.calls :=
  (calls_guarded _ _ inner []).trans (List.append_nil _)

theorem calls_absent (inner : Code) : inner.absent.calls = inner.calls :=
  (calls_guarded _ _ inner [.fail]).trans (List.append_nil _)

/-- Sets that become one set call nothing. -/
theorem calls_fusedAlternative (first second : Code) :
    (first.fusedAlternative second).calls = first.calls ++ second.calls := by
  unfold fusedAlternative
  split
  · rfl
  · exact calls_alternative first second

private theorem mem_calls_copies {count : Nat} {code : Code} {name : String} :
    name ∈ calls (List.replicate count code).flatten <-> count ≠ 0 ∧ name ∈ code.calls := by
  induction count with
  | zero => simp [calls]
  | succ count inductionHypothesis =>
      rw [List.replicate_succ, List.flatten_cons, calls_append, List.mem_append,
        inductionHypothesis]
      exact ⟨fun called => ⟨Nat.succ_ne_zero _, called.elim id And.right⟩,
        fun called => Or.inl called.2⟩

/-- A repetition that may happen calls what its inside calls. -/
theorem mem_calls_repeated {inner : Code} {least most : Nat} (ordered : least ≤ most)
    (happens : most ≠ 0) {name : String} :
    name ∈ (inner.repeated least most).calls <-> name ∈ inner.calls := by
  rw [repeated, calls_append, List.mem_append, mem_calls_copies, mem_calls_copies, calls_optional,
    ← or_and_right]
  exact and_iff_right (by omega)

end Code

/-- A way of lowering that makes of a reference a call or a copy of code of the
table, and calls what the parts of a pattern call. -/
structure Lowering.Copies (lowering : Lowering) (table : RuleTable) : Prop where
  reference : forall name, lowering.reference name = [.call name none] ∨
    Exists fun comment => Exists fun code => table.get? name = some code ∧
      lowering.reference name = .comment comment :: code
  alternative : forall one other,
    (lowering.alternative one other).calls = one.calls ++ other.calls

/-- The calls in the code of a pattern come from the references inside it. -/
theorem Lowering.Copies.mem_calls_iff {lowering : Lowering} {table : RuleTable}
    (copies : lowering.Copies table) {rule : String} {pattern : Pattern} {code : Code}
    (lowered : lowering.lower rule pattern = .ok code) {callee : String} :
    callee ∈ code.calls <-> Exists fun name => .rule name ∈ pattern.codedParts ∧
      callee ∈ (lowering.reference name).calls := by
  induction pattern generalizing code with
  | group inner inductionHypothesis =>
      simp only [Pattern.codedParts, List.mem_cons, reduceCtorEq, false_or]
      exact inductionHypothesis lowered
  | not inner inductionHypothesis | optional inner inductionHypothesis
  | zeroOrMore inner inductionHypothesis =>
      rcases exists_of_bind_eq_ok lowered with ⟨innerCode, innerLowered, made⟩
      cases made
      simp only [Pattern.codedParts, List.mem_cons, reduceCtorEq, false_or, Code.calls_absent,
        Code.calls_optional, Code.calls_loop]
      exact inductionHypothesis innerLowered
  | oneOrMore inner inductionHypothesis =>
      rcases exists_of_bind_eq_ok lowered with ⟨innerCode, innerLowered, made⟩
      cases made
      simp only [Pattern.codedParts, List.mem_cons, reduceCtorEq, false_or, Code.calls_append,
        Code.calls_loop, List.mem_append, or_self]
      exact inductionHypothesis innerLowered
  | sequence first second firstHypothesis secondHypothesis
  | choice first second firstHypothesis secondHypothesis =>
      rcases exists_of_bind_eq_ok lowered with ⟨before, firstLowered, rest⟩
      rcases exists_of_bind_eq_ok rest with ⟨behind, secondLowered, made⟩
      cases made
      simp only [Pattern.codedParts, List.mem_cons, reduceCtorEq, false_or, Code.calls_append,
        copies.alternative, List.mem_append, or_and_right, exists_or]
      exact or_congr (firstHypothesis firstLowered) (secondHypothesis secondLowered)
  | repeated inner least most inductionHypothesis =>
      rw [lower] at lowered
      split at lowered
      · cases lowered
      · next ordered =>
          simp only [Pattern.codedParts, List.mem_cons, reduceCtorEq, false_or]
          split at lowered
          · next never =>
              cases lowered
              simp [never, Code.calls]
          · next happens =>
              rcases exists_of_bind_eq_ok lowered with ⟨innerCode, innerLowered, made⟩
              cases made
              have inOrder := UInt64.le_iff_toNat_le.mp (UInt64.not_lt.mp ordered)
              have happensCounted : most.toNat ≠ 0 := fun zero => happens (UInt64.toNat_inj.mp zero)
              rw [Code.mem_calls_repeated inOrder happensCounted, if_neg happens]
              exact inductionHypothesis innerLowered
  | charClass items =>
      rcases exists_of_bind_eq_ok lowered with ⟨ranges, listed, made⟩
      cases made
      simp [Pattern.codedParts, Code.calls, Instruction.callee?]
  | rule name =>
      cases lowered
      simp [Pattern.codedParts]
  | _ =>
      cases lowered
      simp [Pattern.codedParts, Code.calls, Instruction.callee?]

/-! ## Tables -/

namespace RuleTable

variable {way : RuleTable -> Lowering} {grammar : Grammar} {table : RuleTable} {start : String}

theorem insert_succeeds_iff {name : String} {code : Code} :
    Succeeds (table.insert name code) <-> name ∉ table.entries.map Prod.fst := by
  rw [insert, ← contains_iff]
  split
  · next defined => exact iff_of_false (not_succeeds_error _) (not_not_intro defined)
  · next fresh => exact iff_of_true (succeeds_ok _) fresh

private theorem foldlM_succeeds_iff {rules : List Rule}
    (distinct : (table.entries.map Prod.fst).Nodup) :
    Succeeds (rules.foldlM (addRule way) table) <->
      (forall rule, rule ∈ rules ->
        forall part, part ∈ rule.pattern.codedParts -> part.IsOrdered) ∧
      (table.entries.map Prod.fst ++ rules.map Rule.name).Nodup := by
  induction rules generalizing table with
  | nil =>
      rw [List.foldlM_nil, List.map_nil, List.append_nil]
      exact iff_of_true (succeeds_pure _) ⟨fun rule listed => absurd listed List.not_mem_nil, distinct⟩
  | cons rule rules inductionHypothesis =>
      have moved : table.entries.map Prod.fst ++ (rule :: rules).map Rule.name =
          (table.entries.map Prod.fst ++ [rule.name]) ++ rules.map Rule.name := by
        rw [List.map_cons, List.append_assoc, List.singleton_append]
      have names : forall code : Code, (table.entries ++ [(rule.name, code)]).map Prod.fst =
          table.entries.map Prod.fst ++ [rule.name] := fun code => List.map_append
      rw [List.foldlM_cons, List.forall_mem_cons, moved, succeeds_bind_iff]
      constructor
      · rintro ⟨middle, added, others⟩
        rcases exists_of_bind_eq_ok added with ⟨code, lowered, inserted⟩
        rcases insert_eq_ok inserted with ⟨fresh, entries⟩
        have middleDistinct : (middle.entries.map Prod.fst).Nodup := by
          rw [entries, names]
          exact List.nodup_append.mpr ⟨distinct, List.pairwise_singleton _ _,
            fun name listed other last same => fresh (List.mem_singleton.mp last ▸ same ▸ listed)⟩
        rcases (inductionHypothesis middleDistinct).mp others with ⟨ordered, nodup⟩
        rw [entries, names] at nodup
        exact ⟨⟨Lowering.lower_succeeds_iff.mp ⟨code, lowered⟩, ordered⟩, nodup⟩
      · rintro ⟨⟨ordered, othersOrdered⟩, nodup⟩
        have middleDistinct := (List.nodup_append.mp nodup).1
        have fresh : rule.name ∉ table.entries.map Prod.fst := fun listed =>
          (List.nodup_append.mp middleDistinct).2.2 _ listed _ List.mem_cons_self rfl
        rcases Lowering.lower_succeeds_iff.mpr ordered with ⟨code, lowered⟩
        have inserts : Succeeds (table.insert rule.name code) := insert_succeeds_iff.mpr fresh
        rcases inserts with ⟨middle, inserted⟩
        have entries := (insert_eq_ok inserted).2
        refine ⟨middle, ?_, ?_⟩
        · rw [addRule, lowered]
          exact inserted
        · have same : middle.entries.map Prod.fst = table.entries.map Prod.fst ++ [rule.name] := by
            rw [entries, names]
          rw [inductionHypothesis (same ▸ middleDistinct), same]
          exact ⟨othersOrdered, nodup⟩

/-- The table of a grammar can be filled if its names are distinct and all that
code is made of is in order. -/
theorem buildBy_succeeds_iff :
    Succeeds (buildBy way grammar) <->
      (forall rule, rule ∈ grammar.rules ->
        forall part, part ∈ rule.pattern.codedParts -> part.IsOrdered) ∧
      (grammar.rules.map Rule.name).Nodup :=
  foldlM_succeeds_iff List.nodup_nil

/-! ## Linking -/

theorem resolve_succeeds_iff {entries : List (String × Nat)} {owner : String}
    {instruction : Instruction} :
    Succeeds (resolve entries owner instruction) <->
      forall callee, instruction.callee? = some callee -> callee ∈ entries.map Prod.fst := by
  cases instruction with
  | call rule address =>
      have named : (entries.find? fun entry => entry.1 = rule).isSome = true <->
          rule ∈ entries.map Prod.fst := by
        rw [List.find?_isSome, List.mem_map]
        simp only [decide_eq_true_eq]
      rw [resolve]
      cases found : entries.find? fun entry => entry.1 = rule with
      | some entry =>
          rw [found] at named
          refine iff_of_true (succeeds_ok _) ?_
          rintro callee ⟨⟩
          exact named.mp rfl
      | none =>
          rw [found] at named
          refine iff_of_false (not_succeeds_error _) fun all => ?_
          cases named.mpr (all rule rfl)
  | _ => exact iff_of_true (succeeds_ok _) fun callee same => by cases same

theorem placed_succeeds_iff {entries : List (String × Nat)} {rule : String × Code} :
    Succeeds (placed entries rule) <->
      forall callee, callee ∈ rule.2.calls -> callee ∈ entries.map Prod.fst := by
  rw [placed, succeeds_bind_pure_iff, succeeds_mapM_iff]
  simp only [resolve_succeeds_iff, Code.calls, List.mem_filterMap]
  exact ⟨fun all callee ⟨instruction, listed, same⟩ => all instruction listed callee same,
    fun all instruction listed callee same => all callee ⟨instruction, listed, same⟩⟩

/-- The rules are put down in another order, but they are the same. -/
theorem mem_layout_iff {code : Code} (found : table.get? start = some code)
    (distinct : (table.entries.map Prod.fst).Nodup) {entry : String × Code} :
    entry ∈ table.layout start code <-> entry ∈ table.entries := by
  have listed := mem_entries_of_get? found
  rw [layout, List.mem_cons, List.mem_filter, decide_eq_true_eq]
  constructor
  · rintro (rfl | ⟨kept, _⟩)
    · exact listed
    · exact kept
  · intro member
    by_cases same : entry.1 = start
    · exact Or.inl (List.inj_on_of_nodup_map distinct member listed same)
    · exact Or.inr ⟨member, same⟩

/-- A table can be linked if it has the start rule and every rule that is
called in its code. -/
theorem link_succeeds_iff (distinct : (table.entries.map Prod.fst).Nodup) :
    Succeeds (table.link start) <-> start ∈ table.entries.map Prod.fst ∧
      forall entry, entry ∈ table.entries ->
        forall callee, callee ∈ entry.2.calls -> callee ∈ table.entries.map Prod.fst := by
  rw [← contains_iff, contains, link]
  cases found : table.get? start with
  | none => simp
  | some code =>
      have named : forall callee, callee ∈ (table.layout start code).map Prod.fst <->
          callee ∈ table.entries.map Prod.fst := by
        intro callee
        simp only [List.mem_map, mem_layout_iff found distinct]
      simp only [succeeds_bind_pure_iff, succeeds_mapM_iff, placed_succeeds_iff,
        map_fst_addressesFrom, named, mem_layout_iff found distinct, Option.isSome_some, true_and]

/-! ## References and calls -/

theorem lowering_copies (table : RuleTable) : table.lowering.Copies table where
  reference name := by
    cases found : table.get? name with
    | none =>
        left
        simp only [lowering, inlineOrCall, found]
    | some code =>
        by_cases short : code.length ≤ inlineLimit
        · right
          refine ⟨"inline " ++ name, code, rfl, ?_⟩
          simp only [lowering, inlineOrCall, found, if_pos short]
        · left
          simp only [lowering, inlineOrCall, found, if_neg short]
  alternative := Code.calls_fusedAlternative

/-- The code of every rule is in the table, and was made against a table of
rules of the grammar. -/
theorem exists_lowered_of_buildBy (built : buildBy way grammar = .ok table) {rule : Rule}
    (listed : rule ∈ grammar.rules) :
    Exists fun before : RuleTable => Exists fun code =>
      (forall name, name ∈ before.entries.map Prod.fst -> name ∈ grammar.rules.map Rule.name) ∧
        (way before).lower rule.name rule.pattern = .ok code ∧ (rule.name, code) ∈ table.entries := by
  have origins : (forall name, name ∈ table.entries.map Prod.fst ->
        name ∈ grammar.rules.map Rule.name) ∧
      forall entry, entry ∈ table.entries -> Exists fun rule => rule ∈ grammar.rules ∧
        rule.name = entry.1 ∧ Exists fun before : RuleTable =>
          (forall name, name ∈ before.entries.map Prod.fst -> name ∈ grammar.rules.map Rule.name) ∧
            (way before).lower rule.name rule.pattern = .ok entry.2 := by
    refine buildBy_induction ?_ ?_ built
    · exact ⟨fun name member => absurd member List.not_mem_nil,
        fun entry member => absurd member List.not_mem_nil⟩
    · intro other member before code ⟨names, others⟩ lowered
      constructor
      · intro name among
        rw [List.map_append, List.mem_append] at among
        rcases among with earlier | new
        · exact names name earlier
        · rw [List.mem_singleton.mp new]
          exact List.mem_map_of_mem member
      · intro entry among
        rcases List.mem_append.mp among with earlier | new
        · exact others entry earlier
        · cases List.mem_singleton.mp new
          exact ⟨other, member, rfl, before, names, lowered⟩
  rcases names_of_buildBy built with ⟨names, distinct⟩
  have named : rule.name ∈ table.entries.map Prod.fst := names ▸ List.mem_map_of_mem listed
  rcases List.mem_map.mp named with ⟨entry, member, same⟩
  rcases origins.2 entry member with ⟨other, otherListed, otherSame, before, known, lowered⟩
  cases List.inj_on_of_nodup_map distinct otherListed listed (otherSame.trans same)
  exact ⟨before, entry.2, known, lowered, same ▸ member⟩

/-- Where all references that code is made of are defined, all calls are. -/
theorem calls_defined_of_buildBy (copies : forall table, (way table).Copies table)
    (defined : forall rule, rule ∈ grammar.rules ->
      forall name, .rule name ∈ rule.pattern.codedParts -> name ∈ grammar.rules.map Rule.name)
    (built : buildBy way grammar = .ok table) :
    forall entry, entry ∈ table.entries ->
      forall callee, callee ∈ entry.2.calls -> callee ∈ grammar.rules.map Rule.name := by
  refine buildBy_induction ?_ ?_ built
  · intro entry member
    exact absurd member List.not_mem_nil
  · intro rule listed before code earlierDefined lowered entry member callee called
    rcases List.mem_append.mp member with earlier | new
    · exact earlierDefined entry earlier callee called
    · cases List.mem_singleton.mp new
      rcases ((copies before).mem_calls_iff lowered).mp called with ⟨name, coded, calledThere⟩
      rcases (copies before).reference name with call | ⟨comment, copied, found, copy⟩
      · rw [call] at calledThere
        rw [List.mem_singleton.mp calledThere]
        exact defined rule listed name coded
      · rw [copy, Code.calls_cons_of_none rfl] at calledThere
        exact earlierDefined _ (mem_entries_of_get? found) callee calledThere

/-- A reference that code is made of leads to a rule if all calls do: it has
become a call, or the copy of a rule. -/
theorem reference_defined_of_buildBy (copies : forall table, (way table).Copies table)
    (built : buildBy way grammar = .ok table)
    (called : forall entry, entry ∈ table.entries ->
      forall callee, callee ∈ entry.2.calls -> callee ∈ grammar.rules.map Rule.name)
    {rule : Rule} (listed : rule ∈ grammar.rules) {name : String}
    (coded : .rule name ∈ rule.pattern.codedParts) : name ∈ grammar.rules.map Rule.name := by
  rcases exists_lowered_of_buildBy built listed with ⟨before, code, known, lowered, member⟩
  rcases (copies before).reference name with call | ⟨comment, copied, found, copy⟩
  · have calls : name ∈ ((way before).reference name).calls := by
      rw [call]
      exact List.mem_singleton_self name
    exact called _ member name (((copies before).mem_calls_iff lowered).mpr ⟨name, coded, calls⟩)
  · exact known name (List.mem_map_of_mem (mem_entries_of_get? found))

end RuleTable

/-- A call names a rule of the grammar, and its address is that of this rule. -/
theorem Program.Laid.call_of_mem {program : Program} {grammar : Grammar} {start : String}
    {rules : List (String × Code)} (laid : program.Laid grammar start rules) {name : String}
    {address : Option Nat} (called : .call name address ∈ program.code) :
    name ∈ grammar.rules.map Rule.name ∧
      Exists fun entry => address = some entry ∧ program.ruleAt? entry = some name := by
  rcases laid.linked name address called with ⟨entry, rfl, entered⟩
  rcases laid.holds_entry entered with ⟨code, listed, _⟩
  rcases laid.implemented name code listed with ⟨rule, defined, _⟩
  rcases Grammar.mem_rules_of_get? defined with ⟨member, rfl⟩
  exact ⟨List.mem_map_of_mem member, entry, rfl, laid.ruleAt?_of_entry? entered⟩

/-! ## Grammars -/

namespace Grammar

/-- Compile all the rules in the given way, and link them. -/
def compileBy (way : RuleTable -> Lowering) (grammar : Grammar) (start : String) :
    Except CompileError Program := do
  let table ← RuleTable.buildBy way grammar
  table.link start

/-- A grammar has a program if it is well-formed in what code is made of.  The
way of lowering does not matter for that. -/
theorem compileBy_succeeds_iff {way : RuleTable -> Lowering}
    (copies : forall table, (way table).Copies table) {grammar : Grammar} {start : String} :
    Succeeds (grammar.compileBy way start) <-> grammar.WellFormed start Pattern.codedParts := by
  rw [compileBy, succeeds_bind_iff]
  constructor
  · rintro ⟨table, built, linked⟩
    rcases RuleTable.names_of_buildBy built with ⟨names, distinct⟩
    rcases RuleTable.buildBy_succeeds_iff.mp ⟨table, built⟩ with ⟨ordered, _⟩
    rw [RuleTable.link_succeeds_iff (names ▸ distinct), names] at linked
    exact ⟨distinct, linked.1, ordered, fun rule listed name =>
      RuleTable.reference_defined_of_buildBy copies built linked.2 listed⟩
  · rintro ⟨distinct, starts, ordered, defined⟩
    rcases RuleTable.buildBy_succeeds_iff.mpr ⟨ordered, distinct⟩ with ⟨table, built⟩
    have names := (RuleTable.names_of_buildBy built).1
    refine ⟨table, built, (RuleTable.link_succeeds_iff (names ▸ distinct)).mpr ?_⟩
    rw [names]
    exact ⟨starts, RuleTable.calls_defined_of_buildBy copies defined built⟩

/-- A grammar that is well-formed throughout can be compiled. -/
theorem exists_program_of_wellFormed {grammar : Grammar} {start : String}
    (wellFormed : grammar.WellFormed start Pattern.parts) :
    Exists fun program => grammar.compile start = .ok program :=
  (compileBy_succeeds_iff RuleTable.lowering_copies).mpr wellFormed.coded

/-- A grammar can be compiled exactly if the names of its rules are distinct,
the start rule is one of them, and everything that code is made of is in order
and refers to rules only.  What stands inside of a repetition that may not
happen even once is not asked for anything. -/
theorem exists_program_iff_wellFormed (grammar : Grammar) (start : String) :
    (Exists fun program => grammar.compile start = .ok program) <->
      grammar.WellFormed start Pattern.codedParts :=
  compileBy_succeeds_iff RuleTable.lowering_copies

/-- A range that runs backwards, inside of a repetition that may not happen. -/
def idleBackwardsRange : Grammar :=
  ⟨[⟨"a", .repeated (.range 'z' 'a') 0 0⟩]⟩

/-- The range that runs backwards is not noticed. -/
theorem idleBackwardsRange_compiles :
    (Exists fun program => idleBackwardsRange.compile "a" = .ok program) ∧
      ¬ idleBackwardsRange.WellFormed "a" Pattern.parts := by
  refine ⟨⟨⟨#[.returnToCaller], [("a", 0)]⟩, rfl⟩, fun wellFormed => ?_⟩
  have inside : Pattern.range 'z' 'a' ∈ (Pattern.repeated (.range 'z' 'a') 0 0).parts :=
    List.mem_cons_of_mem _ List.mem_cons_self
  have forward := wellFormed.ordered _ List.mem_cons_self _ inside 'z' 'a' List.mem_cons_self
  exact absurd forward (by decide)

end Grammar
end ParsingMachine
