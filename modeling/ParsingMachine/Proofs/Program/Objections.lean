import ParsingMachine.Proofs.Program.Linking

namespace ParsingMachine

/-!
# Which objection comes first

A grammar may have any number of things wrong with it, but only one of them is
reported.  Here they are listed by a walk through the text of the grammar that
knows nothing of code: rule by rule, and each pattern from left to right.

Compiling goes through the same patterns in parts and in an order that the code
asks for, and it stops at the first thing that it objects to.  That is the first
one of the list, whatever becomes of references and alternatives.
-/

/-! ## Stopping at the first objection -/

section StopsAtFirst

variable {ε α β : Type}

/-- There is a result if there are no objections, and else the first one of
them is reported. -/
def StopsAtFirst (result : Except ε α) (objections : List ε) : Prop :=
  forall error, result = .error error <-> objections.head? = some error

namespace StopsAtFirst

variable {first : Except ε α} {next : α -> Except ε β} {objections others : List ε}

theorem ok (value : α) : StopsAtFirst (.ok value : Except ε α) [] := by
  intro error
  exact iff_of_false (fun same => by cases same) (fun same => by cases same)

theorem error (objection : ε) (others : List ε) :
    StopsAtFirst (.error objection : Except ε α) (objection :: others) := by
  intro error
  rw [List.head?_cons, Except.error.injEq, Option.some.injEq]

/-- What comes second is looked at if there is no objection to what comes
first. -/
theorem bind (stops : StopsAtFirst first objections)
    (goesOn : forall value, first = .ok value -> StopsAtFirst (next value) others) :
    StopsAtFirst (first >>= next) (objections ++ others) := by
  intro error
  rw [bind_eq_error_iff, stops error]
  cases objections with
  | nil =>
      cases made : first with
      | error objection =>
          have impossible := (stops objection).mp made
          cases impossible
      | ok value =>
          rw [List.nil_append, ← goesOn value made error]
          simp only [List.head?_nil, reduceCtorEq, false_or, Except.ok.injEq, exists_eq_left']
  | cons objection objections =>
      have failed : first = .error objection := (stops objection).mpr rfl
      rw [failed, List.cons_append, List.head?_cons, List.head?_cons]
      refine or_iff_left ?_
      rintro ⟨value, made, _⟩
      cases made

theorem bind_pure (stops : StopsAtFirst first objections) (convert : α -> β) :
    StopsAtFirst (first >>= fun value => pure (convert value)) objections := by
  intro error
  rw [bind_pure_eq_error_iff, stops error]

theorem succeeds_iff (stops : StopsAtFirst first objections) :
    Succeeds first <-> objections = [] := by
  rw [← List.head?_eq_none_iff, Option.eq_none_iff_forall_not_mem]
  constructor
  · rintro ⟨value, made⟩ error headed
    have failed := (stops error).mpr headed
    rw [made] at failed
    cases failed
  · intro nothing
    cases made : first with
    | ok value => exact ⟨value, rfl⟩
    | error error => exact absurd ((stops error).mp made) (nothing error)

end StopsAtFirst
end StopsAtFirst

/-! ## The walk -/

/-- What there is to object to about an item of a class in a rule. -/
def ClassItem.objection? (rule : String) : ClassItem -> Option CompileError
  | char _ => none
  | range first last => if first ≤ last then none else some (.backwardsRange rule first last)

/-- What there is to object to about a pattern in a rule, from left to right.  The
bounds of a repetition come before its inside, and the inside of one that may not
happen even once is left out. -/
def Pattern.objections (owner : String) : Pattern -> List CompileError
  | charClass items => items.filterMap (ClassItem.objection? owner)
  | repeated inner least most =>
      (if most < least then [.badBounds owner least most] else []) ++
        if most = 0 then [] else inner.objections owner
  | sequence first second | choice first second =>
      first.objections owner ++ second.objections owner
  | group inner | not inner | optional inner | zeroOrMore inner | oneOrMore inner =>
      inner.objections owner
  | rule _ | char _ | literal _ | literalAnyCase _ | any => []

/-- What there is to object to about rules that are defined behind rules with
these names.  That a name is taken comes behind everything about the pattern. -/
def Rule.objectionsBehind (names : List String) : List Rule -> List CompileError
  | [] => []
  | rule :: rules =>
      rule.pattern.objections rule.name ++
        (if rule.name ∈ names then [.duplicateRule rule.name] else []) ++
          objectionsBehind (names ++ [rule.name]) rules

/-- What there is to object to about a grammar, in the order of its text.  Missing
rules are not among it. -/
def Grammar.objections (grammar : Grammar) : List CompileError :=
  Rule.objectionsBehind [] grammar.rules

/-- What there is to object to about a pattern are ranges and bounds, and the rule
that they are in is named. -/
theorem Pattern.mem_objections {owner : String} {pattern : Pattern} {objection : CompileError}
    (listed : objection ∈ pattern.objections owner) :
    (Exists fun first => Exists fun last => objection = .backwardsRange owner first last) ∨
      Exists fun least => Exists fun most => objection = .badBounds owner least most := by
  induction pattern with
  | group inner inductionHypothesis | not inner inductionHypothesis
  | optional inner inductionHypothesis | zeroOrMore inner inductionHypothesis
  | oneOrMore inner inductionHypothesis => exact inductionHypothesis listed
  | sequence first second firstHypothesis secondHypothesis
  | choice first second firstHypothesis secondHypothesis =>
      rcases List.mem_append.mp listed with inFirst | inSecond
      · exact firstHypothesis inFirst
      · exact secondHypothesis inSecond
  | repeated inner least most inductionHypothesis =>
      rcases List.mem_append.mp listed with bounds | inside
      · split at bounds
        · exact Or.inr ⟨least, most, List.mem_singleton.mp bounds⟩
        · cases bounds
      · split at inside
        · cases inside
        · exact inductionHypothesis inside
  | charClass items =>
      rcases List.mem_filterMap.mp listed with ⟨item, _, found⟩
      cases item with
      | char character => cases found
      | range first last =>
          rw [ClassItem.objection?] at found
          split at found
          · cases found
          · exact Or.inl ⟨first, last, (Option.some.inj found).symm⟩
  | _ => cases listed

/-- No objection is to a missing rule. -/
theorem Rule.unresolvedRule_notMem_objectionsBehind {names : List String} {rules : List Rule}
    {owner missing : String} : .unresolvedRule owner missing ∉ objectionsBehind names rules := by
  induction rules generalizing names with
  | nil => exact List.not_mem_nil
  | cons rule rules inductionHypothesis =>
      rw [objectionsBehind, List.mem_append, List.mem_append]
      rintro ((inPattern | taken) | later)
      · rcases Pattern.mem_objections inPattern with ⟨_, _, ⟨⟩⟩ | ⟨_, _, ⟨⟩⟩
      · split at taken
        · cases List.mem_singleton.mp taken
        · cases taken
      · exact inductionHypothesis later

/-! ## Compiling against the walk -/

theorem Lowering.classRanges_stopsAtFirst (rule : String) (items : List ClassItem) :
    StopsAtFirst (classRanges rule items) (items.filterMap (ClassItem.objection? rule)) := by
  induction items with
  | nil => exact .ok []
  | cons item items inductionHypothesis =>
      cases item with
      | char character => exact inductionHypothesis.bind_pure _
      | range first last =>
          rw [classRanges, List.filterMap_cons, ClassItem.objection?]
          split
          · exact inductionHypothesis.bind_pure _
          · exact .error _ _

/-- Lowering stops at the first objection to a pattern, whatever is made of
references and alternatives. -/
theorem Lowering.lower_stopsAtFirst (lowering : Lowering) (rule : String) (pattern : Pattern) :
    StopsAtFirst (lowering.lower rule pattern) (pattern.objections rule) := by
  induction pattern with
  | group inner inductionHypothesis => exact inductionHypothesis
  | not inner inductionHypothesis | optional inner inductionHypothesis
  | zeroOrMore inner inductionHypothesis | oneOrMore inner inductionHypothesis =>
      exact inductionHypothesis.bind_pure _
  | sequence first second firstHypothesis secondHypothesis
  | choice first second firstHypothesis secondHypothesis =>
      exact firstHypothesis.bind fun _ _ => secondHypothesis.bind_pure _
  | repeated inner least most inductionHypothesis =>
      rw [lower, Pattern.objections]
      split
      · exact .error _ _
      · split
        · exact .ok []
        · exact inductionHypothesis.bind_pure _
  | charClass items => exact (classRanges_stopsAtFirst rule items).bind_pure _
  | _ => exact .ok _

namespace RuleTable

theorem insert_stopsAtFirst (table : RuleTable) (name : String) (code : Code) :
    StopsAtFirst (table.insert name code)
      (if name ∈ table.entries.map Prod.fst then [.duplicateRule name] else []) := by
  simp only [insert, contains_iff]
  split
  · exact .error _ _
  · exact .ok _

theorem foldlM_stopsAtFirst (way : RuleTable -> Lowering) (rules : List Rule) (table : RuleTable) :
    StopsAtFirst (rules.foldlM (addRule way) table)
      (Rule.objectionsBehind (table.entries.map Prod.fst) rules) := by
  induction rules generalizing table with
  | nil => exact .ok table
  | cons rule rules inductionHypothesis =>
      rw [List.foldlM_cons, Rule.objectionsBehind]
      have added := ((way table).lower_stopsAtFirst rule.name rule.pattern).bind
        fun code _ => table.insert_stopsAtFirst rule.name code
      refine added.bind fun extended made => ?_
      rcases exists_of_bind_eq_ok made with ⟨code, _, inserted⟩
      have names : extended.entries.map Prod.fst = table.entries.map Prod.fst ++ [rule.name] := by
        rw [(insert_eq_ok inserted).2, List.map_append]
        rfl
      rw [← names]
      exact inductionHypothesis extended

/-- Filling a table stops at the first objection to the grammar, in whatever way
the rules are lowered. -/
theorem buildBy_stopsAtFirst (way : RuleTable -> Lowering) (grammar : Grammar) :
    StopsAtFirst (buildBy way grammar) grammar.objections :=
  foldlM_stopsAtFirst way grammar.rules empty

/-- A missing rule is no objection while the table is filled. -/
theorem buildBy_ne_unresolvedRule {way : RuleTable -> Lowering} {grammar : Grammar}
    {rule missing : String} :
    buildBy way grammar ≠ .error (.unresolvedRule rule missing) := by
  intro failed
  have headed := (buildBy_stopsAtFirst way grammar _).mp failed
  exact Rule.unresolvedRule_notMem_objectionsBehind (List.mem_of_mem_head? headed)

end RuleTable

namespace Grammar

variable {grammar : Grammar} {start : String}

/-- A grammar without objections has a table, and what is left to object to is
found out by linking. -/
theorem exists_table_of_objections_eq_nil (nothing : grammar.objections = []) :
    Exists fun table => RuleTable.build grammar = .ok table ∧
      table.entries.map Prod.fst = grammar.rules.map Rule.name ∧
      (table.entries.map Prod.fst).Nodup ∧
      forall start, grammar.compile start = table.link start := by
  rcases (RuleTable.buildBy_stopsAtFirst _ grammar).succeeds_iff.mpr nothing with ⟨table, built⟩
  rcases RuleTable.names_of_buildBy built with ⟨names, distinct⟩
  refine ⟨table, built, names, names ▸ distinct, fun start => ?_⟩
  rw [compile, RuleTable.build, built]
  rfl

/-- A grammar without objections has a program if the start rule is defined and
everything is defined that code refers to. -/
theorem succeeds_compile_iff_of_objections_eq_nil (nothing : grammar.objections = []) :
    Succeeds (grammar.compile start) <-> start ∈ grammar.rules.map Rule.name ∧
      forall rule, rule ∈ grammar.rules -> forall name, .rule name ∈ rule.pattern.codedParts ->
        name ∈ grammar.rules.map Rule.name := by
  have built := (RuleTable.buildBy_stopsAtFirst RuleTable.lowering grammar).succeeds_iff.mpr nothing
  rcases RuleTable.buildBy_succeeds_iff.mp built with ⟨ordered, distinct⟩
  refine (compileBy_succeeds_iff RuleTable.lowering_copies).trans ⟨?_, ?_⟩
  · exact fun wellFormed => ⟨wellFormed.starts, wellFormed.defined⟩
  · exact fun ⟨starts, defined⟩ => ⟨distinct, starts, ordered, defined⟩

/-- A grammar that there is something to object to about has no table, and the
first objection is reported, however its rules are lowered and wherever matching
is to start.  Only if there is none is a missing start rule reported, and only if
the start rule is defined a missing rule that code refers to. -/
theorem compile_reports_first_objection (grammar : Grammar) :
    (forall error, RuleTable.build grammar = .error error <->
      grammar.objections.head? = some error) ∧
    (forall (way : RuleTable -> Lowering) (error : CompileError),
      RuleTable.buildBy way grammar = .error error <-> RuleTable.build grammar = .error error) ∧
    forall start : String,
      (forall error, grammar.objections.head? = some error ->
        grammar.compile start = .error error) ∧
      (grammar.objections = [] -> start ∉ grammar.rules.map Rule.name ->
        grammar.compile start = .error (.missingStart start)) ∧
      (grammar.objections = [] -> start ∈ grammar.rules.map Rule.name ->
        ((Exists fun program => grammar.compile start = .ok program) <->
          forall rule, rule ∈ grammar.rules ->
            forall name, .rule name ∈ rule.pattern.codedParts ->
              name ∈ grammar.rules.map Rule.name) ∧
        forall error, grammar.compile start = .error error ->
          Exists fun owner => Exists fun missing => error = .unresolvedRule owner missing) := by
  have stops := fun way => RuleTable.buildBy_stopsAtFirst way grammar
  refine ⟨stops _, fun way error => (stops way error).trans (stops _ error).symm, fun start => ?_⟩
  refine ⟨fun error headed => ?_, fun nothing absent => ?_, fun nothing starts => ⟨?_, ?_⟩⟩
  · exact bind_eq_error_iff.mpr (Or.inl ((stops _ error).mpr headed))
  · rcases exists_table_of_objections_eq_nil nothing with ⟨table, _, names, distinct, compiled⟩
    rw [compiled]
    exact (RuleTable.link_eq_error_iff distinct).mpr (Or.inl ⟨names ▸ absent, rfl⟩)
  · exact (succeeds_compile_iff_of_objections_eq_nil nothing).trans (and_iff_right starts)
  · intro error failed
    rcases exists_table_of_objections_eq_nil nothing with ⟨table, _, names, distinct, compiled⟩
    rw [compiled] at failed
    rcases (RuleTable.link_eq_error_iff distinct).mp failed with
      ⟨absent, _⟩ | ⟨_, _, owner, missing, _, same⟩
    · exact absurd (names ▸ starts) absent
    · exact ⟨owner, missing, same⟩

/-- Bounds the wrong way round in the second alternative of a loop, with a range
that runs backwards inside of them and another one in front that may not happen;
and behind all that a name that is taken, and a rule that is missing. -/
def manyObjections : Grammar :=
  ⟨[⟨"a", .any⟩,
    ⟨"b", .oneOrMore (.choice (.sequence (.rule "a") (.repeated (.range 'z' 'y') 0 0))
      (.repeated (.range 'z' 'a') 3 2))⟩,
    ⟨"a", .rule "missing"⟩]⟩

/-- The bounds are reported, and the range inside of them would come next. -/
theorem manyObjections_reports_bounds :
    manyObjections.objections =
        [.badBounds "b" 3 2, .backwardsRange "b" 'z' 'a', .duplicateRule "a"] ∧
      RuleTable.build manyObjections = .error (.badBounds "b" 3 2) ∧
      manyObjections.compile "c" = .error (.badBounds "b" 3 2) := by
  have listed : manyObjections.objections =
      [.badBounds "b" 3 2, .backwardsRange "b" 'z' 'a', .duplicateRule "a"] := by
    decide
  have headed : manyObjections.objections.head? = some (.badBounds "b" 3 2) := by
    rw [listed]
    rfl
  rcases compile_reports_first_objection manyObjections with ⟨building, _, compiling⟩
  exact ⟨listed, (building _).mpr headed, (compiling "c").1 _ headed⟩

end Grammar
end ParsingMachine
