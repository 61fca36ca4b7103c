import Mathlib.Data.List.Nodup
import Mathlib.Data.Prod.Lex
import Mathlib.Logic.Relation
import ParsingMachine.Grammar.Reachability
import ParsingMachine.Proofs.Grammar.WellFormed

namespace ParsingMachine
namespace Grammar

/-!
# What the search for rules finds

In every round the search takes a name that is waiting off.  Which one it takes
does not matter, and neither does it that a name may wait more than once.  While
the search goes on, a reference of a visited rule that was not visited yet is
still waiting; and everything that is visited or waiting can be reached.  So when
nothing is waiting any more, what was visited are the rules that can be reached.

No search goes on for ever: a round visits one rule more, or it visits none and
leaves one name less to wait.

The rules that were not visited can be left out of a grammar, and none of the
rules that are kept loses a rule that it refers to.
-/

variable {grammar : Grammar} {start name next : String} {visited waiting : List String}

theorem definition?_eq_some {rule : Rule} (defined : grammar.definition? name = some rule) :
    rule ∈ grammar.rules ∧ rule.name = name := by
  rw [definition?] at defined
  have named := List.find?_some defined
  exact ⟨List.mem_reverse.mp (List.mem_of_find?_eq_some defined), of_decide_eq_true named⟩

theorem definition?_eq_none_iff :
    grammar.definition? name = none <-> name ∉ grammar.rules.map Rule.name := by
  rw [definition?, List.find?_eq_none]
  simp only [List.mem_reverse, decide_eq_true_eq, List.mem_map, not_exists, not_and]

/-- Where no name is defined twice, the last definition of a name is the only
one. -/
theorem definition?_of_mem_rules (distinct : (grammar.rules.map Rule.name).Nodup) {rule : Rule}
    (listed : rule ∈ grammar.rules) : grammar.definition? rule.name = some rule := by
  cases defined : grammar.definition? rule.name with
  | none => exact absurd (List.mem_map_of_mem listed) (definition?_eq_none_iff.mp defined)
  | some other =>
      rcases definition?_eq_some defined with ⟨otherListed, same⟩
      rw [List.inj_on_of_nodup_map distinct otherListed listed same]

/-! ## The search -/

/-- A rule refers to a name.  Where a name is defined more than once, its last
definition counts. -/
def Refers (grammar : Grammar) (name other : String) : Prop :=
  Exists fun rule => grammar.definition? name = some rule ∧ other ∈ rule.pattern.references

/-- A search that is under way. -/
structure Search where
  visited : List String
  waiting : List String

/-- A round of a search takes any one of the waiting names off.  A name that was
visited before, or that is not defined, is passed over.  Any other is visited,
and the references of its rule wait in its place. -/
inductive Round (grammar : Grammar) : Search -> Search -> Prop where
  | passOver {visited waiting rest next} :
      waiting.Perm (next :: rest) ->
      (next ∈ grammar.rules.map Rule.name -> next ∈ visited) ->
      Round grammar ⟨visited, waiting⟩ ⟨visited, rest⟩
  | visit {visited waiting rest next rule} :
      waiting.Perm (next :: rest) -> next ∉ visited -> grammar.definition? next = some rule ->
      Round grammar ⟨visited, waiting⟩ ⟨next :: visited, rule.pattern.references ++ rest⟩

/-- Every defined name that a visited rule refers to is visited or waiting. -/
def FollowsUp (grammar : Grammar) (visited waiting : List String) : Prop :=
  forall name, name ∈ visited -> forall rule, grammar.definition? name = some rule ->
    forall other, other ∈ rule.pattern.references -> other ∈ grammar.rules.map Rule.name ->
      other ∈ visited ∨ other ∈ waiting

/-- What holds of a search from the start rule on at any time. -/
structure Search.Explores (grammar : Grammar) (start : String) (search : Search) : Prop where
  reached : forall name, name ∈ search.visited ∨ name ∈ search.waiting ->
    Relation.ReflTransGen grammar.Refers start name
  defined : forall name, name ∈ search.visited -> name ∈ grammar.rules.map Rule.name
  started : start ∈ grammar.rules.map Rule.name -> start ∈ search.visited ∨ start ∈ search.waiting
  followsUp : grammar.FollowsUp search.visited search.waiting

theorem explores_start (grammar : Grammar) (start : String) :
    Search.Explores grammar start ⟨[], [start]⟩ where
  reached name known := by
    rcases known with visited | waiting
    · exact absurd visited List.not_mem_nil
    · rw [List.mem_singleton.mp waiting]
  defined name visited := absurd visited List.not_mem_nil
  started _ := Or.inr List.mem_cons_self
  followsUp name visited := absurd visited List.not_mem_nil

/-- The defined names that were visited or waiting still are when another name is
passed over. -/
private theorem known_of_passedOver {rest : List String} (taken : waiting.Perm (next :: rest))
    (passedOver : next ∈ grammar.rules.map Rule.name -> next ∈ visited)
    (defined : name ∈ grammar.rules.map Rule.name)
    (known : name ∈ visited ∨ name ∈ waiting) : name ∈ visited ∨ name ∈ rest := by
  rw [taken.mem_iff, List.mem_cons] at known
  rcases known with known | rfl | known
  · exact Or.inl known
  · exact Or.inl (passedOver defined)
  · exact Or.inr known

/-- All names that were visited or waiting still are when one of them is
visited. -/
private theorem known_of_visited {rest : List String} (taken : waiting.Perm (next :: rest))
    (references : List String) (known : name ∈ visited ∨ name ∈ waiting) :
    name ∈ next :: visited ∨ name ∈ references ++ rest := by
  rw [taken.mem_iff, List.mem_cons] at known
  rw [List.mem_cons, List.mem_append]
  rcases known with known | rfl | known
  · exact Or.inl (Or.inr known)
  · exact Or.inl (Or.inl rfl)
  · exact Or.inr (Or.inr known)

/-- A round keeps what holds of a search. -/
theorem Round.explores {before after : Search} (round : grammar.Round before after)
    (explores : before.Explores grammar start) : after.Explores grammar start := by
  rcases explores with ⟨reached, defined, started, followsUp⟩
  cases round with
  | passOver taken passedOver =>
      refine ⟨fun name known => reached name (known.imp_right fun waits => ?_), defined,
        fun listed => known_of_passedOver taken passedOver listed (started listed), ?_⟩
      · exact taken.mem_iff.mpr (List.mem_cons_of_mem _ waits)
      · intro name visited rule own other refers listed
        exact known_of_passedOver taken passedOver listed
          (followsUp name visited rule own other refers listed)
  | @visit visited waiting rest next rule taken fresh found =>
      have leads : Relation.ReflTransGen grammar.Refers start next :=
        reached next (Or.inr (taken.mem_iff.mpr List.mem_cons_self))
      refine ⟨?_, ?_, fun listed => known_of_visited taken _ (started listed), ?_⟩
      · intro name known
        rw [List.mem_cons, List.mem_append] at known
        rcases known with (rfl | visited) | refers | waits
        · exact leads
        · exact reached name (Or.inl visited)
        · exact leads.tail ⟨rule, found, refers⟩
        · exact reached name (Or.inr (taken.mem_iff.mpr (List.mem_cons_of_mem _ waits)))
      · intro name known
        rcases List.mem_cons.mp known with rfl | visited
        · rcases definition?_eq_some found with ⟨listed, named⟩
          exact named ▸ List.mem_map_of_mem listed
        · exact defined name visited
      · -- The references of the rule wait in place of its name.
        intro name known own ownDefined other refers listed
        rcases List.mem_cons.mp known with rfl | visited
        · rw [found] at ownDefined
          cases ownDefined
          exact Or.inr (List.mem_append_left _ refers)
        · exact known_of_visited taken _
            (followsUp name visited own ownDefined other refers listed)

theorem explores_of_rounds {search : Search}
    (rounds : Relation.ReflTransGen grammar.Round ⟨[], [start]⟩ search) :
    search.Explores grammar start := by
  induction rounds with
  | refl => exact explores_start grammar start
  | tail _ round inductionHypothesis => exact round.explores inductionHypothesis

/-- When nothing is waiting, what was visited are the defined names that the start
rule leads to. -/
theorem Search.Explores.mem_visited_iff (explores : Search.Explores grammar start ⟨visited, []⟩) :
    name ∈ visited <-> name ∈ grammar.rules.map Rule.name ∧
      Relation.ReflTransGen grammar.Refers start name := by
  constructor
  · exact fun known => ⟨explores.defined name known, explores.reached name (Or.inl known)⟩
  · rintro ⟨listed, leads⟩
    induction leads with
    | refl => exact (explores.started listed).resolve_right List.not_mem_nil
    | tail _ refers inductionHypothesis =>
        rcases refers with ⟨rule, own, refers⟩
        rcases definition?_eq_some own with ⟨member, rfl⟩
        have known := inductionHypothesis (List.mem_map_of_mem member)
        exact (explores.followsUp _ known rule own _ refers listed).resolve_right List.not_mem_nil

/-! ## The end of the search -/

/-- As long as a name is waiting the search goes on. -/
theorem exists_round {search : Search} (waits : search.waiting ≠ []) :
    Exists fun after => grammar.Round search after := by
  rcases search with ⟨visited, waiting⟩
  rcases List.exists_cons_of_ne_nil waits with ⟨next, rest, rfl⟩
  by_cases seen : next ∈ visited
  · exact ⟨_, .passOver (.refl _) fun _ => seen⟩
  · cases found : grammar.definition? next with
    | none => exact ⟨_, .passOver (.refl _) fun listed =>
        absurd listed (definition?_eq_none_iff.mp found)⟩
    | some rule => exact ⟨_, .visit (.refl _) seen found⟩

/-- No search goes on for ever. -/
theorem round_wellFounded (grammar : Grammar) :
    WellFounded fun after before => grammar.Round before after := by
  refine Subrelation.wf ?_ (InvImage.wf
    (fun search : Search => ((grammar.unvisited search.visited).length, search.waiting.length))
    (Prod.lex Nat.lt_wfRel Nat.lt_wfRel).wf)
  intro after before round
  cases round with
  | passOver taken _ =>
      refine Prod.Lex.right _ ?_
      rw [taken.length_eq]
      exact Nat.lt_succ_self _
  | visit _ fresh found => exact Prod.Lex.left _ _ (grammar.unvisited_length_lt found fresh)

/-- The search that is carried out goes on to where nothing is waiting. -/
theorem rounds_visit (grammar : Grammar) (visited waiting : List String) :
    Relation.ReflTransGen grammar.Round ⟨visited, waiting⟩
      ⟨grammar.visit visited waiting, []⟩ := by
  fun_induction grammar.visit visited waiting with
  | case1 visited => exact .refl
  | case2 visited next waiting seen inductionHypothesis =>
      exact .head (.passOver (.refl _) fun _ => seen) inductionHypothesis
  | case3 visited next waiting fresh undefined inductionHypothesis =>
      refine .head (.passOver (.refl _) fun listed => ?_) inductionHypothesis
      exact absurd listed (definition?_eq_none_iff.mp undefined)
  | case4 visited next waiting fresh rule found inductionHypothesis =>
      exact .head (.visit (.refl _) fresh found) inductionHypothesis

theorem mem_visit_iff : name ∈ grammar.visit [] [start] <->
    name ∈ grammar.rules.map Rule.name ∧ Relation.ReflTransGen grammar.Refers start name :=
  (explores_of_rounds (grammar.rounds_visit [] [start])).mem_visited_iff

/-! ## Rules left out -/

/-- The grammar without the rules that have these names. -/
def without (grammar : Grammar) (names : List String) : Grammar :=
  ⟨grammar.rules.filter fun rule => rule.name ∉ names⟩

theorem mem_rules_without {names : List String} {rule : Rule} :
    rule ∈ (grammar.without names).rules <-> rule ∈ grammar.rules ∧ rule.name ∉ names := by
  rw [without, List.mem_filter, decide_eq_true_eq]

/-- The names that are not left out are still defined. -/
theorem mem_names_without {names : List String} :
    name ∈ (grammar.without names).rules.map Rule.name <->
      name ∈ grammar.rules.map Rule.name ∧ name ∉ names := by
  simp only [List.mem_map, mem_rules_without]
  constructor
  · rintro ⟨rule, ⟨listed, kept⟩, rfl⟩
    exact ⟨⟨rule, listed, rfl⟩, kept⟩
  · rintro ⟨⟨rule, listed, rfl⟩, kept⟩
    exact ⟨rule, ⟨listed, kept⟩, rfl⟩

theorem mem_unreachableRules_iff : name ∈ grammar.unreachableRules start <->
    name ∈ grammar.rules.map Rule.name ∧ name ∉ grammar.visit [] [start] := by
  rw [unreachableRules, List.mem_filter, decide_eq_true_eq]

/-- The start rule is reached. -/
theorem start_notMem_unreachableRules (grammar : Grammar) (start : String) :
    start ∉ grammar.unreachableRules start := by
  intro unreachable
  rcases mem_unreachableRules_iff.mp unreachable with ⟨defined, unvisited⟩
  exact unvisited (mem_visit_iff.mpr ⟨defined, .refl⟩)

/-- Where a rule is reached, all the rules that it refers to are. -/
theorem reference_notMem_unreachableRules (distinct : (grammar.rules.map Rule.name).Nodup)
    {rule : Rule} (listed : rule ∈ grammar.rules)
    (reached : rule.name ∉ grammar.unreachableRules start)
    (refers : name ∈ rule.pattern.references) : name ∉ grammar.unreachableRules start := by
  have visited : rule.name ∈ grammar.visit [] [start] := by
    by_contra unvisited
    exact reached (mem_unreachableRules_iff.mpr ⟨List.mem_map_of_mem listed, unvisited⟩)
  have leads : Relation.ReflTransGen grammar.Refers start name :=
    (mem_visit_iff.mp visited).2.tail ⟨rule, definition?_of_mem_rules distinct listed, refers⟩
  intro unreachable
  rcases mem_unreachableRules_iff.mp unreachable with ⟨defined, unvisited⟩
  exact unvisited (mem_visit_iff.mpr ⟨defined, leads⟩)

namespace WellFormed

variable (wellFormed : grammar.WellFormed start Pattern.codedParts)

include wellFormed

/-- No reference that code is made of is lost by a rule that is reached. -/
theorem coded_notMem_unreachableRules {rule : Rule} (listed : rule ∈ grammar.rules)
    (reached : rule.name ∉ grammar.unreachableRules start)
    (coded : .rule name ∈ rule.pattern.codedParts) : name ∉ grammar.unreachableRules start :=
  reference_notMem_unreachableRules wellFormed.distinct listed reached
    (Pattern.mem_references_iff.mpr (rule.pattern.codedParts_subset coded))

/-- Without its unreachable rules a grammar is as well-formed as it was. -/
theorem without_unreachableRules :
    (grammar.without (grammar.unreachableRules start)).WellFormed start Pattern.codedParts where
  distinct := wellFormed.distinct.sublist (List.filter_sublist.map _)
  starts := mem_names_without.mpr ⟨wellFormed.starts, grammar.start_notMem_unreachableRules start⟩
  ordered rule kept := wellFormed.ordered rule (mem_rules_without.mp kept).1
  defined rule kept name coded := by
    rcases mem_rules_without.mp kept with ⟨listed, reached⟩
    exact mem_names_without.mpr ⟨wellFormed.defined rule listed name coded,
      wellFormed.coded_notMem_unreachableRules listed reached coded⟩

end WellFormed
end Grammar
end ParsingMachine
