import ParsingMachine.Grammar

namespace ParsingMachine
namespace Grammar

/-!
# Rules that the start rule never leads to

The search keeps the names it has visited and those still to visit, and ends
because every name that it visits for the first time, and that is defined,
leaves one rule fewer to visit.  A name without a definition is passed over:
it leads nowhere, and it is never listed because only rules are.
-/

/-- The rule that a name stands for in references.  Where a name is defined
more than once, its last definition counts. -/
def definition? (grammar : Grammar) (name : String) : Option Rule :=
  grammar.rules.reverse.find? fun rule => rule.name = name

/-- The rules whose names have not been visited. -/
def unvisited (grammar : Grammar) (visited : List String) : List Rule :=
  grammar.rules.filter fun rule => rule.name ∉ visited

private theorem filter_length_lt {first second : Rule -> Bool} (rules : List Rule)
    (implied : forall rule, first rule = true -> second rule = true)
    (different : Exists fun rule => rule ∈ rules ∧ first rule = false ∧ second rule = true) :
    (rules.filter first).length < (rules.filter second).length := by
  induction rules with
  | nil =>
      obtain ⟨_, listed, _⟩ := different
      cases listed
  | cons head tail inductionHypothesis =>
      have tailLe : (tail.filter first).length ≤ (tail.filter second).length := by
        rw [← List.countP_eq_length_filter, ← List.countP_eq_length_filter]
        exact List.countP_mono_left fun rule _ => implied rule
      obtain ⟨rule, listed, rejected, accepted⟩ := different
      rcases List.mem_cons.mp listed with same | later
      · subst same
        rw [List.filter_cons_of_neg (by rw [rejected]; exact Bool.false_ne_true),
          List.filter_cons_of_pos accepted]
        exact Nat.lt_succ_of_le tailLe
      · have tailLt := inductionHypothesis ⟨rule, later, rejected, accepted⟩
        by_cases headFirst : first head = true
        · rw [List.filter_cons_of_pos headFirst, List.filter_cons_of_pos (implied head headFirst)]
          exact Nat.succ_lt_succ tailLt
        · rw [List.filter_cons_of_neg headFirst]
          exact Nat.lt_of_lt_of_le tailLt (by
            rw [List.filter_cons]
            split
            · exact Nat.le_succ _
            · exact Nat.le_refl _)

/-- Visiting a defined name for the first time leaves fewer rules to visit. -/
theorem unvisited_length_lt (grammar : Grammar) {visited : List String} {name : String}
    {rule : Rule} (defined : grammar.definition? name = some rule) (fresh : name ∉ visited) :
    (grammar.unvisited (name :: visited)).length < (grammar.unvisited visited).length := by
  have listed : rule ∈ grammar.rules := List.mem_reverse.mp (List.mem_of_find?_eq_some defined)
  have named : rule.name = name := by
    have accepted := List.find?_some defined
    exact of_decide_eq_true accepted
  apply filter_length_lt
  · intro other apart
    have apart := of_decide_eq_true apart
    exact decide_eq_true fun seen => apart (List.mem_cons_of_mem _ seen)
  · refine ⟨rule, listed, ?_, ?_⟩
    · exact decide_eq_false fun apart => apart (named ▸ List.mem_cons_self)
    · exact decide_eq_true (named ▸ fresh)

/-- The names of the defined rules that are visited from the names still to
visit.  Names visited before are not gone through again. -/
def visit (grammar : Grammar) (visited : List String) : (waiting : List String) -> List String
  | [] => visited
  | name :: waiting =>
      if _seen : name ∈ visited then grammar.visit visited waiting
      else match _defined : grammar.definition? name with
        | none => grammar.visit visited waiting
        | some rule => grammar.visit (name :: visited) (rule.pattern.references ++ waiting)
termination_by waiting => ((grammar.unvisited visited).length, waiting.length)
decreasing_by
  · exact Prod.Lex.right _ (Nat.lt_succ_self _)
  · exact Prod.Lex.right _ (Nat.lt_succ_self _)
  · exact Prod.Lex.left _ _ (grammar.unvisited_length_lt _defined _seen)

/-- The names of the rules that matching from `start` can never get to, in the
order of their definitions. -/
def unreachableRules (grammar : Grammar) (start : String) : List String :=
  let visited := grammar.visit [] [start]
  (grammar.rules.map Rule.name).filter fun name => name ∉ visited

end Grammar
end ParsingMachine
