namespace ParsingMachine

/-!
# Tallies

How often each of several things has come up.  The things are kept in the
order in which they first came up, which no question about a tally depends on.
-/

/-- Things with the number of times that each has come up. -/
structure Tally (α : Type) where
  entries : List (α × Nat)
  deriving DecidableEq, Inhabited

namespace Tally

variable {α : Type} [DecidableEq α]

/-- Nothing has come up. -/
def empty : Tally α := ⟨[]⟩

/-- Count a thing once more among those that have come up. -/
def addTo (thing : α) : List (α × Nat) -> List (α × Nat)
  | [] => [(thing, 1)]
  | (other, times) :: rest =>
      if other = thing then (other, times + 1) :: rest else (other, times) :: addTo thing rest

/-- Count a thing once more. -/
def add (tally : Tally α) (thing : α) : Tally α :=
  ⟨addTo thing tally.entries⟩

/-- How often a thing has come up. -/
def count (tally : Tally α) (thing : α) : Nat :=
  match tally.entries.find? fun entry => entry.1 = thing with
  | some entry => entry.2
  | none => 0

/-- How often anything has come up. -/
def total (tally : Tally α) : Nat :=
  tally.entries.foldr (fun entry rest => entry.2 + rest) 0

@[simp] theorem count_empty (thing : α) : (empty : Tally α).count thing = 0 := rfl

omit [DecidableEq α] in
@[simp] theorem total_empty : (empty : Tally α).total = 0 := rfl

/-- Counting a thing changes its own count only. -/
theorem count_add (tally : Tally α) (thing other : α) :
    (tally.add thing).count other = tally.count other + if other = thing then 1 else 0 := by
  obtain ⟨entries⟩ := tally
  simp only [count, add]
  induction entries with
  | nil =>
      by_cases same : thing = other
      · simp only [addTo, List.find?_cons, same, decide_true, if_true, List.find?_nil]
      · simp only [addTo, List.find?_cons, List.find?_nil, decide_eq_false same,
          if_neg (Ne.symm same)]
  | cons entry rest inductionHypothesis =>
      obtain ⟨listed, times⟩ := entry
      by_cases same : listed = thing
      · subst same
        by_cases asked : listed = other
        · subst asked
          simp only [addTo, if_true, List.find?_cons, decide_true]
        · simp only [addTo, if_true, List.find?_cons, decide_eq_false asked,
            if_neg (Ne.symm asked), Nat.add_zero]
      · by_cases asked : listed = other
        · subst asked
          simp only [addTo, if_neg same, List.find?_cons, decide_true, Nat.add_zero]
        · simp only [addTo, if_neg same, List.find?_cons, decide_eq_false asked]
          exact inductionHypothesis

/-- Counting a thing raises the total by one. -/
theorem total_add (tally : Tally α) (thing : α) :
    (tally.add thing).total = tally.total + 1 := by
  obtain ⟨entries⟩ := tally
  simp only [total, add]
  induction entries with
  | nil => rfl
  | cons entry rest inductionHypothesis =>
      obtain ⟨listed, times⟩ := entry
      by_cases same : listed = thing
      · simp only [addTo, if_pos same, List.foldr_cons]
        omega
      · simp only [addTo, if_neg same, List.foldr_cons, inductionHypothesis]
        omega

end Tally
end ParsingMachine
