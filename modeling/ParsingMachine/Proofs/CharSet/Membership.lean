import ParsingMachine.CharSet

namespace ParsingMachine

/-!
# Members of character sets

A set holds exactly what the ranges hold that it was built from.  Taking a range
into a run adds no member, because that is done only where no character lies
between the two; that is the one place where the order of the characters
matters.

Looking a character up by halving leaves out half of the runs unseen.  It is
right because the runs of a set are in order and apart: what is below a run that
ends too early ends too early as well, and so on the other side.
-/

namespace CharRange

theorem contains_iff {range : CharRange} {character : Char} :
    range.contains character = true <->
      range.first.ordinal ≤ character.ordinal ∧ character.ordinal ≤ range.last.ordinal := by
  rw [contains, decide_eq_true_iff, Char.le_iff_ordinal_le, Char.le_iff_ordinal_le]

theorem contains_of_not_forward {range : CharRange} (backward : ¬ range.Forward)
    (character : Char) : range.contains character = false := by
  rw [contains, decide_eq_false_iff_not]
  intro inside
  exact backward (Char.le_trans inside.1 inside.2)

/-- A run with a range taken in that it reaches has no further members. -/
theorem takeIn_contains_iff {run range : CharRange} {character : Char} (runForward : run.Forward)
    (rangeForward : range.Forward) (inOrder : run.first ≤ range.first)
    (reached : run.reaches range = true) :
    (run.takeIn range).contains character = true <->
      run.contains character = true ∨ range.contains character = true := by
  have runOrdered : run.first.ordinal.val ≤ run.last.ordinal.val :=
    Char.le_iff_ordinal_le.mp runForward
  have rangeOrdered : range.first.ordinal.val ≤ range.last.ordinal.val :=
    Char.le_iff_ordinal_le.mp rangeForward
  have start : run.first.ordinal.val ≤ range.first.ordinal.val := Char.le_iff_ordinal_le.mp inOrder
  have noGap : ¬ run.last.ordinal.val + 1 < range.first.ordinal.val := by
    rw [← apart_iff, Apart, reached]
    exact Bool.noConfusion
  have sameFirst : (run.takeIn range).first = run.first := rfl
  simp only [contains_iff, Fin.le_def, takeIn_last_ordinal, sameFirst]
  omega

/-- The ranges as a whole hold a character. -/
def anyContains (ranges : List CharRange) (character : Char) : Bool :=
  ranges.any fun range => range.contains character

section AnyContains

variable {ranges : List CharRange} {character : Char}

theorem anyContains_iff :
    anyContains ranges character = true <->
      Exists fun range => range ∈ ranges ∧ range.contains character = true :=
  List.any_eq_true

theorem anyContains_cons (range : CharRange) :
    anyContains (range :: ranges) character =
      (range.contains character || anyContains ranges character) := rfl

theorem anyContains_append (others : List CharRange) :
    anyContains (ranges ++ others) character =
      (anyContains ranges character || anyContains others character) :=
  List.any_append

theorem anyContains_eq_false
    (outside : forall range, range ∈ ranges -> range.contains character = false) :
    anyContains ranges character = false :=
  List.any_eq_false.mpr fun range listed => Bool.eq_false_iff.mp (outside range listed)

/-- Ranges that run backwards may be left out, and the order does not matter. -/
theorem anyContains_sorted_filter (ranges : List CharRange) (character : Char) :
    anyContains (sorted (ranges.filter fun range => range.Forward)) character =
      anyContains ranges character := by
  rw [Bool.eq_iff_iff, anyContains_iff, anyContains_iff]
  constructor
  · rintro ⟨range, listed, holds⟩
    exact ⟨range, (List.mem_filter.mp (mem_sorted.mp listed)).1, holds⟩
  · rintro ⟨range, listed, holds⟩
    have forward : range.Forward := by
      apply Classical.byContradiction
      intro backward
      rw [contains_of_not_forward backward] at holds
      cases holds
    exact ⟨range, mem_sorted.mpr (List.mem_filter.mpr ⟨listed, decide_eq_true forward⟩), holds⟩

/-- Going through ranges in order, a run gathers what they hold, and nothing
else. -/
theorem anyContains_mergeInto {run : CharRange} (runForward : run.Forward)
    (forward : forall range, range ∈ ranges -> range.Forward) (inOrder : InOrder (run :: ranges)) :
    anyContains (mergeInto run ranges) character =
      (run.contains character || anyContains ranges character) := by
  induction ranges generalizing run with
  | nil => rfl
  | cons head rest inductionHypothesis =>
      have headForward := forward head List.mem_cons_self
      have restForward : forall range, range ∈ rest -> range.Forward :=
        fun range listed => forward range (List.mem_cons_of_mem _ listed)
      rcases List.pairwise_cons.mp inOrder with ⟨least, restInOrder⟩
      rw [mergeInto, anyContains_cons]
      split
      · next reached =>
          -- The run still begins where it did, so it is in order with the rest.
          have gathered : InOrder (run.takeIn head :: rest) :=
            List.pairwise_cons.mpr ⟨fun range listed => least range (List.mem_cons_of_mem _ listed),
              (List.pairwise_cons.mp restInOrder).2⟩
          have both : (run.takeIn head).contains character =
              (run.contains character || head.contains character) := by
            rw [Bool.eq_iff_iff, Bool.or_eq_true]
            exact takeIn_contains_iff runForward headForward (least head List.mem_cons_self) reached
          rw [inductionHypothesis runForward.takeIn restForward gathered, both, Bool.or_assoc]
      · rw [anyContains_cons, inductionHypothesis headForward restForward restInOrder]

theorem anyContains_merged (forward : forall range, range ∈ ranges -> range.Forward)
    (inOrder : InOrder ranges) :
    anyContains (merged ranges) character = anyContains ranges character := by
  cases ranges with
  | nil => rfl
  | cons head rest =>
      exact anyContains_mergeInto (forward head List.mem_cons_self)
        (fun range listed => forward range (List.mem_cons_of_mem _ listed)) inOrder

end AnyContains
end CharRange

namespace CharSet

open CharRange (anyContains Apart apart_iff)

/-! ## Looking a character up -/

private theorem contains_of_last_lt {range : CharRange} {character : Char}
    (below : range.last < character) : range.contains character = false := by
  rw [CharRange.contains, decide_eq_false_iff_not]
  exact fun inside => Char.not_lt.mpr inside.2 below

private theorem contains_of_lt_first {range : CharRange} {character : Char}
    (above : character < range.first) : range.contains character = false := by
  rw [CharRange.contains, decide_eq_false_iff_not]
  exact fun inside => Char.not_lt.mpr inside.1 above

private theorem last_lt_first_of_apart {run range : CharRange} (apart : run.Apart range) :
    run.last < range.first := by
  have between := apart_iff.mp apart
  exact Char.lt_iff_ordinal_lt.mpr (Nat.lt_of_succ_lt between)

/-- Halving finds a character among runs that are in order and apart exactly if
one of them holds it. -/
theorem foundIn_eq_anyContains {runs : List CharRange} {rounds : Nat} {character : Char}
    (forward : forall run, run ∈ runs -> run.Forward) (apart : runs.Pairwise Apart)
    (enough : runs.length ≤ rounds) :
    foundIn character rounds runs = anyContains runs character := by
  induction rounds generalizing runs with
  | zero =>
      rw [List.eq_nil_of_length_eq_zero (Nat.le_zero.mp enough)]
      rfl
  | succ rounds inductionHypothesis =>
      rw [foundIn]
      have split := List.take_append_drop (runs.length / 2) runs
      have shorter : (runs.take (runs.length / 2)).length ≤ runs.length / 2 :=
        List.length_take_le _ _
      cases upper : runs.drop (runs.length / 2) with
      | nil =>
          have nothing := List.drop_eq_nil_iff.mp upper
          have empty : runs = [] := List.eq_nil_of_length_eq_zero (by omega)
          rw [empty]
          rfl
      | cons middle above =>
          rw [upper] at split
          generalize runs.take (runs.length / 2) = below at split shorter
          subst split
          rw [List.length_append, List.length_cons] at enough shorter
          rcases List.pairwise_append.mp apart with ⟨belowApart, upperApart, between⟩
          rcases List.pairwise_cons.mp upperApart with ⟨middleApart, aboveApart⟩
          have aboveForward : forall run, run ∈ above -> run.Forward := fun run listed =>
            forward run (List.mem_append_right _ (List.mem_cons_of_mem _ listed))
          have belowForward : forall run, run ∈ below -> run.Forward := fun run listed =>
            forward run (List.mem_append_left _ listed)
          have middleForward : middle.Forward :=
            forward middle (List.mem_append_right _ List.mem_cons_self)
          dsimp only
          rw [CharRange.anyContains_append, CharRange.anyContains_cons]
          by_cases beyond : middle.last < character
          · -- Every run below the middle ends before the middle begins.
            have nothingBelow : anyContains below character = false :=
              CharRange.anyContains_eq_false fun run listed => contains_of_last_lt <|
                Char.lt_trans (last_lt_first_of_apart (between run listed middle List.mem_cons_self))
                  (Std.lt_of_le_of_lt middleForward beyond)
            rw [if_pos beyond, inductionHypothesis aboveForward aboveApart (by omega), nothingBelow,
              contains_of_last_lt beyond, Bool.false_or, Bool.false_or]
          · rw [if_neg beyond]
            by_cases under : character < middle.first
            · have nothingAbove : anyContains above character = false :=
                CharRange.anyContains_eq_false fun run listed => contains_of_lt_first <|
                  Char.lt_trans (Std.lt_of_lt_of_le under middleForward)
                    (last_lt_first_of_apart (middleApart run listed))
              rw [if_pos under, inductionHypothesis belowForward belowApart (by omega), nothingAbove,
                contains_of_lt_first under, Bool.false_or, Bool.or_false]
            · have inside : middle.contains character = true :=
                decide_eq_true ⟨Char.not_lt.mp under, Char.not_lt.mp beyond⟩
              rw [if_neg under, inside, Bool.true_or, Bool.or_true]

/-- A set holds what its runs hold. -/
theorem contains_eq_anyContains (set : CharSet) (character : Char) :
    set.contains character = anyContains set.ranges character :=
  foundIn_eq_anyContains set.forward set.apart (Nat.le_refl _)

/-! ## Building sets -/

/-- A set has the members of the ranges that it was built from. -/
theorem contains_ofRanges (ranges : List CharRange) (character : Char) :
    (ofRanges ranges).contains character =
      ranges.any fun range => range.contains character := by
  rw [contains_eq_anyContains, ofRanges,
    CharRange.anyContains_merged (forward_of_mem_sorted ranges) (CharRange.inOrder_sorted _)]
  exact CharRange.anyContains_sorted_filter ranges character

/-- A union has the members of both sets. -/
theorem contains_union (one other : CharSet) (character : Char) :
    (one.union other).contains character =
      (one.contains character || other.contains character) := by
  rw [union, contains_ofRanges, List.any_append, contains_eq_anyContains, contains_eq_anyContains]
  rfl

/-- A set that is built from ranges, in whatever order they come and however
they overlap, holds the characters that lie between the ends of one of them, and
a union holds what is in one of the two sets. -/
theorem contains_iff_covered :
    (forall (ranges : List CharRange) (character : Char),
      (ofRanges ranges).contains character = true <->
        Exists fun range => range ∈ ranges ∧ range.first ≤ character ∧ character ≤ range.last) ∧
    forall (one other : CharSet) (character : Char),
      (one.union other).contains character = true <->
        one.contains character = true ∨ other.contains character = true := by
  constructor
  · intro ranges character
    rw [contains_ofRanges, List.any_eq_true]
    simp only [CharRange.contains, decide_eq_true_eq]
  · intro one other character
    rw [contains_union, Bool.or_eq_true]

end CharSet
end ParsingMachine
