import Mathlib.Data.List.Chain
import ParsingMachine.Proofs.CharSet.Membership

namespace ParsingMachine

/-!
# One form for every set

The runs of a set ascend, and a character lies between any two neighbours.  No
other ranges of this form hold the same characters.  The first run has to begin
with the least member, and the character behind its last one is not a member,
so that it cannot end later in one list than in another.

The character behind U+D7FF is U+E000.  There is none between these two, and a
set does not keep them in two runs.

Sets are therefore equal if they have the same members, and what holds of the
members of unions holds of the unions.
-/

namespace CharRange

/-- Some character lies between a run and the next one. -/
def LeavesGap (run next : CharRange) : Prop :=
  Exists fun between => run.last < between ∧ between < next.first

/-- Ranges that run forwards and ascend, with a gap between any two
neighbours. -/
structure Canonical (ranges : List CharRange) : Prop where
  forward : forall range, range ∈ ranges -> range.first ≤ range.last
  ascending : ranges.Pairwise fun run next => run.last < next.first
  gaps : ranges.IsChain LeavesGap

/-- Behind a character with another one above it there is a next one. -/
theorem exists_next {character other : Char} (below : character < other) :
    Exists fun next : Char => next.ordinal.val = character.ordinal.val + 1 := by
  have ordered : character.ordinal.val < other.ordinal.val := Char.lt_iff_ordinal_lt.mp below
  have bound := other.ordinal.isLt
  refine ⟨.ofOrdinal ⟨character.ordinal.val + 1, by omega⟩, ?_⟩
  rw [Char.ordinal_ofOrdinal]

theorem Apart.leavesGap {run range : CharRange} (apart : run.Apart range) :
    run.LeavesGap range := by
  have room := apart_iff.mp apart
  have below : run.last < range.first := Char.lt_iff_ordinal_lt.mpr (Nat.lt_of_succ_lt room)
  rcases exists_next below with ⟨next, behind⟩
  refine ⟨next, Char.lt_iff_ordinal_lt.mpr ?_, Char.lt_iff_ordinal_lt.mpr ?_⟩
  · rw [Fin.lt_def]
    omega
  · rw [Fin.lt_def]
    omega

section Unique

variable {run range : CharRange} {rest others : List CharRange} {character : Char}

/-- What the later runs hold does not come directly behind the first one. -/
theorem ordinal_of_anyContains_rest (apart : (run :: rest).Pairwise Apart)
    (held : anyContains rest character = true) :
    run.last.ordinal.val + 1 < character.ordinal.val := by
  rcases anyContains_iff.mp held with ⟨later, listed, holds⟩
  have room := apart_iff.mp ((List.pairwise_cons.mp apart).1 later listed)
  exact Nat.lt_of_lt_of_le room (contains_iff.mp holds).1

/-- Nothing that is held comes before the first run. -/
theorem first_le_of_anyContains (forward : run.Forward) (apart : (run :: rest).Pairwise Apart)
    (held : anyContains (run :: rest) character = true) : run.first ≤ character := by
  rw [anyContains_cons, Bool.or_eq_true] at held
  apply Char.le_iff_ordinal_le.mpr
  rcases held with inside | later
  · exact (contains_iff.mp inside).1
  · have ordered : run.first.ordinal.val ≤ run.last.ordinal.val := Char.le_iff_ordinal_le.mp forward
    have behind := ordinal_of_anyContains_rest apart later
    rw [Fin.le_def]
    omega

theorem anyContains_first (forward : run.Forward) (rest : List CharRange) :
    anyContains (run :: rest) run.first = true := by
  have inside : run.contains run.first = true := decide_eq_true ⟨Char.le_refl _, forward⟩
  rw [anyContains_cons, inside, Bool.true_or]

/-- A first run does not end behind another one that begins in the same place:
the character behind the other one is not held there. -/
theorem last_le_last (forward : range.Forward) (apart : (range :: others).Pairwise Apart)
    (sameFirst : run.first = range.first)
    (held : forall character, anyContains (run :: rest) character = true ->
      anyContains (range :: others) character = true) : run.last ≤ range.last := by
  by_contra longer
  rcases exists_next (Char.not_le.mp longer) with ⟨next, behind⟩
  have ordered : range.first.ordinal.val ≤ range.last.ordinal.val :=
    Char.le_iff_ordinal_le.mp forward
  have further : range.last.ordinal.val < run.last.ordinal.val :=
    Char.lt_iff_ordinal_lt.mp (Char.not_le.mp longer)
  have inRun : run.contains next = true := by
    rw [contains_iff, Fin.le_def, Fin.le_def, sameFirst]
    omega
  have found : anyContains (range :: others) next = true := by
    apply held
    rw [anyContains_cons, inRun, Bool.true_or]
  rw [anyContains_cons, Bool.or_eq_true, contains_iff, Fin.le_def, Fin.le_def] at found
  rcases found with inRange | later
  · omega
  · have := ordinal_of_anyContains_rest apart later
    omega

/-- Two lists of runs that hold the same begin with the same run. -/
theorem head_eq_of_anyContains_eq (runForward : run.Forward) (rangeForward : range.Forward)
    (apart : (run :: rest).Pairwise Apart) (otherApart : (range :: others).Pairwise Apart)
    (same : forall character,
      anyContains (run :: rest) character = anyContains (range :: others) character) :
    run = range := by
  have sameFirst : run.first = range.first := by
    apply Char.le_antisymm
    · exact first_le_of_anyContains runForward apart
        ((same _).trans (anyContains_first rangeForward others))
    · exact first_le_of_anyContains rangeForward otherApart
        ((same _).symm.trans (anyContains_first runForward rest))
  have sameLast : run.last = range.last := by
    apply Char.le_antisymm
    · exact last_le_last rangeForward otherApart sameFirst fun _ held => (same _).symm.trans held
    · exact last_le_last runForward apart sameFirst.symm fun _ held => (same _).trans held
  cases run
  cases range
  exact congrArg₂ CharRange.mk sameFirst sameLast

/-- What the later runs hold is what is held and lies behind the first one. -/
theorem anyContains_rest_iff (apart : (run :: rest).Pairwise Apart) :
    anyContains rest character = true <->
      anyContains (run :: rest) character = true ∧ run.last < character := by
  rw [anyContains_cons, Bool.or_eq_true]
  constructor
  · intro later
    have behind := ordinal_of_anyContains_rest apart later
    exact ⟨Or.inr later, Char.lt_iff_ordinal_lt.mpr (Nat.lt_of_succ_lt behind)⟩
  · rintro ⟨inside | later, behind⟩
    · have before := Char.le_iff_ordinal_le.mpr (contains_iff.mp inside).2
      exact absurd behind (Char.not_lt.mpr before)
    · exact later

end Unique

/-- Runs that are apart are determined by what they hold. -/
theorem eq_of_anyContains_eq {one other : List CharRange}
    (forward : forall range, range ∈ one -> range.Forward) (apart : one.Pairwise Apart)
    (otherForward : forall range, range ∈ other -> range.Forward) (otherApart : other.Pairwise Apart)
    (same : forall character, anyContains one character = anyContains other character) :
    one = other := by
  induction one generalizing other with
  | nil =>
      cases other with
      | nil => rfl
      | cons range others =>
          have held := anyContains_first (otherForward range List.mem_cons_self) others
          rw [← same] at held
          cases held
  | cons run rest inductionHypothesis =>
      cases other with
      | nil =>
          have held := anyContains_first (forward run List.mem_cons_self) rest
          rw [same] at held
          cases held
      | cons range others =>
          have sameHead := head_eq_of_anyContains_eq (forward run List.mem_cons_self)
            (otherForward range List.mem_cons_self) apart otherApart same
          subst sameHead
          have sameRest : rest = others := by
            apply inductionHypothesis
            · exact fun later listed => forward later (List.mem_cons_of_mem _ listed)
            · exact (List.pairwise_cons.mp apart).2
            · exact fun later listed => otherForward later (List.mem_cons_of_mem _ listed)
            · exact (List.pairwise_cons.mp otherApart).2
            · intro character
              rw [Bool.eq_iff_iff, anyContains_rest_iff apart, anyContains_rest_iff otherApart, same]
          rw [sameRest]

end CharRange

namespace CharSet

open CharRange (Canonical)

theorem canonical_ranges (set : CharSet) : Canonical set.ranges where
  forward := set.forward
  ascending := set.apart.imp fun apart => by
    rcases apart.leavesGap with ⟨between, above, below⟩
    exact Char.lt_trans above below
  gaps := set.apart.isChain.imp fun _ _ apart => apart.leavesGap

/-- Sets with the same members are equal. -/
theorem eq_of_contains_eq {one other : CharSet}
    (same : forall character, one.contains character = other.contains character) :
    one = other := by
  have ranges : one.ranges = other.ranges := by
    apply CharRange.eq_of_anyContains_eq one.forward one.apart other.forward other.apart
    intro character
    rw [← contains_eq_anyContains, ← contains_eq_anyContains, same]
  cases one
  cases other
  cases ranges
  rfl

theorem union_comm (one other : CharSet) : one.union other = other.union one := by
  apply eq_of_contains_eq
  intro character
  rw [contains_union, contains_union, Bool.or_comm]

theorem union_assoc (one other third : CharSet) :
    (one.union other).union third = one.union (other.union third) := by
  apply eq_of_contains_eq
  intro character
  simp only [contains_union, Bool.or_assoc]

theorem union_self (set : CharSet) : set.union set = set := by
  apply eq_of_contains_eq
  intro character
  rw [contains_union, Bool.or_self]

/-- A set that is built again from its own runs is the same set. -/
theorem ofRanges_ranges (set : CharSet) : ofRanges set.ranges = set := by
  apply eq_of_contains_eq
  intro character
  rw [contains_ofRanges, contains_eq_anyContains]
  rfl

/-- Whatever a set is built from, its runs ascend and have a gap between any two
neighbours, and sets are equal exactly if they have the same members.  So the
order and the grouping of unions do not matter, nor what is in both sets, and
the runs of a set make the same set again. -/
theorem canonical_and_eq_iff_same_members :
    ((forall ranges : List CharRange, Canonical (ofRanges ranges).ranges) ∧
      (forall characters : List Char, Canonical (ofChars characters).ranges) ∧
      forall one other : CharSet, Canonical (one.union other).ranges) ∧
    (forall one other : CharSet, one = other <->
      forall character, one.contains character = true <-> other.contains character = true) ∧
    forall one other third : CharSet,
      one.union other = other.union one ∧
        (one.union other).union third = one.union (other.union third) ∧
        one.union one = one ∧ ofRanges one.ranges = one := by
  refine ⟨⟨fun _ => canonical_ranges _, fun _ => canonical_ranges _, fun _ _ => canonical_ranges _⟩,
    fun one other => ⟨?_, fun same => ?_⟩, fun one other third => ?_⟩
  · rintro rfl character
    exact Iff.rfl
  · exact eq_of_contains_eq fun character => Bool.eq_iff_iff.mpr (same character)
  · exact ⟨union_comm one other, union_assoc one other third, union_self one, ofRanges_ranges one⟩

/-- The surrogates make no gap, and neither does what is listed twice. -/
example : ofRanges [⟨'\uE000', '\uE001'⟩, ⟨'b', 'b'⟩, ⟨'a', 'b'⟩, ⟨'\uD000', '\uD7FF'⟩] =
    (ofChars ['a', 'b', 'a']).union (ofRanges [⟨'\uD000', '\uE001'⟩]) := by
  decide

end CharSet
end ParsingMachine
