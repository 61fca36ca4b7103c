import ParsingMachine.CharRange

namespace ParsingMachine

/-!
# Sets of characters

A set is kept as its maximal runs of consecutive characters, in ascending
order.  Since a set has only one such list of runs, two sets with the same
members are equal, whatever they were built from.  And since the runs are in
order, a character is looked up by halving: the run in the middle tells which
half can hold it.
-/

/-- A set of characters, given by its maximal runs in ascending order. -/
structure CharSet where
  ranges : List CharRange
  forward : forall range, range ∈ ranges -> range.Forward
  apart : ranges.Pairwise CharRange.Apart
  deriving DecidableEq

namespace CharSet

/-- The set without members. -/
def empty : CharSet where
  ranges := []
  forward := fun _ listed => absurd listed List.not_mem_nil
  apart := List.Pairwise.nil

instance : Inhabited CharSet := ⟨empty⟩

theorem forward_of_mem_sorted (ranges : List CharRange) (range : CharRange)
    (listed : range ∈ CharRange.sorted (ranges.filter fun range => range.Forward)) :
    range.Forward :=
  of_decide_eq_true (List.mem_filter.mp (CharRange.mem_sorted.mp listed)).2

/-- The set of everything that one of the ranges holds. -/
def ofRanges (ranges : List CharRange) : CharSet where
  ranges := CharRange.merged (CharRange.sorted (ranges.filter fun range => range.Forward))
  forward := CharRange.forward_merged (forward_of_mem_sorted ranges)
  apart := CharRange.apart_merged (CharRange.inOrder_sorted _)

/-- The set of the listed characters. -/
def ofChars (characters : List Char) : CharSet :=
  ofRanges (characters.map fun character => ⟨character, character⟩)

/-- The set of everything that is in one of two sets. -/
def union (one other : CharSet) : CharSet :=
  ofRanges (one.ranges ++ other.ranges)

/-- Look a character up among runs in ascending order.  Half of them are left
in every round, so there need not be more rounds than runs. -/
def foundIn (character : Char) : (rounds : Nat) -> List CharRange -> Bool
  | 0, _ => false
  | rounds + 1, runs =>
      match runs.drop (runs.length / 2) with
      | [] => false
      | middle :: above =>
          if middle.last < character then foundIn character rounds above
          else if character < middle.first then
            foundIn character rounds (runs.take (runs.length / 2))
          else true

/-- Whether a character is in the set. -/
def contains (set : CharSet) (character : Char) : Bool :=
  foundIn character set.ranges.length set.ranges

/-- Whether the set has no members. -/
def isEmpty (set : CharSet) : Bool :=
  set.ranges.isEmpty

/-- The set as instructions show it. -/
def text (set : CharSet) : String :=
  "CharSet \x7b ranges: \x7b" ++ ", ".intercalate (set.ranges.map CharRange.text) ++ "\x7d \x7d"

end CharSet
end ParsingMachine
