import ParsingMachine.Text.Quoted

namespace ParsingMachine

/-!
# Ranges of characters

Ranges are put in order by where they begin.  Ranges in order are merged from
the left: the next one is taken into the run that has been gathered so far, as
long as no character lies between the two.  Which character comes next is for
`Char.succ?` to say.  Behind U+D7FF that is U+E000, so ranges that meet there
are merged, and behind the last character there is none, so a run that gets
there takes in everything that is left.
-/

/-- The characters from `first` to `last`, both of them included.  A range
that runs backwards holds no character. -/
structure CharRange where
  first : Char
  last : Char
  deriving DecidableEq, Inhabited

namespace CharRange

/-- Whether a character lies in the range. -/
def contains (range : CharRange) (character : Char) : Bool :=
  decide (range.first ≤ character ∧ character ≤ range.last)

/-- The range runs forwards, and so has a member at all. -/
def Forward (range : CharRange) : Prop :=
  range.first ≤ range.last

instance (range : CharRange) : Decidable range.Forward :=
  inferInstanceAs (Decidable (range.first ≤ range.last))

/-- Whether a range comes no later than another one: it begins earlier, or
begins in the same place and ends no later. -/
def comesBefore (one other : CharRange) : Bool :=
  decide (one.first < other.first ∨ one.first = other.first ∧ one.last ≤ other.last)

/-- Whether no character lies between a run and a range that begins no
earlier. -/
def reaches (run range : CharRange) : Bool :=
  match run.last.succ? with
  | none => true
  | some behind => decide (range.first ≤ behind)

/-- The run with a range taken in that begins no earlier. -/
def takeIn (run range : CharRange) : CharRange where
  first := run.first
  last := if run.last ≤ range.last then range.last else run.last

/-- The range as it appears in the text of a set. -/
def text (range : CharRange) : String :=
  if range.first = range.last then Text.quotedChar range.first
  else Text.quotedChar range.first ++ ".." ++ Text.quotedChar range.last

/-! ## Putting ranges in order -/

/-- Put a range in its place among ranges that are in order. -/
def place (range : CharRange) : List CharRange -> List CharRange
  | [] => [range]
  | other :: rest =>
      if range.comesBefore other then range :: other :: rest else other :: place range rest

/-- The ranges in order. -/
def sorted (ranges : List CharRange) : List CharRange :=
  ranges.foldr place []

/-- No range begins earlier than one in front of it. -/
def InOrder (ranges : List CharRange) : Prop :=
  ranges.Pairwise fun one other => one.first ≤ other.first

theorem mem_place {range other : CharRange} {ranges : List CharRange} :
    other ∈ place range ranges <-> other = range ∨ other ∈ ranges := by
  induction ranges with
  | nil => rw [place, List.mem_singleton, or_iff_left List.not_mem_nil]
  | cons head rest inductionHypothesis =>
      rw [place]
      split
      · exact List.mem_cons
      · rw [List.mem_cons, inductionHypothesis, List.mem_cons, or_left_comm]

theorem mem_sorted {range : CharRange} {ranges : List CharRange} :
    range ∈ sorted ranges <-> range ∈ ranges := by
  induction ranges with
  | nil => exact Iff.rfl
  | cons head rest inductionHypothesis =>
      rw [sorted, List.foldr_cons, mem_place, List.mem_cons]
      exact or_congr Iff.rfl inductionHypothesis

private theorem first_le_of_comesBefore {one other : CharRange}
    (before : one.comesBefore other = true) : one.first ≤ other.first := by
  rcases of_decide_eq_true before with below | ⟨same, _⟩
  · exact Char.not_lt.mp fun above => Char.lt_irrefl _ (Char.lt_trans below above)
  · exact same ▸ Char.le_refl _

private theorem first_le_of_not_comesBefore {one other : CharRange}
    (behind : ¬ one.comesBefore other = true) : other.first ≤ one.first := by
  apply Char.not_lt.mp
  intro below
  exact behind (decide_eq_true (Or.inl below))

theorem InOrder.place {ranges : List CharRange} (inOrder : InOrder ranges) (range : CharRange) :
    InOrder (range.place ranges) := by
  induction ranges with
  | nil => exact List.pairwise_singleton _ _
  | cons head rest inductionHypothesis =>
      rcases List.pairwise_cons.mp inOrder with ⟨least, restInOrder⟩
      rw [CharRange.place]
      split
      · next before =>
          have start := first_le_of_comesBefore before
          refine List.pairwise_cons.mpr ⟨fun other listed => ?_, inOrder⟩
          rcases List.mem_cons.mp listed with rfl | later
          · exact start
          · exact Char.le_trans start (least other later)
      · next behind =>
          refine List.pairwise_cons.mpr ⟨fun other listed => ?_, inductionHypothesis restInOrder⟩
          rcases mem_place.mp listed with rfl | later
          · exact first_le_of_not_comesBefore behind
          · exact least other later

theorem inOrder_sorted (ranges : List CharRange) : InOrder (sorted ranges) := by
  induction ranges with
  | nil => exact List.Pairwise.nil
  | cons head rest inductionHypothesis => exact inductionHypothesis.place head

/-! ## Merging -/

/-- Go through ranges in order with a run that still gathers them. -/
def mergeInto (run : CharRange) : List CharRange -> List CharRange
  | [] => [run]
  | range :: rest =>
      if run.reaches range then mergeInto (run.takeIn range) rest else run :: mergeInto range rest

/-- The runs that ranges in order amount to. -/
def merged : List CharRange -> List CharRange
  | [] => []
  | first :: rest => mergeInto first rest

/-- A run and a range above it have a character between them. -/
def Apart (run range : CharRange) : Prop :=
  run.reaches range = false

theorem apart_iff {run range : CharRange} :
    run.Apart range <-> run.last.ordinal.val + 1 < range.first.ordinal.val := by
  rw [Apart, reaches, Char.succ?_eq, Fin.addNat?_eq_dif]
  by_cases behind : run.last.ordinal.val + 1 < Char.numCodePoints
  · rw [dif_pos behind]
    simp only [Option.map_some, decide_eq_false_iff_not, Char.le_iff_ordinal_le,
      Char.ordinal_ofOrdinal, Fin.le_def]
    exact Nat.not_le
  · have bound := range.first.ordinal.isLt
    rw [dif_neg behind]
    simp only [Option.map_none, Bool.true_eq_false, false_iff]
    omega

theorem takeIn_last_ordinal (run range : CharRange) :
    (run.takeIn range).last.ordinal.val = max run.last.ordinal.val range.last.ordinal.val := by
  simp only [takeIn]
  by_cases below : run.last ≤ range.last
  · have ordered : run.last.ordinal.val ≤ range.last.ordinal.val :=
      Char.le_iff_ordinal_le.mp below
    rw [if_pos below, Nat.max_eq_right ordered]
  · have ordered : ¬ run.last.ordinal.val ≤ range.last.ordinal.val :=
      fun ordered => below (Char.le_iff_ordinal_le.mpr ordered)
    rw [if_neg below, Nat.max_eq_left (Nat.le_of_not_le ordered)]

theorem Forward.takeIn {run range : CharRange} (forward : run.Forward) :
    (run.takeIn range).Forward := by
  have ordered : run.first.ordinal.val ≤ run.last.ordinal.val := Char.le_iff_ordinal_le.mp forward
  apply Char.le_iff_ordinal_le.mpr
  rw [Fin.le_def, takeIn_last_ordinal]
  exact Nat.le_trans ordered (Nat.le_max_left _ _)

theorem forward_mergeInto {run : CharRange} {ranges : List CharRange} (forward : run.Forward)
    (others : forall range, range ∈ ranges -> range.Forward) :
    forall range, range ∈ mergeInto run ranges -> range.Forward := by
  induction ranges generalizing run with
  | nil =>
      intro range listed
      exact List.mem_singleton.mp listed ▸ forward
  | cons head rest inductionHypothesis =>
      have restForward : forall range, range ∈ rest -> range.Forward :=
        fun range listed => others range (List.mem_cons_of_mem _ listed)
      rw [mergeInto]
      split
      · exact inductionHypothesis forward.takeIn restForward
      · intro range listed
        rcases List.mem_cons.mp listed with rfl | later
        · exact forward
        · exact inductionHypothesis (others head List.mem_cons_self) restForward range later

/-- Every run begins where one of the ranges did. -/
private theorem first_mem_mergeInto {run range : CharRange} {ranges : List CharRange}
    (listed : range ∈ mergeInto run ranges) :
    range.first = run.first ∨ Exists fun other => other ∈ ranges ∧ range.first = other.first := by
  induction ranges generalizing run with
  | nil => exact Or.inl (congrArg first (List.mem_singleton.mp listed))
  | cons head rest inductionHypothesis =>
      have later : forall {start : CharRange}, range ∈ mergeInto start rest ->
          range.first = start.first ∨
            Exists fun other => other ∈ head :: rest ∧ range.first = other.first := by
        intro start listed
        rcases inductionHypothesis listed with same | ⟨other, member, same⟩
        · exact Or.inl same
        · exact Or.inr ⟨other, List.mem_cons_of_mem _ member, same⟩
      rw [mergeInto] at listed
      split at listed
      · have found := later listed
        exact found
      · rcases List.mem_cons.mp listed with rfl | listed
        · exact Or.inl rfl
        · rcases later listed with same | found
          · exact Or.inr ⟨head, List.mem_cons_self, same⟩
          · exact Or.inr found

/-- What is merged in order is apart. -/
theorem apart_mergeInto {run : CharRange} {ranges : List CharRange} (inOrder : InOrder ranges) :
    (mergeInto run ranges).Pairwise Apart := by
  induction ranges generalizing run with
  | nil => exact List.pairwise_singleton _ _
  | cons head rest inductionHypothesis =>
      rcases List.pairwise_cons.mp inOrder with ⟨least, restInOrder⟩
      rw [mergeInto]
      split
      · exact inductionHypothesis restInOrder
      · next gap =>
          refine List.pairwise_cons.mpr ⟨fun range listed => ?_, inductionHypothesis restInOrder⟩
          have headApart := apart_iff.mp (Bool.eq_false_iff.mpr gap)
          have start : head.first ≤ range.first := by
            rcases first_mem_mergeInto listed with same | ⟨other, member, same⟩
            · exact same ▸ Char.le_refl _
            · exact same ▸ least other member
          have ordered : head.first.ordinal.val ≤ range.first.ordinal.val :=
            Char.le_iff_ordinal_le.mp start
          exact apart_iff.mpr (Nat.lt_of_lt_of_le headApart ordered)

theorem forward_merged {ranges : List CharRange}
    (forward : forall range, range ∈ ranges -> range.Forward) :
    forall range, range ∈ merged ranges -> range.Forward := by
  cases ranges with
  | nil =>
      intro range listed
      exact absurd listed List.not_mem_nil
  | cons head rest =>
      exact forward_mergeInto (forward head List.mem_cons_self)
        fun range listed => forward range (List.mem_cons_of_mem _ listed)

theorem apart_merged {ranges : List CharRange} (inOrder : InOrder ranges) :
    (merged ranges).Pairwise Apart := by
  cases ranges with
  | nil => exact List.Pairwise.nil
  | cons head rest => exact apart_mergeInto (List.pairwise_cons.mp inOrder).2

end CharRange
end ParsingMachine
