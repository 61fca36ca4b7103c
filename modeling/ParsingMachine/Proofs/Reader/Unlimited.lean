import ParsingMachine.Proofs.Reader.Language

namespace ParsingMachine
namespace Reader

/-!
# Reading without a limit

The reader of grammar texts is made of readers that are told the limit of height,
or that there is none.  Without one, a node goes on top of other nodes however
tall these are, and there are no levels to count: groups and unary operators open
as long as the text lasts, and what is inside of them is left to the same reader
again.  It is always asked about a shorter text, which is what lets it end.

Otherwise the two readers go the same way.  The limited one gives the same
result, or it refuses the text as too deep; and then the unlimited one, if it
reads something, reads something too tall.
-/

namespace Unlimited

/-- An operand of a sequence.  The check that what is inside of it is shorter
never fails. -/
def operand (text : List Char) : Except Fault (Reading Measured text) :=
  operandAt none
    (.ok fun part =>
      if _ : part.length < text.length then operand part
      else .error ⟨.missingPattern, [], []⟩) text
termination_by text.length

/-- A pattern off the beginning of a text. -/
def pattern : Reader Measured :=
  expression none operand

/-- Read a grammar, however tall its patterns are. -/
def grammarOfText (text : String) : Except Report Grammar :=
  grammarBy pattern text

/-- Read a single pattern, however tall it is. -/
def patternOfText (text : String) : Except Report Pattern :=
  patternBy pattern text

end Unlimited

/-! ## Operands inside of operands -/

/-- Two readers that agree on the texts below a length. -/
def AgreeBelow (bound : Nat) (one other : Reader Measured) : Prop :=
  forall part, part.length < bound -> one part = other part

namespace AgreeBelow

variable {bound : Nat} {one other : Reader Measured} {limit : Option Nat}

theorem chain (agree : AgreeBelow bound one other) (operator : Char)
    (join : Pattern -> Pattern -> Pattern) {text : List Char} (left : Reading Measured text)
    (inside : left.rest.length < bound) :
    Reader.chain limit operator join one left = Reader.chain limit operator join other left := by
  rw [Reader.chain, Reader.chain]
  cases sign? operator left.rest with
  | none => rfl
  | some sign =>
      have short : sign.rest.length < bound := Nat.lt_trans sign.shorter inside
      dsimp only
      rw [agree sign.rest short]
      cases other sign.rest with
      | error fault => rfl
      | ok right =>
          dsimp only
          cases oneLevelUp limit (max left.value.height right.value.height)
              (operator :: sign.rest) sign.rest with
          | error fault => rfl
          | ok height => exact chain agree operator join _ (Nat.lt_trans right.shorter short)
termination_by left.rest.length
decreasing_by exact Nat.lt_trans right.shorter sign.shorter

theorem joined (agree : AgreeBelow bound one other) (operator : Char)
    (join : Pattern -> Pattern -> Pattern) :
    AgreeBelow bound (Reader.joined limit operator join one)
      (Reader.joined limit operator join other) := by
  intro text short
  rw [Reader.joined, Reader.joined, agree text short]
  cases other text with
  | error fault => rfl
  | ok first => exact agree.chain operator join first (Nat.lt_trans first.shorter short)

theorem expression (agree : AgreeBelow bound one other) :
    AgreeBelow bound (Reader.expression limit one) (Reader.expression limit other) :=
  (agree.joined '*' .sequence).joined '|' .choice

/-- A reader of operands leaves nothing but shorter texts to the reader of what is
inside. -/
theorem operandAt {text : List Char} (agree : AgreeBelow text.length one other) :
    Reader.operandAt limit (.ok one) text = Reader.operandAt limit (.ok other) text := by
  rw [Reader.operandAt, Reader.operandAt]
  cases next? text with
  | none => rfl
  | some sign =>
      dsimp only
      cases unaryOperator? sign.value with
      | none =>
          dsimp only
          rw [repeatable, repeatable, primary, primary, groupBody, groupBody,
            agree.expression sign.rest sign.shorter]
      | some apply =>
          dsimp only
          rw [unary, unary, agree sign.rest sign.shorter]

end AgreeBelow

/-- What is inside of an operand is read by the reader itself. -/
theorem Unlimited.operand_eq (text : List Char) :
    Unlimited.operand text = operandAt none (.ok Unlimited.operand) text := by
  rw [Unlimited.operand]
  exact AgreeBelow.operandAt fun part short => dif_pos short

/-! ## Heights -/

section Heights

variable {limit : Option Nat} {operator : Char} {join : Pattern -> Pattern -> Pattern}
  {operand : Reader Measured} {text : List Char}

/-- A chain is at least as tall as what it begins with. -/
theorem height_le_of_chain {left result : Reading Measured text}
    (read : chain limit operator join operand left = .ok result) :
    left.value.height ≤ result.value.height := by
  fun_induction chain limit operator join operand left with
  | case1 left absent =>
      cases read
      exact Nat.le_refl _
  | case4 left sign found right rightRead height up inductionHypothesis =>
      have higher : height ≤ result.value.height := inductionHypothesis read
      have above := height_of_oneLevelUp up
      omega
  | _ => cases read

theorem height_le_of_repetitions {inner result : Reading Measured text}
    (read : repetitions limit inner = .ok result) :
    inner.value.height ≤ result.value.height := by
  fun_induction repetitions limit inner with
  | case1 inner absent =>
      cases read
      exact Nat.le_refl _
  | case4 inner sign found times timesRead height up inductionHypothesis =>
      have higher : height ≤ result.value.height := inductionHypothesis read
      have above := height_of_oneLevelUp up
      omega
  | _ => cases read

theorem height_pos_of_groupBody {opening : List Char} {result : Reading Measured text}
    (read : groupBody limit operand opening text = .ok result) : 0 < result.value.height := by
  rw [groupBody] at read
  split at read
  · cases read
  · split at read
    · cases read
    · split at read
      · cases read
      · next height up =>
          cases read
          have above := height_of_oneLevelUp up
          change 0 < height
          omega

end Heights

/-! ## The limited reader against the unlimited one -/

/-- A result under a limit against the result without one: both are the same, or
the former refuses the text as too deep, and then the latter is none or too
tall. -/
inductive Confines (limit : Nat) {α : Type} (tall : α -> Prop) :
    (limited unlimited : Except Fault α) -> Prop where
  | fails (fault) : Confines limit tall (.error fault) (.error fault)
  | reads (value) : Confines limit tall (.ok value) (.ok value)
  | refused {place after unlimited} :
      (forall value, unlimited = .ok value -> tall value) ->
      Confines limit tall (.error ⟨.tooDeep limit, place, after⟩) unlimited

theorem Confines.same {limit : Nat} {α : Type} {tall : α -> Prop} (result : Except Fault α) :
    Confines limit tall result result := by
  cases result with
  | error fault => exact .fails fault
  | ok value => exact .reads value

/-- What was read is taller than the levels that were left. -/
def Exceeds (levels : Nat) {text : List Char} (reading : Reading Measured text) : Prop :=
  levels < reading.value.height

/-- A reader with a limit and so many levels left against one without a limit. -/
def ConfinesReader (limit levels : Nat) (limited unlimited : Reader Measured) : Prop :=
  forall text, Confines limit (Exceeds levels) (limited text) (unlimited text)

namespace ConfinesReader

variable {limit levels : Nat} {limited unlimited : Reader Measured}

theorem chain (room : levels ≤ limit) (operands : ConfinesReader limit levels limited unlimited)
    (operator : Char) (join : Pattern -> Pattern -> Pattern) {text : List Char}
    (left : Reading Measured text) :
    Confines limit (Exceeds levels) (Reader.chain limit operator join limited left)
      (Reader.chain none operator join unlimited left) := by
  rw [Reader.chain, Reader.chain]
  cases sign? operator left.rest with
  | none => exact .reads _
  | some sign =>
      dsimp only [oneLevelUp]
      refine (operands sign.rest).casesOn (fun _ => .fails _) (fun right => ?_) fun tall => ?_
      · dsimp only
        by_cases high : limit ≤ max left.value.height right.value.height
        · rw [if_pos high]
          refine .refused fun result read => ?_
          have higher := height_le_of_chain read
          change max left.value.height right.value.height + 1 ≤ _ at higher
          exact Nat.lt_of_le_of_lt (Nat.le_trans room high) higher
        · rw [if_neg high]
          exact chain room operands operator join _
      · refine .refused fun result read => ?_
        split at read
        · cases read
        · next right =>
            have higher := height_le_of_chain read
            change max left.value.height right.value.height + 1 ≤ _ at higher
            have exceeds : levels < right.value.height := tall right rfl
            change levels < result.value.height
            omega
termination_by left.rest.length
decreasing_by exact Nat.lt_trans right.shorter sign.shorter

theorem joined (room : levels ≤ limit) (operands : ConfinesReader limit levels limited unlimited)
    (operator : Char) (join : Pattern -> Pattern -> Pattern) :
    ConfinesReader limit levels (Reader.joined limit operator join limited)
      (Reader.joined none operator join unlimited) := by
  intro text
  rw [Reader.joined, Reader.joined]
  refine (operands text).casesOn (fun _ => .fails _)
    (fun first => chain room operands operator join first) fun tall => ?_
  refine .refused fun result read => ?_
  split at read
  · cases read
  · next first => exact Nat.lt_of_lt_of_le (tall first rfl) (height_le_of_chain read)

theorem expression (room : levels ≤ limit)
    (operands : ConfinesReader limit levels limited unlimited) :
    ConfinesReader limit levels (Reader.expression limit limited)
      (Reader.expression none unlimited) :=
  joined room (joined room operands '*' .sequence) '|' .choice

/-- A group takes up a level. -/
theorem groupBody (room : levels < limit)
    (operands : ConfinesReader limit levels limited unlimited) (opening text : List Char) :
    Confines limit (Exceeds (levels + 1)) (Reader.groupBody limit limited opening text)
      (Reader.groupBody none unlimited opening text) := by
  rw [Reader.groupBody, Reader.groupBody]
  dsimp only [oneLevelUp]
  refine (expression (Nat.le_of_lt room) operands text).casesOn (fun _ => .fails _)
    (fun reading => ?_) fun tall => .refused fun result read => ?_
  · dsimp only
    cases sign? ')' reading.rest with
    | none => exact .fails _
    | some closing =>
        dsimp only
        by_cases high : limit ≤ reading.value.height
        · rw [if_pos high]
          refine .refused fun result read => ?_
          cases read
          exact Nat.succ_lt_succ (Nat.lt_of_lt_of_le room high)
        · rw [if_neg high]
          exact .reads _
  · split at read
    · cases read
    · next reading =>
        split at read
        · cases read
        · cases read
          exact Nat.succ_lt_succ (tall reading rfl)

/-- A unary operator takes up a level. -/
theorem unary (room : levels < limit) (operands : ConfinesReader limit levels limited unlimited)
    {text : List Char} (sign : Reading Char text) (apply : Pattern -> Pattern) :
    Confines limit (Exceeds (levels + 1)) (Reader.unary limit limited sign apply)
      (Reader.unary none unlimited sign apply) := by
  rw [Reader.unary, Reader.unary]
  dsimp only [oneLevelUp]
  refine (operands sign.rest).casesOn (fun _ => .fails _)
    (fun reading => ?_) fun tall => .refused fun result read => ?_
  · dsimp only
    by_cases high : limit ≤ reading.value.height
    · rw [if_pos high]
      refine .refused fun result read => ?_
      cases read
      exact Nat.succ_lt_succ (Nat.lt_of_lt_of_le room high)
    · rw [if_neg high]
      exact .reads _
  · split at read
    · cases read
    · next reading =>
        cases read
        exact Nat.succ_lt_succ (tall reading rfl)

end ConfinesReader

namespace Confines

variable {limit levels : Nat} {unlimited : Reader Measured} {text : List Char}

theorem repetitions (room : levels ≤ limit) (inner : Reading Measured text) :
    Confines limit (Exceeds levels) (Reader.repetitions limit inner)
      (Reader.repetitions none inner) := by
  rw [Reader.repetitions, Reader.repetitions]
  cases sign? '{' inner.rest with
  | none => exact .reads _
  | some sign =>
      dsimp only [oneLevelUp]
      cases bounds ('{' :: sign.rest) sign.rest with
      | error fault => exact .fails fault
      | ok times =>
          dsimp only
          by_cases high : limit ≤ inner.value.height
          · rw [if_pos high]
            refine .refused fun result read => ?_
            exact Nat.lt_of_le_of_lt (Nat.le_trans room high) (height_le_of_repetitions read)
          · rw [if_neg high]
            exact repetitions room _
termination_by inner.rest.length
decreasing_by exact Nat.lt_trans times.shorter sign.shorter

/-- At the last level nothing can be opened any more. -/
theorem primary (room : levels ≤ limit)
    (inner : forall fewer, levels = fewer + 1 ->
      ConfinesReader limit fewer (Reader.operand limit fewer) unlimited)
    (symbol : Char) (after : List Char) :
    Confines limit (Exceeds levels) (Reader.primary limit (deeper limit levels) symbol after)
      (Reader.primary none (.ok unlimited) symbol after) := by
  unfold Reader.primary
  split
  · dsimp only
    cases levels with
    | zero =>
        refine .refused fun result read => ?_
        split at read
        · cases read
        · next body bodyRead =>
            cases read
            have positive := height_pos_of_groupBody bodyRead
            exact positive
    | succ levels =>
        dsimp only [deeper]
        refine ((inner levels rfl).groupBody room (symbol :: after) after).casesOn
          (fun _ => .fails _) (fun _ => .reads _) fun tall => .refused fun result read => ?_
        split at read
        · cases read
        · next body =>
            cases read
            exact tall body rfl
  · exact .same _

theorem repeatable (room : levels ≤ limit)
    (inner : forall fewer, levels = fewer + 1 ->
      ConfinesReader limit fewer (Reader.operand limit fewer) unlimited)
    (sign : Reading Char text) :
    Confines limit (Exceeds levels) (Reader.repeatable limit (deeper limit levels) sign)
      (Reader.repeatable none (.ok unlimited) sign) := by
  rw [Reader.repeatable, Reader.repeatable]
  refine (primary room inner sign.value sign.rest).casesOn (fun _ => .fails _)
    (fun reading => repetitions room _) fun tall => .refused fun result read => ?_
  split at read
  · cases read
  · next reading => exact Nat.lt_of_lt_of_le (tall reading rfl) (height_le_of_repetitions read)

/-- A unary operator takes up a level as a group does.  At the last level it is
refused, and without a limit it makes something of positive height. -/
theorem operandAt (room : levels ≤ limit)
    (inner : forall fewer, levels = fewer + 1 ->
      ConfinesReader limit fewer (Reader.operand limit fewer) unlimited) :
    ConfinesReader limit levels (Reader.operandAt limit (deeper limit levels))
      (Reader.operandAt none (.ok unlimited)) := by
  intro text
  rw [Reader.operandAt, Reader.operandAt]
  cases next? text with
  | none => exact .fails _
  | some sign =>
      dsimp only
      cases unaryOperator? sign.value with
      | none => exact repeatable room inner sign
      | some apply =>
          cases levels with
          | zero =>
              refine .refused fun result read => ?_
              dsimp only [Reader.unary, oneLevelUp] at read
              split at read
              · cases read
              · cases read
                exact Nat.succ_pos _
          | succ levels => exact (inner levels rfl).unary room sign apply

theorem operand (room : levels ≤ limit) :
    ConfinesReader limit levels (Reader.operand limit levels) Unlimited.operand := by
  have same : Unlimited.operand = Reader.operandAt none (.ok Unlimited.operand) :=
    funext Unlimited.operand_eq
  rw [operand_eq, same]
  induction levels with
  | zero => exact operandAt room fun _ impossible => nomatch impossible
  | succ levels inductionHypothesis =>
      refine operandAt room fun fewer counted => ?_
      cases counted
      rw [operand_eq, same]
      exact inductionHypothesis (Nat.le_of_lt room)

theorem pattern (limit : Nat) :
    ConfinesReader limit limit (Reader.pattern limit) Unlimited.pattern :=
  (operand (Nat.le_refl limit)).expression (Nat.le_refl limit)

end Confines

/-! ## Rules and whole texts -/

namespace Confines

variable {limit : Nat} {α : Type} {tall : α -> Prop} {limited unlimited : Except Fault α}

theorem imp (first : Confines limit tall limited unlimited) {taller : α -> Prop}
    (implies : forall value, unlimited = .ok value -> tall value -> taller value) :
    Confines limit taller limited unlimited := by
  cases first with
  | fails fault => exact .fails fault
  | reads value => exact .reads value
  | refused above => exact .refused fun value read => implies value read (above value read)

/-- What is read without a limit is read with one, unless it is too tall. -/
theorem eq_ok {value : α} (first : Confines limit tall limited (.ok value))
    (low : ¬ tall value) : limited = .ok value := by
  cases first with
  | reads _ => rfl
  | refused above => exact absurd (above value rfl) low

/-- What is read without a limit is read with one, or refused. -/
theorem eq_ok_or_refused {value : α} (first : Confines limit tall limited (.ok value)) :
    limited = .ok value ∨ Exists fun place => Exists fun after =>
      limited = .error ⟨.tooDeep limit, place, after⟩ := by
  cases first with
  | reads _ => exact Or.inl rfl
  | refused _ => exact Or.inr ⟨_, _, rfl⟩

/-- What is read with a limit is read without one. -/
theorem eq_ok_of_limited {value : α} (first : Confines limit tall (.ok value) unlimited) :
    unlimited = .ok value := by
  cases first with
  | reads _ => rfl

end Confines

/-- What is read without a limit is measured: some limit is loose enough for it to
be read with that limit. -/
theorem Unlimited.measured_of_pattern {text : List Char} {reading : Reading Measured text}
    (read : Unlimited.pattern text = .ok reading) :
    reading.value.height = reading.value.pattern.height := by
  have confined := Confines.pattern (reading.value.height + 1) text
  rw [read] at confined
  have limited := confined.eq_ok (Nat.not_lt.mpr (Nat.le_succ _))
  exact (ReadsLevel.pattern (Nat.succ_pos _) limited).measured

namespace Confines

theorem pattern_measured (limit : Nat) (text : List Char) :
    Confines limit (fun reading : Reading Measured text => limit < reading.value.pattern.height)
      (Reader.pattern limit text) (Unlimited.pattern text) :=
  (pattern limit text).imp fun _ read tall => Unlimited.measured_of_pattern read ▸ tall

theorem ruleDefinition (limit : Nat) (text : List Char) :
    Confines limit (fun reading : Reading Rule text => limit < reading.value.pattern.height)
      (Reader.ruleDefinition (Reader.pattern limit) text)
      (Reader.ruleDefinition Unlimited.pattern text) := by
  rw [Reader.ruleDefinition, Reader.ruleDefinition]
  cases name? text with
  | none => exact .fails _
  | some name =>
      dsimp only
      cases pair? '<' '-' name.rest with
      | none => exact .fails _
      | some arrow =>
          dsimp only
          refine (pattern_measured limit arrow.rest).casesOn (fun _ => .fails _) (fun _ => .reads _)
            fun tall => .refused fun result read => ?_
          split at read
          · cases read
          · next reading =>
              cases read
              exact tall reading rfl

theorem ruleDefinitions (limit : Nat) (text : List Char) :
    Confines limit (fun rules => Exists fun rule => rule ∈ rules ∧ limit < rule.pattern.height)
      (Reader.ruleDefinitions (Reader.pattern limit) text)
      (Reader.ruleDefinitions Unlimited.pattern text) := by
  rw [Reader.ruleDefinitions, Reader.ruleDefinitions]
  cases next? text with
  | none => exact .reads _
  | some next =>
      dsimp only
      refine (ruleDefinition limit next.here).casesOn (fun _ => .fails _) (fun rule => ?_)
        fun tall => .refused fun result read => ?_
      · dsimp only
        refine (ruleDefinitions limit rule.rest).casesOn (fun _ => .fails _) (fun _ => .reads _)
          fun tall => .refused fun result read => ?_
        split at read
        · cases read
        · next rules =>
            cases read
            rcases tall rules rfl with ⟨other, listed, high⟩
            exact ⟨other, List.mem_cons_of_mem _ listed, high⟩
      · split at read
        · cases read
        · next rule =>
            split at read
            · cases read
            · cases read
              exact ⟨rule.value, List.mem_cons_self, tall rule rfl⟩
termination_by text.length
decreasing_by exact Nat.lt_of_lt_of_le rule.shorter next.shorter

theorem wholePattern (limit : Nat) (text : List Char) :
    Confines limit (fun pattern => limit < pattern.height)
      (Reader.wholePattern (Reader.pattern limit) text)
      (Reader.wholePattern Unlimited.pattern text) := by
  rw [Reader.wholePattern, Reader.wholePattern]
  refine (pattern_measured limit text).casesOn (fun _ => .fails _) (fun reading => .same _)
    fun tall => .refused fun result read => ?_
  split at read
  · cases read
  · next reading =>
      split at read
      · cases read
        exact tall reading rfl
      · cases read

end Confines

/-- Without a limit, what is read off a text is what it spells.  Some limit is
high enough for either. -/
theorem Unlimited.ruleDefinitions_eq_ok (text : List Char) (rules : List Rule) :
    ruleDefinitions Unlimited.pattern text = .ok rules <-> SpellsRules text rules := by
  rcases exists_height rules with ⟨limit, bounded⟩
  have low : forall rule, rule ∈ rules -> rule.pattern.height ≤ limit + 1 :=
    fun rule listed => Nat.le_succ_of_le (bounded rule listed)
  have limited := Reader.ruleDefinitions_eq_ok (Nat.succ_pos limit) text rules
  have confined := Confines.ruleDefinitions (limit + 1) text
  constructor
  · intro read
    rw [read] at confined
    refine (limited.mp (confined.eq_ok ?_)).1
    rintro ⟨rule, listed, tall⟩
    exact Nat.not_lt.mpr (low rule listed) tall
  · intro spelled
    rw [limited.mpr ⟨spelled, low⟩] at confined
    exact confined.eq_ok_of_limited

theorem Unlimited.wholePattern_eq_ok (text : List Char) (spelt : Pattern) :
    wholePattern Unlimited.pattern text = .ok spelt <-> SpellsWhole text spelt := by
  have limited := Reader.wholePattern_eq_ok (height_pos spelt) text spelt
  have confined := Confines.wholePattern spelt.height text
  constructor
  · intro read
    rw [read] at confined
    exact (limited.mp (confined.eq_ok (Nat.lt_irrefl _))).1
  · intro spelled
    rw [limited.mpr ⟨spelled, Nat.le_refl _⟩] at confined
    exact confined.eq_ok_of_limited

end Reader
end ParsingMachine
