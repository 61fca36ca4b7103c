import ParsingMachine.Proofs.Reader.Causes
import ParsingMachine.Proofs.Reader.Writing

namespace ParsingMachine
namespace Reader

/-!
# A pattern behind the name of a rule

A text that is read as one pattern can be put behind a name and an arrow, and
then it is read as the definition of a rule.  The two readings differ in what
may come behind the pattern, which is nothing in the first one and more rules in
the second one, and in what comes before it.

What comes before the pattern is of no account to the readers.  A reader of
patterns goes by what is left behind blanks and comments, so the blank behind
the arrow changes neither what is read nor what is objected to; and a fault is
placed by what is left of the text, so that all its offsets move alike.
-/

/-! ## Blanks in front of a pattern -/

/-- Two results with the same fault, or the same value and the same rest.  They
need not be results for the same text. -/
inductive Alike {α : Type} {text other : List Char} :
    Except Fault (Reading α text) -> Except Fault (Reading α other) -> Prop where
  | fails (fault) : Alike (.error fault) (.error fault)
  | reads {reading twin} :
      reading.value = twin.value -> reading.rest = twin.rest -> Alike (.ok reading) (.ok twin)

/-- A reader goes by what is left behind the blanks and comments. -/
def PassesTrivia {α : Type} (reader : Reader α) : Prop :=
  forall text other, skipTrivia text = skipTrivia other -> Alike (reader text) (reader other)

section PassesTrivia

variable {limit : Option Nat} {text other : List Char}

/-- A chain goes by what has been read and by what is left. -/
theorem chain_alike (operator : Char) (join : Pattern -> Pattern -> Pattern)
    (operand : Reader Measured) (left : Reading Measured text) (twin : Reading Measured other)
    (value : left.value = twin.value) (rest : left.rest = twin.rest) :
    Alike (chain limit operator join operand left) (chain limit operator join operand twin) := by
  rcases twin with ⟨_, _, _⟩
  dsimp only at value rest
  subst value rest
  rw [chain, chain]
  dsimp only
  cases sign? operator left.rest with
  | none => exact .reads rfl rfl
  | some sign =>
      dsimp only
      cases operand sign.rest with
      | error fault => exact .fails fault
      | ok right =>
          dsimp only
          cases oneLevelUp limit (max left.value.height right.value.height)
              (operator :: sign.rest) sign.rest with
          | error fault => exact .fails fault
          | ok height => exact chain_alike operator join operand _ _ rfl rfl
termination_by left.rest.length
decreasing_by exact Nat.lt_trans right.shorter sign.shorter

/-- Repetitions go by what has been read and by what is left. -/
theorem repetitions_alike (inner : Reading Measured text) (twin : Reading Measured other)
    (value : inner.value = twin.value) (rest : inner.rest = twin.rest) :
    Alike (repetitions limit inner) (repetitions limit twin) := by
  rcases twin with ⟨_, _, _⟩
  dsimp only at value rest
  subst value rest
  rw [repetitions, repetitions]
  dsimp only
  cases sign? '{' inner.rest with
  | none => exact .reads rfl rfl
  | some sign =>
      dsimp only
      cases bounds ('{' :: sign.rest) sign.rest with
      | error fault => exact .fails fault
      | ok times =>
          dsimp only
          cases oneLevelUp limit inner.value.height ('{' :: sign.rest) times.rest with
          | error fault => exact .fails fault
          | ok height => exact repetitions_alike _ _ rfl rfl
termination_by inner.rest.length
decreasing_by exact Nat.lt_trans times.shorter sign.shorter

namespace PassesTrivia

variable {operand : Reader Measured}

theorem joined (passes : PassesTrivia operand) (operator : Char)
    (join : Pattern -> Pattern -> Pattern) :
    PassesTrivia (Reader.joined limit operator join operand) := by
  intro text other same
  rw [Reader.joined, Reader.joined]
  have alike := passes text other same
  generalize operand text = result, operand other = twin at alike ⊢
  cases alike with
  | fails fault => exact .fails fault
  | reads value rest => exact chain_alike operator join operand _ _ value rest

theorem expression (passes : PassesTrivia operand) :
    PassesTrivia (Reader.expression limit operand) :=
  (passes.joined '*' .sequence).joined '|' .choice

theorem operandAt (deeper : Except Cause (Reader Measured)) :
    PassesTrivia (Reader.operandAt limit deeper) := by
  intro text other same
  rw [Reader.operandAt, Reader.operandAt]
  cases found : next? text with
  | none =>
      rw [next?_eq_none_iff.mpr (same.symm.trans (next?_eq_none_iff.mp found))]
      exact .fails _
  | some sign =>
      rcases next?_of_skipTrivia (same.symm.trans (skipTrivia_of_next? found)) with
        ⟨⟨_, _, shorter⟩, twinFound, rfl, rfl⟩
      rw [twinFound]
      dsimp only
      cases unaryOperator? sign.value with
      | none =>
          rw [repeatable, repeatable]
          dsimp only
          cases primary limit deeper sign.value sign.rest with
          | error fault => exact .fails fault
          | ok reading => exact repetitions_alike _ _ rfl rfl
      | some apply =>
          cases deeper with
          | error cause => exact .fails _
          | ok inner =>
              dsimp only
              rw [unary, unary]
              dsimp only
              cases inner sign.rest with
              | error fault => exact .fails fault
              | ok reading =>
                  dsimp only [Reading.here]
                  cases oneLevelUp limit reading.value.height (sign.value :: sign.rest)
                      sign.rest with
                  | error fault => exact .fails fault
                  | ok height => exact .reads rfl rfl

theorem pattern (limit : Nat) : PassesTrivia (Reader.pattern limit) := by
  apply expression
  rw [operand_eq]
  exact operandAt _

end PassesTrivia
end PassesTrivia

/-! ## Definitions -/

/-- A text that begins with a name and an arrow is read as what comes behind
them is: a pattern, and then further rules. -/
theorem ruleDefinitions_front {limit : Nat} {text start middle behind : List Char} {name : String}
    (before : Trivia text start) (named : SpellsName start name middle)
    (arrow : Trivia middle ('<' :: '-' :: behind)) :
    ruleDefinitions (pattern limit) text =
      match pattern limit behind with
      | .error fault => .error fault
      | .ok body =>
          (ruleDefinitions (pattern limit) body.rest).map (⟨name, body.value.pattern⟩ :: ·) := by
  rcases named.next?_eq before.skipTrivia_eq with ⟨next, found, rfl⟩
  rcases name?_of_spells named with ⟨first, firstFound, rfl, rfl⟩
  rcases pair?_of_skipTrivia arrow.skipTrivia_eq with ⟨sign, pointed, rfl⟩
  rw [ruleDefinitions, found]
  dsimp only
  rw [ruleDefinition, firstFound]
  dsimp only
  rw [pointed]
  dsimp only
  cases pattern limit sign.rest with
  | error fault => rfl
  | ok body =>
      dsimp only [Reading.map, Reading.behind, Reading.within]
      cases ruleDefinitions (pattern limit) body.rest <;> rfl

/-- What is in front of a pattern when it defines a rule. -/
def definitionFront (name : String) : String := name ++ " <- "

theorem ruleDefinitions_define (limit : Nat) {name : String} (isName : IsName name)
    (text : List Char) :
    ruleDefinitions (pattern limit) ((definitionFront name).toList ++ text) =
      match pattern limit text with
      | .error fault => .error fault
      | .ok body =>
          (ruleDefinitions (pattern limit) body.rest).map (⟨name, body.value.pattern⟩ :: ·) := by
  have split : (definitionFront name).toList ++ text =
      name.toList ++ ' ' :: '<' :: '-' :: ' ' :: text := by
    rw [definitionFront, String.toList_append, List.append_assoc]
    rfl
  have named : SpellsName (name.toList ++ ' ' :: '<' :: '-' :: ' ' :: text) name
      (' ' :: '<' :: '-' :: ' ' :: text) :=
    spellsName_written isName (by rintro character ⟨⟩; rfl)
  rw [split, ruleDefinitions_front (.nothing _) named (trivia_space _)]
  have alike := PassesTrivia.pattern limit (' ' :: text) text (trivia_space text).skipTrivia_eq
  generalize pattern limit (' ' :: text) = spaced, pattern limit text = plain at alike ⊢
  cases alike with
  | fails fault => rfl
  | reads value rest =>
      dsimp only
      rw [value, rest]

/-! ## What is left over -/

section Leftover

variable {limit : Nat} {text : List Char} {fault : Fault}

theorem not_isNameStart_of_isForeignOperator {character : Char}
    (foreign : isForeignOperator character = true) : isNameStart character = false := by
  have listed := List.contains_iff_mem.mp foreign
  simp only [List.mem_cons, List.not_mem_nil, or_false] at listed
  rcases listed with rfl | rfl | rfl | rfl | rfl | rfl | rfl | rfl | rfl | rfl | rfl | rfl | rfl |
    rfl | rfl <;> decide

theorem Fault.atNext_here (cause : Cause) (next : Reading Char text) :
    Fault.atNext cause next.here =
      ⟨if isForeignOperator next.value then .unknownOperator next.value else cause, next.here,
        next.rest⟩ := rfl

/-- What no name begins with is no definition. -/
theorem ruleDefinitions_noName {next : Reading Char text} (found : next? text = some next)
    (noName : isNameStart next.value = false) :
    ruleDefinitions (pattern limit) text = .error (Fault.atNext .missingRule next.here) := by
  have absent : name? next.here = none := if_neg (Bool.eq_false_iff.mp noName)
  rw [ruleDefinitions, found]
  dsimp only
  rw [ruleDefinition, absent]

/-- Where something is left to be read there is a definition, or a fault. -/
theorem ne_nil_of_ruleDefinitions {next : Reading Char text} (found : next? text = some next)
    {rules : List Rule} (read : ruleDefinitions (pattern limit) text = .ok rules) : rules ≠ [] := by
  rintro rfl
  rw [ruleDefinitions, found] at read
  dsimp only at read
  split at read
  · cases read
  · split at read <;> cases read

/-- What comes behind a pattern, and does not go on with it, is left over. -/
theorem wholePattern_of_spells {spelt : Pattern} {rest after : List Char} {next : Char}
    (spelled : SpellsPattern 0 text spelt rest) (bounded : spelt.height ≤ limit)
    (follows : Follows 0 rest) (left : skipTrivia rest = next :: after) (noBar : next ≠ '|') :
    wholePattern (pattern limit) text = .error (Fault.atNext .leftover (next :: after)) := by
  have ends : (skipTrivia rest).head? ≠ some '|' := by
    rw [left]
    exact fun same => noBar (Option.some.inj same)
  rcases pattern_gives spelled bounded follows ends with ⟨body, read, _, same⟩
  have visible : skipTrivia body.rest = next :: after := by
    rw [same, skipTrivia_skipTrivia, left]
  rcases next?_of_skipTrivia visible with ⟨sign, found, rfl, rfl⟩
  rw [wholePattern, read]
  dsimp only
  rw [found]
  rfl

/-- A pattern is read as a whole where nothing is left over behind it. -/
theorem exists_of_wholePattern_eq_ok {whole : Pattern}
    (read : wholePattern (pattern limit) text = .ok whole) :
    Exists fun body => pattern limit text = .ok body ∧ next? body.rest = none ∧
      body.value.pattern = whole := by
  rw [wholePattern] at read
  split at read
  · cases read
  · next body bodyRead =>
      split at read
      · next ended =>
          cases read
          exact ⟨body, bodyRead, ended, rfl⟩
      · cases read

/-- There is a fault in the pattern, or something is left over behind it. -/
theorem cases_of_wholePattern_eq_error (failed : wholePattern (pattern limit) text = .error fault) :
    pattern limit text = .error fault ∨
      Exists fun body => Exists fun next => pattern limit text = .ok body ∧
        next? body.rest = some next ∧ fault = Fault.atNext .leftover next.here := by
  rw [wholePattern] at failed
  split at failed
  · next unread =>
      cases failed
      exact Or.inl unread
  · next body bodyRead =>
      split at failed
      · cases failed
      · next next found =>
          cases failed
          exact Or.inr ⟨body, next, bodyRead, found, rfl⟩

/-- Something is left over only behind a pattern, and it is no operator of other
notations. -/
theorem wholePattern_leftover (failed : wholePattern (pattern limit) text = .error fault)
    (leftover : fault.cause = .leftover) :
    Exists fun body => Exists fun next => pattern limit text = .ok body ∧
      next? body.rest = some next ∧ isForeignOperator next.value = false ∧
        fault = ⟨.leftover, next.here, next.rest⟩ := by
  rcases cases_of_wholePattern_eq_error failed with unread | ⟨body, next, read, found, rfl⟩
  · have inside := StaysInPattern.pattern limit unread
    rw [leftover] at inside
    exact inside.elim
  · rw [Fault.atNext_here] at leftover ⊢
    by_cases foreign : isForeignOperator next.value = true
    · rw [if_pos foreign] at leftover
      cases leftover
    · rw [if_neg foreign]
      exact ⟨body, next, read, found, Bool.eq_false_iff.mpr foreign, rfl⟩

end Leftover

/-! ## Both readings -/

section Define

variable {limit : Nat} {name : String} {text : List Char} {fault : Fault}

theorem ruleDefinitions_of_wholePattern (isName : IsName name) {whole : Pattern}
    (read : wholePattern (pattern limit) text = .ok whole) :
    ruleDefinitions (pattern limit) ((definitionFront name).toList ++ text) =
      .ok [⟨name, whole⟩] := by
  rcases exists_of_wholePattern_eq_ok read with ⟨body, bodyRead, ended, rfl⟩
  have nothing : ruleDefinitions (pattern limit) body.rest = .ok [] := by
    rw [ruleDefinitions, ended]
  rw [ruleDefinitions_define limit isName, bodyRead]
  dsimp only
  rw [nothing]
  rfl

/-- Whatever a pattern is refused for, its definition is refused for, as long as
the fault is not that something is left over. -/
theorem ruleDefinitions_of_refused (isName : IsName name)
    (failed : wholePattern (pattern limit) text = .error fault) (inside : fault.cause ≠ .leftover) :
    ruleDefinitions (pattern limit) ((definitionFront name).toList ++ text) = .error fault := by
  rw [ruleDefinitions_define limit isName]
  rcases cases_of_wholePattern_eq_error failed with unread | ⟨body, next, bodyRead, found, rfl⟩
  · rw [unread]
  · rw [Fault.atNext_here] at inside
    by_cases foreign : isForeignOperator next.value = true
    · rw [bodyRead]
      dsimp only
      rw [ruleDefinitions_noName found (not_isNameStart_of_isForeignOperator foreign),
        Fault.atNext_here, Fault.atNext_here, if_pos foreign, if_pos foreign]
      rfl
    · exact absurd (if_neg foreign) inside

/-- With something left over there is a second definition, or a fault.  It is a
fault at what is left over if no name begins there. -/
theorem ruleDefinitions_of_leftover (isName : IsName name)
    (failed : wholePattern (pattern limit) text = .error fault)
    (leftover : fault.cause = .leftover) :
    (forall rules,
      ruleDefinitions (pattern limit) ((definitionFront name).toList ++ text) = .ok rules ->
      rules.length ≠ 1) ∧
    Exists fun next => Exists fun after => fault = ⟨.leftover, next :: after, after⟩ ∧
      (isNameStart next = false ->
        ruleDefinitions (pattern limit) ((definitionFront name).toList ++ text) =
          .error ⟨.missingRule, next :: after, after⟩) := by
  rcases wholePattern_leftover failed leftover with ⟨body, next, read, found, native, rfl⟩
  have defined := ruleDefinitions_define limit isName text
  rw [read] at defined
  dsimp only at defined
  rw [defined]
  constructor
  · intro rules rulesRead single
    cases others : ruleDefinitions (pattern limit) body.rest with
    | error fault =>
        rw [others] at rulesRead
        cases rulesRead
    | ok more =>
        rw [others] at rulesRead
        cases rulesRead
        have empty : more = [] := List.length_eq_zero_iff.mp (Nat.succ.inj single)
        exact ne_nil_of_ruleDefinitions found others empty
  · refine ⟨next.value, next.rest, rfl, fun noName => ?_⟩
    rw [ruleDefinitions_noName found noName, Fault.atNext_here, native, if_neg Bool.false_ne_true]
    rfl

end Define

/-! ## Offsets -/

/-- A report on a text, when the text comes behind another one. -/
def Report.behind (report : Report) (front : String) : Report where
  cause := report.cause
  start := report.start + front.utf8ByteSize
  stop := report.stop + front.utf8ByteSize
  charStart := report.charStart + front.length

/-- A fault has the same place in a text wherever the text begins. -/
theorem ofFault_behind {text : List Char} {fault : Fault} (place : fault.place <:+ text)
    (after : fault.after <:+ text) (front : String) :
    Report.ofFault (front.toList ++ text) fault = (Report.ofFault text fault).behind front := by
  have placeBytes : Text.byteLength fault.place ≤ Text.byteLength text := by
    rcases place with ⟨before, rfl⟩
    rw [Text.byteLength_append]
    exact Nat.le_add_left _ _
  have afterBytes : Text.byteLength fault.after ≤ Text.byteLength text := by
    rcases after with ⟨before, rfl⟩
    rw [Text.byteLength_append]
    exact Nat.le_add_left _ _
  have placeChars := place.length_le
  simp only [Report.ofFault, Report.behind, Text.byteLength_append, List.length_append,
    Text.utf8ByteSize_eq_byteLength, String.length_toList, Report.mk.injEq, true_and]
  omega

theorem Blames.suffixes {text : List Char} {fault : Fault} (blames : Blames text fault) :
    fault.place <:+ text ∧ fault.after <:+ text := by
  rcases blames with ⟨before, spanned, rfl, place, _⟩
  rw [place]
  exact ⟨List.suffix_append _ _, (List.suffix_append _ _).trans (List.suffix_append _ _)⟩

end Reader

open Reader

/-! ## Entry points -/

/-- What a report on a pattern is about lies in the text. -/
theorem Pattern.fault_of_ofText {text : String} {report : Report}
    (failed : Pattern.ofText text = .error report) :
    Exists fun fault => wholePattern (pattern heightLimit) text.toList = .error fault ∧
      Report.ofFault text.toList fault = report ∧
      fault.place <:+ text.toList ∧ fault.after <:+ text.toList := by
  rcases Pattern.ofText_eq_error.mp failed with ⟨fault, unread, reported⟩
  exact ⟨fault, unread, reported, (blames_of_wholePattern (by decide) unread).suffixes⟩

theorem Grammar.ofText_behind {front text : String} {fault : Fault}
    (failed : ruleDefinitions (pattern heightLimit) (front.toList ++ text.toList) = .error fault)
    (place : fault.place <:+ text.toList) (after : fault.after <:+ text.toList) :
    Grammar.ofText (front ++ text) = .error ((Report.ofFault text.toList fault).behind front) := by
  rw [Grammar.ofText, grammarBy, String.toList_append, failed, ← ofFault_behind place after]
  rfl

/-- A text behind a name and an arrow, against the text alone.  What is read as
a pattern is read as the only rule, with that name.  What is refused as a
pattern is refused for the same cause, as far behind the front as it was behind
the beginning of the text.  If something is left over behind a pattern then
there is never just the one rule; and it is no rule, at that place, if no name
can begin with it. -/
theorem Grammar.ofText_define {name : String} (isName : IsName name) (text : String) :
    (forall pattern, Pattern.ofText text = .ok pattern ->
      Grammar.ofText (definitionFront name ++ text) = .ok ⟨[⟨name, pattern⟩]⟩) ∧
    (forall report, Pattern.ofText text = .error report -> report.cause ≠ .leftover ->
      Grammar.ofText (definitionFront name ++ text) =
        .error (report.behind (definitionFront name))) ∧
    (forall report, Pattern.ofText text = .error report -> report.cause = .leftover ->
      (forall grammar, Grammar.ofText (definitionFront name ++ text) = .ok grammar ->
        grammar.rules.length ≠ 1) ∧
      Exists fun before => Exists fun next => Exists fun after =>
        text.toList = before ++ next :: after ∧
        report = ⟨.leftover, Text.byteLength before, Text.byteLength before + next.utf8Size,
          before.length⟩ ∧
        (isNameStart next = false ->
          Grammar.ofText (definitionFront name ++ text) =
            .error (Report.behind ⟨.missingRule, report.start, report.stop, report.charStart⟩
              (definitionFront name)))) := by
  refine ⟨fun pattern read => ?_, fun report failed inside => ?_, fun report failed leftover => ?_⟩
  · rw [ofText_eq_ok, String.toList_append]
    exact ruleDefinitions_of_wholePattern isName (Pattern.ofText_eq_ok.mp read)
  · rcases Pattern.fault_of_ofText failed with ⟨fault, unread, rfl, place, after⟩
    exact ofText_behind (ruleDefinitions_of_refused isName unread inside) place after
  · rcases Pattern.fault_of_ofText failed with ⟨fault, unread, rfl, place, _⟩
    rcases ruleDefinitions_of_leftover isName unread leftover with
      ⟨several, next, after, rfl, noRule⟩
    rcases place with ⟨before, split⟩
    refine ⟨fun grammar read => ?_, before, next, after, split.symm, ?_, fun noName => ?_⟩
    · rw [ofText_eq_ok, String.toList_append] at read
      exact several _ read
    · simp only [Report.ofFault, ← split, Text.byteLength_append, Text.byteLength_cons,
        List.length_append, Report.mk.injEq, true_and]
      omega
    · have suffix : after <:+ text.toList :=
        (List.suffix_cons next after).trans ⟨before, split⟩
      exact ofText_behind (noRule noName) ⟨before, split⟩ suffix

/-- A character, an escape that there is not, and a closing parenthesis that is
left over behind an accent. -/
theorem Grammar.ofText_define_two_letters :
    IsName "ab" ∧
      (Pattern.ofText "'x'" = .ok (.char 'x') ∧
        Grammar.ofText (definitionFront "ab" ++ "'x'") = .ok ⟨[⟨"ab", .char 'x'⟩]⟩) ∧
      (Pattern.ofText "\"é\\q\"" = .error ⟨.invalidEscape 'q', 3, 5, 2⟩ ∧
        Grammar.ofText (definitionFront "ab" ++ "\"é\\q\"") =
          .error ⟨.invalidEscape 'q', 9, 11, 8⟩) ∧
      (Pattern.ofText "'é' )" = .error ⟨.leftover, 5, 6, 4⟩ ∧
        Grammar.ofText (definitionFront "ab" ++ "'é' )") = .error ⟨.missingRule, 11, 12, 10⟩) := by
  have isName : IsName "ab" := by
    refine ⟨'a', ['b'], rfl, rfl, fun character listed => ?_⟩
    rw [List.mem_singleton.mp listed]
    rfl
  have character (symbol : Char) (rest : List Char)
      (raw : symbol ≠ '\'' ∧ symbol ≠ '\\' ∧ symbol ≠ '\n') :
      SpellsPattern 0 ('\'' :: symbol :: '\'' :: rest) (.char symbol) rest :=
    .tighter (.tighter (.tighter (.tighter
      (.atom (.nothing _) (.char (.raw raw.1 raw.2.1 raw.2.2 .close))))))
  have read : Pattern.ofText "'x'" = .ok (.char 'x') :=
    Pattern.ofText_eq_ok.mpr ((wholePattern_eq_ok (by decide) _ _).mpr
      ⟨⟨[], character 'x' [] (by decide), .nothing []⟩, by decide⟩)
  have refused : Pattern.ofText "\"é\\q\"" = .error ⟨.invalidEscape 'q', 3, 5, 2⟩ := by
    have text : "\"é\\q\"".toList = ['"', 'é', '\\', 'q', '"'] := rfl
    have unread : wholePattern (pattern heightLimit) ['"', 'é', '\\', 'q', '"'] =
        .error ⟨.invalidEscape 'q', ['\\', 'q', '"'], ['"']⟩ := rfl
    rw [Pattern.ofText, patternBy, text, unread]
    rfl
  have leftOver : Pattern.ofText "'é' )" = .error ⟨.leftover, 5, 6, 4⟩ := by
    have left : skipTrivia [' ', ')'] = [')'] := rfl
    have unread : wholePattern (pattern heightLimit) "'é' )".toList =
        .error ⟨.leftover, [')'], []⟩ :=
      wholePattern_of_spells (character 'é' [' ', ')'] (by decide)) (by decide)
        (.of_skipTrivia left (by decide) (by decide) (by decide)) left (by decide)
    rw [Pattern.ofText, patternBy, unread]
    rfl
  rcases Grammar.ofText_define isName "'x'" with ⟨reads, _, _⟩
  rcases Grammar.ofText_define isName "\"é\\q\"" with ⟨_, refuses, _⟩
  rcases Grammar.ofText_define isName "'é' )" with ⟨_, _, leaves⟩
  rcases leaves _ leftOver rfl with ⟨_, before, next, after, split, same, noRule⟩
  have size : ['\'', 'é', '\'', ' '].length = before.length := congrArg Report.charStart same
  rcases List.append_inj (show ['\'', 'é', '\'', ' '] ++ [')'] = before ++ next :: after from split)
    size with ⟨_, found⟩
  cases found
  exact ⟨isName, ⟨read, reads _ read⟩, ⟨refused, refuses _ refused (by decide)⟩, leftOver, noRule rfl⟩

end ParsingMachine
