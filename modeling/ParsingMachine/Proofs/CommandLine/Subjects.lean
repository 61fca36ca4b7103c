import ParsingMachine.Proofs.CommandLine.Arguments
import ParsingMachine.Proofs.Program.Budget
import ParsingMachine.Proofs.Program.Compiling
import ParsingMachine.Proofs.Reader.RoundTrip

namespace ParsingMachine
namespace CommandLine

open Text

/-!
# Several subjects

Subjects on one command line do not know of each other: what is printed for
one of them is what a run prints that is given no other subject.  Only a match
without an answer reaches farther, since it ends the run, and what was printed
before it has been printed.

Whether a subject matched can be told from the beginning of what is printed for
it, whatever the subject is and whatever stands behind: quotes and line ends are
escaped in a quoted text, so that it ends with its second quote.
-/

/-! ## Lines -/

/-- The line for a subject that matched up to a position. -/
def matchedLine (subject : String) (position : Nat) : String :=
  quotedString subject ++ " matched " ++ quotedText (takeBytes position subject.toList) ++
    ", up to " ++ toString position ++ "\n"

/-- No character of a quoted text begins with the quote. -/
theorem visibleChar_begins (character : Char) :
    Exists fun first => Exists fun rest =>
      visibleChar '"' character = first :: rest ∧ first ≠ '"' := by
  unfold visibleChar
  split
  · next letter _ => exact ⟨'\\', [letter], rfl, by decide⟩
  · next raw =>
      split
      · exact ⟨'\\', _, rfl, by decide⟩
      · refine ⟨character, [], rfl, ?_⟩
        rintro rfl
        cases raw

/-- A beginning that ends in the same place as the whole is the whole. -/
private theorem quoted_unique_of_isPrefix {beginning whole rest wholeRest : List Char}
    (begins : beginning <+: whole)
    (same : beginning.flatMap (visibleChar '"') ++ '"' :: rest =
      whole.flatMap (visibleChar '"') ++ '"' :: wholeRest) :
    beginning = whole ∧ rest = wholeRest := by
  rcases begins with ⟨more, rfl⟩
  rw [List.flatMap_append, List.append_assoc] at same
  have remaining := List.append_cancel_left same
  cases more with
  | nil => exact ⟨(List.append_nil _).symm, (List.cons.inj remaining).2⟩
  | cons character more =>
      rcases visibleChar_begins character with ⟨first, others, visible, noQuote⟩
      rw [List.flatMap_cons, visible] at remaining
      exact absurd (List.cons.inj remaining).1.symm noQuote

/-- Two beginnings of one text that end in the same place are the same. -/
private theorem quoted_unique {text one other rest otherRest : List Char} (oneBegins : one <+: text)
    (otherBegins : other <+: text)
    (same : one.flatMap (visibleChar '"') ++ '"' :: rest =
      other.flatMap (visibleChar '"') ++ '"' :: otherRest) :
    one = other ∧ rest = otherRest := by
  rcases List.prefix_or_prefix_of_prefix oneBegins otherBegins with begins | begins
  · exact quoted_unique_of_isPrefix begins same
  · exact (quoted_unique_of_isPrefix begins same.symm).imp Eq.symm Eq.symm

private theorem noNewLine_toString (number : Nat) : '\n' ∉ (toString number).toList := by
  intro listed
  have digits : (toString number).toList = Nat.toDigits 10 number := Nat.toList_repr
  rw [digits] at listed
  exact absurd (Nat.isDigit_of_mem_toDigits (by decide) (by decide) listed) (by decide)

private theorem toString_injective {one other : Nat}
    (same : (toString one).toList = (toString other).toList) : one = other := by
  have digits : Nat.toDigits 10 one = Nat.toDigits 10 other := by
    rw [← Nat.toList_repr, ← Nat.toList_repr]
    exact same
  rw [← Nat.ofDigitChars_ten_toDigits (n := one), digits, Nat.ofDigitChars_ten_toDigits]

/-- The position can be read off a line. -/
private theorem position_unique {subject rest otherRest : String} {position other : Nat}
    (same : matchedLine subject position ++ rest = matchedLine subject other ++ otherRest) :
    position = other := by
  have newLine : "\n".toList = ['\n'] := rfl
  have characters := congrArg String.toList same
  simp only [matchedLine, quotedText, quotedWith, String.toList_append, String.toList_ofList,
    List.append_assoc, List.cons_append, List.nil_append, newLine] at characters
  have fromWord := List.append_cancel_left characters
  have fromQuote := (List.cons.inj (List.append_cancel_left fromWord)).2
  have begins (count : Nat) : takeBytes count subject.toList <+: subject.toList :=
    ⟨_, takeBytes_append_dropBytes count subject.toList⟩
  have behindQuote := (quoted_unique (begins position) (begins other) fromQuote).2
  have digits := List.append_cancel_left behindQuote
  exact toString_injective (cut_unique (noNewLine_toString _) (noNewLine_toString _) digits).1

/-- A match counts if it does not have to take up the whole subject or does. -/
def Counts (full : Bool) (subject : String) (position : Nat) : Prop :=
  full = true -> position = subject.utf8ByteSize

/-- What is printed for a subject says up to where it matched, or that there is
no match. -/
private theorem matchLine_cases (full : Bool) (subject : String) (matched : Option Nat) :
    (Exists fun position => matched = some position ∧ Counts full subject position ∧
      matchLine full subject matched = matchedLine subject position) ∨
    (forall position, matched = some position -> ¬ Counts full subject position) ∧
      Exists fun reason =>
        matchLine full subject matched = quotedString subject ++ (": no match" ++ reason) := by
  cases matched with
  | none => exact Or.inr ⟨fun position reached => (nomatch reached), "\n", rfl⟩
  | some position =>
      by_cases counts : Counts full subject position
      · have whole : ¬ (full && decide (position ≠ subject.utf8ByteSize)) = true := by
          rw [Bool.and_eq_true, decide_eq_true_eq]
          exact fun both => both.2 (counts both.1)
        refine Or.inl ⟨position, rfl, counts, ?_⟩
        rw [matchLine, if_neg whole]
        rfl
      · have part : (full && decide (position ≠ subject.utf8ByteSize)) = true := by
          rw [Bool.and_eq_true, decide_eq_true_eq]
          exact Classical.not_imp.mp counts
        have words :
            ": no match (only got as far as " = ": no match" ++ " (only got as far as " := rfl
        refine Or.inr ⟨fun reached same => Option.some.inj same ▸ counts,
          " (only got as far as " ++ (toString position ++
            (", " ++ (quotedText (takeBytes position subject.toList) ++ ")\n"))), ?_⟩
        rw [matchLine, if_pos part, words]
        simp only [String.append_assoc]

/-- What is printed for a subject begins with the line for a position exactly if
the subject matched up to there and that counts. -/
theorem matchLine_begins_iff {full : Bool} {subject more : String} {matched : Option Nat}
    {position : Nat} :
    (Exists fun rest => matchLine full subject matched ++ more =
        matchedLine subject position ++ rest) <->
      matched = some position ∧ Counts full subject position := by
  rcases matchLine_cases full subject matched with
    ⟨reached, rfl, counts, line⟩ | ⟨refused, reason, line⟩
  · rw [line]
    constructor
    · rintro ⟨rest, same⟩
      rcases position_unique same with rfl
      exact ⟨rfl, counts⟩
    · rintro ⟨same, _⟩
      exact ⟨more, Option.some.inj same ▸ rfl⟩
  · rw [line]
    refine iff_of_false ?_ fun both => refused position both.1 both.2
    rintro ⟨rest, same⟩
    have characters := congrArg String.toList same
    simp only [matchedLine, String.toList_append, List.append_assoc] at characters
    have fromWord := List.append_cancel_left characters
    cases (List.cons.inj fromWord).1

/-! ## Matches -/

/-- There is no answer for the subject, because the limit that the match was given
is used up. -/
def HitsLimit (program : Program) (config : MatchConfig) (subject : String) : Prop :=
  Exists fun limit => config.stepLimit = some limit ∧
    program.matchWith config subject = .error (.stepLimit limit)

/-- The match for the subject comes to an end, after instructions that can be
counted. -/
def Ends (program : Program) (subject : String) : Prop :=
  Exists fun count => count < UInt64.size ∧ Exists fun matched =>
    Machine.Leads program count (.start subject.toList) (.finished matched)

section Matches

variable {program : Program} {config : MatchConfig} {full : Bool}

theorem showMatches_singleton_of_answered (full : Bool) {subject : String} {outcome : Outcome}
    (answered : program.matchWith config subject = .ok outcome) :
    showMatches program config full [subject] =
      (matchLine full subject outcome.matched ++ (outcome.profile.map Profile.text).getD "",
        none) := by
  simp only [showMatches, showMatch, answered, String.append_empty]

theorem showMatches_cons_of_error {subject : String} {error : MatchError} (after : List String)
    (unanswered : program.matchWith config subject = .error error) :
    showMatches program config full (subject :: after) = ("", some (.unmatched subject error)) := by
  simp only [showMatches, showMatch, unanswered]

/-- Subjects with an answer are shown one after another, as each of them is shown
alone, and do not change what is shown behind them. -/
theorem showMatches_append (full : Bool) {before : List String}
    (answered : forall subject, subject ∈ before ->
      Exists fun outcome => program.matchWith config subject = .ok outcome) (after : List String) :
    showMatches program config full (before ++ after) =
      (String.join (before.map fun subject => (showMatches program config full [subject]).1) ++
        (showMatches program config full after).1, (showMatches program config full after).2) := by
  induction before with
  | nil => rw [List.nil_append, List.map_nil, String.join_nil, String.empty_append]
  | cons subject before inductionHypothesis =>
      rcases List.forall_mem_cons.mp answered with ⟨⟨outcome, first⟩, others⟩
      have alone := showMatches_singleton_of_answered full first
      rw [List.cons_append, List.map_cons, String.join_cons, alone, String.append_assoc,
        showMatches, showMatch, first]
      simp only [inductionHypothesis others]

/-- A compiled program has an answer for a subject, or uses up its limit.  Without
a limit the match has to come to an end. -/
theorem answered_of_not_hitsLimit {grammar : Grammar} {start : String}
    (compiled : grammar.compile start = .ok program) {subject : String}
    (ends : config.stepLimit = none -> Ends program subject)
    (within : ¬ HitsLimit program config subject) :
    Exists fun outcome => program.matchWith config subject = .ok outcome := by
  cases limited : config.stepLimit with
  | none =>
      rcases ends limited with ⟨count, counted, matched, leads⟩
      have allows : config.Allows count := fun limit given => nomatch limited.symm.trans given
      rcases Program.matchWith_eq_ok_iff.mpr ⟨count, ⟨counted, allows⟩, leads⟩ with
        ⟨outcome, answered, _⟩
      exact ⟨outcome, answered⟩
  | some limit =>
      cases answer : program.matchWith config subject with
      | ok outcome => exact ⟨outcome, rfl⟩
      | error error =>
          rcases Program.error_of_matchWith compiled answer with rfl
          rw [limited] at answer
          exact absurd ⟨limit, limited, answer⟩ within

/-- A subject is shown as matched up to a position exactly if it matched up to
there and that counts. -/
theorem showMatches_begins_iff {subject : String} {position : Nat} :
    (Exists fun rest => (showMatches program config full [subject]).1 =
        matchedLine subject position ++ rest) <->
      Exists fun outcome => program.matchWith config subject = .ok outcome ∧
        outcome.matched = some position ∧ Counts full subject position := by
  cases answer : program.matchWith config subject with
  | ok outcome =>
      rw [showMatches_singleton_of_answered full answer]
      simp only [matchLine_begins_iff, Except.ok.injEq, exists_eq_left']
  | error error =>
      rw [showMatches_cons_of_error [] answer]
      refine iff_of_false ?_ (fun ⟨_, impossible, _⟩ => nomatch impossible)
      rintro ⟨rest, same⟩
      have characters := congrArg String.toList same
      simp only [matchedLine, quotedString, quotedText, quotedWith, String.toList_append,
        String.toList_ofList, List.cons_append] at characters
      cases characters

end Matches

/-! ## The objection to a subject -/

/-- A text on one line is put behind blanks as it is. -/
theorem indented_of_oneLine {text : String} (oneLine : '\n' ∉ text.toList) :
    Failure.indented text = "    " ++ text := by
  have kept : forall characters : List Char, '\n' ∉ characters ->
      (characters.flatMap fun character =>
        if character = '\n' then '\n' :: "    ".toList else [character]) = characters := by
    intro characters
    induction characters with
    | nil => exact fun _ => rfl
    | cons first rest inductionHypothesis =>
        intro oneLine
        rcases List.ne_and_not_mem_of_not_mem_cons oneLine with ⟨different, oneLine⟩
        rw [List.flatMap_cons, if_neg (Ne.symm different), inductionHypothesis oneLine]
        rfl
  unfold Failure.indented
  rw [kept _ oneLine, String.ofList_append]
  simp only [String.ofList_toList]

/-- What is said where the steps are used up. -/
theorem text_of_stepLimit (subject : String) (limit : UInt64) :
    (Failure.unmatched subject (.stepLimit limit)).text =
      "Error: while matching " ++ quotedString subject ++ "\n\nCaused by:\n    gave up after " ++
        toString limit ++ " steps without an answer\n" := by
  have message : (MatchError.stepLimit limit).message =
      "gave up after " ++ toString limit ++ " steps without an answer" := by
    unfold MatchError.message
    dsimp only
  have before : '\n' ∉ "gave up after ".toList := by decide
  have behind : '\n' ∉ " steps without an answer".toList := by decide
  have oneLine : '\n' ∉ (MatchError.stepLimit limit).message.toList := by
    simp only [message, String.toList_append, List.mem_append, not_or]
    exact ⟨⟨before, noNewLine_toString limit.toNat⟩, behind⟩
  have told := indented_of_oneLine oneLine
  have opening : "Error: while matching " = "Error: " ++ "while matching " := by decide
  have cause : "\n\nCaused by:\n    gave up after " =
      "\n" ++ ("\nCaused by:\n" ++ ("    " ++ "gave up after ")) := by decide
  have ending : " steps without an answer\n" = " steps without an answer" ++ "\n" := by decide
  unfold Failure.text Failure.message Failure.reason?
  simp only [told]
  simp only [message, opening, cause, ending, String.append_assoc]

/-! ## Runs -/

/-- A run that has subjects and is not to ask for more shows them and ends. -/
theorem run_of_session {readFile : String -> Except String String} {arguments : List String}
    {options : Options} {session : Session} (noHelp : asksForHelp arguments = false)
    (read : Options.ofArguments arguments = .ok options)
    (made : options.session readFile = .ok session) (ends : options.interactive = false)
    (nonempty : options.subjects ≠ []) :
    run readFile arguments =
      ⟨(showMatches session.program session.config session.full options.subjects).1,
        (showMatches session.program session.config session.full options.subjects).2, none⟩ := by
  have notEmpty : options.subjects.isEmpty = false := List.isEmpty_eq_false_iff.mpr nonempty
  rw [run, noHelp, if_neg Bool.false_ne_true]
  simp only [read, made, ends, notEmpty, Bool.or_self, Bool.and_false, if_neg Bool.false_ne_true]

/-- The grammar file can be read and has a program from the start rule that is
chosen, and matches are run with this configuration. -/
structure Settings.Ready (settings : Settings) (readFile : String -> Except String String)
    (name : String) (program : Program) (config : MatchConfig) : Prop where
  compiled : Exists fun source => Exists fun grammar => Exists fun start =>
    readFile name = .ok source ∧ Grammar.ofText source = .ok grammar ∧
      (settings.start.orElse fun _ => grammar.startRule?) = some start ∧
        grammar.compile start = .ok program
  counted : numberValue settings.steps = .ok config.stepLimit
  profiled : config.profile = settings.profile

namespace Settings.Ready

variable {settings : Settings} {readFile : String -> Except String String} {name : String}
variable {program : Program} {config : MatchConfig} {arguments subjects : List String}

/-- A start rule that is there has a name, and a name is no option. -/
private theorem startPlain (ready : settings.Ready readFile name program config) :
    forall start, settings.start = some start -> IsPlain start := by
  intro chosen given
  rcases ready.compiled with ⟨source, grammar, start, _, read, starts, compiled⟩
  rw [given] at starts
  rcases Option.some.inj starts with rfl
  have listed := ((Grammar.compileBy_succeeds_iff RuleTable.lowering_copies).mp
    ⟨program, compiled⟩).starts
  rcases List.mem_map.mp listed with ⟨rule, member, rfl⟩
  rcases ((Grammar.spells_of_ofText read).1.named rule member).1 with ⟨first, part, same, begins, _⟩
  refine isPlain_of_noDash fun dash => ?_
  rw [same, String.toList_ofList] at dash
  rcases Option.some.inj dash with rfl
  cases begins

/-- A run with these settings shows the subjects in order, and does not ask for
more. -/
private theorem run_eq (ready : settings.Ready readFile name program config)
    (spelled : settings.Spells arguments (name :: subjects))
    (plain : forall argument, argument ∈ name :: subjects -> IsPlain argument)
    (nonempty : subjects ≠ []) :
    run readFile arguments =
      ⟨(showMatches program config settings.full subjects).1,
        (showMatches program config settings.full subjects).2, none⟩ := by
  rcases (Options.ofArguments_iff_spells plain ready.startPlain).mpr
    ⟨settings.steps, ready.counted, spelled⟩ with ⟨noHelp, read⟩
  rcases ready.compiled with ⟨source, grammar, start, file, parsed, starts, compiled⟩
  have session (options : Options) (grammarFile : options.grammar = name)
      (startRule : options.start = settings.start) :
      options.session readFile = .ok ⟨grammar, program, options.config, options.full⟩ := by
    rw [Options.session, grammarFile, startRule, file]
    simp only [Except.mapError, bind, Except.bind, parsed, starts, compiled]
    rfl
  have matchConfig : MatchConfig.mk config.stepLimit settings.profile = config := by
    rw [← ready.profiled]
  have shown := run_of_session noHelp read (session _ rfl rfl) rfl nonempty
  rw [shown, ← matchConfig]
  rfl

private theorem alone_eq (ready : settings.Ready readFile name program config)
    (plain : forall argument, argument ∈ name :: subjects -> IsPlain argument)
    {alone : String -> List String}
    (spelledAlone : forall subject, subject ∈ subjects ->
      settings.Spells (alone subject) [name, subject]) :
    forall subject, subject ∈ subjects -> (run readFile (alone subject)).output =
      (showMatches program config settings.full [subject]).1 := by
  intro subject listed
  have both : forall argument, argument ∈ [name, subject] -> IsPlain argument := by
    intro argument among
    rcases List.mem_cons.mp among with rfl | among
    · exact plain _ List.mem_cons_self
    · rcases List.mem_singleton.mp among with rfl
      exact plain _ (List.mem_cons_of_mem _ listed)
  rw [ready.run_eq (spelledAlone subject listed) both (List.cons_ne_nil _ _)]

end Settings.Ready

/-- Several subjects on one command line are like several runs with the same
settings.  What is printed for them is what is printed for each of them alone, up
to the first one for which the limit is used up.  If there is none, the run is
fine.  Else it ends there, and the objection names that subject.  Without a limit
nothing ends the run but its matches, which then have to come to an end.

A subject is shown as matched up to a position exactly if it matched up to there,
and with `full` only as a whole. -/
theorem run_shows_each_alone {settings : Settings} {readFile : String -> Except String String}
    {name : String} {program : Program} {config : MatchConfig} {arguments subjects : List String}
    {alone : String -> List String} (ready : settings.Ready readFile name program config)
    (spelled : settings.Spells arguments (name :: subjects))
    (spelledAlone : forall subject, subject ∈ subjects ->
      settings.Spells (alone subject) [name, subject])
    (plain : forall argument, argument ∈ name :: subjects -> IsPlain argument)
    (nonempty : subjects ≠ []) :
    ((config.stepLimit = none -> forall subject, subject ∈ subjects -> Ends program subject) ->
      (forall subject, subject ∈ subjects -> ¬ HitsLimit program config subject) ->
      (run readFile arguments).output =
          String.join (subjects.map fun subject => (run readFile (alone subject)).output) ∧
        (run readFile arguments).status? = some 0 ∧ (run readFile arguments).errorText = none) ∧
    (forall before subject after limit, subjects = before ++ subject :: after ->
      (forall earlier, earlier ∈ before -> ¬ HitsLimit program config earlier) ->
      program.matchWith config subject = .error (.stepLimit limit) ->
      (run readFile arguments).output =
          String.join (before.map fun subject => (run readFile (alone subject)).output) ∧
        (run readFile arguments).status? = some 1 ∧
        (run readFile arguments).errorText =
          some ("Error: while matching " ++ quotedString subject ++
            "\n\nCaused by:\n    gave up after " ++ toString limit ++
              " steps without an answer\n")) ∧
    forall subject, subject ∈ subjects -> forall position,
      (Exists fun rest =>
          (run readFile (alone subject)).output = matchedLine subject position ++ rest) <->
        Exists fun outcome => program.matchWith config subject = .ok outcome ∧
          outcome.matched = some position ∧ Counts settings.full subject position := by
  have shownAlone := ready.alone_eq plain spelledAlone
  rcases ready.compiled with ⟨_, _, _, _, _, _, compiled⟩
  have answered {part : List String}
      (ends : config.stepLimit = none -> forall subject, subject ∈ part -> Ends program subject)
      (within : forall subject, subject ∈ part -> ¬ HitsLimit program config subject) :
      forall subject, subject ∈ part ->
        Exists fun outcome => program.matchWith config subject = .ok outcome :=
    fun subject listed => answered_of_not_hitsLimit compiled
      (fun unlimited => ends unlimited subject listed) (within subject listed)
  rw [ready.run_eq spelled plain nonempty]
  refine ⟨fun ends within => ?_, ?_, ?_⟩
  · have shown := showMatches_append settings.full (answered ends within) []
    rw [List.append_nil] at shown
    rw [shown, List.map_congr_left shownAlone]
    exact ⟨String.append_empty, rfl, rfl⟩
  · rintro before subject after limit rfl within unanswered
    have limited := MatchError.ofLimit_eq_stepLimit_iff.mp
      (Program.error_of_matchWith compiled unanswered).symm
    have ends : config.stepLimit = none -> forall subject, subject ∈ before ->
        Ends program subject := fun unlimited => nomatch unlimited.symm.trans limited
    have earlier : forall subject, subject ∈ before -> (run readFile (alone subject)).output =
        (showMatches program config settings.full [subject]).1 :=
      fun subject listed => shownAlone subject (List.mem_append_left _ listed)
    rw [showMatches_append settings.full (answered ends within),
      showMatches_cons_of_error after unanswered, List.map_congr_left earlier]
    exact ⟨String.append_empty, rfl, congrArg some (text_of_stepLimit subject limit)⟩
  · intro subject listed position
    rw [shownAlone subject listed]
    exact showMatches_begins_iff

/-- Any number of crosses. -/
def crosses : Grammar :=
  ⟨[⟨"a", .zeroOrMore (.char 'x')⟩]⟩

/-- The program for crosses. -/
def crossesProgram : Program where
  code := #[.choice 3, .matchText "x", .commit (-2), .returnToCaller]
  entries := [("a", 0)]

/-- Every file holds the grammar for crosses. -/
def crossesFile (_ : String) : Except String String := .ok "a <- *'x'"

open Reader in
private theorem crosses_read : Grammar.ofText "a <- *'x'" = .ok crosses := by
  have name : SpellsName "a <- *'x'".toList "a" " <- *'x'".toList :=
    .name rfl (fun _ inside => absurd inside List.not_mem_nil)
      (fun _ behind => Option.some.inj behind ▸ rfl)
  have cross : SpellsPattern 2 ['\'', 'x', '\''] (.char 'x') [] :=
    .tighter (.tighter (.atom (.nothing _)
      (.char (.raw (by decide) (by decide) (by decide) .close))))
  have body : SpellsPattern 0 " *'x'".toList (.zeroOrMore (.char 'x')) [] :=
    .tighter (.tighter (.unary (.blank rfl (.nothing _)) rfl cross))
  have spelled : SpellsRules "a <- *'x'".toList crosses.rules :=
    .rule (.nothing _) name (.blank rfl (.nothing _)) body (.none (.nothing []))
  exact Grammar.ofText_eq_ok.mpr ((ruleDefinitions_eq_ok (by decide) _ _).mpr
    ⟨spelled, by decide⟩)

private theorem crosses_ready {steps : Option String} {limit : Option UInt64}
    (counted : numberValue steps = .ok limit) (full : Bool) :
    (Settings.mk none steps false full).Ready crossesFile "g.peg" crossesProgram ⟨limit, false⟩ :=
  ⟨⟨_, _, _, rfl, crosses_read, rfl, rfl⟩, counted, rfl⟩

private theorem crosses_isPlain :
    forall argument, argument ∈ ["g.peg", "", "y", "x", ""] -> IsPlain argument := by
  intro argument listed
  refine isPlain_of_noDash ?_
  revert argument
  decide

/-- Six steps match a cross, and three the empty subject. -/
private theorem crosses_ends :
    forall subject, subject ∈ ["x", ""] -> Ends crossesProgram subject := by
  intro subject listed
  rcases List.mem_cons.mp listed with rfl | listed
  · exact ⟨6, by decide, _, .onward rfl (.onward rfl (.onward rfl (.onward rfl (.onward rfl
      (.last rfl)))))⟩
  · rcases List.mem_singleton.mp listed with rfl
    exact ⟨3, by decide, _, .onward rfl (.onward rfl (.last rfl))⟩

/-- Arguments with no option among them are those of the settings that choose nothing. -/
private theorem spells_plainly (arguments : List String) :
    (Settings.mk none none false false).Spells arguments arguments :=
  ⟨_, _, _, ⟨[], _, rfl, rfl⟩, ⟨[], _, rfl, rfl⟩, ⟨_, .none, [], _, rfl, rfl⟩,
    ⟨_, .none, [], _, rfl, rfl⟩⟩

private theorem join_pair (one other : String) : String.join [one, other] = one ++ other := by
  rw [String.join_cons, String.join_cons]
  exact congrArg _ String.append_empty

/-- Three steps are enough where there is no cross, and five are too few where
there is one.  Of the four subjects the first two are shown, the empty one as
matched and the other not.  Without a limit the run shows two subjects and is
fine. -/
theorem crosses_shows_each_alone :
    (Settings.mk none (some "5") false true).Ready crossesFile "g.peg" crossesProgram
      ⟨some 5, false⟩ ∧
    ((run crossesFile ["--steps", "5", "g.peg", "", "y", "--full", "x", ""]).output =
        (run crossesFile ["--full", "g.peg", "", "--steps=5"]).output ++
          (run crossesFile ["--full", "g.peg", "y", "--steps=5"]).output ∧
      (run crossesFile ["--steps", "5", "g.peg", "", "y", "--full", "x", ""]).errorText =
        some ("Error: while matching " ++ quotedString "x" ++
          "\n\nCaused by:\n    gave up after " ++ toString (5 : UInt64) ++
            " steps without an answer\n")) ∧
    (Exists fun rest =>
      (run crossesFile ["--full", "g.peg", "", "--steps=5"]).output =
        matchedLine "" 0 ++ rest) ∧
    (¬ Exists fun rest =>
      (run crossesFile ["--full", "g.peg", "y", "--steps=5"]).output =
        matchedLine "y" 0 ++ rest) ∧
    (run crossesFile ["g.peg", "x", ""]).output =
        (run crossesFile ["g.peg", "x"]).output ++ (run crossesFile ["g.peg", ""]).output ∧
      (run crossesFile ["g.peg", "x", ""]).status? = some 0 := by
  have spelled : (Settings.mk none (some "5") false true).Spells
      ["--steps", "5", "g.peg", "", "y", "--full", "x", ""] ["g.peg", "", "y", "x", ""] :=
    ⟨_, _, _, ⟨["g.peg", "", "y"], ["x", ""], rfl, rfl⟩, ⟨[], _, rfl, rfl⟩,
      ⟨_, .behind "5", [], _, rfl, rfl⟩, ⟨_, .none, [], _, rfl, rfl⟩⟩
  have spelledAlone (subject : String) : (Settings.mk none (some "5") false true).Spells
      ["--full", "g.peg", subject, "--steps=5"] ["g.peg", subject] :=
    ⟨_, _, _, ⟨[], _, rfl, rfl⟩, ⟨[], _, rfl, rfl⟩,
      ⟨["--steps=5"], .attached rfl rfl, ["--full", "g.peg", subject], [], rfl, rfl⟩,
      ⟨_, .none, [], _, rfl, rfl⟩⟩
  have empty : crossesProgram.matchWith ⟨some 5, false⟩ "" = .ok ⟨some 0, 3, none⟩ := rfl
  have other : crossesProgram.matchWith ⟨some 5, false⟩ "y" = .ok ⟨some 0, 3, none⟩ := rfl
  have unanswered : crossesProgram.matchWith ⟨some 5, false⟩ "x" = .error (.stepLimit 5) := rfl
  rcases run_shows_each_alone (crosses_ready rfl true) spelled
    (fun subject _ => spelledAlone subject) crosses_isPlain (List.cons_ne_nil _ _) with
    ⟨_, stopped, shown⟩
  have within : forall earlier, earlier ∈ ["", "y"] ->
      ¬ HitsLimit crossesProgram ⟨some 5, false⟩ earlier := by
    intro earlier listed ⟨limit, _, hits⟩
    rcases List.mem_cons.mp listed with rfl | listed
    · exact nomatch empty.symm.trans hits
    · rcases List.mem_singleton.mp listed with rfl
      exact nomatch other.symm.trans hits
  rcases stopped ["", "y"] "x" [""] 5 rfl within unanswered with ⟨output, _, objection⟩
  have fewer : forall argument, argument ∈ ["g.peg", "x", ""] -> IsPlain argument := by
    refine fun argument listed => crosses_isPlain argument ?_
    revert argument
    decide
  rcases (run_shows_each_alone (crosses_ready rfl false) (spells_plainly ["g.peg", "x", ""])
    (fun subject _ => spells_plainly ["g.peg", subject]) fewer (List.cons_ne_nil _ _)).1
    (fun _ => crosses_ends) (fun _ _ ⟨_, given, _⟩ => nomatch given) with ⟨all, fine, _⟩
  refine ⟨crosses_ready rfl true, ⟨output.trans (join_pair _ _), objection⟩, ?_, ?_,
    all.trans (join_pair _ _), fine⟩
  · exact (shown "" List.mem_cons_self 0).mpr ⟨_, empty, rfl, fun _ => rfl⟩
  · intro line
    have listed : "y" ∈ ["", "y", "x", ""] := by decide
    rcases (shown "y" listed 0).mp line with ⟨_, _, _, counts⟩
    exact absurd (counts rfl) (by decide)

end CommandLine
end ParsingMachine
