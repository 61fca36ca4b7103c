import ParsingMachine.CommandLine
import ParsingMachine.Proofs.Program.Implementation

namespace ParsingMachine
namespace CommandLine

/-!
# Options among the arguments

Options may stand anywhere among the other arguments, in any order, and the
value of an option may stand behind it or behind an equals sign.  Command lines
with given settings are therefore described the way they come about: to the
arguments that are no options the options are put in one after another, each of
them somewhere.

They are taken out in the opposite order, which is the one that counts.  The
option that is taken out first may have been put in between another option and
its value; once it is out, the value stands behind its option again.
-/

/-- A text is cut at the first mark in one way only. -/
theorem cut_unique {α : Type} {mark : α} {front other rest otherRest : List α}
    (clear : mark ∉ front) (otherClear : mark ∉ other)
    (same : front ++ mark :: rest = other ++ mark :: otherRest) :
    front = other ∧ rest = otherRest := by
  induction front generalizing other with
  | nil =>
      cases other with
      | nil => exact ⟨rfl, (List.cons.inj same).2⟩
      | cons first others =>
          exact absurd (List.mem_cons.mpr (Or.inl (List.cons.inj same).1)) otherClear
  | cons first others inductionHypothesis =>
      cases other with
      | nil => exact absurd (List.mem_cons.mpr (Or.inl (List.cons.inj same).1.symm)) clear
      | cons otherFirst behind =>
          rcases List.cons.inj same with ⟨rfl, remaining⟩
          rcases inductionHypothesis (fun inside => clear (List.mem_cons_of_mem _ inside))
            (fun inside => otherClear (List.mem_cons_of_mem _ inside)) remaining with ⟨rfl, equal⟩
          exact ⟨rfl, equal⟩

/-! ## Words -/

/-- The words that mean something to the command line. -/
def words : List String :=
  ["-h", "--help", "--start", "--steps", "--profile", "--full", "--repl"]

/-- An argument that cannot be taken for this option, with its value or without. -/
def IsApart (key argument : String) : Prop :=
  argument ≠ key ∧ attached? key argument = none

/-- An argument that cannot be taken for an option. -/
structure IsPlain (argument : String) : Prop where
  word : argument ∉ words
  start : attached? "--start" argument = none
  steps : attached? "--steps" argument = none

theorem attached?_eq_some_iff {key argument : String} {text : List Char} :
    attached? key argument = some text <-> argument.toList = key.toList ++ '=' :: text := by
  have sign : key.toList ++ '=' :: text = (key.toList ++ ['=']) ++ text :=
    (List.append_assoc _ ['='] text).symm
  rw [sign, attached?]
  constructor
  · intro found
    split at found
    · next begins =>
        rcases List.isPrefixOf_iff_prefix.mp begins with ⟨rest, whole⟩
        rw [← whole, List.drop_left] at found
        rw [← whole, Option.some.inj found]
    · cases found
  · intro whole
    rw [whole, if_pos (List.isPrefixOf_iff_prefix.mpr (List.prefix_append _ _)), List.drop_left]

section Attached

variable {key argument other : String} {text : List Char}

/-- An option with an equals sign is no word without one. -/
theorem ne_of_attached (found : attached? key argument = some text) (noSign : '=' ∉ other.toList) :
    argument ≠ other := by
  rintro rfl
  rw [attached?_eq_some_iff.mp found] at noSign
  exact noSign (List.mem_append_right _ List.mem_cons_self)

/-- An option with an equals sign is no other option with one. -/
theorem isApart_of_attached (found : attached? key argument = some text) (different : key ≠ other)
    (noSign : '=' ∉ key.toList) (otherNoSign : '=' ∉ other.toList) : IsApart other argument := by
  refine ⟨ne_of_attached found otherNoSign, Option.eq_none_iff_forall_ne_some.mpr ?_⟩
  intro otherText otherFound
  have same := (attached?_eq_some_iff.mp found).symm.trans (attached?_eq_some_iff.mp otherFound)
  exact different (String.toList_inj.mp (cut_unique noSign otherNoSign same).1)

end Attached

/-- Options begin with a dash. -/
theorem isPlain_of_noDash {argument : String} (noDash : argument.toList.head? ≠ some '-') :
    IsPlain argument where
  word listed := by
    have dashes : forall word, word ∈ words -> word.toList.head? = some '-' := by decide
    exact noDash (dashes argument listed)
  start := by
    refine Option.eq_none_iff_forall_ne_some.mpr fun text found => noDash ?_
    rw [attached?_eq_some_iff.mp found]
    rfl
  steps := by
    refine Option.eq_none_iff_forall_ne_some.mpr fun text found => noDash ?_
    rw [attached?_eq_some_iff.mp found]
    rfl

/-- A number is no option. -/
theorem isPlain_of_number {value : String} {number : UInt64}
    (counted : Text.number value = .ok number) : IsPlain value := by
  refine isPlain_of_noDash fun dash => ?_
  rcases List.head?_eq_some_iff.mp dash with ⟨rest, text⟩
  have refused : Text.number value = .error .notADigit := by
    rw [Text.number, text]
    rfl
  rw [refused] at counted
  cases counted

/-! ## Taking options out -/

/-- The arguments have come about by putting a piece into others somewhere. -/
def PutIn (piece others arguments : List String) : Prop :=
  Exists fun front => Exists fun back =>
    others = front ++ back ∧ arguments = front ++ (piece ++ back)

theorem PutIn.mem {piece others arguments : List String} {argument : String}
    (put : PutIn piece others arguments) (listed : argument ∈ arguments) :
    argument ∈ piece ∨ argument ∈ others := by
  rcases put with ⟨front, back, rfl, rfl⟩
  simp only [List.mem_append] at listed ⊢
  exact or_left_comm.mp listed

/-- An option without a value, or nothing. -/
def flagPiece (key : String) (given : Bool) : List String :=
  if given then [key] else []

/-- The ways to give an option a value, or none. -/
inductive SpellsValue (key : String) : Option String -> List String -> Prop where
  | none : SpellsValue key none []
  | behind (value : String) : SpellsValue key (some value) [key, value]
  | attached {argument value : String} {text : List Char}
      (found : attached? key argument = some text) (read : attachedValue? text = some value) :
      SpellsValue key (some value) [argument]

/-- An option has been put into the others with this value, or has not been if
there is none. -/
def ValueIn (key : String) (given : Option String) (others arguments : List String) : Prop :=
  Exists fun piece => SpellsValue key given piece ∧ PutIn piece others arguments

theorem takeFlag_putIn {key : String} {given : Bool} {others arguments : List String}
    (put : PutIn (flagPiece key given) others arguments) (absent : key ∉ others) :
    takeFlag key arguments = (given, others) := by
  rcases put with ⟨front, back, rfl, rfl⟩
  have absentFront : key ∉ front := fun listed => absent (List.mem_append_left _ listed)
  cases given with
  | false =>
      have nothing : front ++ (flagPiece key false ++ back) = front ++ back := rfl
      rw [nothing, takeFlag, List.erase_of_not_mem absent, List.contains_eq_mem,
        decide_eq_false absent]
  | true =>
      have once : front ++ (flagPiece key true ++ back) = front ++ key :: back := rfl
      have listed : key ∈ front ++ key :: back := List.mem_append_right _ List.mem_cons_self
      rw [once, takeFlag, List.erase_append_right _ absentFront, List.erase_cons_head,
        List.contains_eq_mem, decide_eq_true listed]

section TakeValue

variable {key value : String} {front back others arguments : List String}

theorem takeSeparateValue_behind (absent : key ∉ front) :
    takeSeparateValue key (front ++ key :: value :: back) = .ok (some value, front ++ back) := by
  induction front with
  | nil => rw [List.nil_append, takeSeparateValue, if_pos rfl, List.nil_append]
  | cons first front inductionHypothesis =>
      rcases List.ne_and_not_mem_of_not_mem_cons absent with ⟨different, absent⟩
      rw [List.cons_append, takeSeparateValue.eq_def]
      simp only [if_neg (Ne.symm different), inductionHypothesis absent, List.cons_append]

theorem takeAttachedValue_of_none (apart : forall argument, argument ∈ others ->
    attached? key argument = none) : takeAttachedValue key others = .ok (none, others) := by
  induction others with
  | nil => rfl
  | cons first others inductionHypothesis =>
      rcases List.forall_mem_cons.mp apart with ⟨firstApart, apart⟩
      rw [takeAttachedValue, firstApart, inductionHypothesis apart]

theorem takeAttachedValue_attached {argument : String} {text : List Char}
    (apart : forall argument, argument ∈ front -> attached? key argument = none)
    (found : attached? key argument = some text) (read : attachedValue? text = some value) :
    takeAttachedValue key (front ++ argument :: back) = .ok (some value, front ++ back) := by
  induction front with
  | nil =>
      rw [List.nil_append, takeAttachedValue, found]
      simp only [read, List.nil_append]
  | cons first front inductionHypothesis =>
      rcases List.forall_mem_cons.mp apart with ⟨firstApart, apart⟩
      rw [List.cons_append, takeAttachedValue, firstApart, inductionHypothesis apart]
      rfl

theorem takeValue_valueIn {given : Option String} (put : ValueIn key given others arguments)
    (noSign : '=' ∉ key.toList)
    (apart : forall argument, argument ∈ others -> IsApart key argument) :
    takeValue key arguments = .ok (given, others) := by
  rcases put with ⟨piece, spelled, front, back, rfl, rfl⟩
  have absent : key ∉ front ++ back := fun listed => (apart key listed).1 rfl
  have absentFront : key ∉ front := fun listed => absent (List.mem_append_left _ listed)
  have noneAttached : forall argument, argument ∈ front ++ back -> attached? key argument = none :=
    fun argument listed => (apart argument listed).2
  cases spelled with
  | none =>
      rw [List.nil_append, takeValue, List.contains_eq_mem, if_neg (by simpa using absent),
        takeAttachedValue_of_none noneAttached]
  | behind value =>
      have listed : key ∈ front ++ ([key, value] ++ back) :=
        List.mem_append_right _ List.mem_cons_self
      rw [takeValue, List.contains_eq_mem, if_pos (decide_eq_true listed)]
      exact takeSeparateValue_behind absentFront
  | @attached argument value text found read =>
      have unlisted : key ∉ front ++ ([argument] ++ back) := by
        have different := ne_of_attached found noSign
        simp only [List.mem_append, List.mem_singleton, not_or] at absent ⊢
        exact ⟨absent.1, Ne.symm different, absent.2⟩
      rw [takeValue, List.contains_eq_mem, if_neg (by simpa using unlisted)]
      exact takeAttachedValue_attached
        (fun argument listed => noneAttached argument (List.mem_append_left _ listed)) found read

end TakeValue

/-! ## Settings -/

/-- What a command line can be set to, in its own words. -/
structure Settings where
  start : Option String
  steps : Option String
  profile : Bool
  full : Bool

/-- The arguments have these settings among them, each of them somewhere, and the
others in this order. -/
def Settings.Spells (settings : Settings) (arguments others : List String) : Prop :=
  Exists fun withFull => Exists fun withFlags => Exists fun withSteps =>
    PutIn (flagPiece "--full" settings.full) others withFull ∧
    PutIn (flagPiece "--profile" settings.profile) withFull withFlags ∧
    ValueIn "--steps" settings.steps withFlags withSteps ∧
    ValueIn "--start" settings.start withSteps arguments

theorem eq_of_mem_flagPiece {key argument : String} {given : Bool}
    (listed : argument ∈ flagPiece key given) : argument = key := by
  cases given with
  | false => cases listed
  | true => exact List.mem_singleton.mp listed

section ValueIn

variable {key argument : String} {given : Option String} {others arguments : List String}

theorem ValueIn.mem (put : ValueIn key given others arguments) (listed : argument ∈ arguments) :
    (argument = key ∨ given = some argument ∨
      Exists fun text => attached? key argument = some text) ∨ argument ∈ others := by
  rcases put with ⟨piece, spelled, put⟩
  refine (put.mem listed).imp_left fun listed => ?_
  cases spelled with
  | none => cases listed
  | behind value =>
      rcases List.mem_cons.mp listed with rfl | listed
      · exact Or.inl rfl
      · rcases List.mem_singleton.mp listed with rfl
        exact Or.inr (Or.inl rfl)
  | attached found read =>
      rcases List.mem_singleton.mp listed with rfl
      exact Or.inr (Or.inr ⟨_, found⟩)

/-- An option and its value are not taken for another option. -/
theorem ValueIn.isApart {other : String} (put : ValueIn key given others arguments)
    (keyApart : IsApart other key) (noSign : '=' ∉ key.toList) (otherNoSign : '=' ∉ other.toList)
    (valueApart : forall value, given = some value -> IsApart other value)
    (apart : forall argument, argument ∈ others -> IsApart other argument)
    (listed : argument ∈ arguments) : IsApart other argument := by
  rcases put.mem listed with (rfl | value | ⟨text, found⟩) | listed
  · exact keyApart
  · exact valueApart argument value
  · exact isApart_of_attached found keyApart.1 noSign otherNoSign
  · exact apart argument listed

/-- An option and its value are not a word like this. -/
theorem ValueIn.not_mem {word : String} (put : ValueIn key given others arguments)
    (different : word ≠ key) (noSign : '=' ∉ word.toList)
    (valueDifferent : forall value, given = some value -> value ≠ word)
    (absent : word ∉ others) : word ∉ arguments := by
  intro listed
  rcases put.mem listed with (same | value | ⟨text, found⟩) | listed
  · exact different same
  · exact valueDifferent word value rfl
  · exact ne_of_attached found noSign rfl
  · exact absent listed

end ValueIn

theorem IsPlain.ne {argument word : String} (plain : IsPlain argument) (listed : word ∈ words) :
    argument ≠ word :=
  fun same => plain.word (same ▸ listed)

/-- The value of a numeric option is no option itself. -/
theorem isPlain_of_numberValue {given : Option String} {number : Option UInt64}
    (counted : numberValue given = .ok number) :
    forall value, given = some value -> IsPlain value := by
  rintro value rfl
  rw [numberValue] at counted
  split at counted
  · cases counted
  · next found => exact isPlain_of_number found

/-- Arguments that spell settings are read as these settings, if what they leave
over cannot be taken for options. -/
theorem Options.ofArguments_of_spells {settings : Settings} {arguments subjects : List String}
    {name : String} {limit : Option UInt64} (spelled : settings.Spells arguments (name :: subjects))
    (plain : forall argument, argument ∈ name :: subjects -> IsPlain argument)
    (startPlain : forall start, settings.start = some start -> IsPlain start)
    (counted : numberValue settings.steps = .ok limit) :
    asksForHelp arguments = false ∧
      Options.ofArguments arguments = .ok {
        grammar := name
        subjects := subjects
        start := settings.start
        steps := limit
        profile := settings.profile
        full := settings.full
        interactive := false } := by
  have stepsPlain := isPlain_of_numberValue counted
  rcases spelled with ⟨withFull, withFlags, withSteps, full, profile, steps, start⟩
  have flagged : forall argument, argument ∈ withFlags ->
      argument = "--profile" ∨ argument = "--full" ∨ IsPlain argument := by
    intro argument listed
    rcases profile.mem listed with piece | listed
    · exact Or.inl (eq_of_mem_flagPiece piece)
    · rcases full.mem listed with piece | listed
      · exact Or.inr (Or.inl (eq_of_mem_flagPiece piece))
      · exact Or.inr (Or.inr (plain argument listed))
  have stepsApart : forall argument, argument ∈ withFlags -> IsApart "--steps" argument := by
    intro argument listed
    rcases flagged argument listed with rfl | rfl | plain
    · exact ⟨by decide, by decide⟩
    · exact ⟨by decide, by decide⟩
    · exact ⟨plain.ne (by decide), plain.steps⟩
  have flagsApart : forall argument, argument ∈ withFlags -> IsApart "--start" argument := by
    intro argument listed
    rcases flagged argument listed with rfl | rfl | plain
    · exact ⟨by decide, by decide⟩
    · exact ⟨by decide, by decide⟩
    · exact ⟨plain.ne (by decide), plain.start⟩
  have startApart : forall argument, argument ∈ withSteps -> IsApart "--start" argument :=
    fun argument => steps.isApart ⟨by decide, by decide⟩ (by decide) (by decide)
      (fun value given => ⟨(stepsPlain value given).ne (by decide), (stepsPlain value given).start⟩)
      flagsApart
  have noHelp : forall word, word ∈ ["-h", "--help"] -> word ∉ arguments := by
    intro word isHelp
    have others : forall word, word ∈ ["-h", "--help"] -> word ∈ words ∧ '=' ∉ word.toList ∧
        word ≠ "--start" ∧ word ≠ "--steps" ∧ word ≠ "--profile" ∧ word ≠ "--full" := by decide
    rcases others word isHelp with ⟨known, noSign, notStart, notSteps, notProfile, notFull⟩
    refine start.not_mem notStart noSign (fun value given => (startPlain value given).ne known)
      (steps.not_mem notSteps noSign (fun value given => (stepsPlain value given).ne known) ?_)
    intro listed
    rcases flagged word listed with same | same | plain
    · exact notProfile same
    · exact notFull same
    · exact plain.ne known rfl
  have noProfile : "--profile" ∉ withFull := by
    intro listed
    rcases full.mem listed with piece | listed
    · exact absurd (eq_of_mem_flagPiece piece) (by decide)
    · exact (plain _ listed).ne (by decide) rfl
  have takenStart := takeValue_valueIn start (by decide) startApart
  have takenSteps := takeValue_valueIn steps (by decide) stepsApart
  have takenProfile := takeFlag_putIn profile noProfile
  have takenFull := takeFlag_putIn full fun listed => (plain _ listed).ne (by decide) rfl
  have notAsked : PutIn (flagPiece "--repl" false) (name :: subjects) (name :: subjects) :=
    ⟨[], _, rfl, rfl⟩
  have takenRepl := takeFlag_putIn notAsked fun listed => (plain _ listed).ne (by decide) rfl
  constructor
  · simp only [asksForHelp, List.contains_eq_mem, decide_eq_false (noHelp "-h" (by decide)),
      decide_eq_false (noHelp "--help" (by decide)), Bool.or_self]
  · simp only [Options.ofArguments, bind, Except.bind, takenStart, takenSteps, counted,
      takenProfile, takenFull, takenRepl]
    rfl

/-! ## All arguments -/

theorem putIn_of_takeFlag {key : String} {given : Bool} {others arguments : List String}
    (taken : takeFlag key arguments = (given, others)) :
    PutIn (flagPiece key given) others arguments := by
  rw [takeFlag, Prod.mk.injEq, List.contains_eq_mem] at taken
  rcases taken with ⟨rfl, rfl⟩
  by_cases listed : key ∈ arguments
  · rcases List.exists_erase_eq listed with ⟨front, back, _, whole, rest⟩
    rw [decide_eq_true listed, rest]
    exact ⟨front, back, rfl, whole⟩
  · rw [decide_eq_false listed, List.erase_of_not_mem listed]
    exact ⟨[], arguments, rfl, rfl⟩

section TakeValue

variable {key : String} {given : Option String} {others arguments : List String}

theorem ValueIn.cons (put : ValueIn key given others arguments) (first : String) :
    ValueIn key given (first :: others) (first :: arguments) := by
  rcases put with ⟨piece, spelled, front, back, rfl, rfl⟩
  exact ⟨piece, spelled, first :: front, back, rfl, rfl⟩

theorem valueIn_of_takeSeparateValue
    (taken : takeSeparateValue key arguments = .ok (given, others)) :
    ValueIn key given others arguments := by
  induction arguments generalizing others with
  | nil =>
      cases taken
      exact ⟨[], .none, [], [], rfl, rfl⟩
  | cons first arguments inductionHypothesis =>
      rw [takeSeparateValue.eq_def] at taken
      simp only at taken
      split at taken
      · next same =>
          subst same
          split at taken
          · cases taken
          · cases taken
            exact ⟨_, .behind _, [], _, rfl, rfl⟩
      · split at taken
        · cases taken
        · next found =>
            cases taken
            exact (inductionHypothesis found).cons first

theorem valueIn_of_takeAttachedValue
    (taken : takeAttachedValue key arguments = .ok (given, others)) :
    ValueIn key given others arguments := by
  induction arguments generalizing others with
  | nil =>
      cases taken
      exact ⟨[], .none, [], [], rfl, rfl⟩
  | cons first arguments inductionHypothesis =>
      rw [takeAttachedValue] at taken
      split at taken
      · next found =>
          split at taken
          · cases taken
          · next read =>
              cases taken
              exact ⟨_, .attached found read, [], _, rfl, rfl⟩
      · split at taken
        · cases taken
        · next found =>
            cases taken
            exact (inductionHypothesis found).cons first

theorem valueIn_of_takeValue (taken : takeValue key arguments = .ok (given, others)) :
    ValueIn key given others arguments := by
  unfold takeValue at taken
  split at taken
  · exact valueIn_of_takeSeparateValue taken
  · exact valueIn_of_takeAttachedValue taken

end TakeValue

/-- All arguments that are read without asking for more subjects spell the
settings that they are read as, with what they leave over. -/
theorem Options.exists_spells_of_ofArguments {arguments : List String} {options : Options}
    (read : Options.ofArguments arguments = .ok options) (ends : options.interactive = false) :
    Exists fun steps => numberValue steps = .ok options.steps ∧
      (Settings.mk options.start steps options.profile options.full).Spells arguments
        (options.grammar :: options.subjects) := by
  rcases exists_of_bind_eq_ok read with ⟨⟨start, withSteps⟩, takenStart, read⟩
  rcases exists_of_bind_eq_ok read with ⟨⟨steps, withFlags⟩, takenSteps, read⟩
  rcases exists_of_bind_eq_ok read with ⟨limit, counted, read⟩
  rcases takenProfile : takeFlag "--profile" withFlags with ⟨profile, withFull⟩
  rcases takenFull : takeFlag "--full" withFull with ⟨full, others⟩
  rcases takenRepl : takeFlag "--repl" others with ⟨interactive, left⟩
  simp only [takenProfile, takenFull, takenRepl] at read
  split at read
  · cases read
  · cases read
    simp only at ends
    subst ends
    rcases putIn_of_takeFlag takenRepl with ⟨front, back, split, rfl⟩
    have same : front ++ (flagPiece "--repl" false ++ back) = front ++ back := rfl
    rw [same, ← split] at takenFull
    exact ⟨steps, counted, withFull, withFlags, withSteps, putIn_of_takeFlag takenFull,
      putIn_of_takeFlag takenProfile, valueIn_of_takeValue takenSteps,
      valueIn_of_takeValue takenStart⟩

/-- Which arguments are read as these options: those that spell the settings, with
a number of steps that has this value.  What they leave over must not be taken for
options. -/
theorem Options.ofArguments_iff_spells {arguments subjects : List String} {name : String}
    {start : Option String} {limit : Option UInt64} {profile full : Bool}
    (plain : forall argument, argument ∈ name :: subjects -> IsPlain argument)
    (startPlain : forall chosen, start = some chosen -> IsPlain chosen) :
    (asksForHelp arguments = false ∧ Options.ofArguments arguments = .ok {
        grammar := name
        subjects := subjects
        start := start
        steps := limit
        profile := profile
        full := full
        interactive := false }) <->
      Exists fun steps => numberValue steps = .ok limit ∧
        (Settings.mk start steps profile full).Spells arguments (name :: subjects) := by
  constructor
  · rintro ⟨_, read⟩
    exact exists_spells_of_ofArguments read rfl
  · rintro ⟨steps, counted, spelled⟩
    exact ofArguments_of_spells spelled plain startPlain counted

end CommandLine
end ParsingMachine
