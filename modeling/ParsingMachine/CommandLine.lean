import ParsingMachine.Compilation
import ParsingMachine.Match
import ParsingMachine.Text.Number

namespace ParsingMachine
namespace CommandLine

/-!
# The command line

What a run prints, decided from the arguments and the text of the grammar
file.  Reading the file is left to whoever calls: it is given as a function
from the name of a file to its text, or to the reason why there is none.

Options are taken out of the arguments one after another, wherever they
stand, and what is left in the end is the grammar file and the subjects.  An
argument that looks like an option but is none is a file or a subject too.
The value of an option is the argument behind it, or stands behind an equals
sign in the same argument.
-/

/-! ## Arguments -/

/-- What the arguments ask for. -/
structure Options where
  grammar : String
  subjects : List String
  start : Option String
  steps : Option UInt64
  profile : Bool
  full : Bool
  interactive : Bool
  deriving DecidableEq

/-- What can be wrong with the arguments. -/
inductive ArgumentFault where
  /-- An option that needs a value is the last argument, or has nothing behind
  its equals sign, or a quote there that is not closed. -/
  | valueMissing (key : String)
  /-- The value of an option is no number. -/
  | badNumber (value : String) (fault : Text.NumberFault)
  /-- No argument is left for the grammar file. -/
  | grammarMissing
  deriving DecidableEq

/-- The objection in prose. -/
def ArgumentFault.message : ArgumentFault -> String
  | valueMissing key => "the '" ++ key ++ "' option doesn't have an associated value"
  | badNumber value fault => "failed to parse '" ++ value ++ "' cause " ++ fault.message
  | grammarMissing => "free-standing argument is missing"

/-- Take the first argument that equals the key out of the arguments, together
with the argument behind it, which is the value whatever it looks like. -/
def takeSeparateValue (key : String) :
    List String -> Except ArgumentFault (Option String × List String)
  | [] => .ok (none, [])
  | argument :: rest =>
      if argument = key then
        match rest with
        | [] => .error (.valueMissing key)
        | value :: others => .ok (some value, others)
      else
        match takeSeparateValue key rest with
        | .error fault => .error fault
        | .ok (value, others) => .ok (value, argument :: others)

/-- What stands behind the key and an equals sign in an argument that begins
with the two. -/
def attached? (key argument : String) : Option (List Char) :=
  let sign := key.toList ++ ['=']
  if sign.isPrefixOf argument.toList then some (argument.toList.drop sign.length) else none

/-- The value behind an equals sign.  It may stand between two quotes of one
kind, which are not part of it, and it is never empty. -/
def attachedValue? : List Char -> Option String
  | [] => none
  | first :: rest =>
      if first = '"' ∨ first = '\'' then
        if rest.getLast? = some first ∧ rest.dropLast ≠ [] then
          some (String.ofList rest.dropLast)
        else none
      else some (String.ofList (first :: rest))

/-- Take the first argument that begins with the key and an equals sign out of
the arguments.  Its value is behind the sign. -/
def takeAttachedValue (key : String) :
    List String -> Except ArgumentFault (Option String × List String)
  | [] => .ok (none, [])
  | argument :: rest =>
      match attached? key argument with
      | some text =>
          match attachedValue? text with
          | none => .error (.valueMissing key)
          | some value => .ok (some value, rest)
      | none =>
          match takeAttachedValue key rest with
          | .error fault => .error fault
          | .ok (value, others) => .ok (value, argument :: others)

/-- Take an option and its value out of the arguments.  An equals sign counts
only where no argument is the key itself. -/
def takeValue (key : String) (arguments : List String) :
    Except ArgumentFault (Option String × List String) :=
  if arguments.contains key then takeSeparateValue key arguments
  else takeAttachedValue key arguments

/-- Take the first argument that equals the key out of the arguments, and tell
whether there was one. -/
def takeFlag (key : String) (arguments : List String) : Bool × List String :=
  (arguments.contains key, arguments.erase key)

/-- Whether the arguments ask for the help text. -/
def asksForHelp (arguments : List String) : Bool :=
  arguments.contains "-h" || arguments.contains "--help"

/-- The value of an option that takes a number. -/
def numberValue : Option String -> Except ArgumentFault (Option UInt64)
  | none => .ok none
  | some value =>
      match Text.number value with
      | .error fault => .error (.badNumber value fault)
      | .ok number => .ok (some number)

/-- What the arguments ask for, when they do not ask for help. -/
def Options.ofArguments (arguments : List String) : Except ArgumentFault Options := do
  let (start, arguments) ← takeValue "--start" arguments
  let (steps, arguments) ← takeValue "--steps" arguments
  let steps ← numberValue steps
  let (profile, arguments) := takeFlag "--profile" arguments
  let (full, arguments) := takeFlag "--full" arguments
  let (interactive, arguments) := takeFlag "--repl" arguments
  match arguments with
  | [] => .error .grammarMissing
  | grammar :: subjects =>
      return {
        grammar := grammar
        subjects := subjects
        start := start
        steps := steps
        profile := profile
        full := full
        interactive := interactive }

/-- How the options ask matches to be run. -/
def Options.config (options : Options) : MatchConfig where
  stepLimit := options.steps
  profile := options.profile

/-- The help text. -/
def help : String :=
  "usage: pegvm GRAMMAR [SUBJECT ...] [--start NAME] [--steps N] [--profile] [--full] [--repl]\n" ++
  "\n" ++
  "Matches each SUBJECT against the grammar in the file GRAMMAR.\n" ++
  "With no subjects (or with --repl), matches lines typed in instead.\n" ++
  "\n" ++
  "  --start NAME   start from this rule instead of the first one\n" ++
  "  --steps N      give up after executing N instructions\n" ++
  "  --profile      print what the machine executed after each match\n" ++
  "  --full         only count it as a match if the whole subject is consumed\n" ++
  "  --repl         ask for more subjects afterwards\n"

/-! ## Errors -/

/-- Why a run gives up. -/
inductive Failure where
  | badArguments (fault : ArgumentFault)
  /-- The grammar file has no text, for a reason that is not the library's. -/
  | unreadableFile (name reason : String)
  | badGrammar (name : String)
  | noRules (name : String)
  | uncompilable (name : String) (error : CompileError)
  | unmatched (subject : String) (error : MatchError)
  deriving DecidableEq

namespace Failure

/-- What could not be done. -/
def message : Failure -> String
  | badArguments _ => "bad arguments (try --help)"
  | unreadableFile name _ => "couldn't read " ++ name
  | badGrammar name => "couldn't read the grammar in " ++ name
  | noRules name => name ++ " doesn't define any rules"
  | uncompilable name _ => "couldn't compile " ++ name
  | unmatched subject _ => "while matching " ++ Text.quotedString subject

/-- Why it could not be done, where the message does not say it all. -/
def reason? : Failure -> Option String
  | badArguments fault => some fault.message
  | unreadableFile _ reason => some reason
  | badGrammar _ | noRules _ => none
  | uncompilable _ error => some error.message
  | unmatched _ error => some error.message

/-- Whether the run says why it gives up.  A match that hands no error on ends
the run without a word of its own. -/
def isReported : Failure -> Bool
  | unmatched _ error => error.isReported
  | _ => true

/-- The status of a run with the failure, unless its last match is never
finished. -/
def status? : Failure -> Option Nat
  | unmatched _ .unfinished => none
  | unmatched _ (.broken _) => some 101
  | _ => some 1

/-- Put blanks in front of every line. -/
def indented (text : String) : String :=
  String.ofList ("    ".toList ++ text.toList.flatMap fun character =>
    if character = '\n' then '\n' :: "    ".toList else [character])

/-- The whole objection, its reason on lines of its own. -/
def text (failure : Failure) : String :=
  "Error: " ++ failure.message ++ "\n" ++
    match failure.reason? with
    | none => ""
    | some reason => "\nCaused by:\n" ++ indented reason ++ "\n"

end Failure

/-! ## Matches -/

/-- What is printed for a match.  With `full`, a match counts only if it takes
up the whole subject. -/
def matchLine (full : Bool) (subject : String) (matched : Option Nat) : String :=
  match matched with
  | none => Text.quotedString subject ++ ": no match\n"
  | some position =>
      let beginning := Text.quotedText (Text.takeBytes position subject.toList)
      if full && position ≠ subject.utf8ByteSize then
        Text.quotedString subject ++ ": no match (only got as far as " ++ toString position ++
          ", " ++ beginning ++ ")\n"
      else
        Text.quotedString subject ++ " matched " ++ beginning ++ ", up to " ++
          toString position ++ "\n"

/-- What is printed for a subject, with the profile if one is kept. -/
def showMatch (program : Program) (config : MatchConfig) (full : Bool) (subject : String) :
    Except MatchError String :=
  match program.matchWith config subject with
  | .error error => .error error
  | .ok outcome =>
      .ok (matchLine full subject outcome.matched ++
        (outcome.profile.map Profile.text).getD "")

/-- What is printed for subjects in order, up to the first one without an
answer. -/
def showMatches (program : Program) (config : MatchConfig) (full : Bool) :
    List String -> String × Option Failure
  | [] => ("", none)
  | subject :: rest =>
      match showMatch program config full subject with
      | .error error => ("", some (.unmatched subject error))
      | .ok shown =>
          let (more, failure) := showMatches program config full rest
          (shown ++ more, failure)

/-! ## Runs -/

/-- A grammar and its program, made ready as the options ask. -/
structure Session where
  grammar : Grammar
  program : Program
  config : MatchConfig
  full : Bool

/-- What a run has printed, and the failure that ended it.  A run that is to
go on asking for subjects leaves its session behind. -/
structure Result where
  output : String
  failure : Option Failure
  session : Option Session

namespace Result

/-- The status that the run ends with, if it ends. -/
def status? (result : Result) : Option Nat :=
  match result.failure with
  | none => some 0
  | some failure => failure.status?

/-- The objection that the run ends with. -/
def errorText (result : Result) : Option String :=
  (result.failure.filter Failure.isReported).map Failure.text

/-- A run that gave up before it printed anything. -/
def gaveUp (failure : Failure) : Result := ⟨"", some failure, none⟩

end Result

/-- The session that the options ask for. -/
def Options.session (options : Options) (readFile : String -> Except String String) :
    Except Failure Session := do
  let source ← (readFile options.grammar).mapError (.unreadableFile options.grammar)
  let grammar ← (Grammar.ofText source).mapError fun _ => .badGrammar options.grammar
  let start ← match options.start.orElse fun _ => grammar.startRule? with
    | some start => .ok start
    | none => .error (.noRules options.grammar)
  let program ← (grammar.compile start).mapError (.uncompilable options.grammar)
  return ⟨grammar, program, options.config, options.full⟩

/-- The file that a run with these arguments reads, if it gets as far. -/
def grammarFile? (arguments : List String) : Option String :=
  if asksForHelp arguments then none
  else
    match Options.ofArguments arguments with
    | .error _ => none
    | .ok options => some options.grammar

/-- Run the command line. -/
def run (readFile : String -> Except String String) (arguments : List String) : Result :=
  if asksForHelp arguments then ⟨help, none, none⟩
  else
    match Options.ofArguments arguments with
    | .error fault => .gaveUp (.badArguments fault)
    | .ok options =>
        match options.session readFile with
        | .error failure => .gaveUp failure
        | .ok session =>
            let (output, failure) :=
              showMatches session.program session.config session.full options.subjects
            let goesOn := failure.isNone && (options.interactive || options.subjects.isEmpty)
            ⟨output, failure, if goesOn then some session else none⟩

/-! ## Asking for subjects -/

/-- The rules of a session with their addresses. -/
def Session.rulesText (session : Session) : String :=
  String.join (session.program.rules.map fun entry =>
    Text.alignRight 5 (toString entry.2) ++ "  " ++
      (match session.grammar.get? entry.1 with
        | some rule => rule.toText
        | none => entry.1) ++ "\n")

/-- A text without the blanks at its ends. -/
def trimmed (text : List Char) : List Char :=
  ((text.dropWhile Text.isBlank).reverse.dropWhile Text.isBlank).reverse

/-- What is printed in answer to a line, or nothing if the line ends the
session or is never answered. -/
def Session.answer? (session : Session) (line : String) : Option String :=
  let command := String.ofList (trimmed line.toList)
  if command = ":quit" ∨ command = ":q" then none
  else if command = ":rules" then some session.rulesText
  else
    match showMatch session.program session.config session.full line with
    | .ok shown => some shown
    | .error error => if error.isReported then some (error.message ++ "\n") else none

end CommandLine
end ParsingMachine
