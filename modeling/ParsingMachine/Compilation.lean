import ParsingMachine.Program
import ParsingMachine.Reader.Grammar

namespace ParsingMachine

/-!
# Programs from grammar text

Reading and compiling in one go.  Unless a start rule is asked for, the first
rule is the start rule.  A text without rules has no start rule, which is then
missing under the empty name.
-/

/-- Why a text has no program. -/
inductive TextError where
  /-- The text is no grammar. -/
  | unreadable (report : Reader.Report)
  /-- The grammar has no program. -/
  | uncompilable (error : CompileError)
  deriving DecidableEq

/-- The rule to start from, given what was asked for. -/
def Grammar.startFor (grammar : Grammar) (start : Option String) : String :=
  (start.orElse fun _ => grammar.startRule?).getD ""

/-- Read a grammar and compile it. -/
def Program.ofText (text : String) (start : Option String) : Except TextError Program :=
  match Grammar.ofText text with
  | .error report => .error (.unreadable report)
  | .ok grammar =>
      match grammar.compile (grammar.startFor start) with
      | .error error => .error (.uncompilable error)
      | .ok program => .ok program

end ParsingMachine
