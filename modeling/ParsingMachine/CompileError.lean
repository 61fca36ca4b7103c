import ParsingMachine.Text.Quoted

namespace ParsingMachine

/-!
# Why a grammar has no program

None of these leaves a program behind, and each of them names the rule that it
is about.
-/

/-- Why a grammar could not be compiled. -/
inductive CompileError where
  /-- A class in the rule has a range that runs backwards. -/
  | backwardsRange (rule : String) (first last : Char)
  /-- A repetition in the rule may happen less often than it has to. -/
  | badBounds (rule : String) (least most : UInt64)
  /-- The rule is defined a second time. -/
  | duplicateRule (rule : String)
  /-- The rule to start from is not defined. -/
  | missingStart (rule : String)
  /-- The rule refers to a rule that is not defined. -/
  | unresolvedRule (rule missing : String)
  deriving DecidableEq

/-- The objection in prose. -/
def CompileError.message : CompileError -> String
  | backwardsRange rule first last =>
      "the range " ++ Text.quotedChar first ++ ".." ++ Text.quotedChar last ++ " in rule `" ++
        rule ++ "` runs backwards"
  | badBounds rule least most =>
      "the repetition \x7b" ++ toString least ++ ".." ++ toString most ++ "\x7d in rule `" ++
        rule ++ "` has a maximum below its minimum"
  | duplicateRule rule => "rule `" ++ rule ++ "` is defined more than once"
  | missingStart rule => "there's no rule named `" ++ rule ++ "` to start from"
  | unresolvedRule rule missing =>
      "rule `" ++ rule ++ "` refers to `" ++ missing ++ "`, which is never defined"

end ParsingMachine
