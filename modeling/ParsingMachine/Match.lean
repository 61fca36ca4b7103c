import ParsingMachine.Profile

namespace ParsingMachine

/-!
# Matching

What a program makes of a subject.  Not matching is an answer like any other.
The machine gives up with an error only at a limit that it was given.  Without
one nothing stops it before the match is over, and two more endings stand for
a run that hands nothing on.
-/

/-- How to run a match. -/
structure MatchConfig where
  /-- The instructions after which to give up. -/
  stepLimit : Option UInt64
  /-- Whether to keep a profile. -/
  profile : Bool
  deriving DecidableEq, Inhabited

/-- The answer of a match. -/
structure Outcome where
  /-- The length in bytes of the beginning of the subject that matched. -/
  matched : Option Nat
  /-- The instructions that were executed. -/
  steps : Nat
  profile : Option Profile
  deriving DecidableEq, Inhabited

/-- Whether the subject matched. -/
def Outcome.isMatch (outcome : Outcome) : Bool :=
  outcome.matched.isSome

/-- Why a match has no answer. -/
inductive MatchError where
  /-- There was none after as many instructions as the limit allows. -/
  | stepLimit (limit : UInt64)
  /-- There is no limit, and the match is not over when the instructions are
  more than can be counted.  The machine itself goes on. -/
  | unfinished
  /-- The program broke off at an address.  Compiled programs do not. -/
  | broken (address : Nat)
  deriving DecidableEq, Inhabited

namespace MatchError

/-- The objection in prose. -/
def message : MatchError -> String
  | stepLimit limit => "gave up after " ++ toString limit ++ " steps without an answer"
  | unfinished => "the match is not over"
  | broken address => "the program broke off at " ++ toString address

/-- Whether the machine hands the error to its caller.  It does so only where it
has given up. -/
def isReported : MatchError -> Bool
  | stepLimit _ => true
  | unfinished | broken _ => false

/-- The error of a run that has used up what it may execute. -/
def ofLimit : Option UInt64 -> MatchError
  | some limit => .stepLimit limit
  | none => .unfinished

end MatchError

namespace Program

/-- The answer that a run gives, with a profile made of what was seen. -/
def outcomeOf {α : Type} (limit : Option UInt64) (profile : α -> Option Profile)
    (run : Machine.Run α) : Except MatchError Outcome :=
  match run.ending with
  | .finished position => .ok ⟨position, run.steps, profile run.seen⟩
  | .outOfSteps => .error (.ofLimit limit)
  | .stuck address => .error (.broken address)

/-- Match a subject from its beginning. -/
def matchWith (program : Program) (config : MatchConfig) (subject : String) :
    Except MatchError Outcome :=
  if config.profile then
    outcomeOf config.stepLimit some
      (Machine.run program (Profile.watch program) config.stepLimit subject .empty)
  else
    outcomeOf config.stepLimit (fun _ => none)
      (Machine.run program .nothing config.stepLimit subject ())

/-- The length in bytes of the beginning that matches, without a limit. -/
def match? (program : Program) (subject : String) : Option Nat :=
  match program.matchWith ⟨none, false⟩ subject with
  | .ok outcome => outcome.matched
  | .error _ => none

/-- Whether a program matches the whole of a subject. -/
def matchesAll (program : Program) (subject : String) : Bool :=
  program.match? subject = some subject.utf8ByteSize

end Program
end ParsingMachine
