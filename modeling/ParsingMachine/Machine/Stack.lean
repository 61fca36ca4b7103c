import ParsingMachine.Text.Utf8

namespace ParsingMachine
namespace Machine

/-!
# What the machine may have to come back to

A frame is either a call to go back from or a choice point to fall back to.
The stack keeps the number of its frames beside them, so that asking for it
after every step costs nothing however deep a match recurses; the proof that
the number is right travels with it, so a stack is determined by its frames.
-/

/-- A place in the subject: what is left of it, and the bytes before that. -/
structure Cursor where
  rest : List Char
  position : Nat
  deriving DecidableEq, Inhabited

namespace Cursor

/-- The beginning of a subject. -/
def start (subject : List Char) : Cursor := ⟨subject, 0⟩

/-- The place a number of bytes further on. -/
def advance (cursor : Cursor) (bytes : Nat) : Cursor where
  rest := Text.dropBytes bytes cursor.rest
  position := cursor.position + bytes

end Cursor

/-- What the machine may have to come back to. -/
inductive Frame where
  /-- Where to go on when the rule that was called is at its end. -/
  | caller (resume : Nat)
  /-- Where to go on, and in what place of the subject, after a failure. -/
  | choicePoint (resume : Nat) (cursor : Cursor)
  deriving DecidableEq, Inhabited

/-- Frames with the top one first, and how many there are. -/
structure Stack where
  frames : List Frame
  depth : Nat
  counted : depth = frames.length
  deriving DecidableEq

namespace Stack

/-- A stack is determined by its frames. -/
@[ext] theorem ext {one other : Stack} (same : one.frames = other.frames) : one = other := by
  obtain ⟨frames, depth, counted⟩ := one
  obtain ⟨otherFrames, otherDepth, otherCounted⟩ := other
  subst same counted otherCounted
  rfl

/-- The stack without frames. -/
def empty : Stack := ⟨[], 0, rfl⟩

instance : Inhabited Stack := ⟨empty⟩

/-- The stack with one more frame at its top. -/
def push (frame : Frame) (stack : Stack) : Stack where
  frames := frame :: stack.frames
  depth := stack.depth + 1
  counted := by rw [stack.counted, List.length_cons]

theorem depth_below {frame : Frame} {below : List Frame} {depth : Nat}
    (counted : depth = (frame :: below).length) : depth - 1 = below.length := by
  rw [counted, List.length_cons, Nat.add_sub_cancel]

/-- The top frame, and the stack below it. -/
def pop? : Stack -> Option (Frame × Stack)
  | ⟨[], _, _⟩ => none
  | ⟨frame :: below, depth, counted⟩ => some (frame, ⟨below, depth - 1, depth_below counted⟩)

/-- The last choice point among frames, and the stack below it. -/
def choicePointIn? : (frames : List Frame) -> (depth : Nat) -> depth = frames.length ->
    Option (Nat × Cursor × Stack)
  | [], _, _ => none
  | .caller _ :: below, depth, counted => choicePointIn? below (depth - 1) (depth_below counted)
  | .choicePoint resume cursor :: below, depth, counted =>
      some (resume, cursor, ⟨below, depth - 1, depth_below counted⟩)

/-- The last choice point, and the stack below it.  Every frame above it is
dropped. -/
def lastChoicePoint? (stack : Stack) : Option (Nat × Cursor × Stack) :=
  choicePointIn? stack.frames stack.depth stack.counted

@[simp] theorem pop?_empty : empty.pop? = none := rfl

@[simp] theorem pop?_push (frame : Frame) (stack : Stack) :
    (stack.push frame).pop? = some (frame, stack) := rfl

@[simp] theorem lastChoicePoint?_empty : empty.lastChoicePoint? = none := rfl

/-- A failure passes over calls. -/
@[simp] theorem lastChoicePoint?_push_caller (resume : Nat) (stack : Stack) :
    (stack.push (.caller resume)).lastChoicePoint? = stack.lastChoicePoint? := rfl

/-- A failure stops at the first choice point. -/
@[simp] theorem lastChoicePoint?_push_choicePoint (resume : Nat) (cursor : Cursor)
    (stack : Stack) :
    (stack.push (.choicePoint resume cursor)).lastChoicePoint? = some (resume, cursor, stack) :=
  rfl

/-- A stack is either empty or a frame on top of another stack. -/
theorem eq_empty_or_push (stack : Stack) :
    stack = empty ∨ Exists fun frame => Exists fun below => stack = push frame below := by
  obtain ⟨frames, depth, counted⟩ := stack
  cases frames with
  | nil => exact Or.inl (ext rfl)
  | cons frame below => exact Or.inr ⟨frame, ⟨below, below.length, rfl⟩, ext rfl⟩

end Stack
end Machine
end ParsingMachine
