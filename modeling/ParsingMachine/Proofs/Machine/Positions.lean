import ParsingMachine.Proofs.Machine.Instructions
import ParsingMachine.Proofs.Text.Utf8

namespace ParsingMachine
namespace Machine

open Text

/-!
# Places in the subject

A position is a number of bytes, and the machine adds to it what an instruction
says that it took off the subject.  That it stays a number behind which the
subject can be cut in two is followed here, for the position of the machine and
for those that it may fall back to.

A step has one of three effects on these places: it forgets some of them, it
marks the one where the machine is, or it goes on from that one.  Nothing else
about the instructions is needed, and nothing about the program.
-/

namespace Cursor

/-- The subject is cut in two at a place: what is left, and a text in front of it
that takes up as many bytes as the position says. -/
def Divides (subject : List Char) (cursor : Cursor) : Prop :=
  Exists fun front => front ++ cursor.rest = subject ∧ byteLength front = cursor.position

theorem divides_start (subject : List Char) : (start subject).Divides subject :=
  ⟨[], rfl, rfl⟩

/-- Between two of its characters, a subject is cut in two. -/
theorem divides_of_isValid {subject : String} {position : Nat}
    (boundary : (String.Pos.Raw.mk position).IsValid subject) :
    Divides subject.toList ⟨dropBytes position subject.toList, position⟩ := by
  rcases String.Pos.Raw.isValid_iff_exists_append.mp boundary with ⟨front, back, whole, ended⟩
  have counted : byteLength front.toList = position := by
    rw [← utf8ByteSize_eq_byteLength]
    exact (congrArg String.Pos.Raw.byteIdx ended).symm
  refine ⟨front.toList, ?_, counted⟩
  rw [whole, String.toList_append, ← counted, dropBytes_byteLength_append]

/-- Behind a text that is there, the subject is cut in two again. -/
theorem Divides.onward {subject taken left : List Char} {cursor : Cursor}
    (divides : cursor.Divides subject) (split : cursor.rest = taken ++ left) :
    Divides subject ⟨left, cursor.position + byteLength taken⟩ := by
  rcases divides with ⟨front, whole, counted⟩
  refine ⟨front ++ taken, ?_, ?_⟩
  · rw [List.append_assoc, ← split, whole]
  · rw [byteLength_append, counted]

theorem Divides.cutsAt {subject : String} {cursor : Cursor}
    (divides : cursor.Divides subject.toList) : CutsAt subject cursor.position := by
  rcases divides with ⟨front, whole, counted⟩
  exact counted ▸ cutsAt_byteLength whole

theorem Divides.rest_eq {subject : List Char} {cursor : Cursor}
    (divides : cursor.Divides subject) : cursor.rest = dropBytes cursor.position subject := by
  rcases divides with ⟨front, whole, counted⟩
  rw [← whole, ← counted, dropBytes_byteLength_append]

end Cursor

/-! ## The places that a state keeps -/

/-- The place that a frame falls back to. -/
def Frame.saved? : Frame -> Option Cursor
  | .caller _ => none
  | .choicePoint _ cursor => some cursor

namespace Stack

/-- The places that choice points fall back to, from the bottom of the stack to
its top. -/
def saved (stack : Stack) : List Cursor :=
  stack.frames.reverse.filterMap Frame.saved?

@[simp] theorem saved_push_caller (resume : Nat) (stack : Stack) :
    (stack.push (.caller resume)).saved = stack.saved := by
  simp only [saved, push, List.reverse_cons, List.filterMap_append, List.filterMap_cons,
    Frame.saved?, List.filterMap_nil, List.append_nil]

@[simp] theorem saved_push_choicePoint (resume : Nat) (cursor : Cursor) (stack : Stack) :
    (stack.push (.choicePoint resume cursor)).saved = stack.saved ++ [cursor] := by
  simp only [saved, push, List.reverse_cons, List.filterMap_append, List.filterMap_cons,
    Frame.saved?, List.filterMap_nil]

theorem mem_saved_iff {stack : Stack} {cursor : Cursor} :
    cursor ∈ stack.saved <-> Exists fun resume => .choicePoint resume cursor ∈ stack.frames := by
  simp only [saved, List.mem_filterMap, List.mem_reverse]
  constructor
  · rintro ⟨frame, listed, keeps⟩
    cases frame with
    | caller resume => cases keeps
    | choicePoint resume saved =>
        cases keeps
        exact ⟨resume, listed⟩
  · rintro ⟨resume, listed⟩
    exact ⟨_, listed, rfl⟩

/-- The place that the last choice point falls back to is the last one. -/
theorem saved_of_lastChoicePoint? {stack below : Stack} {resume : Nat} {cursor : Cursor}
    (last : stack.lastChoicePoint? = some (resume, cursor, below)) :
    stack.saved = below.saved ++ [cursor] := by
  rcases stack with ⟨frames, depth, counted⟩
  induction frames generalizing depth with
  | nil => cases last
  | cons frame frames inductionHypothesis =>
      have whole : (⟨frame :: frames, depth, counted⟩ : Stack) =
          push frame ⟨frames, frames.length, rfl⟩ := Stack.ext rfl
      rw [whole] at last ⊢
      cases frame with
      | caller address =>
          rw [saved_push_caller]
          exact inductionHypothesis _ _ last
      | choicePoint address saved =>
          cases last
          exact saved_push_choicePoint _ _ _

end Stack

/-- The places that a state may still go on from: those that it may fall back to,
and the one where it is. -/
def State.places (state : State) : List Cursor :=
  state.stack.saved ++ [state.cursor]

/-- What may become of the places of a state in a step. -/
inductive PlacesAfter (state : State) : List Cursor -> Prop where
  /-- Some of them are forgotten. -/
  | forgotten {places} : places.Sublist state.places -> PlacesAfter state places
  /-- The place where the machine is becomes one to fall back to. -/
  | marked : PlacesAfter state (state.places ++ [state.cursor])
  /-- The machine goes on behind a text that is there. -/
  | onward {taken left} : state.cursor.rest = taken ++ left ->
      PlacesAfter state (state.stack.saved ++ [⟨left, state.cursor.position + byteLength taken⟩])

theorem placesAfter_of_backtrack {state following : State}
    (resumed : backtrack state.stack = .next following) : PlacesAfter state following.places := by
  unfold backtrack at resumed
  split at resumed
  · cases resumed
  · next resume cursor below last =>
      cases resumed
      refine .forgotten ?_
      rw [State.places, State.places, Stack.saved_of_lastChoicePoint? last]
      exact List.sublist_append_left _ _

theorem Tests.placesAfter {instruction : Instruction} {admits : List Char -> Prop}
    (tests : Tests instruction admits) {program : Program} {state following : State}
    (stepped : execute program state instruction = .next following) :
    PlacesAfter state following.places := by
  rw [tests.executed] at stepped
  split at stepped
  · next bytes matched =>
      cases stepped
      rcases tests.only _ _ matched with ⟨taken, ⟨left, split⟩, admitted⟩
      rw [← split, tests.takes taken left admitted] at matched
      cases matched
      have moved := PlacesAfter.onward split.symm
      rw [State.places, Cursor.advance, ← split, dropBytes_byteLength_append]
      exact moved
  · exact placesAfter_of_backtrack stepped

/-- A step forgets places, marks the one where the machine is or goes on from
it. -/
theorem placesAfter_of_step {program : Program} {state following : State}
    (stepped : step program state = .next following) : PlacesAfter state following.places := by
  cases located : program.code[state.address]? with
  | none =>
      rw [step, located] at stepped
      cases stepped
  | some instruction =>
      rw [step_eq_execute located] at stepped
      cases instruction with
      | choice offset =>
          cases stepped
          rw [State.places, Stack.saved_push_choicePoint]
          exact .marked
      | commit offset =>
          rcases state.stack.eq_empty_or_push with empty | ⟨frame, below, pushed⟩
          · rw [execute, empty] at stepped
            cases stepped
          · cases frame with
            | caller resume =>
                rw [execute, pushed] at stepped
                cases stepped
            | choicePoint resume saved =>
                simp only [execute, pushed, Stack.pop?_push] at stepped
                cases stepped
                refine .forgotten ?_
                rw [State.places, State.places, pushed, Stack.saved_push_choicePoint]
                exact (List.sublist_append_left _ _).append (List.Sublist.refl _)
      | call name address =>
          cases address with
          | none => cases stepped
          | some entry =>
              cases stepped
              rw [State.places, Stack.saved_push_caller]
              exact .forgotten (List.Sublist.refl _)
      | returnToCaller =>
          rcases state.stack.eq_empty_or_push with empty | ⟨frame, below, pushed⟩
          · rw [execute, empty] at stepped
            cases stepped
          · cases frame with
            | caller resume =>
                simp only [execute, pushed, Stack.pop?_push] at stepped
                cases stepped
                have same : State.places ⟨resume, state.cursor, below⟩ = state.places := by
                  rw [State.places, State.places, pushed, Stack.saved_push_caller]
                exact .forgotten (same ▸ List.Sublist.refl _)
            | choicePoint resume saved =>
                rw [execute, pushed] at stepped
                cases stepped
      | fail => exact placesAfter_of_backtrack stepped
      | comment text =>
          cases stepped
          exact .forgotten (List.Sublist.refl _)
      | matchAny => exact tests_matchAny.placesAfter stepped
      | matchSet set => exact (tests_matchSet set).placesAfter stepped
      | matchText text => exact (tests_matchText text).placesAfter stepped
      | matchTextAnyCase text => exact (tests_matchTextAnyCase text).placesAfter stepped

/-! ## Along a run -/

/-- Places of a subject, none of them behind a later one. -/
structure OnCourse (subject : List Char) (places : List Cursor) : Prop where
  divide : forall cursor, cursor ∈ places -> cursor.Divides subject
  ascending : (places.map Cursor.position).Pairwise (· ≤ ·)

theorem onCourse_concat_iff {subject : List Char} {places : List Cursor} {cursor : Cursor} :
    OnCourse subject (places ++ [cursor]) <->
      OnCourse subject places ∧ cursor.Divides subject ∧
        forall place, place ∈ places -> place.position ≤ cursor.position := by
  have ascending : ((places ++ [cursor]).map Cursor.position).Pairwise (· ≤ ·) <->
      (places.map Cursor.position).Pairwise (· ≤ ·) ∧
        forall place, place ∈ places -> place.position ≤ cursor.position := by
    simp only [List.map_append, List.map_cons, List.map_nil, List.pairwise_append,
      List.pairwise_singleton, true_and, List.forall_mem_map, List.mem_singleton, forall_eq]
  constructor
  · rintro ⟨divide, ordered⟩
    rcases ascending.mp ordered with ⟨before, last⟩
    exact ⟨⟨fun place listed => divide place (List.mem_append_left _ listed), before⟩,
      divide cursor List.mem_concat_self, last⟩
  · rintro ⟨⟨divide, before⟩, divides, last⟩
    refine ⟨fun place listed => ?_, ascending.mpr ⟨before, last⟩⟩
    rcases List.mem_append.mp listed with earlier | same
    · exact divide place earlier
    · exact List.mem_singleton.mp same ▸ divides

namespace OnCourse

variable {subject : List Char} {program : Program} {state following : State}

theorem start (subject : List Char) : OnCourse subject (State.start subject).places :=
  onCourse_concat_iff.mpr ⟨⟨fun _ listed => absurd listed List.not_mem_nil, .nil⟩,
    Cursor.divides_start subject, fun _ listed => absurd listed List.not_mem_nil⟩

theorem after {places : List Cursor} (onCourse : OnCourse subject state.places)
    (moved : PlacesAfter state places) : OnCourse subject places := by
  cases moved with
  | forgotten fewer =>
      exact ⟨fun cursor listed => onCourse.divide cursor (fewer.subset listed),
        onCourse.ascending.sublist (fewer.map _)⟩
  | marked =>
      rcases onCourse_concat_iff.mp onCourse with ⟨_, divides, last⟩
      refine onCourse_concat_iff.mpr ⟨onCourse, divides, fun place listed => ?_⟩
      rcases List.mem_append.mp listed with earlier | same
      · exact last place earlier
      · exact List.mem_singleton.mp same ▸ Nat.le_refl _
  | onward split =>
      rcases onCourse_concat_iff.mp onCourse with ⟨before, divides, last⟩
      exact onCourse_concat_iff.mpr ⟨before, divides.onward split,
        fun place listed => Nat.le_add_right_of_le (last place listed)⟩

theorem of_leads {count : Nat} (onCourse : OnCourse subject state.places)
    (reached : Leads program count state (.next following)) :
    OnCourse subject following.places := by
  generalize goal : Step.next following = result at reached
  induction reached with
  | here state =>
      cases goal
      exact onCourse
  | last _ => cases goal
  | onward stepped _ inductionHypothesis =>
      exact inductionHypothesis (onCourse.after (placesAfter_of_step stepped)) goal

end OnCourse

/-- Falling back is no success. -/
theorem backtrack_ne_finished_some (stack : Stack) (position : Nat) :
    backtrack stack ≠ .finished (some position) := by
  rcases backtrack_cases stack with ⟨following, resumed⟩ | failed
  · rw [resumed]
    exact Step.noConfusion
  · rw [failed]
    simp only [ne_eq, Step.finished.injEq, reduceCtorEq, not_false_eq_true]

theorem Tests.ne_finished_some {instruction : Instruction} {admits : List Char -> Prop}
    (tests : Tests instruction admits) (program : Program) (state : State) (position : Nat) :
    execute program state instruction ≠ .finished (some position) := by
  rw [tests.executed]
  split
  · exact Step.noConfusion
  · exact backtrack_ne_finished_some state.stack position

/-- A match that succeeds ends where the machine is. -/
theorem position_of_step {program : Program} {state : State} {position : Nat}
    (stepped : step program state = .finished (some position)) :
    position = state.cursor.position := by
  cases located : program.code[state.address]? with
  | none =>
      rw [step, located] at stepped
      cases stepped
  | some instruction =>
      rw [step_eq_execute located] at stepped
      cases instruction with
      | choice _ | comment _ => cases stepped
      | commit offset =>
          rw [execute] at stepped
          split at stepped <;> cases stepped
      | call name address => cases address <;> cases stepped
      | returnToCaller =>
          rw [execute] at stepped
          split at stepped
          · cases stepped
            rfl
          · cases stepped
          · cases stepped
      | fail => exact absurd stepped (backtrack_ne_finished_some _ _)
      | matchAny => exact absurd stepped (tests_matchAny.ne_finished_some _ _ _)
      | matchSet set => exact absurd stepped ((tests_matchSet set).ne_finished_some _ _ _)
      | matchText text => exact absurd stepped ((tests_matchText text).ne_finished_some _ _ _)
      | matchTextAnyCase text =>
          exact absurd stepped ((tests_matchTextAnyCase text).ne_finished_some _ _ _)

end Machine

namespace Program

open Machine Text

/-- Every position that the machine comes to is one at which the subject can be
cut, and so is every position that it may fall back to; what it looks at is the
subject from there on.  From the bottom of the stack to its top and on to where
the machine is, the positions never decrease.  Where a match ends, the subject
can be cut as well. -/
theorem positions_cut_subject (program : Program) (subject : String) :
    (forall count state, Leads program count (.start subject.toList) (.next state) ->
      (forall cursor, (cursor = state.cursor ∨ Exists fun resume =>
          .choicePoint resume cursor ∈ state.stack.frames) ->
        CutsAt subject cursor.position ∧
        cursor.rest = dropBytes cursor.position subject.toList) ∧
      ((state.stack.saved ++ [state.cursor]).map Cursor.position).Pairwise (· ≤ ·)) ∧
    (forall config outcome position, program.matchWith config subject = .ok outcome ->
      outcome.matched = some position -> CutsAt subject position) := by
  have onCourse : forall {count state},
      Leads program count (.start subject.toList) (.next state) ->
      OnCourse subject.toList state.places :=
    fun reached => (OnCourse.start subject.toList).of_leads reached
  constructor
  · intro count state reached
    refine ⟨fun cursor kept => ?_, (onCourse reached).ascending⟩
    have listed : cursor ∈ state.places := by
      rw [State.places, List.mem_append, List.mem_singleton, Stack.mem_saved_iff]
      exact kept.symm
    have divides := (onCourse reached).divide cursor listed
    exact ⟨divides.cutsAt, divides.rest_eq⟩
  · intro config outcome position answered matched
    rcases leads_of_matchWith answered with ⟨count, whole⟩
    rcases whole.exists_last with ⟨before, last, reached, stepped⟩
    rw [matched] at stepped
    rw [position_of_step stepped]
    exact ((onCourse reached).divide _ List.mem_concat_self).cutsAt

/-- A letter in either case, one that takes up two bytes, and any other one, as
often as they follow each other. -/
def accentedTriples : Grammar :=
  ⟨[⟨"triples", .zeroOrMore (.sequence (.literalAnyCase "né") .any)⟩]⟩

/-- The program for accented triples. -/
def accentedProgram : Program where
  code := #[.choice 4, .matchTextAnyCase "né", .matchAny, .commit (-3), .returnToCaller]
  entries := [("triples", 0)]

/-- The second letter of a triple takes up two bytes, and so does the third one
here. -/
theorem accentedProgram_positions :
    accentedTriples.compile "triples" = .ok accentedProgram ∧
    Leads accentedProgram 2 (.start "NéßNe".toList) (.next ⟨2, ⟨"ßNe".toList, 3⟩,
      Stack.empty.push (.choicePoint 4 ⟨"NéßNe".toList, 0⟩)⟩) ∧
    CutsAt "NéßNe" 3 ∧ "ßNe".toList = dropBytes 3 "NéßNe".toList ∧
    [0, 3].Pairwise (· ≤ ·) ∧
    accentedProgram.matchWith ⟨some 7, false⟩ "NéßNe" = .ok ⟨some 5, 7, none⟩ ∧
    CutsAt "NéßNe" 5 := by
  have reached : Leads accentedProgram 2 (.start "NéßNe".toList) (.next ⟨2, ⟨"ßNe".toList, 3⟩,
      Stack.empty.push (.choicePoint 4 ⟨"NéßNe".toList, 0⟩)⟩) :=
    .onward rfl (.onward rfl (.here _))
  have answered : accentedProgram.matchWith ⟨some 7, false⟩ "NéßNe" = .ok ⟨some 5, 7, none⟩ := rfl
  rcases positions_cut_subject accentedProgram "NéßNe" with ⟨along, atEnd⟩
  rcases along _ _ reached with ⟨cut, ascending⟩
  rcases cut _ (Or.inl rfl) with ⟨here, rest⟩
  exact ⟨rfl, reached, here, rest, ascending, answered, atEnd _ _ _ answered rfl⟩

end Program
end ParsingMachine
