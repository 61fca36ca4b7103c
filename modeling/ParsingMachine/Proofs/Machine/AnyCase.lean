import Mathlib.Data.List.Forall2
import ParsingMachine.Proofs.Machine.Positions

namespace ParsingMachine
namespace Machine

open Text

/-!
# Literals in any case

The instruction for such a literal compares bytes, and goes on by the bytes of
the literal, not by those of what it has found.  Neither is a matter of bytes:
the comparison succeeds exactly if the subject goes on with as many characters
as the literal has, each of which is the one of the literal but for the case of
an ASCII letter, and these take up as many bytes as the literal does.  So the
place that is gone on to lies between two characters again.
-/

/-- Texts without their case agree exactly if they have as many characters, and
these agree one by one. -/
theorem folded_eq_iff {one other : List Char} :
    folded one = folded other <-> List.Forall₂ SameButCase one other := by
  have agree : (fun one other : Char => one.toLower = other.toLower) = SameButCase := by
    funext one other
    exact propext toLower_eq_toLower_iff
  rw [folded, folded, ← List.forall₂_eq_eq_eq, List.forall₂_map_left_iff,
    List.forall₂_map_right_iff, agree]

/-- What the comparison looks for lies in as many characters at the beginning of
the subject as the text has. -/
theorem beginsWithAnyCase_iff_forall₂ {text subject : List Char} :
    beginsWithAnyCase text subject = true <->
      List.Forall₂ SameButCase text (subject.take text.length) := by
  rw [beginsWithAnyCase_iff]
  constructor
  · rintro ⟨taken, rest, rfl, same⟩
    have agree := folded_eq_iff.mp same.symm
    -- the texts agree one by one, so there is no other beginning to take
    rw [List.take_left' agree.length_eq.symm]
    exact agree
  · intro agree
    refine ⟨subject.take text.length, subject.drop text.length, ?_, ?_⟩
    · exact (List.take_append_drop _ _).symm
    · exact (folded_eq_iff.mpr agree).symm

/-- A literal is taken off by the bytes that its characters take up in the
subject. -/
theorem matchedBytes?_matchTextAnyCase_eq_some_iff {text : String} {subject : List Char}
    {bytes : Nat} :
    matchedBytes? subject (.matchTextAnyCase text) = some bytes <->
      List.Forall₂ SameButCase text.toList (subject.take text.length) ∧
      bytes = byteLength (subject.take text.length) := by
  have count : text.toList.length = text.length := text.length_toList
  have counted : List.Forall₂ SameButCase text.toList (subject.take text.length) ->
      text.utf8ByteSize = byteLength (subject.take text.length) := by
    intro agree
    rw [utf8ByteSize_eq_byteLength]
    exact byteLength_eq_of_folded_eq (folded_eq_iff.mpr agree)
  rw [matchedBytes?]
  split
  · next begins =>
      have agree := beginsWithAnyCase_iff_forall₂.mp begins
      rw [count] at agree
      rw [Option.some.injEq, counted agree]
      constructor
      · intro same
        exact ⟨agree, same.symm⟩
      · rintro ⟨_, same⟩
        exact same.symm
  · next differs =>
      rw [beginsWithAnyCase_iff_forall₂, count] at differs
      constructor
      · intro matched
        cases matched
      · rintro ⟨agree, _⟩
        exact absurd agree differs

variable {program : Program} {address : Nat} {cursor : Cursor} {stack : Stack} {text : String}

/-- The machine goes on behind the characters that it has found. -/
theorem execute_matchTextAnyCase_of_forall₂
    (agree : List.Forall₂ SameButCase text.toList (cursor.rest.take text.length)) :
    execute program ⟨address, cursor, stack⟩ (.matchTextAnyCase text) =
      .next ⟨address + 1, ⟨cursor.rest.drop text.length,
        cursor.position + byteLength (cursor.rest.take text.length)⟩, stack⟩ := by
  have matched := matchedBytes?_matchTextAnyCase_eq_some_iff.mpr ⟨agree, rfl⟩
  have behind := dropBytes_byteLength_append (cursor.rest.take text.length)
    (cursor.rest.drop text.length)
  rw [List.take_append_drop] at behind
  rw [(tests_matchTextAnyCase text).executed]
  simp only [matched, Cursor.advance, behind]

/-- The machine falls back where it has not found them. -/
theorem execute_matchTextAnyCase_of_not_forall₂
    (differ : ¬ List.Forall₂ SameButCase text.toList (cursor.rest.take text.length)) :
    execute program ⟨address, cursor, stack⟩ (.matchTextAnyCase text) = backtrack stack := by
  rw [(tests_matchTextAnyCase text).executed]
  cases matched : matchedBytes? cursor.rest (.matchTextAnyCase text) with
  | none => rfl
  | some bytes => exact absurd (matchedBytes?_matchTextAnyCase_eq_some_iff.mp matched).1 differ

/-- From any place between two characters of a subject, and for any literal: the
bytes of the literal and as many bytes of the subject are the same without their
ASCII case exactly if the subject goes on with as many characters as the literal
has, each of them the same but for the case of an ASCII letter.  Then and only
then the instruction matches, by the bytes of these characters, and the place
behind them lies between two characters again. -/
theorem matchTextAnyCase_iff_sameButCase (text : String) {subject : String} {position : Nat}
    (boundary : (String.Pos.Raw.mk position).IsValid subject) :
    let rest := dropBytes position subject.toList
    let taken := rest.take text.length
    let behind := position + byteLength taken
    ((((utf8Bytes subject.toList).drop position).take text.utf8ByteSize).map foldByte =
        (utf8Bytes text.toList).map foldByte <->
      List.Forall₂ SameButCase text.toList taken) ∧
    (forall bytes, matchedBytes? rest (.matchTextAnyCase text) = some bytes <->
      List.Forall₂ SameButCase text.toList taken ∧ bytes = byteLength taken) ∧
    (List.Forall₂ SameButCase text.toList taken ->
      CutsAt subject behind ∧
      forall program address stack,
        execute program ⟨address, ⟨rest, position⟩, stack⟩ (.matchTextAnyCase text) =
          .next ⟨address + 1, ⟨dropBytes behind subject.toList, behind⟩, stack⟩) ∧
    (¬ List.Forall₂ SameButCase text.toList taken ->
      forall program address stack,
        execute program ⟨address, ⟨rest, position⟩, stack⟩ (.matchTextAnyCase text) =
          backtrack stack) := by
  intro rest taken behind
  have here := Cursor.divides_of_isValid boundary
  have there := here.onward (List.take_append_drop text.length rest).symm
  refine ⟨?bytes, ?matched, ?found, ?missed⟩
  case bytes =>
    -- at a boundary, what is left of the bytes are the bytes of what is left
    rw [← here.cutsAt.back, utf8ByteSize_eq_byteLength, ← beginsWithAnyCase_iff_bytes,
      beginsWithAnyCase_iff_forall₂, String.length_toList]
  case matched =>
    intro bytes
    exact matchedBytes?_matchTextAnyCase_eq_some_iff
  case found =>
    intro agree
    refine ⟨there.cutsAt, fun program address stack => ?_⟩
    rw [← there.rest_eq]
    exact execute_matchTextAnyCase_of_forall₂ agree
  case missed =>
    intro differ program address stack
    exact execute_matchTextAnyCase_of_not_forall₂ differ

/-- The program for any character and a word behind it. -/
def accentedWord : Program where
  code := #[.matchAny, .matchTextAnyCase "straße", .returnToCaller]
  entries := [("word", 0)]

/-- Behind a letter of two bytes, a word with another such letter in it is found,
and one of as many bytes with two letters in its place is not. -/
theorem accentedWord_matches :
    (String.Pos.Raw.mk 2).IsValid "λSTRAßE!" ∧
    List.Forall₂ SameButCase "straße".toList "STRAßE".toList ∧
    matchedBytes? "STRAßE!".toList (.matchTextAnyCase "straße") = some 7 ∧
    CutsAt "λSTRAßE!" 9 ∧
    execute accentedWord ⟨1, ⟨"STRAßE!".toList, 2⟩, .empty⟩ (.matchTextAnyCase "straße") =
      .next ⟨2, ⟨"!".toList, 9⟩, .empty⟩ ∧
    ¬ List.Forall₂ SameButCase "strasse".toList "STRAßE!".toList ∧
    execute accentedWord ⟨1, ⟨"STRAßE!".toList, 2⟩, .empty⟩ (.matchTextAnyCase "strasse") =
      .finished none := by
  have boundary : (String.Pos.Raw.mk 2).IsValid "λSTRAßE!" := by decide
  have agree : List.Forall₂ SameButCase "straße".toList "STRAßE".toList := by decide
  have differ : ¬ List.Forall₂ SameButCase "strasse".toList "STRAßE!".toList := by decide
  rcases matchTextAnyCase_iff_sameButCase "straße" boundary with ⟨_, matched, found, _⟩
  rcases matchTextAnyCase_iff_sameButCase "strasse" boundary with ⟨_, _, _, missed⟩
  rcases found agree with ⟨cut, executed⟩
  exact ⟨boundary, agree, (matched 7).mpr ⟨agree, rfl⟩, cut, executed _ _ _, differ,
    missed differ _ _ _⟩

end Machine
end ParsingMachine
