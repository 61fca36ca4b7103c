import ParsingMachine.Text.Utf8

namespace ParsingMachine
namespace Text

/-!
# Texts and their bytes

A text is determined by its bytes from the front, one character after another,
because no character has an encoding that another one begins with.  The length
that strings keep is the length of that encoding.
-/

@[simp] theorem utf8Bytes_cons (character : Char) (rest : List Char) :
    utf8Bytes (character :: rest) = String.utf8EncodeChar character ++ utf8Bytes rest := rfl

theorem utf8Bytes_append (first second : List Char) :
    utf8Bytes (first ++ second) = utf8Bytes first ++ utf8Bytes second :=
  List.flatMap_append

/-- The first bytes of a text lie in as many characters at its beginning. -/
theorem take_utf8Bytes_take (count : Nat) (text : List Char) :
    (utf8Bytes (text.take count)).take count = (utf8Bytes text).take count := by
  rcases Nat.le_total text.length count with short | long
  · rw [List.take_of_length_le short]
  · have enough : count ≤ (utf8Bytes (text.take count)).length := by
      calc count = (text.take count).length := (List.length_take_of_le long).symm
        _ ≤ byteLength (text.take count) := length_le_byteLength _
        _ = (utf8Bytes (text.take count)).length := (length_utf8Bytes _).symm
    calc (utf8Bytes (text.take count)).take count
        = (utf8Bytes (text.take count) ++ utf8Bytes (text.drop count)).take count :=
          (List.take_append_of_le_length enough).symm
      _ = (utf8Bytes text).take count := by
          rw [← utf8Bytes_append, List.take_append_drop]

/-- No character has an encoding that another one begins with. -/
theorem eq_of_utf8EncodeChar_append {one other : Char} {behindOne behindOther : List UInt8}
    (same : String.utf8EncodeChar one ++ behindOne = String.utf8EncodeChar other ++ behindOther) :
    one = other := by
  have decoded := congrArg (fun bytes => bytes.toByteArray.utf8DecodeChar? 0) same
  simp only [List.toByteArray_append, ByteArray.utf8DecodeChar?_utf8EncodeChar_append] at decoded
  exact Option.some.inj decoded

/-- A text whose bytes another text begins with is a beginning of it. -/
theorem isPrefix_of_utf8Bytes_isPrefix {text subject : List Char}
    (begins : utf8Bytes text <+: utf8Bytes subject) : text <+: subject := by
  induction text generalizing subject with
  | nil => exact List.nil_prefix
  | cons character rest inductionHypothesis =>
      rcases begins with ⟨behind, equal⟩
      rw [utf8Bytes_cons, List.append_assoc] at equal
      cases subject with
      | nil =>
          have empty := (List.append_eq_nil_iff.mp equal).1
          exact absurd empty String.utf8EncodeChar_ne_nil
      | cons found others =>
          rw [utf8Bytes_cons] at equal
          have same := eq_of_utf8EncodeChar_append equal
          subst same
          have behindSame := List.append_cancel_left equal
          have restBegins := inductionHypothesis ⟨behind, behindSame⟩
          exact List.cons_prefix_cons.mpr ⟨rfl, restBegins⟩

/-- The bytes that a string counts are those of its characters. -/
theorem utf8ByteSize_eq_byteLength (text : String) :
    text.utf8ByteSize = byteLength text.toList := by
  have encoded : text.toByteArray = text.toList.utf8Encode := by
    rw [← String.toByteArray_ofList, String.ofList_toList]
  rw [← String.size_toByteArray, encoded, List.utf8Encode, List.size_toByteArray,
    ← length_utf8Bytes]
  rfl

/-- Only the empty text takes up no bytes. -/
theorem byteLength_eq_zero_iff {text : List Char} : byteLength text = 0 <-> text = [] := by
  constructor
  · intro nothing
    have bound := length_le_byteLength text
    rw [nothing] at bound
    exact List.eq_nil_of_length_eq_zero (Nat.le_zero.mp bound)
  · intro empty
    rw [empty, byteLength_nil]

theorem byteLength_replicate (count : Nat) (character : Char) :
    byteLength (List.replicate count character) = count * character.utf8Size := by
  induction count with
  | zero => rw [List.replicate_zero, byteLength_nil, Nat.zero_mul]
  | succ count inductionHypothesis =>
      rw [List.replicate_succ, byteLength_cons, inductionHypothesis, Nat.succ_mul, Nat.add_comm]

/-- The first bytes of a text are a beginning of it that takes up as many. -/
theorem takeBytes_byteLength_append (first second : List Char) :
    takeBytes (byteLength first) (first ++ second) = first := by
  have whole := takeBytes_append_dropBytes (byteLength first) (first ++ second)
  rw [dropBytes_byteLength_append] at whole
  exact List.append_cancel_right whole

/-! ## Cutting a subject -/

/-- A number of bytes behind which a subject can be cut in two.  It lies within
the subject and between two characters, so both parts are texts, and their bytes
are the bytes of the subject in front of it and behind it. -/
structure CutsAt (subject : String) (position : Nat) : Prop where
  within : position ≤ subject.utf8ByteSize
  boundary : (String.Pos.Raw.mk position).IsValid subject
  front : utf8Bytes (takeBytes position subject.toList) =
    (utf8Bytes subject.toList).take position
  back : utf8Bytes (dropBytes position subject.toList) =
    (utf8Bytes subject.toList).drop position

theorem cutsAt_byteLength {subject : String} {front back : List Char}
    (whole : front ++ back = subject.toList) : CutsAt subject (byteLength front) where
  within := by
    rw [utf8ByteSize_eq_byteLength, ← whole, byteLength_append]
    exact Nat.le_add_right _ _
  boundary := by
    have size : (String.ofList front).utf8ByteSize = byteLength front := by
      rw [utf8ByteSize_eq_byteLength, String.toList_ofList]
    refine String.Pos.Raw.isValid_iff_exists_append.mpr ⟨.ofList front, .ofList back, ?_, ?_⟩
    · rw [← String.ofList_append, whole, String.ofList_toList]
    · exact congrArg String.Pos.Raw.mk size.symm
  front := by
    rw [← whole, takeBytes_byteLength_append, utf8Bytes_append, ← length_utf8Bytes,
      List.take_left]
  back := by
    rw [← whole, dropBytes_byteLength_append, utf8Bytes_append, ← length_utf8Bytes,
      List.drop_left]

end Text
end ParsingMachine
