namespace ParsingMachine
namespace Text

/-!
# Texts measured in UTF-8 bytes

A text is a list of characters, and every position that the library reports
counts bytes of its UTF-8 encoding.  The two measures meet here and nowhere
else: `byteLength` is the number of bytes of a text, `utf8Bytes` are those
bytes, and `takeBytes` and `dropBytes` cut a text behind a given number of
them, one character at a time.  No text is ever cut inside a character,
because a text is never held as bytes.
-/

/-- The number of bytes that a text takes up. -/
def byteLength : List Char -> Nat
  | [] => 0
  | character :: rest => character.utf8Size + byteLength rest

@[simp] theorem byteLength_nil : byteLength [] = 0 := rfl

@[simp] theorem byteLength_cons (character : Char) (rest : List Char) :
    byteLength (character :: rest) = character.utf8Size + byteLength rest := rfl

@[simp] theorem byteLength_append (first second : List Char) :
    byteLength (first ++ second) = byteLength first + byteLength second := by
  induction first with
  | nil => simp only [List.nil_append, byteLength_nil, Nat.zero_add]
  | cons character rest inductionHypothesis =>
      simp only [List.cons_append, byteLength_cons, inductionHypothesis, Nat.add_assoc]

/-- Every character takes up a byte, so a text has no more characters than
bytes. -/
theorem length_le_byteLength (text : List Char) : text.length ≤ byteLength text := by
  induction text with
  | nil => exact Nat.le_refl 0
  | cons character rest inductionHypothesis =>
      have positive := character.utf8Size_pos
      simp only [List.length_cons, byteLength_cons]
      omega

/-- The bytes of a text, one character after another. -/
def utf8Bytes (text : List Char) : List UInt8 :=
  text.flatMap String.utf8EncodeChar

@[simp] theorem length_utf8Bytes (text : List Char) :
    (utf8Bytes text).length = byteLength text := by
  induction text with
  | nil => rfl
  | cons character rest inductionHypothesis =>
      simp only [utf8Bytes, List.flatMap_cons, List.length_append, String.length_utf8EncodeChar,
        byteLength_cons] at inductionHypothesis ⊢
      rw [inductionHypothesis]

/-- The first `count` bytes of a text.  A character that `count` only reaches
into is taken as a whole. -/
def takeBytes : Nat -> List Char -> List Char
  | _, [] => []
  | count, character :: rest =>
      if count = 0 then [] else character :: takeBytes (count - character.utf8Size) rest

/-- What is left of a text behind its first `count` bytes.  A character that
`count` only reaches into is passed over as a whole. -/
def dropBytes : Nat -> List Char -> List Char
  | _, [] => []
  | count, character :: rest =>
      if count = 0 then character :: rest else dropBytes (count - character.utf8Size) rest

@[simp] theorem dropBytes_zero (text : List Char) : dropBytes 0 text = text := by
  cases text <;> simp only [dropBytes, if_true]

/-- Cutting a text loses nothing. -/
theorem takeBytes_append_dropBytes (count : Nat) (text : List Char) :
    takeBytes count text ++ dropBytes count text = text := by
  induction text generalizing count with
  | nil => rfl
  | cons character rest inductionHypothesis =>
      by_cases zero : count = 0
      · simp only [takeBytes, dropBytes, if_pos zero, List.nil_append]
      · simp only [takeBytes, dropBytes, if_neg zero, List.cons_append, inductionHypothesis]

/-- Dropping exactly the bytes of a beginning leaves the rest. -/
theorem dropBytes_byteLength_append (first second : List Char) :
    dropBytes (byteLength first) (first ++ second) = second := by
  induction first with
  | nil => exact dropBytes_zero second
  | cons character rest inductionHypothesis =>
      have positive := character.utf8Size_pos
      have some : byteLength (character :: rest) ≠ 0 := by
        rw [byteLength_cons]
        omega
      have remaining : byteLength (character :: rest) - character.utf8Size = byteLength rest := by
        rw [byteLength_cons, Nat.add_sub_cancel_left]
      rw [List.cons_append, dropBytes, if_neg some, remaining, inductionHypothesis]

end Text
end ParsingMachine
