import ParsingMachine.Reader.Reading
import ParsingMachine.Reader.Trivia

namespace ParsingMachine
namespace Reader

/-!
# Signs behind blanks and comments

The signs of the grammar syntax, each of which may have blanks and comments in
front of it.  A sign of two characters is unbroken.
-/

/-- The next character behind blanks and comments. -/
def next? (text : List Char) : Option (Reading Char text) :=
  match found : skipTrivia text with
  | [] => none
  | character :: rest => some ⟨character, rest, length_lt_of_skipTrivia found⟩

/-- The given sign, if it is the next character. -/
def sign? (sign : Char) (text : List Char) : Option (Reading Unit text) :=
  match next? text with
  | none => none
  | some next => if next.value = sign then some (next.map fun _ => ()) else none

/-- The given two signs, if they are the next characters and nothing comes
between them. -/
def pair? (first second : Char) (text : List Char) : Option (Reading Unit text) :=
  match sign? first text with
  | none => none
  | some sign =>
      match rest : sign.rest with
      | [] => none
      | character :: behind =>
          if character = second then
            some ⟨(), behind, Nat.lt_trans (rest ▸ Nat.lt_succ_self _) sign.shorter⟩
          else none

/-- What was read, with the blanks and comments behind it passed over. -/
def Reading.pastTrivia {α : Type} {text : List Char} (reading : Reading α text) :
    Reading α text where
  value := reading.value
  rest := skipTrivia reading.rest
  shorter := Nat.lt_of_le_of_lt (skipTrivia_length_le reading.rest) reading.shorter

theorem next?_eq_none_iff {text : List Char} : next? text = none <-> skipTrivia text = [] := by
  unfold next?
  split
  · next found => exact ⟨fun _ => found, fun _ => rfl⟩
  · next found =>
      constructor
      · intro impossible
        cases impossible
      · intro empty
        rw [empty] at found
        cases found

/-- The next character and what is behind it are what is left behind the
trivia. -/
theorem skipTrivia_of_next? {text : List Char} {next : Reading Char text}
    (found : next? text = some next) : skipTrivia text = next.here := by
  unfold next? at found
  split at found
  · cases found
  · next left =>
      cases found
      exact left

end Reader
end ParsingMachine
