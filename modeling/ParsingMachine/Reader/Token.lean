import ParsingMachine.Pattern
import ParsingMachine.Reader.Sign
import ParsingMachine.Text.Escape

namespace ParsingMachine
namespace Reader

/-!
# Names, literals, classes and repetition bounds

The parts of a grammar text that hold no patterns.  Readers of something that
begins with an opening sign take the text behind the sign, and next to it
`opening`, the text from the sign on, which is where they find fault when the
closing sign does not come.
-/

/-! ## Names -/

/-- Whether a character can begin a rule name. -/
def isNameStart (character : Char) : Bool :=
  character.isAlpha || character = '_'

/-- Whether a character can continue a rule name. -/
def isNamePart (character : Char) : Bool :=
  character.isAlphanum || character = '_'

private theorem dropWhile_length_le (accepted : Char -> Bool) (text : List Char) :
    (text.dropWhile accepted).length ≤ text.length :=
  (List.dropWhile_sublist accepted).length_le

/-- The longest rule name at the beginning of a text. -/
def name? (text : List Char) : Option (Reading String text) :=
  match text with
  | [] => none
  | first :: rest =>
      if isNameStart first then
        some {
          value := String.ofList (first :: rest.takeWhile isNamePart)
          rest := rest.dropWhile isNamePart
          shorter := Nat.lt_succ_of_le (dropWhile_length_le isNamePart rest) }
      else none

/-! ## Literals -/

/-- The characters up to the closing quote, which is read as well.  A literal
has to end on its line. -/
def literalBody (quote : Char) (opening : List Char) :
    (text : List Char) -> Except Fault (Reading (List Char) text)
  | [] => .error ⟨.unclosedQuote quote, opening, []⟩
  | character :: rest =>
      if character = quote then .ok ⟨[], rest, Nat.lt_succ_self _⟩
      else if character = '\\' then
        match rest with
        | [] => .error ⟨.escapeAtEnd, character :: [], []⟩
        | letter :: behind =>
            match Text.unescape? letter with
            | none => .error ⟨.invalidEscape letter, character :: letter :: behind, behind⟩
            | some meant =>
                match literalBody quote opening behind with
                | .error fault => .error fault
                | .ok reading =>
                    .ok (((reading.map (meant :: ·)).behindChar letter).behindChar character)
      else if character = '\n' then .error ⟨.unclosedQuote quote, opening, character :: rest⟩
      else
        match literalBody quote opening rest with
        | .error fault => .error fault
        | .ok reading => .ok ((reading.map (character :: ·)).behindChar character)

/-- The single character up to the closing quote. -/
def charLiteral (opening text : List Char) : Except Fault (Reading Char text) :=
  match literalBody '\'' opening text with
  | .error fault => .error fault
  | .ok reading =>
      match reading.value with
      | [character] => .ok (reading.map fun _ => character)
      | _ => .error ⟨.badCharLiteral, opening, reading.rest⟩

/-! ## Character classes -/

/-- The character literal at the upper end of a range. -/
def rangeEnd (text : List Char) : Except Fault (Reading Char text) :=
  match sign? '\'' text with
  | none => .error ⟨.malformedClass .rangeWithoutEnd, skipTrivia text, (skipTrivia text).drop 1⟩
  | some quote =>
      match charLiteral ('\'' :: quote.rest) quote.rest with
      | .error fault => .error fault
      | .ok last => .ok (quote.behind last)

/-- An item of a class, behind its first quote.  It is a range if two dots
follow the character literal. -/
def classItem (opening text : List Char) : Except Fault (Reading ClassItem text) :=
  match charLiteral opening text with
  | .error fault => .error fault
  | .ok first =>
      match pair? '.' '.' first.rest with
      | none => .ok (first.map .char)
      | some dots =>
          match rangeEnd dots.rest with
          | .error fault => .error fault
          | .ok last =>
              .ok ((first.behind (dots.behind last)).map fun last => .range first.value last)

/-- The items of a class up to its closing brace, which is read as well.  A
comma may stand behind the last item. -/
def classItems (opening text : List Char) : Except Fault (Reading (List ClassItem) text) :=
  match next? text with
  | none => .error ⟨.malformedClass .neverClosed, opening, opening.drop 1⟩
  | some sign =>
      if sign.value = '}' then .ok (sign.map fun _ => [])
      else if sign.value = '\'' then
        match classItem sign.here sign.rest with
        | .error fault => .error fault
        | .ok item =>
            match next? item.rest with
            | none => .error ⟨.malformedClass .neverClosed, opening, opening.drop 1⟩
            | some separator =>
                if separator.value = '}' then
                  .ok (sign.behind (item.behind (separator.map fun _ => [item.value])))
                else if separator.value = ',' then
                  match classItems opening separator.rest with
                  | .error fault => .error fault
                  | .ok items =>
                      .ok ((sign.behind (item.behind (separator.behind items))).map
                        (item.value :: ·))
                else
                  .error ⟨.malformedClass .missingSeparator, separator.here, separator.rest⟩
      else .error ⟨.malformedClass .notAnItem, sign.here, sign.rest⟩
termination_by text.length
decreasing_by
  exact Nat.lt_trans separator.shorter (Nat.lt_trans item.shorter sign.shorter)

/-! ## Repetition bounds -/

/-- A decimal number below 2^64.  Leading zeros do not count against it. -/
def count (opening text : List Char) : Except Fault (Reading UInt64 text) :=
  match next? text with
  | none => .error ⟨.badRepetition, opening, []⟩
  | some first =>
      if first.value.isDigit then
        let value := Nat.ofDigitChars 10 (first.value :: first.rest.takeWhile Char.isDigit) 0
        let rest := first.rest.dropWhile Char.isDigit
        if value < UInt64.size then
          .ok {
            value := UInt64.ofNat value
            rest := rest
            shorter := Nat.lt_of_le_of_lt (dropWhile_length_le Char.isDigit first.rest)
              first.shorter }
        else .error ⟨.badRepetition, opening, rest⟩
      else .error ⟨.badRepetition, opening, first.rest⟩

/-- The greatest number of times, if it is given behind the least. -/
def secondCount? (opening text : List Char) : Except Fault (Option (Reading UInt64 text)) :=
  match (pair? '.' '.' text).orElse fun _ => sign? ',' text with
  | none => .ok none
  | some separator =>
      match count opening separator.rest with
      | .error fault => .error fault
      | .ok most => .ok (some (separator.behind most))

/-- The closing brace of the bounds. -/
def closeBounds {text : List Char} (opening : List Char)
    (reading : Reading (UInt64 × UInt64) text) : Except Fault (Reading (UInt64 × UInt64) text) :=
  match sign? '}' reading.rest with
  | none => .error ⟨.badRepetition, opening, (skipTrivia reading.rest).drop 1⟩
  | some closing => .ok (reading.behind (closing.map fun _ => reading.value))

/-- The least and the greatest number of times, behind the opening brace.  The
two are separated by two dots or by a comma, and a single number stands for
both. -/
def bounds (opening text : List Char) : Except Fault (Reading (UInt64 × UInt64) text) :=
  match count opening text with
  | .error fault => .error fault
  | .ok least =>
      match secondCount? opening least.rest with
      | .error fault => .error fault
      | .ok none => closeBounds opening (least.map fun value => (value, value))
      | .ok (some most) =>
          closeBounds opening (least.behind (most.map fun value => (least.value, value)))

end Reader
end ParsingMachine
