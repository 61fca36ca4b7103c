namespace ParsingMachine
namespace Text

/-!
# Backslash escapes

The two directions of the escapes that grammar literals use.  Writing
escapes the quote that surrounds the text and no other, while reading accepts
both quotes behind a backslash, so the two tables are not the same list:
reading undoes writing, but not every text that reads was written so.
-/

/-- The letter that stands for a character behind a backslash, when the text
is written between two of these quotes. -/
def escapeLetter? (quote character : Char) : Option Char :=
  if character = '\t' then some 't'
  else if character = '\r' then some 'r'
  else if character = '\n' then some 'n'
  else if character = '\x00' then some '0'
  else if character = '\\' then some '\\'
  else if character = quote then some quote
  else none

/-- The character that a letter behind a backslash stands for. -/
def unescape? (letter : Char) : Option Char :=
  if letter = 'n' then some '\n'
  else if letter = 't' then some '\t'
  else if letter = 'r' then some '\r'
  else if letter = '0' then some '\x00'
  else if letter = '\\' ∨ letter = '\'' ∨ letter = '"' then some letter
  else none

/-- One character as it is written between two quotes. -/
def escapedChar (quote character : Char) : List Char :=
  match escapeLetter? quote character with
  | some letter => ['\\', letter]
  | none => [character]

/-- A text as it is written between two quotes, without the quotes. -/
def escaped (quote : Char) (text : List Char) : List Char :=
  text.flatMap (escapedChar quote)

@[simp] theorem escaped_nil (quote : Char) : escaped quote [] = [] := rfl

@[simp] theorem escaped_cons (quote character : Char) (rest : List Char) :
    escaped quote (character :: rest) = escapedChar quote character ++ escaped quote rest := rfl

/-- Reading an escape gives back the character that was written with it. -/
theorem unescape?_of_escapeLetter? {quote character letter : Char}
    (isQuote : quote = '\'' ∨ quote = '"') (written : escapeLetter? quote character = some letter) :
    unescape? letter = some character := by
  unfold escapeLetter? at written
  split at written
  · next equal => cases written; subst equal; rfl
  split at written
  · next equal => cases written; subst equal; rfl
  split at written
  · next equal => cases written; subst equal; rfl
  split at written
  · next equal => cases written; subst equal; rfl
  split at written
  · next equal => cases written; subst equal; rfl
  split at written
  · next equal =>
      cases written
      subst equal
      rcases isQuote with single | double
      · subst single; rfl
      · subst double; rfl
  · cases written

end Text
end ParsingMachine
