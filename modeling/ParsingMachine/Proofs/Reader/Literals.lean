import ParsingMachine.Proofs.Reader.Faults
import ParsingMachine.Proofs.Reader.Writing

namespace ParsingMachine
namespace Reader

/-!
# Literals that are written and read

Writing a literal escapes the quote around it and not the other one, while
reading takes an escape of either.  A text between quotes can therefore be
spelled in more than one way, and it is written in one of them.

All of them are read as the same text and up to the same closing quote.  What
comes behind that quote has no part in it.
-/

/-- A closing quote is no sign of an escape. -/
theorem ne_backslash_of_isQuote {quote : Char} (isQuote : quote = '\'' ∨ quote = '"') :
    quote ≠ '\\' := by
  rcases isQuote with rfl | rfl <;> decide

/-- What was read of a literal is read again, and its closing quote is found
again, whatever comes behind the quote. -/
theorem literalBody_before {quote : Char} (noEscape : quote ≠ '\\') {opening text : List Char}
    {reading : Reading (List Char) text} (read : literalBody quote opening text = .ok reading) :
    Exists fun body => text = body ++ quote :: reading.rest ∧
      forall opening rest,
        Gives (literalBody quote opening (body ++ quote :: rest)) reading.value rest := by
  rcases (spellsBody_of_literalBody read).exists_body with ⟨body, split, holds⟩
  exact ⟨body, split, fun opening rest => literalBody_gives opening noEscape (holds rest)⟩

/-- A text that is written between quotes is read as it was. -/
theorem literalBody_escaped {quote : Char} (isQuote : quote = '\'' ∨ quote = '"')
    (opening content rest : List Char) :
    Gives (literalBody quote opening (Text.escaped quote content ++ quote :: rest)) content rest :=
  literalBody_gives opening (ne_backslash_of_isQuote isQuote)
    (spellsBody_escaped isQuote content rest)

/-- Writing a text between quotes and reading it are inverse to each other, as
far as texts go.  Whatever is written is read as the same text, up to its own
closing quote; and what is read of any literal reads the same once more, be it
spelled as it was or as it is written. -/
theorem literalBody_inverse_escaped {quote : Char} (isQuote : quote = '\'' ∨ quote = '"') :
    (forall opening content rest,
      Gives (literalBody quote opening (Text.escaped quote content ++ quote :: rest))
        content rest) ∧
    (forall opening text reading, literalBody quote opening text = .ok reading ->
      Exists fun body => text = body ++ quote :: reading.rest ∧ forall opening rest,
        Gives (literalBody quote opening (body ++ quote :: rest)) reading.value rest ∧
        Gives (literalBody quote opening (Text.escaped quote reading.value ++ quote :: rest))
          reading.value rest) := by
  refine ⟨literalBody_escaped isQuote, fun opening text reading read => ?_⟩
  rcases literalBody_before (ne_backslash_of_isQuote isQuote) read with ⟨body, split, again⟩
  exact ⟨body, split, fun opening rest =>
    ⟨again opening rest, literalBody_escaped isQuote opening reading.value rest⟩⟩

/-- Both quotes, a backslash and a line break between double quotes, with a
quote and an accent behind them.  Of the quotes inside, the double one alone is
written with a backslash, while both may be read with one. -/
theorem quotesInQuotes_inverse :
    Text.escaped '"' ['\'', '"', '\\', '\n'] = ['\'', '\\', '"', '\\', '\\', '\\', 'n'] ∧
      Gives (literalBody '"' ['"'] ['\'', '\\', '"', '\\', '\\', '\\', 'n', '"', '"', 'é'])
        ['\'', '"', '\\', '\n'] ['"', 'é'] ∧
      Gives (literalBody '"' ['"'] ['\\', '\'', '"', 'é']) ['\''] ['é'] ∧
      Gives (literalBody '"' ['"'] ['\'', '"']) ['\''] [] := by
  have isQuote : '"' = '\'' ∨ '"' = '"' := Or.inr rfl
  rcases literalBody_inverse_escaped isQuote with ⟨written, read⟩
  have single : Gives (literalBody '"' ['"'] ['\\', '\'', '"', 'é']) ['\''] ['é'] := ⟨_, rfl, rfl, rfl⟩
  rcases single with ⟨reading, found, value, rest⟩
  rcases read _ _ reading found with ⟨_, _, again⟩
  have rewritten := (again ['"'] []).2
  rw [value] at rewritten
  exact ⟨rfl, written ['"'] ['\'', '"', '\\', '\n'] ['"', 'é'], ⟨reading, found, value, rest⟩,
    rewritten⟩

end Reader
end ParsingMachine
