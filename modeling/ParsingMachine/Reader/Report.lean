import ParsingMachine.Reader.Fault
import ParsingMachine.Text.Quoted
import ParsingMachine.Text.Utf8

namespace ParsingMachine
namespace Reader

/-!
# How a fault is reported

A report has a message, which says what is wrong, a label for the text at
fault, which says what is wrong with it, and for most causes a note on how to
mend it.  The shorter `summary` names the cause and its place without prose.
-/

/-- What is wrong with a class, as it is put to the author of the grammar. -/
def ClassProblem.text : ClassProblem -> String
  | neverClosed => "this class is never closed"
  | rangeWithoutEnd => "a range needs a character literal after the `..`"
  | missingSeparator => "expected a `,` or `\x7d` here"
  | notAnItem => "classes only hold character literals and ranges"

namespace Cause

/-- What is wrong. -/
def message : Cause -> String
  | unknownOperator symbol => Text.quotedChar symbol ++ " is not a grammar operator"
  | unexpectedChar character =>
      "could not figure out what " ++ Text.quotedChar character ++ " was meant to be"
  | unclosedQuote quote => "expected a closing " ++ Text.quotedChar quote
  | invalidEscape _ | escapeAtEnd => "bad escape sequence"
  | badCharLiteral => "a character literal needs exactly one character"
  | malformedClass _ => "malformed character class"
  | badRepetition => "malformed repetition"
  | unclosedGroup => "expected a closing ')' to this group"
  | missingPattern => "expected a pattern but found nothing"
  | missingArrow name => "expected `<-` after the rule name `" ++ name ++ "`"
  | missingRule => "expected a rule definition"
  | leftover => "after reading one pattern, there was leftover"
  | tooDeep limit => "patterns nest more than " ++ toString limit ++ " deep here"

/-- What is wrong with the text at fault. -/
def label : Cause -> String
  | unknownOperator symbol => Text.quotedChar symbol ++ " doesn't mean anything here"
  | unexpectedChar _ => "this is unintelligible"
  | unclosedQuote quote =>
      "this " ++ Text.quotedChar quote ++ " expects a " ++ Text.quotedChar quote ++
        " to close it on the same line"
  | invalidEscape letter => Text.quotedChar letter ++ " cannot be escaped"
  | escapeAtEnd => "cannot escape the end of file"
  | badCharLiteral => "this isn't exactly one character"
  | malformedClass problem => problem.text
  | badRepetition => "this should be a count"
  | unclosedGroup => "this '(' expects a ')' to close it, but there wasn't one"
  | missingPattern => "a pattern should go here"
  | missingArrow name => "`" ++ name ++ "` is followed by something other than `<-`"
  | missingRule => "this isn't the start of a rule"
  | leftover => "this was left over after reading a well-formed pattern"
  | tooDeep _ => "this is one level too many"

/-- How to mend it. -/
def note? : Cause -> Option String
  | unknownOperator _ =>
      some ("patterns are joined with `*` or `|`, prefixed with `-` `?` `*` `+`, " ++
        "and repeated with `\x7bn\x7d` or `\x7bm..n\x7d`")
  | unclosedQuote quote => some ("try putting a " ++ Text.quotedChar quote ++ " at the end")
  | invalidEscape _ | escapeAtEnd => some "the escapes are \\n \\t \\r \\0 \\\\ \\' and \\\""
  | badCharLiteral => some "use double quotes for strings"
  | malformedClass _ => some "a class looks like \x7b 'x', 'a'..'z' \x7d"
  | badRepetition =>
      some "write \x7bn\x7d for exactly n, or \x7bm..n\x7d for between m and n"
  | unclosedGroup => some "try putting a ')' at the end"
  | missingArrow _ | missingRule =>
      some "if this was meant to be part of the rule above, join it on with `*`"
  | leftover => some "try deleting this, or joining it on with `*` or `|`"
  | tooDeep _ => some "try pulling the inner part out into a rule of its own"
  | unexpectedChar _ | missingPattern => none

/-- The cause in a word or two, with what it is about. -/
def summary : Cause -> String
  | unknownOperator symbol => "UnknownOperator(" ++ Text.quotedChar symbol ++ ")"
  | unexpectedChar character => "UnexpectedChar(" ++ Text.quotedChar character ++ ")"
  | unclosedQuote quote =>
      "ExpectedCloseQuote \x7b quote: " ++ Text.quotedChar quote ++ " \x7d"
  | invalidEscape letter => "InvalidEscape(BadChar(" ++ Text.quotedChar letter ++ "))"
  | escapeAtEnd => "InvalidEscape(Eof)"
  | badCharLiteral => "BadCharLiteral"
  | malformedClass problem => "MalformedClass(" ++ Text.quotedString problem.text ++ ")"
  | badRepetition => "BadRepetition"
  | unclosedGroup => "ExpectedCloseParen"
  | missingPattern => "ExpectedExpression"
  | missingArrow name => "ExpectedArrow(" ++ Text.quotedString name ++ ")"
  | missingRule => "ExpectedRule"
  | leftover => "InvalidRemainder"
  | tooDeep _ => "TooDeep"

end Cause

/-- A fault with its place in the whole text.  The text at fault lies between
the byte offsets `start` and `stop`, and `charStart` characters come before
it. -/
structure Report where
  cause : Cause
  start : Nat
  stop : Nat
  charStart : Nat
  deriving DecidableEq

namespace Report

/-- Place a fault in the text that was read. -/
def ofFault (text : List Char) (fault : Fault) : Report where
  cause := fault.cause
  start := Text.byteLength text - Text.byteLength fault.place
  stop := Text.byteLength text - Text.byteLength fault.after
  charStart := text.length - fault.place.length

/-- The cause and the place, without prose. -/
def summary (report : Report) : String :=
  "GrammarParseError(" ++ report.cause.summary ++ ", " ++ toString report.start ++ ".." ++
    toString report.stop ++ ")"

end Report
end Reader
end ParsingMachine
