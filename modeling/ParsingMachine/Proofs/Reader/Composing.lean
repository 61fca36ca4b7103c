import ParsingMachine.Proofs.Reader.Language
import ParsingMachine.Proofs.Reader.Lookahead

namespace ParsingMachine
namespace Reader

/-!
# Grammar texts one behind the other

Nothing separates the rules of a grammar text, and so nothing but a new line
need stand between two grammar texts.  The line ends what the first text leaves
open at its end, which is a name or a comment.  Everything else that is spelled
has come to its end where it did before, and what is read there next is the name
of a rule or nothing at all.
-/

/-- What two texts spell is spelled by the lines of both. -/
theorem SpellsRules.append {text other : List Char} {rules others : List Rule}
    (spelled : SpellsRules text rules) (otherSpelled : SpellsRules other others) :
    SpellsRules (text ++ '\n' :: other) (rules ++ others) := by
  induction spelled with
  | none ended =>
      have trivia := ended.oneAhead.before_line other
      exact otherSpelled.behind_trivia (trivia.trans (.blank rfl (.nothing other)))
  | rule before named arrow body _ inductionHypothesis =>
      exact .rule (before.oneAhead.before_line other) (named.oneAhead.before_line other)
        (arrow.oneAhead.before_line other) (body.oneAhead.before_line other) inductionHypothesis

end Reader

namespace Grammar

open Reader

/-- Two texts that are read as grammars are read as one grammar when they are put
one behind the other with a new line in between.  It has the rules of both. -/
theorem ofText_append {first second : String} {grammar other : Grammar}
    (firstRead : Grammar.ofText first = .ok grammar)
    (secondRead : Grammar.ofText second = .ok other) :
    Grammar.ofText (first ++ "\n" ++ second) = .ok ⟨grammar.rules ++ other.rules⟩ := by
  rcases spells_of_ofText firstRead with ⟨spelled, bounded⟩
  rcases spells_of_ofText secondRead with ⟨otherSpelled, otherBounded⟩
  have text : (first ++ "\n" ++ second).toList = first.toList ++ '\n' :: second.toList := by
    rw [String.toList_append, String.toList_append, List.append_assoc]
    rfl
  rw [ofText_eq_ok, ruleDefinitions_eq_ok (by decide), text]
  refine ⟨spelled.append otherSpelled, fun rule listed => ?_⟩
  rcases List.mem_append.mp listed with listed | listed
  · exact bounded rule listed
  · exact otherBounded rule listed

/-- The first text ends inside a comment, and the second one begins with a
name. -/
theorem openComment_append :
    Grammar.ofText "a <- b#c" = .ok ⟨[⟨"a", .rule "b"⟩]⟩ ∧
      Grammar.ofText "d <- 'x'" = .ok ⟨[⟨"d", .char 'x'⟩]⟩ ∧
      Grammar.ofText ("a <- b#c" ++ "\n" ++ "d <- 'x'") =
        .ok ⟨[⟨"a", .rule "b"⟩, ⟨"d", .char 'x'⟩]⟩ := by
  have name (letter next : Char) (rest : List Char) (starts : isNameStart letter = true)
      (stops : isNamePart next = false) :
      SpellsName (letter :: next :: rest) (String.ofList [letter]) (next :: rest) :=
    spellsName_letter starts fun _ headed => Option.some.inj headed ▸ stops
  have blank (rest : List Char) : Trivia (' ' :: rest) rest := .blank rfl (.nothing rest)
  have comment : Trivia ('#' :: ['c'] ++ []) [] := .comment (by decide) (Or.inl rfl) (.nothing [])
  have reference : SpellsPattern 0 " b#c".toList (.rule "b") "#c".toList :=
    .tighter (.tighter (.tighter (.tighter (.atom (blank _) (.rule (name 'b' '#' _ rfl rfl))))))
  have character : SpellsPattern 0 " 'x'".toList (.char 'x') [] :=
    .tighter (.tighter (.tighter (.tighter
      (.atom (blank _) (.char (.raw (by decide) (by decide) (by decide) .close))))))
  have first : Grammar.ofText "a <- b#c" = .ok ⟨[⟨"a", .rule "b"⟩]⟩ := by
    refine ofText_eq_ok.mpr ((ruleDefinitions_eq_ok (by decide) _ _).mpr ⟨?_, by decide⟩)
    exact .rule (.nothing _) (name 'a' ' ' _ rfl rfl) (blank _) reference (.none comment)
  have second : Grammar.ofText "d <- 'x'" = .ok ⟨[⟨"d", .char 'x'⟩]⟩ := by
    refine ofText_eq_ok.mpr ((ruleDefinitions_eq_ok (by decide) _ _).mpr ⟨?_, by decide⟩)
    exact .rule (.nothing _) (name 'd' ' ' _ rfl rfl) (blank _) character (.none (.nothing []))
  exact ⟨first, second, ofText_append first second⟩

end Grammar
end ParsingMachine
