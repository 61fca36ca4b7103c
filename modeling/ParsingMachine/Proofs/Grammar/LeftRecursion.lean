import Mathlib.Data.Fintype.Card
import Mathlib.Data.Fintype.EquivFin
import Mathlib.Data.Fintype.Sets
import Mathlib.Logic.Relation
import ParsingMachine.Proofs.Grammar.Semantics
import ParsingMachine.Proofs.Grammar.WellFormed

namespace ParsingMachine

/-!
# Left recursion

A rule recurs on the left if it can get back to itself before anything has been
matched.  Both parts of this are read off the patterns without a look at any
text: which patterns may match nothing, and which rules a pattern refers to
behind nothing but such patterns.

Where no rule recurs on the left every pattern has an outcome on every text.
Three things are used up in turn: the text, the rules that can still be got to
without matching anything, and the pattern.
-/

namespace Grammar

/-- The pattern may match nothing. -/
inductive MayBeEmpty (grammar : Grammar) : Pattern -> Prop where
  | literal : MayBeEmpty grammar (.literal "")
  | literalAnyCase : MayBeEmpty grammar (.literalAnyCase "")
  | not (inner) : MayBeEmpty grammar (.not inner)
  | optional (inner) : MayBeEmpty grammar (.optional inner)
  | zeroOrMore (inner) : MayBeEmpty grammar (.zeroOrMore inner)
  | free (inner most) : MayBeEmpty grammar (.repeated inner 0 most)
  | group {inner} : MayBeEmpty grammar inner -> MayBeEmpty grammar (.group inner)
  | oneOrMore {inner} : MayBeEmpty grammar inner -> MayBeEmpty grammar (.oneOrMore inner)
  | repeated {inner} (least most) :
      MayBeEmpty grammar inner -> MayBeEmpty grammar (.repeated inner least most)
  | sequence {first second} :
      MayBeEmpty grammar first -> MayBeEmpty grammar second ->
      MayBeEmpty grammar (.sequence first second)
  | choiceFirst {first} (second) :
      MayBeEmpty grammar first -> MayBeEmpty grammar (.choice first second)
  | choiceSecond (first) {second} :
      MayBeEmpty grammar second -> MayBeEmpty grammar (.choice first second)
  | rule {name rule} :
      grammar.get? name = some rule -> MayBeEmpty grammar rule.pattern ->
      MayBeEmpty grammar (.rule name)

/-- The pattern refers to a rule at a place that only patterns which may match
nothing come before. -/
inductive RefersLeft (grammar : Grammar) (name : String) : Pattern -> Prop where
  | rule : RefersLeft grammar name (.rule name)
  | group {inner} : RefersLeft grammar name inner -> RefersLeft grammar name (.group inner)
  | not {inner} : RefersLeft grammar name inner -> RefersLeft grammar name (.not inner)
  | optional {inner} : RefersLeft grammar name inner -> RefersLeft grammar name (.optional inner)
  | zeroOrMore {inner} :
      RefersLeft grammar name inner -> RefersLeft grammar name (.zeroOrMore inner)
  | oneOrMore {inner} : RefersLeft grammar name inner -> RefersLeft grammar name (.oneOrMore inner)
  | repeated {inner} (least most) :
      RefersLeft grammar name inner -> RefersLeft grammar name (.repeated inner least most)
  | sequenceFirst {first} (second) :
      RefersLeft grammar name first -> RefersLeft grammar name (.sequence first second)
  | sequenceSecond {first second} :
      MayBeEmpty grammar first -> RefersLeft grammar name second ->
      RefersLeft grammar name (.sequence first second)
  | choiceFirst {first} (second) :
      RefersLeft grammar name first -> RefersLeft grammar name (.choice first second)
  | choiceSecond (first) {second} :
      RefersLeft grammar name second -> RefersLeft grammar name (.choice first second)

/-- The pattern of a rule refers to another rule on the left. -/
def LeftRefers (grammar : Grammar) (name other : String) : Prop :=
  Exists fun rule => grammar.get? name = some rule ∧ grammar.RefersLeft other rule.pattern

/-- Some rule gets back to itself on the left, over however many rules. -/
def IsLeftRecursive (grammar : Grammar) : Prop :=
  Exists fun name => Relation.TransGen grammar.LeftRefers name name

variable {grammar : Grammar} {text : List Char}

/-! ## Matching nothing -/

theorem MayBeEmpty.of_admits {pattern : Pattern} (admits : pattern.Admits []) :
    grammar.MayBeEmpty pattern := by
  cases pattern with
  | literal own =>
      have empty : own = "" := String.toList_eq_nil_iff.mp admits.symm
      exact empty ▸ .literal
  | literalAnyCase own =>
      have empty : own = "" := String.toList_eq_nil_iff.mp (List.map_eq_nil_iff.mp admits.symm)
      exact empty ▸ .literalAnyCase
  | char own => cases admits
  | any => rcases admits with ⟨character, same⟩; cases same
  | charClass items => rcases admits with ⟨character, same, _⟩; cases same
  | _ => exact admits.elim

/-- Only a pattern that may match nothing does. -/
theorem Matches.mayBeEmpty {pattern : Pattern} {left : List Char}
    (matched : grammar.Matches pattern text (some ⟨[], left⟩)) : grammar.MayBeEmpty pattern := by
  generalize outcome : some (Cut.mk [] left) = result at matched
  induction matched generalizing left with
  | atom admits =>
      cases outcome
      exact .of_admits admits
  | group _ inductionHypothesis => exact .group (inductionHypothesis outcome)
  | notPresent _ _ => exact .not _
  | sequence _ _ firstHypothesis secondHypothesis =>
      injection outcome with same
      injection same with nothing
      rcases List.append_eq_nil_iff.mp nothing.symm with ⟨rfl, rfl⟩
      exact .sequence (firstHypothesis rfl) (secondHypothesis rfl)
  | choiceFirst _ inductionHypothesis => exact .choiceFirst _ (inductionHypothesis outcome)
  | choiceSecond _ _ _ inductionHypothesis => exact .choiceSecond _ (inductionHypothesis outcome)
  | optionalTaken _ _ | optionalSkipped _ _ => exact .optional _
  | zeroOrMoreStops _ _ | zeroOrMoreIdles _ _ | zeroOrMoreGoesOn _ _ _ _ _ => exact .zeroOrMore _
  | oneOrMore _ inductionHypothesis =>
      cases inductionHypothesis outcome with
      | sequence once _ => exact .oneOrMore once
  | repeatedDone => exact .free _ _
  | repeatedRequired _ _ _ inductionHypothesis =>
      cases inductionHypothesis outcome with
      | sequence once _ => exact .repeated _ _ once
  | repeatedAllowed _ _ _ => exact .free _ _
  | rule defined _ inductionHypothesis => exact .rule defined (inductionHypothesis outcome)
  | _ => cases outcome

/-- What a match leaves is the text as it was, which takes a pattern that may
match nothing, or a shorter text. -/
theorem Matches.left_cases {pattern : Pattern} {cut : Cut}
    (matched : grammar.Matches pattern text (some cut)) :
    (grammar.MayBeEmpty pattern ∧ cut.left = text) ∨ cut.left.length < text.length := by
  rcases cut with ⟨taken, left⟩
  by_cases idle : taken = []
  · subst idle
    exact Or.inl ⟨matched.mayBeEmpty, (matched.whole _ rfl).symm⟩
  · exact Or.inr (matched.shorter idle)

/-! ## Outcomes on a text from outcomes on shorter texts -/

namespace Settles

theorem sequence_of_shorter {first second : Pattern} (before : grammar.Settles first text)
    (here : grammar.MayBeEmpty first -> grammar.Settles second text)
    (ahead : forall left, left.length < text.length -> grammar.Settles second left) :
    grammar.Settles (.sequence first second) text := by
  apply before.sequence
  intro cut matched
  rcases matched.left_cases with ⟨empty, same⟩ | shorter
  · exact same ▸ here empty
  · exact ahead _ shorter

theorem zeroOrMore_of_shorter {inner : Pattern} (settled : grammar.Settles inner text)
    (ahead : forall left, left.length < text.length -> grammar.Settles (.zeroOrMore inner) left) :
    grammar.Settles (.zeroOrMore inner) text := by
  have rounds : Exists fun last => grammar.Matches (.zeroOrMore inner) text (some last) := by
    apply settled.zeroOrMore
    intro cut matched consumed
    rcases ahead _ (matched.shorter consumed) with ⟨outcome, rest⟩
    rcases rest.zeroOrMore_succeeds with ⟨last, rfl⟩
    exact ⟨last, rest⟩
  rcases rounds with ⟨last, matched⟩
  exact ⟨_, matched⟩

theorem oneOrMore_of_shorter {inner : Pattern} (settled : grammar.Settles inner text)
    (ahead : forall left, left.length < text.length -> grammar.Settles (.zeroOrMore inner) left) :
    grammar.Settles (.oneOrMore inner) text := by
  have rounds := sequence_of_shorter settled (fun _ => settled.zeroOrMore_of_shorter ahead) ahead
  rcases rounds with ⟨outcome, matched⟩
  exact ⟨outcome, .oneOrMore matched⟩

theorem repeated_of_shorter {inner : Pattern} (settled : grammar.Settles inner text)
    (ahead : forall left, left.length < text.length -> forall least most, least ≤ most ->
      grammar.Settles (.repeated inner least most) left)
    {least most : UInt64} (ordered : least ≤ most) :
    grammar.Settles (.repeated inner least most) text := by
  refine bounds_induction ordered ⟨_, .repeatedDone⟩ ?_ ?_
  · intro least most positive ordered behind
    have stillOrdered := sub_one_le_sub_one positive ordered
    rcases settled.sequence_of_shorter (fun _ => behind)
      (fun left shorter => ahead left shorter _ _ stillOrdered) with ⟨outcome, matched⟩
    exact ⟨outcome, .repeatedRequired positive ordered matched⟩
  · intro most positive behind
    rcases settled.optional.sequence_of_shorter (fun _ => behind)
      (fun left shorter => ahead left shorter _ _ UInt64.zero_le) with ⟨outcome, matched⟩
    exact ⟨outcome, .repeatedAllowed positive matched⟩

end Settles

/-! ## Patterns that code can be made of -/

/-- All that code of the pattern is made of is in order, and refers to rules of
the grammar only. -/
structure Codes (grammar : Grammar) (pattern : Pattern) : Prop where
  ordered : forall part, part ∈ pattern.codedParts -> part.IsOrdered
  defined : forall name, .rule name ∈ pattern.codedParts -> name ∈ grammar.rules.map Rule.name

namespace Codes

theorem of_subset {pattern inner : Pattern} (codes : grammar.Codes pattern)
    (inside : inner.codedParts ⊆ pattern.codedParts) : grammar.Codes inner :=
  ⟨fun part coded => codes.ordered part (inside coded),
    fun name coded => codes.defined name (inside coded)⟩

theorem of_repeated {inner : Pattern} {least most : UInt64}
    (codes : grammar.Codes (.repeated inner least most)) (sometimes : most ≠ 0) :
    grammar.Codes inner := by
  apply codes.of_subset
  rw [Pattern.codedParts, if_neg sometimes]
  exact List.subset_cons_self _ _

theorem repeated {inner : Pattern} (codes : grammar.Codes inner) {least most : UInt64}
    (ordered : least ≤ most) : grammar.Codes (.repeated inner least most) := by
  constructor
  · intro part coded
    rw [Pattern.codedParts] at coded
    split at coded
    · rcases List.mem_singleton.mp coded with rfl
      exact ordered
    · rcases List.mem_cons.mp coded with rfl | coded
      · exact ordered
      · exact codes.ordered part coded
  · intro name coded
    rw [Pattern.codedParts] at coded
    split at coded
    · cases List.mem_singleton.mp coded
    · rcases List.mem_cons.mp coded with same | coded
      · cases same
      · exact codes.defined name coded

theorem zeroOrMore {inner : Pattern} (codes : grammar.Codes inner) :
    grammar.Codes (.zeroOrMore inner) := by
  constructor
  · intro part coded
    rcases List.mem_cons.mp coded with rfl | coded
    · trivial
    · exact codes.ordered part coded
  · intro name coded
    rcases List.mem_cons.mp coded with same | coded
    · cases same
    · exact codes.defined name coded

end Codes

theorem WellFormed.codes {start : String} (wellFormed : grammar.WellFormed start Pattern.codedParts)
    {rule : Rule} (listed : rule ∈ grammar.rules) : grammar.Codes rule.pattern :=
  ⟨wellFormed.ordered rule listed, wellFormed.defined rule listed⟩

/-- A pattern has an outcome on a text if every pattern has one on the shorter
texts, and every rule has one on this text that the pattern refers to on the
left. -/
theorem Codes.settles_of_left {pattern : Pattern} (codes : grammar.Codes pattern)
    (ahead : forall left, left.length < text.length -> forall other, grammar.Codes other ->
      grammar.Settles other left)
    (here : forall name, name ∈ grammar.rules.map Rule.name -> grammar.RefersLeft name pattern ->
      grammar.Settles (.rule name) text) :
    grammar.Settles pattern text := by
  induction pattern with
  | char _ | literal _ | literalAnyCase _ | any | charClass _ => exact .atom rfl text
  | group inner inductionHypothesis =>
      have innerCodes := codes.of_subset (List.subset_cons_self _ _)
      rcases inductionHypothesis innerCodes fun name listed refers =>
        here name listed (.group refers) with ⟨outcome, matched⟩
      exact ⟨outcome, .group matched⟩
  | not inner inductionHypothesis =>
      have innerCodes := codes.of_subset (List.subset_cons_self _ _)
      exact .not (inductionHypothesis innerCodes fun name listed refers =>
        here name listed (.not refers))
  | optional inner inductionHypothesis =>
      have innerCodes := codes.of_subset (List.subset_cons_self _ _)
      exact .optional (inductionHypothesis innerCodes fun name listed refers =>
        here name listed (.optional refers))
  | sequence first second firstHypothesis secondHypothesis =>
      have firstCodes := codes.of_subset (List.subset_cons_of_subset _ (List.subset_append_left _ _))
      have secondCodes :=
        codes.of_subset (List.subset_cons_of_subset _ (List.subset_append_right _ _))
      have before := firstHypothesis firstCodes fun name listed refers =>
        here name listed (.sequenceFirst _ refers)
      refine before.sequence_of_shorter (fun empty => ?_) fun left shorter =>
        ahead left shorter _ secondCodes
      exact secondHypothesis secondCodes fun name listed refers =>
        here name listed (.sequenceSecond empty refers)
  | choice first second firstHypothesis secondHypothesis =>
      have firstCodes := codes.of_subset (List.subset_cons_of_subset _ (List.subset_append_left _ _))
      have secondCodes :=
        codes.of_subset (List.subset_cons_of_subset _ (List.subset_append_right _ _))
      have one := firstHypothesis firstCodes fun name listed refers =>
        here name listed (.choiceFirst _ refers)
      exact one.choice fun _ => secondHypothesis secondCodes fun name listed refers =>
        here name listed (.choiceSecond _ refers)
  | zeroOrMore inner inductionHypothesis =>
      have innerCodes := codes.of_subset (List.subset_cons_self _ _)
      have once := inductionHypothesis innerCodes fun name listed refers =>
        here name listed (.zeroOrMore refers)
      exact once.zeroOrMore_of_shorter fun left shorter => ahead left shorter _ innerCodes.zeroOrMore
  | oneOrMore inner inductionHypothesis =>
      have innerCodes := codes.of_subset (List.subset_cons_self _ _)
      have once := inductionHypothesis innerCodes fun name listed refers =>
        here name listed (.oneOrMore refers)
      exact once.oneOrMore_of_shorter fun left shorter => ahead left shorter _ innerCodes.zeroOrMore
  | repeated inner least most inductionHypothesis =>
      have ordered : least ≤ most := codes.ordered _ List.mem_cons_self
      by_cases never : most = 0
      · subst never
        rw [UInt64.le_zero_iff.mp ordered]
        exact ⟨_, .repeatedDone⟩
      · have innerCodes := codes.of_repeated never
        have once := inductionHypothesis innerCodes fun name listed refers =>
          here name listed (.repeated _ _ refers)
        exact once.repeated_of_shorter (fun left shorter least most ordered =>
          ahead left shorter _ (innerCodes.repeated ordered)) ordered
  | rule name => exact here name (codes.defined name List.mem_cons_self) .rule

/-! ## Outcomes without left recursion -/

/-- The first of two rules is referred to on the left by the second one. -/
def IsBefore (grammar : Grammar) (one other : { name // name ∈ grammar.rules.map Rule.name }) : Prop :=
  grammar.LeftRefers other.val one.val

/-- There are finitely many rules, so without left recursion the way from rule
to rule on the left comes to an end. -/
theorem isBefore_wellFounded (straight : ¬ grammar.IsLeftRecursive) :
    WellFounded grammar.IsBefore := by
  have transitive : IsTrans _ (Relation.TransGen grammar.IsBefore) :=
    ⟨fun _ _ _ => Relation.TransGen.trans⟩
  have irreflexive : Std.Irrefl (Relation.TransGen grammar.IsBefore) := by
    refine ⟨fun name cycle => straight ⟨name.val, ?_⟩⟩
    have turned := Relation.transGen_swap.mpr cycle
    exact turned.lift Subtype.val fun _ _ refers => refers
  have closure : WellFounded (Relation.TransGen grammar.IsBefore) :=
    Finite.wellFounded_of_trans_of_irrefl _
  exact Subrelation.wf Relation.TransGen.single closure

/-- In a grammar that code can be made of and that does not recur on the left,
every pattern has an outcome on every text. -/
theorem Codes.settles (rules : forall rule, rule ∈ grammar.rules -> grammar.Codes rule.pattern)
    (straight : ¬ grammar.IsLeftRecursive) {pattern : Pattern} (codes : grammar.Codes pattern)
    (text : List Char) : grammar.Settles pattern text := by
  induction length : text.length using Nat.strong_induction_on generalizing text pattern with
  | h count ahead =>
      subst length
      have shorter : forall left, left.length < text.length -> forall other, grammar.Codes other ->
          grammar.Settles other left :=
        fun left less other otherCodes => ahead left.length less otherCodes left rfl
      have ruleSettles : forall name : { name // name ∈ grammar.rules.map Rule.name },
          grammar.Settles (.rule name.val) text := by
        intro name
        induction name using (isBefore_wellFounded straight).induction with
        | h name earlier =>
            rcases exists_rule_of_mem name.property with ⟨rule, member, defined⟩
            have body := (rules rule member).settles_of_left shorter fun other listed refers =>
              earlier ⟨other, listed⟩ ⟨rule, defined, refers⟩
            rcases body with ⟨outcome, matched⟩
            exact ⟨outcome, .rule defined matched⟩
      exact codes.settles_of_left shorter fun name listed _ => ruleSettles ⟨name, listed⟩

end Grammar
end ParsingMachine
