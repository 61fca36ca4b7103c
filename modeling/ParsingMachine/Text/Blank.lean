namespace ParsingMachine
namespace Text

/-!
# Blank characters

The characters with the Unicode property White_Space, which the grammar
syntax allows between any two of its tokens.  Core's `Char.isWhitespace`
knows the four common ASCII ones only.
-/

/-- The first and the last code point of every run of blank characters. -/
def blankRanges : List (Nat × Nat) :=
  [(0x09, 0x0D), (0x20, 0x20), (0x85, 0x85), (0xA0, 0xA0), (0x1680, 0x1680), (0x2000, 0x200A),
    (0x2028, 0x2029), (0x202F, 0x202F), (0x205F, 0x205F), (0x3000, 0x3000)]

/-- Whether a character has the property White_Space. -/
def isBlank (character : Char) : Bool :=
  blankRanges.any fun range => decide (range.1 ≤ character.toNat ∧ character.toNat ≤ range.2)

end Text
end ParsingMachine
