import ParsingMachine.Machine
import ParsingMachine.Proofs.Text.Utf8

namespace ParsingMachine

/-!
# Texts compared without regard to case

The machine compares bytes, and takes the case off each byte that is an ASCII
capital.  This is the same as comparing characters: no byte of a character
outside ASCII is changed by it, and a text is determined by its bytes from the
front.  Hence a subject that begins with the bytes begins with as many whole
characters.
-/

namespace Text

/-- A text with its ASCII capitals made small. -/
def folded (text : List Char) : List Char :=
  text.map Char.toLower

@[simp] theorem folded_cons (character : Char) (rest : List Char) :
    folded (character :: rest) = character.toLower :: folded rest := rfl

theorem folded_append (first second : List Char) :
    folded (first ++ second) = folded first ++ folded second :=
  List.map_append

/-- A capital ASCII letter, and the small one at the same place of the
alphabet. -/
def IsCapitalOf (capital small : Char) : Prop :=
  Exists fun place => place < 26 ∧
    capital.toNat = 'A'.toNat + place ∧ small.toNat = 'a'.toNat + place

/-- Characters that are the same but for the case of an ASCII letter.  A letter
outside ASCII is the same as itself only, whatever other case it has. -/
def SameButCase (one other : Char) : Prop :=
  one = other ∨ IsCapitalOf one other ∨ IsCapitalOf other one

theorem isCapitalOf_iff {capital small : Char} :
    IsCapitalOf capital small <->
      (0x41 ≤ capital.toNat ∧ capital.toNat ≤ 0x5A) ∧ small.toNat = capital.toNat + 0x20 := by
  have firstCapital : 'A'.toNat = 0x41 := rfl
  have firstSmall : 'a'.toNat = 0x61 := rfl
  constructor
  · rintro ⟨place, inAlphabet, capitalAt, smallAt⟩
    omega
  · rintro ⟨letter, smallAt⟩
    refine ⟨capital.toNat - 0x41, ?_, ?_, ?_⟩ <;> omega

instance (capital small : Char) : Decidable (IsCapitalOf capital small) :=
  decidable_of_iff _ isCapitalOf_iff.symm

instance (one other : Char) : Decidable (SameButCase one other) :=
  inferInstanceAs (Decidable (_ ∨ _ ∨ _))

end Text

namespace Machine

open Text

/-! ## Folding bytes folds characters -/

private theorem foldByte_of_capital {value : Nat} (capital : 0x41 ≤ value ∧ value ≤ 0x5A) :
    foldByte (UInt8.ofNat value) = UInt8.ofNat (value + 0x20) := by
  have small : value < UInt8.size := Nat.lt_of_le_of_lt capital.2 (by decide)
  have exactly : (UInt8.ofNat value).toNat = value := UInt8.toNat_ofNat_of_lt' small
  unfold foldByte
  rw [if_pos, UInt8.ofNat_add]
  · rfl
  · rw [UInt8.le_iff_toNat_le, UInt8.le_iff_toNat_le, exactly]
    exact capital

private theorem foldByte_of_not_capital {value : Nat} (small : value < 256)
    (outside : ¬ (0x41 ≤ value ∧ value ≤ 0x5A)) :
    foldByte (UInt8.ofNat value) = UInt8.ofNat value := by
  have exactly : (UInt8.ofNat value).toNat = value := UInt8.toNat_ofNat_of_lt' small
  unfold foldByte
  rw [if_neg]
  rw [UInt8.le_iff_toNat_le, UInt8.le_iff_toNat_le, exactly]
  exact outside

private theorem toNat_toLower_of_capital {character : Char}
    (capital : 0x41 ≤ character.val.toNat ∧ character.val.toNat ≤ 0x5A) :
    character.toLower.val.toNat = character.val.toNat + 0x20 := by
  have above : 'A'.val ≤ character.val := UInt32.le_iff_toNat_le.mpr capital.1
  have below : character.val ≤ 'Z'.val := UInt32.le_iff_toNat_le.mpr capital.2
  unfold Char.toLower
  rw [dif_pos ⟨above, below⟩]
  change (character.val + 0x20).toNat = _
  rw [UInt32.toNat_add]
  apply Nat.mod_eq_of_lt
  change character.val.toNat + 0x20 < 4294967296
  omega

private theorem toLower_of_not_capital {character : Char}
    (outside : ¬ (0x41 ≤ character.val.toNat ∧ character.val.toNat ≤ 0x5A)) :
    character.toLower = character := by
  unfold Char.toLower
  rw [dif_neg]
  intro capital
  apply outside
  exact capital.imp UInt32.le_iff_toNat_le.mp UInt32.le_iff_toNat_le.mp

private theorem toNat_toLower (character : Char) :
    character.toLower.toNat =
      if 0x41 ≤ character.toNat ∧ character.toNat ≤ 0x5A then character.toNat + 0x20
      else character.toNat := by
  split
  · next capital => exact toNat_toLower_of_capital capital
  · next outside => rw [toLower_of_not_capital outside]

/-- Taking off the case takes off nothing else. -/
theorem toLower_eq_toLower_iff {one other : Char} :
    one.toLower = other.toLower <-> SameButCase one other := by
  rw [SameButCase, isCapitalOf_iff, isCapitalOf_iff, ← Char.toNat_inj, ← Char.toNat_inj,
    toNat_toLower, toNat_toLower]
  split <;> split <;> omega

/-- The Kelvin sign is no `k`, though it is its capital elsewhere. -/
example : ¬ SameButCase 'k' '\u212A' := by decide

private theorem utf8EncodeChar_of_ascii {character : Char} (small : character.val.toNat ≤ 0x7F) :
    String.utf8EncodeChar character = [UInt8.ofNat character.val.toNat] := by
  unfold String.utf8EncodeChar
  rw [if_pos small]

/-- The bytes of a character without their case are those of the character
without its case. -/
theorem map_foldByte_utf8EncodeChar (character : Char) :
    (String.utf8EncodeChar character).map foldByte = String.utf8EncodeChar character.toLower := by
  by_cases capital : 0x41 ≤ character.val.toNat ∧ character.val.toNat ≤ 0x5A
  · have lowered := toNat_toLower_of_capital capital
    rw [utf8EncodeChar_of_ascii (by omega), utf8EncodeChar_of_ascii (by omega), lowered,
      List.map_singleton, foldByte_of_capital capital]
  · rw [toLower_of_not_capital capital]
    by_cases ascii : character.val.toNat ≤ 0x7F
    · rw [utf8EncodeChar_of_ascii ascii, List.map_singleton,
        foldByte_of_not_capital (by omega) capital]
    · unfold String.utf8EncodeChar
      rw [if_neg ascii]
      -- every byte of a longer encoding is above the ASCII letters
      repeat' split
      all_goals
        simp only [List.map_cons, List.map_nil, List.cons.injEq, and_true]
        and_intros
        all_goals exact foldByte_of_not_capital (by omega) (by omega)

theorem map_foldByte_utf8Bytes (text : List Char) :
    (utf8Bytes text).map foldByte = utf8Bytes (folded text) := by
  induction text with
  | nil => rfl
  | cons character rest inductionHypothesis =>
      rw [utf8Bytes_cons, List.map_append, map_foldByte_utf8EncodeChar, inductionHypothesis,
        folded_cons, utf8Bytes_cons]

/-- Characters that differ in case only take up as many bytes. -/
theorem byteLength_folded (text : List Char) : byteLength (folded text) = byteLength text := by
  rw [← length_utf8Bytes, ← map_foldByte_utf8Bytes, List.length_map, length_utf8Bytes]

theorem byteLength_eq_of_folded_eq {one other : List Char} (same : folded one = folded other) :
    byteLength one = byteLength other := by
  rw [← byteLength_folded one, same, byteLength_folded]

/-! ## The comparison -/

/-- The comparison looks at as many bytes of the subject as the text takes up,
wherever among the characters these end. -/
theorem beginsWithAnyCase_iff_bytes {text subject : List Char} :
    beginsWithAnyCase text subject = true <->
      ((utf8Bytes subject).take (byteLength text)).map foldByte =
        (utf8Bytes text).map foldByte := by
  simp only [beginsWithAnyCase, decide_eq_true_iff, length_utf8Bytes, take_utf8Bytes_take]

/-- A subject begins with a text, letting aside case, exactly if it begins
with as many characters that are the same but for the case of ASCII letters. -/
theorem beginsWithAnyCase_iff {text subject : List Char} :
    beginsWithAnyCase text subject = true <->
      Exists fun taken => Exists fun rest =>
        subject = taken ++ rest ∧ folded taken = folded text := by
  simp only [beginsWithAnyCase, decide_eq_true_iff, List.map_take, map_foldByte_utf8Bytes,
    length_utf8Bytes]
  constructor
  · intro same
    have begins : utf8Bytes (folded text) <+:
        utf8Bytes (folded (subject.take (byteLength text))) := by
      rw [← same]
      exact List.take_prefix _ _
    have foldedBegins := isPrefix_of_utf8Bytes_isPrefix begins
    rcases List.prefix_map_iff.mp foldedBegins with ⟨taken, inTaken, equal⟩
    rcases inTaken.trans (List.take_prefix _ _) with ⟨rest, whole⟩
    exact ⟨taken, rest, whole.symm, equal.symm⟩
  · rintro ⟨taken, rest, rfl, same⟩
    have sameLength := byteLength_eq_of_folded_eq same
    have enough : taken.length ≤ byteLength text := by
      rw [← sameLength]
      exact length_le_byteLength taken
    have exactly : (utf8Bytes (folded taken)).length = byteLength text := by
      rw [length_utf8Bytes, byteLength_folded, sameLength]
    rw [List.take_append, List.take_of_length_le enough, folded_append, utf8Bytes_append,
      List.take_left' exactly, same]

end Machine
end ParsingMachine
