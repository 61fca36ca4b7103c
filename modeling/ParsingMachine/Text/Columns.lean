namespace ParsingMachine
namespace Text

/-!
# Columns

Reports and traces line their entries up by padding them with spaces to a
width that counts characters.  An entry wider than its column is kept whole.
-/

/-- An entry at the left of a column. -/
def alignLeft (width : Nat) (entry : String) : String :=
  String.ofList (entry.toList.rightpad width ' ')

/-- An entry at the right of a column. -/
def alignRight (width : Nat) (entry : String) : String :=
  String.ofList (entry.toList.leftpad width ' ')

end Text
end ParsingMachine
