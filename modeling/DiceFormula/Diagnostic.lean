namespace DiceFormula

/-- What stands under a character so that the line below keeps its columns. -/
def underlay (c : Char) : Char :=
  if c = '\t' then '\t' else ' '

/-- The text with a pointer below it, under the character at `position`. A position outside the
text is moved to the nearest end. -/
def pointAt (source : String) (position : Int) : String :=
  let cs := source.toList
  let padding := (cs.take position.toNat).map underlay
  String.ofList (cs ++ '\n' :: padding ++ ['^'])

end DiceFormula
