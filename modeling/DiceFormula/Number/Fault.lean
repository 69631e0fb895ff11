namespace DiceFormula

/-- Why an operation on numbers has no result, or a numeral none. -/
inductive Number.Fault
  | divisionByZero
  | overflow
  | unsupported
  | digits
  deriving DecidableEq

end DiceFormula
