import DiceFormula.Diagnostic
import DiceFormula.Proofs.Acceptance
import DiceFormula.Proofs.ArbitraryMemos
import DiceFormula.Proofs.Bounds
import DiceFormula.Proofs.Building
import DiceFormula.Proofs.Calls
import DiceFormula.Proofs.Checks
import DiceFormula.Proofs.Computations
import DiceFormula.Proofs.Constructions
import DiceFormula.Proofs.Contract
import DiceFormula.Proofs.Demands
import DiceFormula.Proofs.Descent
import DiceFormula.Proofs.Evaluation
import DiceFormula.Proofs.Extremes
import DiceFormula.Proofs.Fragments
import DiceFormula.Proofs.Formulas
import DiceFormula.Proofs.Grammar
import DiceFormula.Proofs.Lexing
import DiceFormula.Proofs.Merging
import DiceFormula.Proofs.Monotone
import DiceFormula.Proofs.Moves
import DiceFormula.Proofs.Operators
import DiceFormula.Proofs.Parsing
import DiceFormula.Proofs.Phrases
import DiceFormula.Proofs.Pointing
import DiceFormula.Proofs.Prefixes
import DiceFormula.Proofs.Recognition
import DiceFormula.Proofs.RoundTrip
import DiceFormula.Proofs.Sampling
import DiceFormula.Proofs.Scanning
import DiceFormula.Proofs.Sessions
import DiceFormula.Proofs.Spans
import DiceFormula.Proofs.Texts
import DiceFormula.Proofs.Tokenizing
import DiceFormula.Proofs.Transparency
import DiceFormula.Proofs.Truth
import DiceFormula.Proofs.Unsigned
import DiceFormula.Proofs.Unambiguous
import DiceFormula.Proofs.Values
import DiceFormula.Proofs.Watching
import DiceFormula.Session
import DiceFormula.Proofs.Limits
import DiceFormula.Proofs.Footprint
import DiceFormula.Proofs.Retention
import DiceFormula.Proofs.Additive
import DiceFormula.Proofs.Enumeration
