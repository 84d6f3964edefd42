import UnitArith.Main
import UnitArith.Plain.Verify
import UnitArith.Proofs.Number.Double
import UnitArith.Proofs.Quantity
import UnitArith.Proofs.Combination.Normal
import UnitArith.Proofs.Combination.Coefficient
import UnitArith.Proofs.Number.Rational
import UnitArith.Proofs.Plain.Agreement
import UnitArith.Proofs.Term.Parser
import UnitArith.Proofs.Number.Numeral
import UnitArith.Proofs.Token.Written
import UnitArith.Proofs.Text.Normal
import UnitArith.Proofs.Token.Spelling
import UnitArith.Proofs.Token.Spacing
import UnitArith.Proofs.Term.Text
import UnitArith.Proofs.Term.Unit
import UnitArith.Proofs.Reduce
import UnitArith.Proofs.Plain.Respelling
import UnitArith.Proofs.Plain.Normal
import UnitArith.Proofs.Token.Language
import UnitArith.Proofs.Token.Cut
import UnitArith.Proofs.Token.Normal
import UnitArith.Proofs.Combination.Linear
import UnitArith.Proofs.Term.Linear
import UnitArith.Proofs.Term.Interference
import UnitArith.Proofs.Term.Renaming
import UnitArith.Proofs.Term.Nested
import UnitArith.Proofs.Compound
import UnitArith.Proofs.Term.Product
import UnitArith.Proofs.Term.Order
import UnitArith.Proofs.Plain.Derivation
import UnitArith.Proofs.Number.Reciprocal
import UnitArith.Proofs.Term.Quotient
import UnitArith.Proofs.Token.Run
import UnitArith.Proofs.Token.Viable
import UnitArith.Proofs.Allowed
import UnitArith.Proofs.Literal
import UnitArith.Proofs.Token.Place
import UnitArith.Proofs.Term.Bound
