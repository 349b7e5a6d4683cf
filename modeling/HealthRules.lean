import HealthRules.Main
import HealthRules.Session
import HealthRules.Stored
import HealthRules.Proofs.Grammar.Operand
import HealthRules.Proofs.Grammar.Condition
import HealthRules.Proofs.Grammar.Reading
import HealthRules.Proofs.Grammar.Call
import HealthRules.Proofs.Comparison.Operators
import HealthRules.Proofs.Configuration.Check
import HealthRules.Proofs.Evaluation.Explanation
import HealthRules.Proofs.Evaluation.Message
import HealthRules.Proofs.Evaluation.Noninterference
import HealthRules.Proofs.Evaluation.Record
import HealthRules.Proofs.Evaluation.Validity
import HealthRules.Proofs.Evaluation.Worst
import HealthRules.Proofs.Session.Outcomes
import HealthRules.Proofs.Session.Verdict
import HealthRules.Proofs.Evaluation.Composition
import HealthRules.Proofs.Configuration.FirstFault
import HealthRules.Proofs.Configuration.Key
import HealthRules.Proofs.Number.Digits
import HealthRules.Proofs.Number.Text
import HealthRules.Proofs.Number.Rounding
import HealthRules.Proofs.Number.Arithmetic
import HealthRules.Proofs.Number.Quotient
import HealthRules.Proofs.Duration.Milliseconds
import HealthRules.Proofs.Duration.Literal
import HealthRules.Proofs.Json.Integer
import HealthRules.Proofs.Evaluation.BodyIntegers
import HealthRules.Proofs.Text.Glob
import HealthRules.Proofs.Grammar.Path
import HealthRules.Proofs.Evaluation.Length
import HealthRules.Proofs.Stored.ReadsBack
import HealthRules.Proofs.Comparison.Symmetry
import HealthRules.Proofs.Evaluation.MissingValues
import HealthRules.Proofs.Evaluation.Alternatives
import HealthRules.Proofs.Evaluation.Durations
import HealthRules.Proofs.Evaluation.Milliseconds
import HealthRules.Proofs.Evaluation.RawBody
import HealthRules.Proofs.Evaluation.SeverityMark
import HealthRules.Proofs.Evaluation.PathSteps
import HealthRules.Proofs.Comparison.Address
import HealthRules.Proofs.Json.Spelling
import HealthRules.Proofs.Json.Size
import HealthRules.Proofs.Evaluation.Kinds
import HealthRules.Proofs.Comparison.Literals
import HealthRules.Proofs.Text.Insertion
