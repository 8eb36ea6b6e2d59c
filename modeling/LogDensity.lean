import LogDensity.Binary64.Basic
import LogDensity.Binary64.Functions
import LogDensity.Binary64.Text
import LogDensity.Calculator.Basic
import LogDensity.Context.Basic
import LogDensity.Context.Json
import LogDensity.Context.OfJson
import LogDensity.Context.Table
import LogDensity.Decimal.Basic
import LogDensity.Decimal.Reading
import LogDensity.Decimal.Scaled
import LogDensity.Decimal.Shortest
import LogDensity.Dense
import LogDensity.Diagnostics.Journal
import LogDensity.Diagnostics.Outlet
import LogDensity.Draws.Sheet
import LogDensity.Draws.StandardNormal
import LogDensity.Draws.Uniform
import LogDensity.Dual
import LogDensity.Evaluation.Differentiate
import LogDensity.Evaluation.FiniteDifference
import LogDensity.Evaluation.Functional
import LogDensity.Evaluation.LogProb
import LogDensity.Fault
import LogDensity.Formula.Basic
import LogDensity.Formula.Expr
import LogDensity.Mode
import LogDensity.Model.Basic
import LogDensity.Models.Failing
import LogDensity.Models.Mock
import LogDensity.Models.NormalScale
import LogDensity.Models.Quadratic
import LogDensity.Models.Rosenbrock
import LogDensity.Program.Basic
import LogDensity.Program.Report
import LogDensity.Program.Run
import LogDensity.Program.Step
import LogDensity.Proofs.Algebra.CentralDifference
import LogDensity.Proofs.Algebra.RationalFunction
import LogDensity.Proofs.Binary64.Arithmetic
import LogDensity.Proofs.Binary64.Nearest
import LogDensity.Proofs.Binary64.Order
import LogDensity.Proofs.Binary64.Parts
import LogDensity.Proofs.Binary64.Sign
import LogDensity.Proofs.Binary64.Value
import LogDensity.Proofs.Calculator.Dialogue
import LogDensity.Proofs.Context.Acceptance
import LogDensity.Proofs.Context.Comparison
import LogDensity.Proofs.Context.Decoding
import LogDensity.Proofs.Context.Extent
import LogDensity.Proofs.Context.Insertions
import LogDensity.Proofs.Context.Members
import LogDensity.Proofs.Context.Odometer
import LogDensity.Proofs.Context.Overflow
import LogDensity.Proofs.Context.Rectangular
import LogDensity.Proofs.Context.Table
import LogDensity.Proofs.Draws.Uniform
import LogDensity.Proofs.Evaluation.Agreement
import LogDensity.Proofs.Evaluation.Buffer
import LogDensity.Proofs.Evaluation.Capture
import LogDensity.Proofs.Evaluation.CentralDifference
import LogDensity.Proofs.Evaluation.Coordinates
import LogDensity.Proofs.Evaluation.Extension
import LogDensity.Proofs.Evaluation.Frame
import LogDensity.Proofs.Evaluation.Functional
import LogDensity.Proofs.Evaluation.Gradient
import LogDensity.Proofs.Evaluation.GradientReport
import LogDensity.Proofs.Evaluation.GradientTable
import LogDensity.Proofs.Evaluation.GradientTest
import LogDensity.Proofs.Evaluation.InPlace
import LogDensity.Proofs.Evaluation.Independence
import LogDensity.Proofs.Evaluation.Keeping
import LogDensity.Proofs.Evaluation.Layout
import LogDensity.Proofs.Evaluation.Neutrality
import LogDensity.Proofs.Evaluation.NormalScale
import LogDensity.Proofs.Evaluation.PlainScalars
import LogDensity.Proofs.Evaluation.PolynomialDensity
import LogDensity.Proofs.Evaluation.RationalDensity
import LogDensity.Proofs.Evaluation.Response
import LogDensity.Proofs.Evaluation.Shadow
import LogDensity.Proofs.Evaluation.Sinks
import LogDensity.Proofs.Evaluation.Surplus
import LogDensity.Proofs.Evaluation.Unison
import LogDensity.Proofs.Evaluation.Workspace
import LogDensity.Proofs.Model.Container
import LogDensity.Proofs.Program.Course
import LogDensity.Proofs.Program.Forward
import LogDensity.Proofs.Program.Heedless
import LogDensity.Proofs.Program.Primitives
import LogDensity.Proofs.Program.Report
import LogDensity.Proofs.Program.Simulation
import LogDensity.Proofs.Program.Steps
import LogDensity.Proofs.Program.StraightLine
import LogDensity.Proofs.Program.Writing
import LogDensity.Proofs.Scalar.Composed
import LogDensity.Proofs.Scalar.Remainder
import LogDensity.Proofs.Tape.Ancestry
import LogDensity.Proofs.Tape.ChainRule
import LogDensity.Proofs.Tape.Closing
import LogDensity.Proofs.Tape.IntegerPower
import LogDensity.Proofs.Tape.Paths
import LogDensity.Proofs.Tape.Provenance
import LogDensity.Proofs.Tape.Recording
import LogDensity.Proofs.Tape.Refusal
import LogDensity.Proofs.Tape.Scopes
import LogDensity.Proofs.Tape.Stacking
import LogDensity.Proofs.Tape.Staleness
import LogDensity.Proofs.Tape.Sweeping
import LogDensity.Scalar.Basic
import LogDensity.Scalar.Datum
import LogDensity.Scalar.Power
import LogDensity.Scalar.Radix
import LogDensity.Session.Basic
import LogDensity.Session.Held
import LogDensity.Tape.Basic
import LogDensity.Tape.Sweep
import LogDensity.Words
import LogDensity.Workspace
