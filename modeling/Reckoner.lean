import Reckoner.Main
import Reckoner.Service.Application
import Reckoner.Service.Listener
import Reckoner.Proofs.Expression.Position
import Reckoner.Proofs.Curve
import Reckoner.Proofs.Expression.Numeral
import Reckoner.Proofs.Session.Coherence
import Reckoner.Proofs.Session.Typing
import Reckoner.Proofs.Number.Order
import Reckoner.Proofs.Number.Nearest
import Reckoner.Proofs.Number.Separators
import Reckoner.Proofs.Display
import Reckoner.Proofs.Expression.Evaluate
import Reckoner.Proofs.Command.Line
import Reckoner.Proofs.Service.Response
import Reckoner.Proofs.Agreement
import Reckoner.Proofs.Number.Special
import Reckoner.Proofs.Number.Scientific
import Reckoner.Proofs.Display.Correct
import Reckoner.Proofs.Display.Reread
import Reckoner.Proofs.Display.Threshold
import Reckoner.Proofs.Display.Again
import Reckoner.Proofs.Session.Stored
import Reckoner.Proofs.Display.Shown
import Reckoner.Proofs.Session.Calls
import Reckoner.Proofs.Session.Operand
import Reckoner.Proofs.Session.Register
import Reckoner.Proofs.Number.Rounded
import Reckoner.Proofs.Number.Arithmetic
import Reckoner.Proofs.Curve.Places
import Reckoner.Proofs.Curve.Requests
import Reckoner.Proofs.Curve.Segments
import Reckoner.Proofs.Service.Success
import Reckoner.Proofs.Service.Plot
import Reckoner.Proofs.Service.Strict
import Reckoner.Proofs.Service.Defaults
import Reckoner.Proofs.Service.Refusals
import Reckoner.Proofs.Number.Tidy
import Reckoner.Proofs.Expression.Enclosed
import Reckoner.Proofs.Expression.Machine
import Reckoner.Proofs.Expression.Simulation
import Reckoner.Proofs.Expression.Balance
import Reckoner.Proofs.Expression.Nesting
import Reckoner.Proofs.Display.Order
import Reckoner.Proofs.Display.Shape
import Reckoner.Proofs.Expression.Glyphs
import Reckoner.Proofs.Expression.Calls
import Reckoner.Proofs.Expression.Angle
import Reckoner.Proofs.Session.Percent
import Reckoner.Proofs.Session.Sign
import Reckoner.Proofs.Service.Normalized
import Reckoner.Proofs.Number.Integral
import Reckoner.Proofs.Number.Radix
import Reckoner.Proofs.Expression.Integer
import Reckoner.Proofs.Expression.Power
import Reckoner.Proofs.Settings
import Reckoner.Proofs.Service.Bases
import Reckoner.Proofs.Service.Effective
