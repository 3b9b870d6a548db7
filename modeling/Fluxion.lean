import Fluxion.Services
import Fluxion.Settings
import Fluxion.Proofs.Decimal.DivisionByOne
import Fluxion.Proofs.Equations.Autonomous
import Fluxion.Proofs.Equations.EstimatePaths
import Fluxion.Proofs.Equations.Estimates
import Fluxion.Proofs.Equations.Evaluators
import Fluxion.Proofs.Equations.Order
import Fluxion.Proofs.Expr.DerivativeText
import Fluxion.Proofs.Expr.DerivativeValue
import Fluxion.Proofs.Expr.Evaluable
import Fluxion.Proofs.Expr.PolynomialValue
import Fluxion.Proofs.Formula.Backends
import Fluxion.Proofs.Formula.Environments
import Fluxion.Proofs.Formula.Independence
import Fluxion.Proofs.Formula.StackDiscipline
import Fluxion.Proofs.Gradient
import Fluxion.Proofs.Simulation.Batches
import Fluxion.Proofs.Solver.Conservation
import Fluxion.Proofs.Solver.Coupling
import Fluxion.Proofs.Solver.ErrorExpansion
import Fluxion.Proofs.Solver.InitialOrder
import Fluxion.Proofs.Solver.NevilleInPlace
import Fluxion.Proofs.Solver.NonConvergence
import Fluxion.Proofs.Solver.OrderConditions
import Fluxion.Proofs.Solver.Registration
import Fluxion.Proofs.Solver.SemiImplicitOrder
import Fluxion.Proofs.Solver.SingleRun
import Fluxion.Proofs.Solver.StageBuffers
import Fluxion.Proofs.Solver.Timeless
import Fluxion.Proofs.Statement.Parentheses
import Fluxion.Proofs.Statement.Remaining
import Fluxion.Proofs.Statement.ViablePrefix
import Fluxion.Proofs.Token.LongestMatch
