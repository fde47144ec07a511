import Reckoner.Algebra.Derivative
import Reckoner.Algebra.Evaluate
import Reckoner.Algebra.Simplify
import Reckoner.Decimal.Double
import Reckoner.Engine.Session
import Reckoner.Engine.Solver
import Reckoner.Log.Logger
import Reckoner.Numerical.Method
import Reckoner.Proofs.Engine.Returned
import Reckoner.Proofs.Session.SettingCache
import Reckoner.Proofs.Symbolic.Routes
import Reckoner.Question.Classification
import Reckoner.Question.Extract
import Reckoner.Reading.Read
import Reckoner.Solution.Summary
import Reckoner.Symbolic.Equation
import Reckoner.Symbolic.Evaluation
import Reckoner.Vedic.Operation
import Reckoner.Proofs.Decimal.Largest
import Reckoner.Proofs.Vedic.Requests
import Reckoner.Proofs.Engine.Requests
import Reckoner.Proofs.Question.Equations
import Reckoner.Proofs.Question.Expressions
import Reckoner.Proofs.Algebra.Denotation
import Reckoner.Proofs.Algebra.PlainText
import Reckoner.Proofs.Numerical.Requests
import Reckoner.Proofs.Question.Numbers
import Reckoner.Proofs.Question.Ranking
import Reckoner.Proofs.Question.Variants
import Reckoner.Proofs.Symbolic.Results
import Reckoner.Proofs.Question.Selection
import Reckoner.Proofs.Numerical.Brackets
import Reckoner.Proofs.Numerical.Quadrature
import Reckoner.Proofs.Numerical.Stepping
import Reckoner.Proofs.Decimal.Nearest
import Reckoner.Proofs.Numerical.WholeSteps
import Reckoner.Proofs.Decimal.Fractions
import Reckoner.Proofs.Numerical.Trials
import Reckoner.Proofs.Reading.KnownNames
import Reckoner.Proofs.Reading.WholeTokens
import Reckoner.Proofs.Symbolic.TextValues
import Reckoner.Proofs.Symbolic.TextBindings
import Reckoner.Proofs.Log.Timed
import Reckoner.Proofs.Reading.Variables
import Reckoner.Proofs.Algebra.Lines
import Reckoner.Proofs.Algebra.LineSigns
import Reckoner.Proofs.Algebra.SimpleLines
import Reckoner.Proofs.Symbolic.LineEquations
import Reckoner.Proofs.Log.Fields
import Reckoner.Proofs.Solution.Summary
import Reckoner.Proofs.Engine.NumericalRoute
