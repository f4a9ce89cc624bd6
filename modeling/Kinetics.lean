import Kinetics.Comparison.Timing
import Kinetics.Library.Parallel
import Kinetics.Main
import Kinetics.Number.Whole
import Kinetics.Proofs.ChebyshevSums
import Kinetics.Proofs.EnergyEquations
import Kinetics.Proofs.EquationTexts
import Kinetics.Proofs.IndexedMechanisms
import Kinetics.Proofs.InflowSchedule
import Kinetics.Proofs.InsertedLines
import Kinetics.Proofs.IonSides
import Kinetics.Proofs.MarkedRanks
import Kinetics.Proofs.PowerRule
import Kinetics.Proofs.ProductionRates
import Kinetics.Proofs.RecordComparison
import Kinetics.Proofs.RecoveredOrders
import Kinetics.Proofs.RememberedWeights
import Kinetics.Proofs.RenumberedSpecies
import Kinetics.Proofs.SharedRates
import Kinetics.Proofs.SignedNames
import Kinetics.Proofs.SoundSearches
import Kinetics.Proofs.SparseProducts
import Kinetics.Proofs.SplitJacobian
import Kinetics.Proofs.SplitRates
import Kinetics.Proofs.SriBroadening
import Kinetics.Proofs.StaleJacobian
import Kinetics.Proofs.SupportCases
import Kinetics.Proofs.TemperatureDerivative
import Kinetics.Proofs.ThreadedColliders
import Kinetics.Reactor.Blend
import Kinetics.Reactor.Particle
