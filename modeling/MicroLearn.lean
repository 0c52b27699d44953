import MicroLearn.Main
import MicroLearn.Proofs.ArrayNames
import MicroLearn.Proofs.CollapsedLabels
import MicroLearn.Proofs.FeatureScale
import MicroLearn.Proofs.Hinges
import MicroLearn.Proofs.LabelPlaces
import MicroLearn.Proofs.LetBinding
import MicroLearn.Proofs.Normalisation
import MicroLearn.Proofs.PooledPatch
import MicroLearn.Proofs.PredictorStatus
import MicroLearn.Proofs.PrintedResult
import MicroLearn.Proofs.ProductInterval
import MicroLearn.Proofs.PrototypeProgram
import MicroLearn.Proofs.Reshaped
import MicroLearn.Proofs.RoundedProducts
import MicroLearn.Proofs.SameSizeConvolution
import MicroLearn.Proofs.Schedule
import MicroLearn.Proofs.Scores
import MicroLearn.Proofs.ShiftStyles
import MicroLearn.Proofs.TableCells
import MicroLearn.Proofs.TopRuns
import MicroLearn.Proofs.TreeProgram
import MicroLearn.Proofs.WeightBudget
import MicroLearn.Proofs.WeightLevels
import MicroLearn.Request.Bench
import MicroLearn.Request.Compile
import MicroLearn.Request.Model
import MicroLearn.Request.Options
import MicroLearn.Request.Prepare
import MicroLearn.Request.Recording
import MicroLearn.Request.Recurrent
