import PiglorProofs.Time.MergeHistory
import PiglorProofs.Store.SignedRange
import PiglorProofs.Store.KeyedAppend
import PiglorProofs.Store.AdmissionOnce
import PiglorProofs.Store.Forget
import PiglorProofs.Sqlite.Agreement
import PiglorProofs.Keys.Replacement
import PiglorProofs.Authority.Delegation
import PiglorProofs.Consent.Fences
import PiglorProofs.Gateway.GeoAdmission
import PiglorProofs.Clock.Overrun
import PiglorProofs.World.PackedNodes
import PiglorProofs.Store.FallbackReplay
import PiglorProofs.Erasure.GateRuns
import PiglorProofs.Erasure.ForkBatch
import PiglorProofs.Predictions.Agreement
import PiglorProofs.Delivery.OneOwner
import PiglorProofs.Counterfactual.Presentation
import PiglorProofs.Store.CausalChain
import PiglorProofs.Consent.Lookup
import PiglorProofs.Eval.Quantization
import PiglorProofs.Keys.NonceLedger
