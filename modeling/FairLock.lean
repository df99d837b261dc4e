import FairLock.Json.Reader
import FairLock.Json.Writer
import FairLock.Record.Config
import FairLock.Record.Failure
import FairLock.Record.State
import FairLock.Record.Stats
import FairLock.Report.Display
import FairLock.Report.Log
import FairLock.Script.Run
import FairLock.Proofs.Chain
import FairLock.Proofs.Excuse
import FairLock.Proofs.Exclusion
import FairLock.Proofs.Fairness
import FairLock.Proofs.HandBack
import FairLock.Proofs.Placement
import FairLock.Proofs.StartOrder
import FairLock.Proofs.Accounts
import FairLock.Proofs.Nesting
import FairLock.Proofs.Draining
import FairLock.Proofs.Acquisition
import FairLock.Proofs.Outcomes
import FairLock.Proofs.Refinement
import FairLock.Proofs.Rejection
import FairLock.Proofs.Bracketing
import FairLock.Proofs.Redundancy
import FairLock.Proofs.Batches
import FairLock.Proofs.Independence
import FairLock.Proofs.RoundTrip
import FairLock.Proofs.Deferral
import FairLock.Proofs.Peak
import FairLock.Proofs.LogReplay
import FairLock.Proofs.Settings
import FairLock.Proofs.Waiting
