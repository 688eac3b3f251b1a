import LeasePool.Service.Request
import LeasePool.Demo
import LeasePool.Main
import LeasePool.Proofs.Stack.Basic
import LeasePool.Proofs.Stack.Callback
import LeasePool.Proofs.Stack.Creation
import LeasePool.Proofs.Stack.Handling
import LeasePool.Proofs.Stack.Jobs
import LeasePool.Proofs.Stack.Run
import LeasePool.Proofs.History
import LeasePool.Proofs.Capacity
import LeasePool.Proofs.Owners
import LeasePool.Proofs.HandOut
import LeasePool.Proofs.Shutdown
import LeasePool.Proofs.FailedAcquire
import LeasePool.Proofs.Transient
import LeasePool.Proofs.Handles
import LeasePool.Proofs.Lifetime
import LeasePool.Proofs.Ledger
import LeasePool.Proofs.Sparing
import LeasePool.Proofs.Examination
import LeasePool.Proofs.LeastRecent
import LeasePool.Proofs.FiniteMap
import LeasePool.Proofs.Stopping
import LeasePool.Proofs.Refill
import LeasePool.Proofs.Broken
import LeasePool.Proofs.SafeHandOut
import LeasePool.Proofs.Convergence
import LeasePool.Proofs.CareCycle
import LeasePool.Proofs.Acquisition
import LeasePool.Proofs.CareReport
import LeasePool.Proofs.Destruction
import LeasePool.Proofs.Leases
import LeasePool.Proofs.Returns
import LeasePool.Proofs.Release
import LeasePool.Proofs.Replacement
import LeasePool.Proofs.Marks
import LeasePool.Proofs.Timestamps
import LeasePool.Proofs.Wakeups
import LeasePool.Proofs.CheckLedger
import LeasePool.Proofs.Prediction
import LeasePool.Proofs.Limits
import LeasePool.Proofs.Sifting
import LeasePool.Proofs.Target
