import JobAdmission.Engine.Dispatch
import JobAdmission.Feed.Service
import JobAdmission.Proofs.Accounted
import JobAdmission.Proofs.ActiveLimit
import JobAdmission.Proofs.Agreement
import JobAdmission.Proofs.Release
import JobAdmission.Proofs.Keeping
import JobAdmission.Proofs.Binding
import JobAdmission.Proofs.LateBinding
import JobAdmission.Proofs.DefaultProject
import JobAdmission.Proofs.BankWritten
import JobAdmission.Proofs.NoFaults
import JobAdmission.Proofs.FailedCalls
import JobAdmission.Proofs.Leaving
import JobAdmission.Proofs.PriorityHistory
import JobAdmission.Proofs.SameBut
import JobAdmission.Proofs.AlikeSteps
import JobAdmission.Proofs.Cancelled
import JobAdmission.Proofs.AccountRows
import JobAdmission.Proofs.Permanence
import JobAdmission.Proofs.Redelivery
import JobAdmission.Proofs.Reservations
import JobAdmission.Proofs.Turns
import JobAdmission.Proofs.Reports
import JobAdmission.Proofs.AuditTrail
import JobAdmission.Proofs.Confinement
import JobAdmission.Proofs.Footprint
import JobAdmission.Proofs.ReadBack
import JobAdmission.Proofs.CommaLists
import JobAdmission.Proofs.Provenance
import JobAdmission.Proofs.Query
import JobAdmission.Proofs.Reingest
import JobAdmission.Proofs.Replacement
import JobAdmission.Proofs.AccountAcceptance
import JobAdmission.Proofs.HostLog
import JobAdmission.Proofs.ListedItems
import JobAdmission.Proofs.NewestEvents
import JobAdmission.Proofs.QueueDecisions
import JobAdmission.Proofs.TakingBack
