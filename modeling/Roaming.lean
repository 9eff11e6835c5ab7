import Roaming.Main
import Roaming.Simulation.Call
import Roaming.Proofs.Listeners
import Roaming.Proofs.Aside
import Roaming.Proofs.Watch
import Roaming.Proofs.Publications
import Roaming.Proofs.Effects
import Roaming.Proofs.Pieces
import Roaming.Proofs.Interleaving
import Roaming.Proofs.Ownership
import Roaming.Proofs.Couriers
import Roaming.Proofs.Fates
import Roaming.Proofs.Wakefulness
import Roaming.Proofs.Outcomes
import Roaming.Proofs.Inboxes
import Roaming.Proofs.Posting
import Roaming.Proofs.Delivery
import Roaming.Proofs.Shares
import Roaming.Proofs.Isolation
import Roaming.Proofs.Ledger
import Roaming.Proofs.RoundTrip
import Roaming.Proofs.Decoding
import Roaming.Proofs.Answers
import Roaming.Proofs.Agreement
import Roaming.Proofs.Handles
import Roaming.Proofs.Receipts
import Roaming.Proofs.Classification
import Roaming.Proofs.Shutdown
import Roaming.Proofs.Stamping
import Roaming.Proofs.Abandonment
import Roaming.Proofs.Pending
import Roaming.Proofs.Withdrawal
import Roaming.Proofs.Cancellation
import Roaming.Proofs.NormalForm
import Roaming.Proofs.Parts
import Roaming.Proofs.Consistency
import Roaming.Proofs.Codes
import Roaming.Proofs.Pushing
