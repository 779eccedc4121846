import Foreman.Http.Engine
import Foreman.Http.Respond
import Foreman.Rehearsal.Front
import Foreman.Rehearsal.Hall
import Foreman.Rehearsal.Office
import Foreman.Rehearsal.Transcript
import Foreman.Rehearsal.Yard
import Foreman.Wire.Config
import Foreman.Proofs.Config.Settings
import Foreman.Proofs.Coordinator.Answers
import Foreman.Proofs.Coordinator.Completion
import Foreman.Proofs.Coordinator.Gate
import Foreman.Proofs.Coordinator.News
import Foreman.Proofs.Coordinator.PostProcessing
import Foreman.Proofs.Coordinator.SingleFlight
import Foreman.Proofs.Coordinator.Wakeups
import Foreman.Proofs.Correlator.Cascades
import Foreman.Proofs.Correlator.Delivery
import Foreman.Proofs.Correlator.Withdrawal
import Foreman.Proofs.Notifier.Isolation
import Foreman.Proofs.Notifier.Patrols
import Foreman.Proofs.Queue.Fairness
import Foreman.Proofs.Release.Admission
import Foreman.Proofs.Release.Attendance
import Foreman.Proofs.Release.Breakdowns
import Foreman.Proofs.Release.Closing
import Foreman.Proofs.Release.Containment
import Foreman.Proofs.Release.News
import Foreman.Proofs.Release.Success
import Foreman.Proofs.Service.Callbacks
import Foreman.Proofs.Service.Refusals
import Foreman.Proofs.Socket.Client
import Foreman.Proofs.Socket.Sessions
import Foreman.Proofs.Store.Saves
import Foreman.Proofs.Wire.RoundTrip
import Foreman.Proofs.Workshop.Enqueueing
import Foreman.Proofs.Workshop.Failures
import Foreman.Proofs.Workshop.Presence
import Foreman.Proofs.Workshop.Reports
