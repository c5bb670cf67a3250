import FedTrack.Main
import FedTrack.Simulation.ApiRun
import FedTrack.Simulation.CacheRun
import FedTrack.Simulation.DeliveryRun
import FedTrack.Simulation.FederationRun
import FedTrack.Simulation.QueueRun
import FedTrack.Simulation.StartRun
import FedTrack.Simulation.StatusRun
import FedTrack.Simulation.VersionRun
import FedTrack.Simulation.WorkerRun
import FedTrack.Proofs.Api.StatusWrite
import FedTrack.Proofs.Member.Logbook
import FedTrack.Proofs.Name
import FedTrack.Proofs.Poll
import FedTrack.Proofs.Settings.Layers
import FedTrack.Proofs.Simulation.FederationRun
import FedTrack.Proofs.Simulation.StatusRun
import FedTrack.Proofs.Simulation.VersionRun
import FedTrack.Proofs.Simulation.WorkerRun
import FedTrack.Proofs.Status.Discipline
import FedTrack.Proofs.Status.Formats
import FedTrack.Proofs.Status.PatrolLaw
import FedTrack.Proofs.Status.Settled
import FedTrack.Proofs.Store.Patch
import FedTrack.Proofs.Version.Apart
import FedTrack.Proofs.Version.Book
import FedTrack.Proofs.Version.Canonical
import FedTrack.Proofs.Version.Drift
import FedTrack.Proofs.Version.Durability
import FedTrack.Proofs.Version.Journey
import FedTrack.Proofs.Version.Overlap
import FedTrack.Proofs.Version.Ownership
import FedTrack.Proofs.Version.Refusal
import FedTrack.Proofs.Version.Restart
import FedTrack.Proofs.Version.Rollcall
import FedTrack.Proofs.Version.RoundTrip
import FedTrack.Proofs.Version.Scope
import FedTrack.Proofs.Version.Startup
import FedTrack.Proofs.Version.Tally
import FedTrack.Proofs.Version.TargetKinds
import FedTrack.Proofs.Version.TrackingLaw
import FedTrack.Proofs.Version.Unchanged
import FedTrack.Proofs.Watch.Relist
import FedTrack.Proofs.Work.Backoff
import FedTrack.Proofs.Work.PendingLaw
