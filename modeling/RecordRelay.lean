import RecordRelay.Batching
import RecordRelay.Fleet
import RecordRelay.Main
import RecordRelay.Net.Locality
import RecordRelay.Proofs.Fleet.Affinity
import RecordRelay.Proofs.Fleet.Conservation
import RecordRelay.Proofs.Ring.Movement
import RecordRelay.Stage
import RecordRelay.Proofs.Ring.Rebuild
import RecordRelay.Proofs.Forwarding.Calls
import RecordRelay.Proofs.Forwarding.Batches
import RecordRelay.Proofs.Buffer.Accounting
import RecordRelay.Proofs.Buffer.Delivery
import RecordRelay.Proofs.Dispatch.Fates
import RecordRelay.Proofs.Forwarding.Counting
import RecordRelay.Proofs.RoundTrip
import RecordRelay.Proofs.Relay.Acceptance
import RecordRelay.Proofs.Discovery.Currency
import RecordRelay.Proofs.Relay.Fallback
import RecordRelay.Proofs.Relay.Stranding
import RecordRelay.Proofs.Relay.Registering
import RecordRelay.Proofs.Ring.Clockwise
import RecordRelay.Proofs.Ring.Shares
import RecordRelay.Proofs.Buffer.Tokens
import RecordRelay.Proofs.Inspection.Routes
import RecordRelay.Proofs.Event.Paths
import RecordRelay.Proofs.CompositeKey
import RecordRelay.Proofs.Discovery.Notices
import RecordRelay.Proofs.Net.Memory
import RecordRelay.Proofs.Net.Endpoints
import RecordRelay.Proofs.Inspection.LoneNode
import RecordRelay.Proofs.Forwarding.Chunks
import RecordRelay.Proofs.Ring.Labels
import RecordRelay.Proofs.Relay.Capacities
