import Timeline.Archive
import Timeline.Conversation.Operation
import Timeline.Json.Reader
import Timeline.Pools
import Timeline.Wire.Bounds
import Timeline.Wire.Page
import Timeline.Wire.View
import Timeline.Proofs.Messages
import Timeline.Proofs.Retention
import Timeline.Proofs.Pieces
import Timeline.Proofs.Trimming
import Timeline.Proofs.Seam
import Timeline.Proofs.Steps
import Timeline.Proofs.Awaiting
import Timeline.Proofs.Session
import Timeline.Proofs.LogPages
import Timeline.Proofs.Contiguity
import Timeline.Proofs.Present
import Timeline.Proofs.Capacity
import Timeline.Proofs.Checked
import Timeline.Proofs.Deliveries
import Timeline.Proofs.Failing
import Timeline.Proofs.Walk
import Timeline.Proofs.Requests
import Timeline.Proofs.LateReplies
import Timeline.Proofs.Renaming
import Timeline.Proofs.RenamedRuns
import Timeline.Proofs.Trees
import Timeline.Proofs.ReadBack
import Timeline.Proofs.Records
import Timeline.Proofs.RoundTrip
import Timeline.Proofs.Forms
import Timeline.Proofs.AcceptedForms
import Timeline.Proofs.Isolation
import Timeline.Proofs.LongestKept
import Timeline.Proofs.Places
import Timeline.Proofs.Realigned
import Timeline.Proofs.HonestMark
import Timeline.Proofs.Offers
import Timeline.Proofs.Interleaving
import Timeline.Proofs.TakingOver
