import Enclaves.Main
import Enclaves.Mailbox.Handover
import Enclaves.Proofs.FreeList
import Enclaves.Proofs.Lending
import Enclaves.Proofs.Handles
import Enclaves.Proofs.Meeting
import Enclaves.Proofs.Teardown
import Enclaves.Proofs.Refusal
import Enclaves.Proofs.Replay
import Enclaves.Proofs.Binding
import Enclaves.Proofs.Delivery
import Enclaves.Proofs.Completeness
import Enclaves.Proofs.Authenticity
import Enclaves.Proofs.Respelling
import Enclaves.Proofs.Stale
import Enclaves.Proofs.Finalization
import Enclaves.Proofs.Accord
import Enclaves.Proofs.Roster
import Enclaves.Proofs.Story
import Enclaves.Proofs.Entries
import Enclaves.Proofs.Commuting
import Enclaves.Proofs.Frame
import Enclaves.Proofs.Legibility
import Enclaves.Proofs.Outboxes
import Enclaves.Proofs.Arithmetic
import Enclaves.Proofs.Contents
import Enclaves.Proofs.FirstFit
import Enclaves.Proofs.Acceptance
import Enclaves.Proofs.Transcript
import Enclaves.Proofs.Atomicity
import Enclaves.Proofs.PlatformImage
import Enclaves.Proofs.Documents
import Enclaves.Proofs.Buffers
