import AudioFocus.Fifo.CommonTree
import AudioFocus.Proofs.Allocation
import AudioFocus.Proofs.Chunks
import AudioFocus.Proofs.Finalize
import AudioFocus.Proofs.InOrder
import AudioFocus.Proofs.Isolation
import AudioFocus.Proofs.Process
import AudioFocus.Proofs.Removal
import AudioFocus.Proofs.Running
import AudioFocus.Proofs.Tally
import AudioFocus.Proofs.Teardowns
import AudioFocus.Proofs.Turns
import AudioFocus.Proofs.ExitNotice
import AudioFocus.Proofs.FailedOpens
import AudioFocus.Proofs.Hearing
