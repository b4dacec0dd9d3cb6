import NetworkStack.Replay
import NetworkStack.Reflection
import NetworkStack.Completion
import NetworkStack.Isolation
import NetworkStack.Refinement
import NetworkStack.Adversary
import NetworkStack.Reordering
import NetworkStack.OneSided.MapRefinement
import NetworkStack.OneSided.Atomicity
import NetworkStack.PlainCodec
import NetworkStack.Ownership
import NetworkStack.Chunked
import NetworkStack.Parity
import NetworkStack.IvRun
import NetworkStack.Interference
import NetworkStack.Answering
import NetworkStack.Tolerance
import NetworkStack.Reentrancy
import NetworkStack.Buffers
import NetworkStack.Progress
import NetworkStack.Shutdown
import NetworkStack.WorkLoop
import NetworkStack.EncryptedService
import NetworkStack.OneSided.Connection
import NetworkStack.OneSided.Lifecycle
import NetworkStack.OneSided.Sharing
import NetworkStack.OneSided.Bounds
import NetworkStack.OneSided.Placement
