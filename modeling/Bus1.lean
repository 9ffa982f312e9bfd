import Bus1.Atomic
import Bus1.Active.Abstract
import Bus1.Active.Counter
import Bus1.Active.Machine
import Bus1.Active.ThreadStep
import Bus1.Active.Refinement
import Bus1.Active.History
import Bus1.Active.Drain
import Bus1.Active.Overflow
import Bus1.Active.Lifecycle
import Bus1.Active.Progress
import Bus1.Active.Linearizable
import Bus1.Active.LockFree
import Bus1.Queue.Node
import Bus1.Queue.Clock
import Bus1.Queue.Lamport
