import BlockPool.Chunk
import BlockPool.ClassTable
import BlockPool.Config
import BlockPool.Config.File
import BlockPool.Config.Toml
import BlockPool.Disk
import BlockPool.Error
import BlockPool.FreeList
import BlockPool.Payload
import BlockPool.Pool
import BlockPool.Receipt
import BlockPool.Record
import BlockPool.Registry
import BlockPool.Session
import BlockPool.Session.Request
import BlockPool.SizeClass
import BlockPool.Text.Blank
import BlockPool.Text.Quoted
import BlockPool.Text.Ranges
import BlockPool.Toml.Document
import BlockPool.Toml.Form
import BlockPool.Toml.Moment
import BlockPool.Toml.Number
import BlockPool.Toml.Reader
import BlockPool.Toml.Table
import BlockPool.Toml.Writing
import BlockPool.Workbench.Chain
import BlockPool.Workbench.Table
import BlockPool.World
import BlockPool.World.Action
import BlockPool.World.Bulk
import BlockPool.Proofs.Lookup
import BlockPool.Proofs.ClassTable
import BlockPool.Proofs.ClassTable.Drain
import BlockPool.Proofs.ClassTable.Redrain
import BlockPool.Proofs.ClassTable.Slots
import BlockPool.Proofs.Registry
import BlockPool.Proofs.ClassTable.Service
import BlockPool.Proofs.World.Sound
import BlockPool.Proofs.World.Reachable
import BlockPool.Proofs.Ledger
import BlockPool.Proofs.Ledger.Refinement
import BlockPool.Proofs.World.Stamp
import BlockPool.Proofs.Threads
import BlockPool.Proofs.Threads.Course
import BlockPool.Proofs.Threads.Settlement
import BlockPool.Proofs.World.Conservation
import BlockPool.Proofs.World.Moment
import BlockPool.Proofs.World.Whereabouts
import BlockPool.Proofs.World.Balance
import BlockPool.Proofs.Ledger.Records
import BlockPool.Proofs.World.Refusal
import BlockPool.Proofs.World.Silence
import BlockPool.Proofs.World.Teardown
import BlockPool.Proofs.World.Excerpt
import BlockPool.Proofs.Ledger.Elsewhere
import BlockPool.Proofs.Ledger.Follows
import BlockPool.Proofs.Ledger.Match
import BlockPool.Proofs.World.Interference
import BlockPool.Proofs.World.Bytes
import BlockPool.Proofs.World.Homecoming
import BlockPool.Proofs.Receipt
import BlockPool.Proofs.ClassTable.Receipt
import BlockPool.Proofs.World.Told
import BlockPool.Proofs.World.Admission
import BlockPool.Proofs.World.Clearance
import BlockPool.Proofs.World.Dealing
import BlockPool.Proofs.World.Reuse
import BlockPool.Proofs.World.Cycle
import BlockPool.Proofs.World.Demand
import BlockPool.Proofs.Workbench.Table
import BlockPool.Proofs.Toml.Form
import BlockPool.Proofs.Toml.Number
import BlockPool.Proofs.Toml.Document
import BlockPool.Proofs.Toml.Reader
import BlockPool.Proofs.Toml.Bounds
import BlockPool.Proofs.Config
import BlockPool.Proofs.Config.Toml
import BlockPool.Proofs.Record
import BlockPool.Proofs.Config.Arrangement
import BlockPool.Proofs.FreeList
import BlockPool.Proofs.SizeClass
import BlockPool.Proofs.World.Limits
