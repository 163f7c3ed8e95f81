import TransactionManager.Lib.Run
import TransactionManager.Lib.RowStore
import TransactionManager.Lib.RustInt
import TransactionManager.Lib.WaitFor
import TransactionManager.Lib.Guarded
import TransactionManager.Lib.Decision
import TransactionManager.Domain
import TransactionManager.Stock
import TransactionManager.Sql
import TransactionManager.Repository
import TransactionManager.Transaction
import TransactionManager.UseCase
import TransactionManager.System
import TransactionManager.Alone
import TransactionManager.Tables
import TransactionManager.Block
import TransactionManager.Contract
import TransactionManager.Escape
import TransactionManager.Calls
import TransactionManager.Durability
import TransactionManager.Readable
import TransactionManager.RoundTrip
import TransactionManager.Progress
import TransactionManager.Serial
import TransactionManager.Conservation
import TransactionManager.AllOrNothing
import TransactionManager.Rejections
import TransactionManager.Items
import TransactionManager.Pool
import TransactionManager.Deadlock
import TransactionManager.Shared
import TransactionManager.Stacks
import TransactionManager.Migration
import TransactionManager.Footprint
import TransactionManager.Locking
import TransactionManager.Sharing
import TransactionManager.Answers
import TransactionManager.InFlight
import TransactionManager.Observers
import TransactionManager.Termination
import TransactionManager.Contention
import TransactionManager.Portable
import TransactionManager.LockOrder
import TransactionManager.AppendOnly
import TransactionManager.Memory
import TransactionManager.Compose
import TransactionManager.Fruitless
import TransactionManager.Maintenance
import TransactionManager.Logic
import TransactionManager.Amid
