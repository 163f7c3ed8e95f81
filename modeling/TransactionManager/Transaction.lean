import TransactionManager.Repository
/-
# The transaction managers

`SqlxTransactionManager::transaction` (`sqlx_impl/src/transaction_manager.rs:108-177`) and
`SeaOrmTransactionManager::transaction` (`sea_orm_impl/src/transaction_manager.rs:21-59`) are
the same block over two drivers: begin, run the closure on a clone of the
`Arc<Mutex<DbContext>>`, take the context back with `Arc::try_unwrap`, commit or roll back.

| here | there |
| --- | --- |
| `Closure`        | the closure `f` and its future: repository calls on the context, any handling of their results, clones of the `Arc` made, dropped, lent to somebody outside the future and taken back, a result or a panic |
| `Phase`          | the await points of the future `transaction(f)` |
| `resume`         | what runs between two await points: `f` up to its next call, and the two `match Arc::try_unwrap(db_context)` |
| `DbContext.commit`, `.rollback` | `sqlx_impl/src/db_context.rs:22-30`, `sea_orm_impl/src/db_context.rs:23-31` |
| `transaction`    | the whole block, run with nobody else on the server |

Begin, every statement, commit and rollback may fail (`Faults`). A COMMIT that reports an
error has not committed. Dropping the last reference to a context rolls its transaction back.
A future that is dropped or panics lets go of the clones it holds itself; those it has lent, to a
spawned task say, live on, and with them the context. What such a task calls while the block runs is
part of the closure here; a statement on the way when the future is dropped is an act of the holder.
COMMIT, its acknowledgement and the return are one step; `InFlight` takes them apart.
-/

namespace TransactionManager

open RowStore RustInt

/-- What a run is made on: the stack, the server's tables and the two open choices. -/
structure Config where
  backend : Backend
  catalog : Catalog
  freeOnAbort : Bool
  profile : BuildProfile

/-- Injected failures of one transaction block; `stmt n` is that of its `n`-th statement. -/
structure Faults where
  begin : Option PgError
  stmt : Nat → Option PgError
  commit : Option PgError
  rollback : Option PgError

def Faults.none : Faults := ⟨.none, fun _ => .none, .none, .none⟩

/-- A driver error on its way into `anyhow::Error`. -/
def Backend.driverError : Backend → PgError → Error
  | .sqlx, e => .sqlx (.database e)
  | .seaOrm, e => .seaOrm (.runtime e)

/-- A repository call on the locked context: one statement, its outcome decoded. -/
def callRepo (cfg : Config) (db : Db) (tx : PgTx) (fault : Option PgError) (c : RepoCall) :
    Except Error c.Reply × PgTx :=
  let m := cfg.backend.method c
  let r := m.stmt.exec cfg.catalog cfg.freeOnAbort db tx fault
  (m.decode r.1, r.2)

def callWaits (cfg : Config) (o : Others) (db : Db) (tx : PgTx) (fault : Option PgError) (c : RepoCall) : Bool :=
  (cfg.backend.method c).stmt.waits cfg.catalog o db tx fault

/-! ## `DbContext` -/

namespace DbContext

def commit (cfg : Config) (fault : Option PgError) (tx : PgTx) (db : Db) : Except Error Unit × Db :=
  match fault with
  | some e => (.error (cfg.backend.driverError e), db)
  | none => (.ok (), tx.commit db)

def rollback (cfg : Config) (fault : Option PgError) (_ : PgTx) (db : Db) : Except Error Unit × Db :=
  match fault with
  | some e => (.error (cfg.backend.driverError e), db)
  | none => (.ok (), db)

end DbContext

/-! ## Closures -/

/-- The references to the context other than the manager's: those that the closure's future holds
(`own`), and those held outside it (`lent`). -/
structure Refs where
  own : Nat
  lent : Nat

namespace Refs

/-- What `f` is called with: one clone. -/
abbrev given : Refs := ⟨1, 0⟩

def clones (refs : Refs) : Nat := refs.own + refs.lent
def clone (refs : Refs) : Refs := { refs with own := refs.own + 1 }
def drop (refs : Refs) : Refs := { refs with own := refs.own - 1 }

/-- A clone is moved out of the future, into a task or a place that others share. -/
def lend : Refs → Refs
  | ⟨own + 1, lent⟩ => ⟨own, lent + 1⟩
  | refs => refs

/-- A clone that was lent is back. -/
def reclaim : Refs → Refs
  | ⟨own, lent + 1⟩ => ⟨own + 1, lent⟩
  | refs => refs

end Refs

/-- A closure passed to `transaction`, from some point of its run on. -/
inductive Closure (α : Type) where
  | ret (result : Except Error α)
  | panic
  | call (c : RepoCall) (k : Except Error c.Reply → Closure α)
  | clone (k : Closure α)
  | drop (k : Closure α)
  | lend (k : Closure α)
  | reclaim (k : Closure α)

/-- Where a closure is when its future is polled. One that has finished leaves `clones` references
to the context behind, one that has panicked those it had lent. -/
inductive Polled (α : Type) where
  | pending (c : RepoCall) (k : Except Error c.Reply → Closure α) (refs : Refs)
  | ready (result : Except Error α) (clones : Nat)
  | panicked (lent : Nat)

/-- Run a closure up to its next repository call. -/
def Closure.poll {α : Type} : Closure α → Refs → Polled α
  | .ret result, refs => .ready result refs.clones
  | .panic, refs => .panicked refs.lent
  | .call c k, refs => .pending c k refs
  | .clone k, refs => k.poll refs.clone
  | .drop k, refs => k.poll refs.drop
  | .lend k, refs => k.poll refs.lend
  | .reclaim k, refs => k.poll refs.reclaim

/-! ## The block -/

/-- A context that outlives `transaction()`: its transaction and the references left. -/
structure Context where
  tx : PgTx
  clones : Nat

/-- The context when only the lent references are left. With none of them it is dropped. -/
def Context.left (tx : PgTx) : (lent : Nat) → Option Context
  | 0 => none
  | n + 1 => some ⟨tx, n + 1⟩

/-- Where a transaction block is: at one of its await points, or over. -/
inductive Phase (α : Type) where
  | created
  | awaiting (c : RepoCall) (k : Except Error c.Reply → Closure α) (refs : Refs) (calls : Nat) (tx : PgTx)
  | committing (result : α) (tx : PgTx)
  | rollingBack (error : Error) (tx : PgTx)
  | returned (result : Except Error α) (escaped : Option Context)
  | dropped (escaped : Option Context)

/-- From a polled closure to the next await point. `Arc::try_unwrap` gives the context back
exactly when no clone is left; its `Err` arms only drop the manager's reference, and so does a panic. -/
def resume {α : Type} (calls : Nat) (tx : PgTx) : Polled α → Phase α
  | .pending c k refs => .awaiting c k refs calls tx
  | .ready (.ok result) 0 => .committing result tx
  | .ready (.ok _) (n + 1) => .returned (.error .failedToExtractContext) (some ⟨tx, n + 1⟩)
  | .ready (.error e) 0 => .rollingBack e tx
  | .ready (.error e) (n + 1) => .returned (.error e) (some ⟨tx, n + 1⟩)
  | .panicked lent => .dropped (Context.left tx lent)

/-- A repository call and what it returned. -/
abbrev Exchange := (c : RepoCall) × Except Error c.Reply

/-- The commands of a block as the server and the closure see them. `finished` is the end of
the closure's future, with the clones of the context still alive then; `panicked` and `cancelled` are
the ways it can be cut short, with the clones that were lent. -/
inductive Event (α : Type) where
  | begin (fault : Option PgError)
  | call (x : Exchange)
  | finished (result : Except Error α) (clones : Nat)
  | panicked (lent : Nat)
  | cancelled (lent : Nat)
  | commit (fault : Option PgError)
  | rollback (fault : Option PgError)

def Polled.events {α : Type} : Polled α → List (Event α)
  | .pending _ _ _ => []
  | .ready result clones => [.finished result clones]
  | .panicked lent => [.panicked lent]

/-- What a caller runs: code before the block that may fail, then `transaction(f)`. -/
structure Job (α : Type) where
  start : Except Error (Closure α)
  faults : Faults

/-- The await point is over and the future runs on to the next one: the events, the next
phase and the committed rows. `none` once the block is over. -/
def Phase.poll {α : Type} (cfg : Config) (job : Job α) (db : Db) :
    Phase α → Option (List (Event α) × Phase α × Db)
  | .created =>
    match job.start with
    | .error e => some ([], .returned (.error e) none, db)
    | .ok f =>
      match job.faults.begin with
      | some e => some ([.begin (some e)], .returned (.error (cfg.backend.driverError e)) none, db)
      | none => some (.begin none :: (f.poll .given).events, resume 0 .fresh (f.poll .given), db)
  | .awaiting c k refs calls tx =>
    let r := callRepo cfg db tx (job.faults.stmt calls) c
    let p := (k r.1).poll refs
    some (.call ⟨c, r.1⟩ :: p.events, resume (calls + 1) r.2 p, db)
  | .committing result tx =>
    let r := DbContext.commit cfg job.faults.commit tx db
    some ([.commit job.faults.commit], .returned (r.1.map fun _ => result) none, r.2)
  | .rollingBack e tx =>
    let r := DbContext.rollback cfg job.faults.rollback tx db
    some ([.rollback job.faults.rollback], .returned (.error e) none, r.2)
  | .returned _ _ => none
  | .dropped _ => none

/-- The clones of the context that are held outside the closure's future. -/
def Phase.lent {α : Type} : Phase α → Nat
  | .awaiting _ _ refs _ _ => refs.lent
  | _ => 0

/-- The future is dropped at its await point, and with it the references that it holds. -/
def Phase.cancel {α : Type} : Phase α → Phase α
  | .awaiting _ _ refs _ tx => .dropped (Context.left tx refs.lent)
  | _ => .dropped none

/-- The context that has outlived the block. -/
def Phase.escaped {α : Type} : Phase α → Option Context
  | .returned _ escaped => escaped
  | .dropped escaped => escaped
  | _ => none

/-- The block is over, and `escaped` is what is left of its context. -/
def Phase.leave {α : Type} (escaped : Option Context) : Phase α → Phase α
  | .returned result _ => .returned result escaped
  | .dropped _ => .dropped escaped
  | p => p

/-- The transaction a block holds open. -/
def Phase.openTx {α : Type} : Phase α → Option PgTx
  | .created => none
  | .awaiting _ _ _ _ tx => some tx
  | .committing _ tx => some tx
  | .rollingBack _ tx => some tx
  | .returned _ escaped => escaped.map Context.tx
  | .dropped escaped => escaped.map Context.tx

/-! ## The block run alone -/

/-- The run of a closure: its calls, the transaction after them, and how it ended. -/
structure Driven (α : Type) where
  exchanges : List Exchange
  tx : PgTx
  ended : Polled α

/-- Run a closure to its end with nobody else on the server, so that no call waits. -/
def Closure.drive {α : Type} (cfg : Config) (faults : Faults) (db : Db) :
    Closure α → Refs → (calls : Nat) → PgTx → Driven α
  | .ret result, refs, _, tx => ⟨[], tx, .ready result refs.clones⟩
  | .panic, refs, _, tx => ⟨[], tx, .panicked refs.lent⟩
  | .call c k, refs, calls, tx =>
    let r := callRepo cfg db tx (faults.stmt calls) c
    let d := (k r.1).drive cfg faults db refs (calls + 1) r.2
    { d with exchanges := ⟨c, r.1⟩ :: d.exchanges }
  | .clone k, refs, calls, tx => k.drive cfg faults db refs.clone calls tx
  | .drop k, refs, calls, tx => k.drive cfg faults db refs.drop calls tx
  | .lend k, refs, calls, tx => k.drive cfg faults db refs.lend calls tx
  | .reclaim k, refs, calls, tx => k.drive cfg faults db refs.reclaim calls tx

/-- `TransactionManager::transaction`, run alone: `returned` or, on a panic, `dropped`, and
the committed rows. -/
def transaction {α : Type} (cfg : Config) (faults : Faults) (f : Closure α) (db : Db) : Phase α × Db :=
  match faults.begin with
  | some e => (.returned (.error (cfg.backend.driverError e)) none, db)
  | none =>
    let d := f.drive cfg faults db .given 0 .fresh
    match d.ended with
    | .ready (.ok result) 0 =>
      let r := DbContext.commit cfg faults.commit d.tx db
      (.returned (r.1.map fun _ => result) none, r.2)
    | .ready (.error e) 0 =>
      let r := DbContext.rollback cfg faults.rollback d.tx db
      (.returned (.error e) none, r.2)
    | ended => (resume 0 d.tx ended, db)

end TransactionManager
