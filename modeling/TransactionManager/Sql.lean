import TransactionManager.Lib.RowStore
import TransactionManager.Domain
/-
# PostgreSQL: catalog, point statements, transactions at READ COMMITTED

Every statement of the repositories addresses one row by a primary key that is a UUID. The
server resolves its table and column names against the catalog (`Stmt.plan`) and then reads,
inserts or updates that row (`Access.exec`). What is assumed of the server, and nothing else:

* a FOR UPDATE read and an UPDATE of a row that is there wait while another open transaction
  holds the row's lock, then see the latest committed version and hold the lock to the end;
* an INSERT waits while another open transaction has written a row under the key, then fails
  if a row is there;
* a plain read waits for nobody and sees committed rows and the transaction's own;
* a statement that fails aborts the transaction: all its later statements fail. Whether the
  locks of an aborted transaction go at once or when it is ended is left open (`freeOnAbort`).
-/

namespace TransactionManager

open RowStore

inductive ColumnType where
  | uuid | integer
deriving DecidableEq

inductive Value where
  | null
  | uuid (u : Uuid)
  | integer (n : Int32)
deriving DecidableEq

structure QName where
  schema : String
  table : String
deriving DecidableEq

structure Column where
  name : String
  type : ColumnType
  notNull : Bool
  primaryKey : Bool
deriving DecidableEq

abbrev TableDef := List Column

structure Catalog where
  schemas : List String
  tables : List (QName × TableDef)
deriving DecidableEq

/-- Server errors; `failure` is any failure from outside (I/O, timeout, deadlock victim …). -/
inductive PgError where
  | invalidSchemaName (schema : String)
  | duplicateSchema (schema : String)
  | duplicateTable (table : QName)
  | undefinedTable (table : QName)
  | undefinedColumn (column : String)
  | datatypeMismatch (column : String)
  | notNullViolation (column : String)
  | uniqueViolation (table : QName)
  | featureNotSupported
  | inFailedSqlTransaction
  | failure (code : Nat)
deriving DecidableEq

/-! ## Catalog -/

inductive Ddl where
  | createSchema (schema : String) (ifNotExists : Bool)
  | createTable (table : QName) (columns : TableDef) (ifNotExists : Bool)

def Catalog.empty : Catalog := ⟨[], []⟩

def Ddl.run (cat : Catalog) : Ddl → Except PgError Catalog
  | .createSchema schema ifNotExists =>
    if schema ∈ cat.schemas then
      if ifNotExists then .ok cat else .error (.duplicateSchema schema)
    else .ok { cat with schemas := cat.schemas ++ [schema] }
  | .createTable table columns ifNotExists =>
    if table.schema ∉ cat.schemas then .error (.invalidSchemaName table.schema)
    else if (cat.tables.lookup table).isSome then
      if ifNotExists then .ok cat else .error (.duplicateTable table)
    else .ok { cat with tables := cat.tables ++ [(table, columns)] }

/-- A script of DDL statements, stopped by the first that fails. -/
def Catalog.runAll (cat : Catalog) (script : List Ddl) : Except PgError Catalog :=
  script.foldlM Ddl.run cat

/-! ## Statements -/

/-- `SELECT columns FROM table WHERE key = param [FOR UPDATE]`, `INSERT INTO table (..) VALUES (..)`
and `UPDATE table SET .. WHERE key = param`. -/
inductive Stmt where
  | select (table : QName) (columns : List String) (key : String) (param : Uuid) (forUpdate : Bool)
  | insert (table : QName) (values : List (String × Value))
  | update (table : QName) (set : List (String × Value)) (key : String) (param : Uuid)

abbrev Key := QName × Uuid
/-- The values of a row in the order of the table's columns. -/
abbrev Row := List Value
abbrev Db := Store Key Row
abbrev PgTx := Tx Key Row

/-- A statement with its names resolved: the row it addresses and columns by position. -/
inductive Access where
  | read (key : Key) (columns : List (String × Nat)) (forUpdate : Bool)
  | insert (key : Key) (row : Row)
  | update (key : Key) (set : List (Nat × Value))

def Value.type : Value → Option ColumnType
  | .null => none
  | .uuid _ => some .uuid
  | .integer _ => some .integer

/-- A value on its way into a column. -/
def Column.admit (c : Column) (v : Value) : Except PgError Value :=
  match v.type with
  | none => if c.notNull || c.primaryKey then .error (.notNullViolation c.name) else .ok v
  | some t => if t = c.type then .ok v else .error (.datatypeMismatch c.name)

def Catalog.find (cat : Catalog) (table : QName) : Except PgError TableDef :=
  match cat.tables.lookup table with
  | some d => .ok d
  | none => .error (.undefinedTable table)

def TableDef.position (d : TableDef) (column : String) : Except PgError Nat :=
  match d.findIdx? fun c => c.name = column with
  | some j => .ok j
  | none => .error (.undefinedColumn column)

/-- The statements of this fragment find their row by the primary key. -/
def TableDef.checkKey (d : TableDef) (column : String) : Except PgError Unit :=
  if d.any fun c => c.name = column && c.primaryKey && c.type = .uuid then .ok ()
  else .error .featureNotSupported

/-- `column = value`, the value admitted by the column's declaration. -/
def TableDef.assign (d : TableDef) (column : String) (v : Value) : Except PgError (Nat × Value) := do
  let j ← d.position column
  match d[j]? with
  | some c => return (j, ← c.admit v)
  | none => .error (.undefinedColumn column)

/-- The row an INSERT makes; a column it does not name is NULL. -/
def TableDef.newRow (d : TableDef) (values : List (String × Value)) : Except PgError Row := do
  let _ ← values.mapM fun v => d.position v.1
  d.mapM fun c => c.admit ((values.lookup c.name).getD .null)

/-- The UUID under the primary key of a new row. -/
def TableDef.keyOf (d : TableDef) (row : Row) : Except PgError Uuid :=
  match d.findIdx? (·.primaryKey) with
  | some j => match row[j]? with
    | some (.uuid u) => .ok u
    | _ => .error .featureNotSupported
  | none => .error .featureNotSupported

def Stmt.plan (cat : Catalog) : Stmt → Except PgError Access
  | .select table columns key param forUpdate => do
    let d ← cat.find table
    let positions ← columns.mapM fun c => return (c, ← d.position c)
    d.checkKey key
    return .read (table, param) positions forUpdate
  | .insert table values => do
    let d ← cat.find table
    let row ← d.newRow values
    return .insert (table, ← d.keyOf row) row
  | .update table set key param => do
    let d ← cat.find table
    let assigned ← set.mapM fun v => d.assign v.1 v.2
    d.checkKey key
    return .update (table, param) assigned

/-! ## Execution in a transaction -/

inductive SqlResult where
  | rows (rows : List (List (String × Value)))
  | affected (count : Nat)

/-- What the other open transactions hold: row locks, and rows written but not committed. -/
structure Others where
  locked : Key → Bool
  written : Key → Bool

def Others.none : Others := ⟨fun _ => false, fun _ => false⟩

/-- The access has to wait for another transaction. -/
def Access.waits (o : Others) (db : Db) (tx : PgTx) : Access → Bool
  | .read key _ forUpdate => forUpdate && (tx.sees db key).isSome && o.locked key
  | .insert key _ => o.written key
  | .update key _ => (tx.sees db key).isSome && o.locked key

/-- Outcome and transaction of an access that does not have to wait. -/
def Access.exec (freeOnAbort : Bool) (db : Db) (tx : PgTx) : Access → Except PgError SqlResult × PgTx
  | .read key columns forUpdate =>
    match tx.sees db key with
    | none => (.ok (.rows []), tx)
    | some row =>
      (.ok (.rows [columns.map fun c => (c.1, row.getD c.2 .null)]), if forUpdate then tx.lock key else tx)
  | .insert key row =>
    match tx.sees db key with
    | some _ => (.error (.uniqueViolation key.1), tx.abort freeOnAbort)
    | none => (.ok (.affected 1), tx.write key row)
  | .update key set =>
    match tx.sees db key with
    | none => (.ok (.affected 0), tx)
    | some row => (.ok (.affected 1), tx.write key (set.foldl (fun r v => r.set v.1 v.2) row))

/-- A statement with its injected failure, if any: a failing one aborts the transaction. -/
def Stmt.exec (cat : Catalog) (freeOnAbort : Bool) (db : Db) (tx : PgTx) (fault : Option PgError)
    (st : Stmt) : Except PgError SqlResult × PgTx :=
  match fault with
  | some e => (.error e, tx.abort freeOnAbort)
  | none =>
    if tx.aborted then (.error .inFailedSqlTransaction, tx)
    else match st.plan cat with
      | .error e => (.error e, tx.abort freeOnAbort)
      | .ok a => a.exec freeOnAbort db tx

def Stmt.waits (cat : Catalog) (o : Others) (db : Db) (tx : PgTx) (fault : Option PgError) (st : Stmt) : Bool :=
  match fault with
  | some _ => false
  | none =>
    !tx.aborted && match st.plan cat with
      | .error _ => false
      | .ok a => a.waits o db tx

/-! ## What a statement can do to its transaction -/

section
variable {o : Others} {db : Db} {tx : PgTx} {free unwritten : Key → Prop}

/-- An access that does not wait moves its transaction by one `Tx.Move`. -/
theorem Access.exec_move (freeOnAbort : Bool) (a : Access) (hfree : ∀ k, o.locked k = false → free k)
    (hunwritten : ∀ k, o.written k = false → unwritten k) (hw : a.waits o db tx = false) :
    tx.Move free unwritten db (a.exec freeOnAbort db tx).2 := by
  cases a with
  | read key columns forUpdate =>
    cases hs : tx.sees db key with
    | none => simpa only [exec, hs] using .same
    | some row =>
      cases forUpdate with
      | false => simpa only [exec, hs] using .same
      | true =>
        simp only [waits, hs, Option.isSome_some, Bool.true_and] at hw
        simpa only [exec, hs] using .locked key (by simp [hs]) (hfree key hw)
  | insert key row =>
    cases hs : tx.sees db key with
    | some _ => simpa only [exec, hs] using .aborted freeOnAbort
    | none => simpa only [exec, hs] using .inserted key row hs (hunwritten key hw)
  | update key set =>
    cases hs : tx.sees db key with
    | none => simpa only [exec, hs] using .same
    | some row =>
      simp only [waits, hs, Option.isSome_some, Bool.true_and] at hw
      simpa only [exec, hs] using .updated key _ (by simp [hs]) (hfree key hw)

theorem Stmt.exec_move (cat : Catalog) (freeOnAbort : Bool) (fault : Option PgError) (st : Stmt)
    (hfree : ∀ k, o.locked k = false → free k) (hunwritten : ∀ k, o.written k = false → unwritten k)
    (hw : st.waits cat o db tx fault = false) :
    tx.Move free unwritten db (st.exec cat freeOnAbort db tx fault).2 := by
  unfold exec
  unfold waits at hw
  cases fault with
  | some e => exact .aborted freeOnAbort
  | none =>
    simp only
    cases ha : tx.aborted with
    | true => simpa only [if_true] using .same
    | false =>
      simp only [ha, Bool.not_false, Bool.true_and] at hw
      cases hp : st.plan cat with
      | error e => simpa only [Bool.false_eq_true, if_false] using .aborted freeOnAbort
      | ok a =>
        simp only [hp] at hw
        simpa only [Bool.false_eq_true, if_false] using a.exec_move freeOnAbort hfree hunwritten hw

/-- With fewer locks and pending rows around, a statement waits no more than before. -/
theorem Stmt.waits_mono (cat : Catalog) (fault : Option PgError) (st : Stmt) {o' : Others}
    (hl : ∀ k, o'.locked k = true → o.locked k = true) (hw' : ∀ k, o'.written k = true → o.written k = true)
    (hw : st.waits cat o db tx fault = false) : st.waits cat o' db tx fault = false := by
  have hl' : ∀ k, o.locked k = false → o'.locked k = false := fun k h => by
    by_contra hc
    simp [hl k (by simpa using hc)] at h
  unfold waits at hw ⊢
  cases fault with
  | some e => rfl
  | none =>
    simp only at hw ⊢
    cases ha : tx.aborted with
    | true => rfl
    | false =>
      simp only [ha, Bool.not_false, Bool.true_and] at hw ⊢
      cases hp : st.plan cat with
      | error e => rfl
      | ok a =>
        simp only [hp] at hw ⊢
        cases a with
        | read key columns forUpdate =>
          simp only [Access.waits, Bool.and_eq_false_iff] at hw ⊢
          exact hw.imp id (hl' key)
        | insert key row =>
          by_contra hc
          simp [Access.waits, hw' key (by simpa [Access.waits] using hc)] at hw
        | update key set =>
          simp only [Access.waits, Bool.and_eq_false_iff] at hw ⊢
          exact hw.imp id (hl' key)

end

end TransactionManager
