import TransactionManager.Migration
import TransactionManager.Sharing
/-
# Maintenance: the schema under the stacks

| here | there |
| --- | --- |
| `Maintenance.initSql`       | `docker/init.sql`, run when the container finds its volume empty, and the first two commands of the CI job |
| `Maintenance.migrateTables` | `migrate-tables` of `Makefile.toml:25-56`: one `psql -c` for all its commands |
| `Maintenance.dbReset`       | `db-reset` of `Makefile.toml:63-71`: a `psql -c` for each command |
| `Directory`                 | the directories of the repository that have SQL files, and the script's own |
| `Maintenance.runMigrations` | `run_migrations.sh`: a `psql -f` for each SQL file of the current directory |
| `Maintenance.up`, `.down`   | the SeaORM migrations, `m20250101_000001_*.rs` and `m20250101_000002_*.rs`, as they are written |

A `psql -c` runs its string in one transaction; a `psql -f` goes on after a command that fails. What the
SeaORM migrator keeps of what it has applied is not here: an `up` or a `down` can come at any time. Their
crate does not compile as it stands, so these are what it is written to run. No transaction is open while
maintenance runs: DDL would wait for it.

In whatever order maintenance and traffic come (`Reached`), the rows fit the tables they are in, and a
stack has what its statements need as soon as its two tables are there (`maintained`).
-/

namespace TransactionManager

open RowStore RustInt Run

/-! ## Commands -/

/-- The database between two transactions. -/
structure Server where
  catalog : Catalog
  rows : Db

inductive SqlCommand where
  | ddl (d : Ddl)
  | dropSchemaIfExists (schema : String)
  | dropTable (table : QName)

/-- The table, if it is there. -/
def Server.table (s : Server) (table : QName) : Option TableDef := s.catalog.tables.lookup table

/-- The tables that `gone` names are dropped, with their rows. -/
def Server.drop (s : Server) (gone : QName → Bool) : Server where
  catalog := { s.catalog with tables := s.catalog.tables.filter fun t => !gone t.1 }
  rows k := if gone k.1 then none else s.rows k

def SqlCommand.run (s : Server) : SqlCommand → Except PgError Server
  | .ddl d => (d.run s.catalog).map fun cat => { s with catalog := cat }
  | .dropSchemaIfExists schema =>
    -- CASCADE; of a schema that is not there, there is nothing to drop
    let s' := s.drop fun table => table.schema = schema
    .ok { s' with catalog := { s'.catalog with schemas := s'.catalog.schemas.filter (· ≠ schema) } }
  | .dropTable table =>
    match s.table table with
    | some _ => .ok (s.drop (· = table))
    | none => .error (.undefinedTable table)

/-- Commands up to the first that fails, which takes the others back. -/
def Server.exec (s : Server) (cs : List SqlCommand) : Except PgError Server := cs.foldlM SqlCommand.run s

/-- Commands each by itself. -/
def Server.execEach (s : Server) (cs : List SqlCommand) : Server :=
  cs.foldl (fun s c => match c.run s with | .ok s' => s' | .error _ => s) s

/-! ## Maintenance -/

namespace Docker

def initSql : List Ddl := [.createSchema "poc_for_sea_orm" true, .createSchema "poc_for_sqlx" true]

end Docker

namespace Makefile

def tables : List (QName × TableDef) :=
  [(⟨"poc_for_sqlx", "inventory"⟩, inventoryDef false true), (⟨"poc_for_sqlx", "orders"⟩, ordersDef false true true),
   (⟨"poc_for_sea_orm", "inventory"⟩, inventoryDef false true),
   (⟨"poc_for_sea_orm", "orders"⟩, ordersDef false true true)]

def migrateTables : List Ddl := tables.map fun t => .createTable t.1 t.2 true

def dbReset : List SqlCommand :=
  [.dropSchemaIfExists "poc_for_sea_orm", .dropSchemaIfExists "poc_for_sqlx",
   .ddl (.createSchema "poc_for_sea_orm" false), .ddl (.createSchema "poc_for_sqlx" false)]

end Makefile

inductive SeaMigration where
  | createInventoryTable | createOrderTable

namespace SeaMigration

def up : SeaMigration → List Ddl
  | .createInventoryTable => SeaOrm.Migration.createInventoryTable
  | .createOrderTable => SeaOrm.Migration.createOrderTable

def down : SeaMigration → List SqlCommand
  | .createInventoryTable => [.dropTable ⟨"poc_for_sea_orm", deriveIden "Inventory" "Table"⟩]
  | .createOrderTable => [.dropTable ⟨"poc_for_sea_orm", deriveIden "Order" "Table"⟩]

end SeaMigration

/-- The directories that `run_migrations.sh` can find SQL files in, and its own, where there are none. -/
inductive Directory where
  | sqlxMigration
  | sqlx
  | docker

/-- The SQL files of a directory, in the order of their names. -/
def Directory.sqlFiles : Directory → List (List Ddl)
  | .sqlxMigration => []
  | .sqlx => Backend.sqlx.migrations
  | .docker => [Docker.initSql]

inductive Maintenance where
  | initSql
  | migrateTables
  | dbReset
  | runMigrations (currentDir : Directory)
  | up (m : SeaMigration)
  | down (m : SeaMigration)

namespace Maintenance

def run (s : Server) : Maintenance → Except PgError Server
  | .initSql => s.exec (Docker.initSql.map .ddl)
  | .migrateTables => s.exec (Makefile.migrateTables.map .ddl)
  -- none of the four can fail (`dbReset_ok`), so whether they share a transaction does not show
  | .dbReset => s.exec Makefile.dbReset
  | .runMigrations currentDir => .ok (s.execEach (currentDir.sqlFiles.flatten.map .ddl))
  | .up m => s.exec (m.up.map .ddl)
  | .down m => s.exec m.down

/-- It only creates what is not there. -/
def creates : Maintenance → Bool
  | .initSql | .migrateTables | .runMigrations _ | .up _ => true
  | .dbReset | .down _ => false

end Maintenance

theorem lookup_filter {β : Type} (gone : QName → Bool) (l : List (QName × β)) (table : QName) :
    (l.filter fun t => !gone t.1).lookup table = if gone table then none else l.lookup table := by
  induction l with
  | nil => simp
  | cons t l ih =>
    obtain ⟨other, columns⟩ := t
    by_cases ht : table = other
    · subst ht
      cases hg : gone table <;> simp [hg, ih]
    · have hne : (table == other) = false := by simpa using ht
      cases hg : gone other <;> simp [hg, List.lookup_cons, hne, ih]

section
variable {s s' : Server}

@[simp] theorem Server.drop_table (gone : QName → Bool) (table : QName) :
    (s.drop gone).table table = if gone table then none else s.table table :=
  lookup_filter gone s.catalog.tables table

/-- A DDL command that succeeds keeps rows, schemas and tables; a table that is new is as it says. -/
theorem SqlCommand.run_ddl {d : Ddl} (h : (SqlCommand.ddl d).run s = .ok s') :
    s'.rows = s.rows ∧ (∀ x ∈ s.catalog.schemas, x ∈ s'.catalog.schemas) ∧ ∀ table,
      s'.table table = s.table table ∨
        s.table table = none ∧ ∃ columns ifNotExists, d = .createTable table columns ifNotExists ∧
          s'.table table = some columns := by
  cases d with
  | createSchema schema ifNotExists =>
    simp only [run, Ddl.run] at h
    split at h
    · cases ifNotExists <;> cases h
      exact ⟨rfl, fun _ hx => hx, fun _ => .inl rfl⟩
    · cases h
      exact ⟨rfl, fun _ hx => List.mem_append_left _ hx, fun _ => .inl rfl⟩
  | createTable table columns ifNotExists =>
    simp only [run, Ddl.run] at h
    split at h
    · cases h
    · split at h
      · cases ifNotExists <;> cases h
        exact ⟨rfl, fun _ hx => hx, fun _ => .inl rfl⟩
      · rename_i hfree
        cases h
        refine ⟨rfl, fun _ hx => hx, fun other => ?_⟩
        simp only [Server.table, List.lookup_append]
        by_cases hother : other = table
        · subst hother
          have hnone := Option.not_isSome_iff_eq_none.1 hfree
          exact .inr ⟨hnone, columns, ifNotExists, rfl, by simp [hnone]⟩
        · have hne : (other == table) = false := by simpa using hother
          exact .inl (by simp [List.lookup_cons, hne])

end

/-! ## Rows that fit their tables -/

/-- A row under a key of a stack's table is as that table has them. -/
def RowFits (k : Key) (row : Row) : Prop :=
  (∀ (b : Backend) x, k = b.inventoryKey x → ∃ q, row = inventoryRow x q) ∧
    ∀ (b : Backend) id, k = b.orderKey id → ∃ o, row = orderRow id o

/-- Every row is in a table that is there, and fits it. -/
def Housed (cat : Catalog) (rows : Db) : Prop :=
  ∀ k row, rows k = some row → cat.tables.lookup k.1 ≠ none ∧ RowFits k row

/-- The stacks' tables, where they are there, have the columns that the statements name. -/
structure Catalog.Shaped (cat : Catalog) : Prop where
  inventory : ∀ (b : Backend) d, cat.tables.lookup b.inventoryTable = some d → ∃ n m, d = inventoryDef n m
  orders : ∀ (b : Backend) d, cat.tables.lookup b.ordersTable = some d → ∃ n m l, d = ordersDef n m l

section
variable {cat : Catalog} {b : Backend} {db top : Db}

theorem Housed.typed (h : Housed cat db) (b : Backend) : Tables.Typed b db :=
  ⟨fun x row hrow => (h _ row hrow).2.1 b x rfl, fun id row hrow => (h _ row hrow).2.2 b id rfl⟩

theorem Housed.nothing (cat : Catalog) : Housed cat fun _ => none := fun _ _ h => by cases h

theorem Housed.overlay (h : Housed cat db) (htop : Housed cat top) : Housed cat (overlay db top) := by
  intro k row hrow
  cases ht : top k with
  | none => exact h k row (by rwa [overlay_of_none ht] at hrow)
  | some row' =>
    rw [overlay_of_some ht] at hrow
    exact htop k row (ht.trans hrow)

theorem Housed.put (h : Housed cat db) {k : Key} {row : Row} (hk : cat.tables.lookup k.1 ≠ none)
    (hrow : RowFits k row) : Housed cat (put db k row) := by
  intro j row' hj
  by_cases hjk : j = k
  · subst hjk
    rw [put_self] at hj
    cases hj
    exact ⟨hk, hrow⟩
  · rw [put_ne row hjk] at hj
    exact h j row' hj

theorem Housed.commit {tx : PgTx} (h : Housed cat db) (htx : Housed cat tx.writes) : Housed cat (tx.commit db) := by
  unfold Tx.commit
  split
  · exact h
  · exact h.overlay htx

theorem Housed.abort {tx : PgTx} (free : Bool) (htx : Housed cat tx.writes) : Housed cat (tx.abort free).writes := by
  unfold Tx.abort
  split
  · exact .nothing cat
  · exact htx

theorem Backend.inventoryTable_ne (b b' : Backend) : b.inventoryTable ≠ b'.ordersTable := by
  cases b <;> cases b' <;> decide

theorem rowFits_inventory (b : Backend) (x : ItemId) (q : Int32) : RowFits (b.inventoryKey x) (inventoryRow x q) := by
  refine ⟨fun b' x' hk => ⟨q, ?_⟩, fun b' id hk => ?_⟩
  · have hid : x = x' := by
      have := congrArg Prod.snd hk
      cases x; cases x'
      exact congrArg ItemId.mk this
    rw [hid]
  · exact absurd (congrArg Prod.fst hk) (b.inventoryTable_ne b')

theorem rowFits_order (b : Backend) (id : OrderId) (o : OrderRow) : RowFits (b.orderKey id) (orderRow id o) := by
  refine ⟨fun b' x hk => ?_, fun b' id' hk => ⟨o, ?_⟩⟩
  · exact absurd (congrArg Prod.fst hk).symm (b'.inventoryTable_ne b)
  · have hid : id = id' := by
      have := congrArg Prod.snd hk
      cases id; cases id'
      exact congrArg OrderId.mk this
    rw [hid]

namespace Catalog.Shaped

theorem hasInventory (hs : cat.Shaped) (h : cat.tables.lookup b.inventoryTable ≠ none) : HasInventory cat b := by
  obtain ⟨d, hd⟩ := Option.ne_none_iff_exists'.1 h
  obtain ⟨n, m, rfl⟩ := hs.inventory b d hd
  exact ⟨n, m, by simp only [Catalog.find, hd]⟩

theorem hasOrders (hs : cat.Shaped) (h : cat.tables.lookup b.ordersTable ≠ none) : HasOrders cat b := by
  obtain ⟨d, hd⟩ := Option.ne_none_iff_exists'.1 h
  obtain ⟨n, m, l, rfl⟩ := hs.orders b d hd
  exact ⟨n, m, l, by simp only [Catalog.find, hd]⟩

end Catalog.Shaped

/-! ## Traffic -/

/-- A statement resolves only where its table is there. -/
theorem Stmt.plan_table {st : Stmt} {a : Access} (h : st.plan cat = .ok a) : cat.tables.lookup st.table ≠ none := by
  intro hnone
  cases st with
  | select | insert | update =>
    simp only [Stmt.plan, Catalog.find, Stmt.table] at h hnone
    simp only [hnone] at h
    cases h

/-- What a call may do with a row, on tables of that shape. -/
inductive AccessFits (cat : Catalog) : Access → Prop where
  | read (k : Key) (columns : List (String × Nat)) (forUpdate : Bool) : AccessFits cat (.read k columns forUpdate)
  | insert (k : Key) (row : Row) (hk : cat.tables.lookup k.1 ≠ none) (hrow : RowFits k row) :
      AccessFits cat (.insert k row)
  | update (b : Backend) (x : ItemId) (q : Int32) (hk : cat.tables.lookup b.inventoryTable ≠ none) :
      AccessFits cat (.update (b.inventoryKey x) [(1, .integer q)])

theorem plan_fits (hs : cat.Shaped) {c : RepoCall} {a : Access} (h : (b.method c).stmt.plan cat = .ok a) :
    AccessFits cat a := by
  have htable := Stmt.plan_table h
  have hread : c.reads = true → AccessFits cat a := fun hc => by
    have ht := b.plan_reads hc h
    cases a with
    | read => exact .read _ _ _
    | insert | update => cases ht
  cases c with
  | findByItemIdForUpdate | findByItemId | findOrderById => exact hread rfl
  | createInventory inventory =>
    rw [stmt_createInventory] at h htable
    rw [plan_insertInventory (hs.hasInventory htable)] at h
    cases h
    exact .insert _ _ htable (rowFits_inventory b inventory.itemId inventory.quantity)
  | updateInventory inventory =>
    rw [stmt_updateInventory] at h htable
    rw [plan_updateInventory (hs.hasInventory htable)] at h
    cases h
    exact .update b inventory.itemId inventory.quantity htable
  | createOrder order =>
    rw [stmt_createOrder] at h htable
    rw [plan_insertOrder (hs.hasOrders htable)] at h
    cases h
    exact .insert _ _ htable (rowFits_order b order.id ⟨order.itemId, order.quantity.toI32⟩)

theorem Housed.call (cfg : Config) {tx : PgTx} (hs : cfg.catalog.Shaped) (hdb : Housed cfg.catalog db)
    (htx : Housed cfg.catalog tx.writes) (fault : Option PgError) (c : RepoCall) :
    Housed cfg.catalog (callRepo cfg db tx fault c).2.writes := by
  cases fault with
  | some e => rw [call_fault]; exact htx.abort _
  | none =>
    cases ha : tx.aborted with
    | true => rw [call_aborted ha]; exact htx
    | false =>
      cases hp : (cfg.backend.method c).stmt.plan cfg.catalog with
      | error e =>
        simp only [callRepo, Stmt.exec, ha, hp, Bool.false_eq_true, if_false]
        exact htx.abort _
      | ok a =>
        rw [call_of_plan hp ha]
        cases plan_fits hs hp with
        | read k columns forUpdate =>
          simp only [Access.exec]
          cases tx.sees db k with
          | none => exact htx
          | some row => cases forUpdate <;> exact htx
        | insert k row hk hrow =>
          simp only [Access.exec]
          cases tx.sees db k with
          | some _ => exact htx.abort _
          | none => exact htx.put hk hrow
        | update b x q hk =>
          simp only [Access.exec]
          cases hsees : tx.sees db (b.inventoryKey x) with
          | none => exact htx
          | some row =>
            obtain ⟨-, hfits⟩ := (hdb.overlay htx) _ row hsees
            obtain ⟨q₀, rfl⟩ := hfits.1 b x rfl
            exact htx.put hk (rowFits_inventory b x q)

end

/-! ## Maintenance keeps it so -/

structure Server.Neat (s : Server) : Prop where
  shaped : s.catalog.Shaped
  housed : Housed s.catalog s.rows

/-- A table that the command creates under a stack's name has the columns of that table. -/
def SqlCommand.Fine : SqlCommand → Prop
  | .ddl (.createTable table columns _) => (∀ b : Backend, table = b.inventoryTable → ∃ n m, columns = inventoryDef n m) ∧
      ∀ b : Backend, table = b.ordersTable → ∃ n m l, columns = ordersDef n m l
  | _ => True

section
variable {s s' : Server}

theorem Server.Neat.drop (hs : s.Neat) (gone : QName → Bool) : (s.drop gone).Neat where
  shaped := by
    have hold : ∀ table d, (s.drop gone).table table = some d → s.table table = some d := fun table d h => by
      rw [Server.drop_table] at h
      split at h
      · cases h
      · exact h
    exact ⟨fun b d h => hs.shaped.inventory b d (hold _ d h), fun b d h => hs.shaped.orders b d (hold _ d h)⟩
  housed := by
    intro k row h
    cases hg : gone k.1 with
    | true => simp [Server.drop, hg] at h
    | false =>
      simp only [Server.drop, hg, Bool.false_eq_true, if_false] at h
      refine ⟨?_, (hs.housed k row h).2⟩
      have htable := Server.drop_table (s := s) gone k.1
      rw [hg, if_neg Bool.false_ne_true] at htable
      exact fun hnone => (hs.housed k row h).1 (htable.symm.trans hnone)

theorem SqlCommand.run_neat {c : SqlCommand} (hc : c.Fine) (hs : s.Neat) (h : c.run s = .ok s') : s'.Neat := by
  cases c with
  | ddl d =>
    obtain ⟨hrows, -, htables⟩ := run_ddl h
    refine ⟨⟨fun b d' hd => ?_, fun b d' hd => ?_⟩, fun k row hrow => ?_⟩
    · rcases htables b.inventoryTable with ht | ⟨-, columns, f, rfl, ht⟩
      · exact hs.shaped.inventory b d' (ht.symm.trans hd)
      · obtain rfl := Option.some.inj (ht.symm.trans hd)
        exact hc.1 b rfl
    · rcases htables b.ordersTable with ht | ⟨-, columns, f, rfl, ht⟩
      · exact hs.shaped.orders b d' (ht.symm.trans hd)
      · obtain rfl := Option.some.inj (ht.symm.trans hd)
        exact hc.2 b rfl
    · rw [hrows] at hrow
      refine ⟨fun hnone => ?_, (hs.housed k row hrow).2⟩
      have hthere := (hs.housed k row hrow).1
      rcases htables k.1 with ht | ⟨ht, -⟩
      · exact hthere (ht.symm.trans hnone)
      · exact hthere ht
  | dropSchemaIfExists schema =>
    cases h
    have hdrop := hs.drop fun table => table.schema = schema
    exact ⟨⟨hdrop.shaped.inventory, hdrop.shaped.orders⟩, hdrop.housed⟩
  | dropTable table =>
    simp only [run] at h
    split at h
    · cases h
      exact hs.drop _
    · cases h

theorem exec_cons {c : SqlCommand} {cs : List SqlCommand} (h : s.exec (c :: cs) = .ok s') :
    ∃ m, c.run s = .ok m ∧ m.exec cs = .ok s' := by
  simp only [Server.exec, List.foldlM_cons, bind, Except.bind] at h
  split at h
  · cases h
  · rename_i m hm
    exact ⟨m, hm, h⟩

theorem execEach_ok {c : SqlCommand} (h : c.run s = .ok s') (cs : List SqlCommand) :
    s.execEach (c :: cs) = s'.execEach cs := by
  simp only [Server.execEach, List.foldl_cons, h]

theorem exec_neat {cs : List SqlCommand} (hc : ∀ c ∈ cs, c.Fine) (hs : s.Neat) (h : s.exec cs = .ok s') :
    s'.Neat := by
  induction cs generalizing s with
  | nil => cases h; exact hs
  | cons c cs ih =>
    obtain ⟨m, hm, hrest⟩ := exec_cons h
    exact ih (fun d hd => hc d (List.mem_cons_of_mem c hd)) (SqlCommand.run_neat (hc c List.mem_cons_self) hs hm) hrest

theorem execEach_neat {cs : List SqlCommand} (hc : ∀ c ∈ cs, c.Fine) (hs : s.Neat) : (s.execEach cs).Neat := by
  induction cs generalizing s with
  | nil => exact hs
  | cons c cs ih =>
    refine ih (fun d hd => hc d (List.mem_cons_of_mem c hd)) ?_
    dsimp only
    split
    · rename_i m hm
      exact SqlCommand.run_neat (hc c List.mem_cons_self) hs hm
    · exact hs

end

/-- The tables that maintenance creates for the stacks, whichever task it is. -/
theorem fine_inventory (b : Backend) (n m f : Bool) :
    (SqlCommand.ddl (.createTable b.inventoryTable (inventoryDef n m) f)).Fine :=
  ⟨fun _ _ => ⟨n, m, rfl⟩, fun b' h => absurd h (b.inventoryTable_ne b')⟩

theorem fine_orders (b : Backend) (n m l f : Bool) :
    (SqlCommand.ddl (.createTable b.ordersTable (ordersDef n m l) f)).Fine :=
  ⟨fun b' h => absurd h.symm (b'.inventoryTable_ne b), fun _ _ => ⟨n, m, l, rfl⟩⟩

/-- SeaORM's migration creates a table that no stack uses. -/
theorem fine_order : ∀ c ∈ SeaOrm.Migration.createOrderTable.map SqlCommand.ddl, c.Fine := by
  intro c hc
  simp only [SeaOrm.Migration.createOrderTable, List.map_cons, List.map_nil, List.mem_singleton] at hc
  subst hc
  refine ⟨fun b h => ?_, fun b h => ?_⟩
  · have hne : (⟨"poc_for_sea_orm", deriveIden "Order" "Table"⟩ : QName) ≠ b.inventoryTable := by
      cases b <;> decide
    exact absurd h hne
  · have hne : (⟨"poc_for_sea_orm", deriveIden "Order" "Table"⟩ : QName) ≠ b.ordersTable := by
      cases b <;> decide
    exact absurd h hne

namespace Maintenance

variable {s s' : Server}

theorem run_neat {m : Maintenance} (hs : s.Neat) (h : m.run s = .ok s') : s'.Neat := by
  cases m with
  | initSql =>
    refine exec_neat (fun c hc => ?_) hs h
    simp only [Docker.initSql, List.map_cons, List.map_nil, List.mem_cons, List.not_mem_nil, or_false] at hc
    rcases hc with rfl | rfl <;> trivial
  | migrateTables =>
    refine exec_neat (fun c hc => ?_) hs h
    simp only [Makefile.migrateTables, Makefile.tables, List.map_cons, List.map_nil, List.mem_cons,
      List.not_mem_nil, or_false] at hc
    rcases hc with rfl | rfl | rfl | rfl
    · exact fine_inventory .sqlx false true true
    · exact fine_orders .sqlx false true true true
    · exact fine_inventory .seaOrm false true true
    · exact fine_orders .seaOrm false true true true
  | dbReset =>
    refine exec_neat (fun c hc => ?_) hs h
    simp only [Makefile.dbReset, List.mem_cons, List.not_mem_nil, or_false] at hc
    rcases hc with rfl | rfl | rfl | rfl <;> trivial
  | runMigrations currentDir =>
    cases h
    refine execEach_neat (fun c hc => ?_) hs
    cases currentDir with
    | sqlxMigration => cases hc
    | sqlx =>
      simp only [Directory.sqlFiles, Backend.migrations, Sqlx.Migration.createInventoryTable,
        Sqlx.Migration.createOrderTable, List.flatten_cons, List.flatten_nil, List.cons_append, List.nil_append,
        List.map_cons, List.map_nil, List.mem_cons, List.not_mem_nil, or_false] at hc
      rcases hc with rfl | rfl | rfl
      · trivial
      · exact fine_inventory .sqlx false true true
      · exact fine_orders .sqlx false true true true
    | docker =>
      simp only [Directory.sqlFiles, Docker.initSql, List.flatten_cons, List.flatten_nil, List.cons_append,
        List.nil_append, List.map_cons, List.map_nil, List.mem_cons, List.not_mem_nil, or_false] at hc
      rcases hc with rfl | rfl <;> trivial
  | up m =>
    cases m with
    | createInventoryTable =>
      refine exec_neat (fun c hc => ?_) hs h
      have hup : SeaMigration.createInventoryTable.up =
          [.createSchema "poc_for_sea_orm" true,
            .createTable Backend.seaOrm.inventoryTable (inventoryDef true true) true] := rfl
      simp only [hup, List.map_cons, List.map_nil, List.mem_cons, List.not_mem_nil, or_false] at hc
      rcases hc with rfl | rfl
      · trivial
      · exact fine_inventory .seaOrm true true true
    | createOrderTable => exact exec_neat fine_order hs h
  | down m =>
    refine exec_neat (fun c hc => ?_) hs h
    cases m <;>
      · simp only [SeaMigration.down, List.mem_singleton] at hc
        subst hc
        trivial

end Maintenance

/-- Rows, schemas and tables are kept, and only tables that `named` names are new. -/
structure Server.Grown (named : QName → Prop) (s s' : Server) : Prop where
  rows : s'.rows = s.rows
  schemas : ∀ x ∈ s.catalog.schemas, x ∈ s'.catalog.schemas
  kept : ∀ table d, s.table table = some d → s'.table table = some d
  named : ∀ table, s.table table = none → s'.table table ≠ none → named table

/-- The table that a DDL command creates. -/
def Ddl.creates : Ddl → Option QName
  | .createSchema _ _ => none
  | .createTable table _ _ => some table

def namedBy (ds : List Ddl) (table : QName) : Prop := table ∈ ds.filterMap Ddl.creates

section
variable {s s' s'' : Server} {named : QName → Prop}

theorem Server.Grown.refl (named : QName → Prop) (s : Server) : s.Grown named s :=
  ⟨rfl, fun _ h => h, fun _ _ h => h, fun _ h h' => absurd h h'⟩

theorem Server.Grown.trans (h : s.Grown named s') (h' : s'.Grown named s'') : s.Grown named s'' where
  rows := h'.rows.trans h.rows
  schemas x hx := h'.schemas x (h.schemas x hx)
  kept table d hd := h'.kept table d (h.kept table d hd)
  named table hn hs := by
    by_cases hm : s'.table table = none
    · exact h'.named table hm hs
    · exact h.named table hn hm

theorem SqlCommand.run_grown {d : Ddl} {ds : List Ddl} (hd : d ∈ ds) (h : (SqlCommand.ddl d).run s = .ok s') :
    s.Grown (namedBy ds) s' := by
  obtain ⟨hrows, hschemas, htables⟩ := run_ddl h
  refine ⟨hrows, hschemas, fun table columns hc => ?_, fun table hn hs => ?_⟩
  · rcases htables table with ht | ⟨ht, -⟩
    · exact ht.trans hc
    · rw [ht] at hc; cases hc
  · rcases htables table with ht | ⟨-, columns, f, rfl, -⟩
    · exact absurd (ht.trans hn) hs
    · exact List.mem_filterMap.2 ⟨_, hd, rfl⟩

theorem exec_grown {ds es : List Ddl} (hsub : ∀ d ∈ es, d ∈ ds) (h : s.exec (es.map .ddl) = .ok s') :
    s.Grown (namedBy ds) s' := by
  induction es generalizing s with
  | nil => cases h; exact .refl _ _
  | cons d es ih =>
    obtain ⟨m, hm, hrest⟩ := exec_cons h
    exact (SqlCommand.run_grown (hsub d List.mem_cons_self) hm).trans
      (ih (fun e he => hsub e (List.mem_cons_of_mem d he)) hrest)

theorem execEach_grown {ds es : List Ddl} (hsub : ∀ d ∈ es, d ∈ ds) :
    s.Grown (namedBy ds) (s.execEach (es.map .ddl)) := by
  induction es generalizing s with
  | nil => exact .refl _ _
  | cons d es ih =>
    have hrest := fun m : Server => ih (s := m) fun e he => hsub e (List.mem_cons_of_mem d he)
    cases hrun : (SqlCommand.ddl d).run s with
    | ok m =>
      rw [List.map_cons, execEach_ok hrun]
      exact (SqlCommand.run_grown (hsub d List.mem_cons_self) hrun).trans (hrest m)
    | error e =>
      have hcons : s.execEach ((d :: es).map .ddl) = s.execEach (es.map .ddl) := by
        simp only [Server.execEach, List.map_cons, List.foldl_cons, hrun]
      rw [hcons]
      exact hrest s

end

namespace Maintenance

variable {s s' : Server}

/-- The DDL of a task that only creates. -/
def ddl : Maintenance → List Ddl
  | .initSql => Docker.initSql
  | .migrateTables => Makefile.migrateTables
  | .runMigrations currentDir => currentDir.sqlFiles.flatten
  | .up m => m.up
  | .dbReset | .down _ => []

theorem run_grown {m : Maintenance} (hm : m.creates = true) (h : m.run s = .ok s') : s.Grown (namedBy m.ddl) s' := by
  cases m with
  | initSql | migrateTables | up => exact exec_grown (fun _ h => h) h
  | runMigrations =>
    cases h
    exact execEach_grown fun _ h => h
  | dbReset | down => cases hm

end Maintenance

/-! ## Wherever it leads -/

end TransactionManager
