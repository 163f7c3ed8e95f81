import TransactionManager.Transaction
/-
# The two tables as typed maps, and what each repository call does to them

`Tables` is what the rows mean: a stock per item and an item with a quantity per order.
`Tables.store` is how a stack keeps them in its own schema, `Deployed` says that the schema
has the two tables, and the `call_*` lemmas are the repositories' specifications: the reply
and the transaction after a call, from the row the transaction sees under the call's key.
-/

namespace TransactionManager

open RowStore

structure OrderRow where
  itemId : ItemId
  quantity : Int32
deriving DecidableEq

/-- A database as one stack sees it; `elsewhere` are the rows of every other table. -/
structure Tables where
  inventory : ItemId → Option Int32
  orders : OrderId → Option OrderRow
  elsewhere : Db

def inventoryRow (itemId : ItemId) (quantity : Int32) : Row := [.uuid itemId.uuid, .integer quantity]

def orderRow (id : OrderId) (o : OrderRow) : Row := [.uuid id.uuid, .uuid o.itemId.uuid, .integer o.quantity]

namespace Backend

def inventoryKey (b : Backend) (itemId : ItemId) : Key := (b.inventoryTable, itemId.uuid)

def orderKey (b : Backend) (id : OrderId) : Key := (b.ordersTable, id.uuid)

theorem inventoryKey_inj {b : Backend} {x y : ItemId} : b.inventoryKey x = b.inventoryKey y ↔ x = y := by
  cases x; cases y; simp [inventoryKey]

theorem orderKey_inj {b : Backend} {x y : OrderId} : b.orderKey x = b.orderKey y ↔ x = y := by
  cases x; cases y; simp [orderKey]

theorem inventoryKey_ne_orderKey (b : Backend) (x : ItemId) (y : OrderId) : b.inventoryKey x ≠ b.orderKey y :=
  fun h => b.tables_ne (congrArg Prod.fst h)

end Backend

/-! ## Tables in a store -/

namespace Tables

def store (b : Backend) (t : Tables) : Db := fun k =>
  if k.1 = b.inventoryTable then (t.inventory ⟨k.2⟩).map (inventoryRow ⟨k.2⟩)
  else if k.1 = b.ordersTable then (t.orders ⟨k.2⟩).map (orderRow ⟨k.2⟩)
  else t.elsewhere k

/-- No rows at all. -/
def empty : Tables := ⟨fun _ => none, fun _ => none, fun _ => none⟩

def setStock (t : Tables) (itemId : ItemId) (quantity : Int32) : Tables :=
  { t with inventory := Function.update t.inventory itemId (some quantity) }

def addOrder (t : Tables) (id : OrderId) (o : OrderRow) : Tables :=
  { t with orders := Function.update t.orders id (some o) }

variable (b : Backend) (t : Tables)

@[simp] theorem store_empty : empty.store b = fun _ => none := by
  funext k
  simp [store, empty]

@[simp] theorem store_inventoryKey (itemId : ItemId) :
    t.store b (b.inventoryKey itemId) = (t.inventory itemId).map (inventoryRow itemId) := by
  simp [store, Backend.inventoryKey]

@[simp] theorem store_orderKey (id : OrderId) :
    t.store b (b.orderKey id) = (t.orders id).map (orderRow id) := by
  simp [store, Backend.orderKey, Ne.symm b.tables_ne]

@[simp] theorem setStock_orders (itemId : ItemId) (q : Int32) : (t.setStock itemId q).orders = t.orders := rfl
@[simp] theorem addOrder_inventory (id : OrderId) (o : OrderRow) : (t.addOrder id o).inventory = t.inventory := rfl
@[simp] theorem setStock_elsewhere (itemId : ItemId) (q : Int32) :
    (t.setStock itemId q).elsewhere = t.elsewhere := rfl
@[simp] theorem addOrder_elsewhere (id : OrderId) (o : OrderRow) : (t.addOrder id o).elsewhere = t.elsewhere := rfl
@[simp] theorem setStock_self (itemId : ItemId) (q : Int32) :
    (t.setStock itemId q).inventory itemId = some q := by simp [setStock]
@[simp] theorem addOrder_self (id : OrderId) (o : OrderRow) : (t.addOrder id o).orders id = some o := by
  simp [addOrder]
theorem setStock_ne {x y : ItemId} (q : Int32) (h : y ≠ x) : (t.setStock x q).inventory y = t.inventory y := by
  simp [setStock, Function.update_of_ne h]
theorem addOrder_ne {x y : OrderId} (o : OrderRow) (h : y ≠ x) : (t.addOrder x o).orders y = t.orders y := by
  simp [addOrder, Function.update_of_ne h]

/-- A write to an inventory row is a write to the stock. -/
theorem put_inventory (itemId : ItemId) (q : Int32) :
    put (t.store b) (b.inventoryKey itemId) (inventoryRow itemId q) = (t.setStock itemId q).store b := by
  funext k
  by_cases hk : k = b.inventoryKey itemId
  · subst hk; simp
  · rw [put_ne _ hk]
    by_cases h1 : k.1 = b.inventoryTable
    · have hne : (⟨k.2⟩ : ItemId) ≠ itemId := by
        rintro rfl
        exact hk (Prod.ext h1 rfl)
      simp [store, h1, setStock_ne t q hne]
    · simp [store, h1]

theorem put_order (id : OrderId) (o : OrderRow) :
    put (t.store b) (b.orderKey id) (orderRow id o) = (t.addOrder id o).store b := by
  funext k
  by_cases hk : k = b.orderKey id
  · subst hk; simp
  · rw [put_ne _ hk]
    by_cases h1 : k.1 = b.inventoryTable
    · simp [store, h1]
    · by_cases h2 : k.1 = b.ordersTable
      · have hne : (⟨k.2⟩ : OrderId) ≠ id := by
          rintro rfl
          exact hk (Prod.ext h2 rfl)
        simp [store, h2, Ne.symm b.tables_ne, addOrder_ne t o hne]
      · simp [store, h1, h2]

/-- Equal inventory rows are equal stocks. -/
theorem inventory_of_store {b b' : Backend} {t t' : Tables} {x : ItemId}
    (h : t.store b (b.inventoryKey x) = t'.store b' (b'.inventoryKey x)) : t.inventory x = t'.inventory x := by
  rw [store_inventoryKey, store_inventoryKey] at h
  refine Option.map_injective (fun q q' hq => ?_) h
  simpa [inventoryRow] using hq

theorem orders_of_store {b b' : Backend} {t t' : Tables} {id : OrderId}
    (h : t.store b (b.orderKey id) = t'.store b' (b'.orderKey id)) : t.orders id = t'.orders id := by
  rw [store_orderKey, store_orderKey] at h
  refine Option.map_injective (fun o o' ho => ?_) h
  obtain ⟨⟨u⟩, q⟩ := o
  obtain ⟨⟨u'⟩, q'⟩ := o'
  simpa [orderRow] using ho

/-- The columns of the two tables are typed: every row in them is one of these. -/
def Typed (b : Backend) (db : Db) : Prop :=
  (∀ x row, db (b.inventoryKey x) = some row → ∃ q, row = inventoryRow x q) ∧
    ∀ id row, db (b.orderKey id) = some row → ∃ o, row = orderRow id o

theorem typed_none (b : Backend) : Typed b fun _ => none := by
  constructor
  all_goals
    intro _ _ h
    cases h

theorem typed_store (b : Backend) (t : Tables) : Typed b (t.store b) := by
  constructor
  · intro x row h
    rw [store_inventoryKey] at h
    obtain ⟨q, -, rfl⟩ := Option.map_eq_some_iff.1 h
    exact ⟨q, rfl⟩
  · intro id row h
    rw [store_orderKey] at h
    obtain ⟨o, -, rfl⟩ := Option.map_eq_some_iff.1 h
    exact ⟨o, rfl⟩

/-- Every database with typed rows is the store of some tables. -/
theorem exists_store {b : Backend} {db : Db} (h : Typed b db) : ∃ t : Tables, t.store b = db := by
  have hi : ∀ x, ∃ q : Option Int32, q.map (inventoryRow x) = db (b.inventoryKey x) := by
    intro x
    cases hx : db (b.inventoryKey x) with
    | none => exact ⟨none, rfl⟩
    | some row =>
      obtain ⟨q, rfl⟩ := h.1 x row hx
      exact ⟨some q, rfl⟩
  have ho : ∀ id, ∃ o : Option OrderRow, o.map (orderRow id) = db (b.orderKey id) := by
    intro id
    cases hx : db (b.orderKey id) with
    | none => exact ⟨none, rfl⟩
    | some row =>
      obtain ⟨o, rfl⟩ := h.2 id row hx
      exact ⟨some o, rfl⟩
  obtain ⟨inventory, hi⟩ := Classical.skolem.1 hi
  obtain ⟨orders, ho⟩ := Classical.skolem.1 ho
  refine ⟨⟨inventory, orders, db⟩, ?_⟩
  funext ⟨table, u⟩
  by_cases h1 : table = b.inventoryTable
  · subst h1
    simpa [store, Backend.inventoryKey] using hi ⟨u⟩
  · by_cases h2 : table = b.ordersTable
    · subst h2
      simpa [store, Backend.orderKey, Ne.symm b.tables_ne] using ho ⟨u⟩
    · simp [store, h1, h2]

end Tables

/-! ## The schema -/

/-- The columns of `inventory`; the two flags are what the declaration says of NOT NULL. -/
def inventoryDef (n m : Bool) : TableDef := [⟨"item_id", .uuid, n, true⟩, ⟨"quantity", .integer, m, false⟩]

def ordersDef (n m l : Bool) : TableDef :=
  [⟨"id", .uuid, n, true⟩, ⟨"item_id", .uuid, m, false⟩, ⟨"quantity", .integer, l, false⟩]

def HasInventory (cat : Catalog) (b : Backend) : Prop :=
  ∃ n m, cat.find b.inventoryTable = .ok (inventoryDef n m)

def HasOrders (cat : Catalog) (b : Backend) : Prop :=
  ∃ n m l, cat.find b.ordersTable = .ok (ordersDef n m l)

/-- The catalog has the two tables of the stack. -/
structure Deployed (cat : Catalog) (b : Backend) : Prop where
  inventory : HasInventory cat b
  orders : HasOrders cat b

namespace Makefile

/-- `db-setup` of `Makefile.toml`: `db-reset` creates the schemas, `migrate-tables` the tables. -/
def dbSetup : List Ddl :=
  [.createSchema "poc_for_sea_orm" false, .createSchema "poc_for_sqlx" false,
   .createTable ⟨"poc_for_sqlx", "inventory"⟩ (inventoryDef false true) true,
   .createTable ⟨"poc_for_sqlx", "orders"⟩ (ordersDef false true true) true,
   .createTable ⟨"poc_for_sea_orm", "inventory"⟩ (inventoryDef false true) true,
   .createTable ⟨"poc_for_sea_orm", "orders"⟩ (ordersDef false true true) true]

def catalog : Catalog := ((Catalog.empty.runAll dbSetup).toOption).getD .empty

/-- A stack on the database of `db-setup`, built with overflow checks. -/
def config (b : Backend) : Config := ⟨b, catalog, true, .dev⟩

theorem deployed (b : Backend) : Deployed (config b).catalog (config b).backend where
  inventory := ⟨false, true, by cases b <;> rfl⟩
  orders := ⟨false, true, true, by cases b <;> rfl⟩

end Makefile

/-! ## The statements of the repositories -/

section
variable (b : Backend)

theorem stmt_findByItemIdForUpdate (itemId : ItemId) : (b.method (.findByItemIdForUpdate itemId)).stmt =
    .select b.inventoryTable ["item_id", "quantity"] "item_id" itemId.uuid true := by cases b <;> rfl

theorem stmt_findByItemId (itemId : ItemId) : (b.method (.findByItemId itemId)).stmt =
    .select b.inventoryTable ["item_id", "quantity"] "item_id" itemId.uuid false := by cases b <;> rfl

theorem stmt_createInventory (inventory : Inventory) : (b.method (.createInventory inventory)).stmt =
    .insert b.inventoryTable
      [("item_id", .uuid inventory.itemId.uuid), ("quantity", .integer inventory.quantity)] := by
  cases b <;> rfl

theorem stmt_updateInventory (inventory : Inventory) : (b.method (.updateInventory inventory)).stmt =
    .update b.inventoryTable [("quantity", .integer inventory.quantity)] "item_id" inventory.itemId.uuid := by
  cases b <;> rfl

theorem stmt_findOrderById (id : OrderId) : (b.method (.findOrderById id)).stmt =
    .select b.ordersTable ["id", "item_id", "quantity"] "id" id.uuid false := by cases b <;> rfl

theorem stmt_createOrder (order : Order) : (b.method (.createOrder order)).stmt =
    .insert b.ordersTable [("id", .uuid order.id.uuid), ("item_id", .uuid order.itemId.uuid),
      ("quantity", .integer order.quantity.toI32)] := by cases b <;> rfl

variable {b} {cat : Catalog}

theorem plan_selectInventory (h : HasInventory cat b) (u : Uuid) (forUpdate : Bool) :
    (Stmt.select b.inventoryTable ["item_id", "quantity"] "item_id" u forUpdate).plan cat =
      .ok (.read (b.inventoryTable, u) [("item_id", 0), ("quantity", 1)] forUpdate) := by
  obtain ⟨n, m, h⟩ := h
  simp only [Stmt.plan, h]
  rfl

theorem plan_insertInventory (h : HasInventory cat b) (u : Uuid) (q : Int32) :
    (Stmt.insert b.inventoryTable [("item_id", .uuid u), ("quantity", .integer q)]).plan cat =
      .ok (.insert (b.inventoryTable, u) [.uuid u, .integer q]) := by
  obtain ⟨n, m, h⟩ := h
  simp only [Stmt.plan, h]
  rfl

theorem plan_updateInventory (h : HasInventory cat b) (u : Uuid) (q : Int32) :
    (Stmt.update b.inventoryTable [("quantity", .integer q)] "item_id" u).plan cat =
      .ok (.update (b.inventoryTable, u) [(1, .integer q)]) := by
  obtain ⟨n, m, h⟩ := h
  simp only [Stmt.plan, h]
  rfl

theorem plan_selectOrder (h : HasOrders cat b) (u : Uuid) :
    (Stmt.select b.ordersTable ["id", "item_id", "quantity"] "id" u false).plan cat =
      .ok (.read (b.ordersTable, u) [("id", 0), ("item_id", 1), ("quantity", 2)] false) := by
  obtain ⟨n, m, l, h⟩ := h
  simp only [Stmt.plan, h]
  rfl

theorem plan_insertOrder (h : HasOrders cat b) (u v : Uuid) (q : Int32) :
    (Stmt.insert b.ordersTable [("id", .uuid u), ("item_id", .uuid v), ("quantity", .integer q)]).plan cat =
      .ok (.insert (b.ordersTable, u) [.uuid u, .uuid v, .integer q]) := by
  obtain ⟨n, m, l, h⟩ := h
  simp only [Stmt.plan, h]
  rfl

end

theorem Stmt.exec_of_plan {cat : Catalog} {st : Stmt} {a : Access} {tx : PgTx} (hp : st.plan cat = .ok a)
    (ha : tx.aborted = false) (free : Bool) (db : Db) : st.exec cat free db tx none = a.exec free db tx := by
  simp [Stmt.exec, ha, hp]

/-! ## The repositories' replies -/

/-- What a finder makes of an inventory row. -/
def foundInventory (itemId : ItemId) (quantity : Int32) : Except Error (Option Inventory) := do
  let inventory ← (Inventory.new itemId quantity).mapError .inventory
  return some inventory

/-- What `find_by_id` makes of an order row. -/
def foundOrder (id : OrderId) (o : OrderRow) : Except Error (Option Order) := do
  let quantity ← (OrderQuantity.tryFrom o.quantity).mapError .orderQuantity
  return some ⟨id, o.itemId, quantity⟩

/-- The answer of `update` when no row matched: the backends differ here, and only here. -/
def Backend.missedUpdate : Backend → Inventory → Except Error Inventory
  | .sqlx, inventory => .ok inventory
  | .seaOrm, _ => .error (.seaOrm .recordNotUpdated)

theorem foundInventory_of_nonneg {itemId : ItemId} {q : Int32} (h : 0 ≤ q.toInt) :
    foundInventory itemId q = .ok (some ⟨itemId, q⟩) := by
  simp only [foundInventory, Inventory.new_of_nonneg h]
  rfl

theorem foundInventory_of_neg {itemId : ItemId} {q : Int32} (h : q.toInt < 0) :
    foundInventory itemId q = .error (.inventory (.negativeQuantity q)) := by
  simp only [foundInventory, Inventory.new_of_neg h]
  rfl

theorem decode_error (b : Backend) (c : RepoCall) (e : PgError) :
    (b.method c).decode (.error e) = .error (b.driverError e) := by
  cases b <;> cases c <;> rfl

section
variable {cfg : Config} {db : Db} {tx : PgTx}

/-- A call whose statement is made to fail. -/
theorem call_fault (e : PgError) (c : RepoCall) :
    callRepo cfg db tx (some e) c = (.error (cfg.backend.driverError e), tx.abort cfg.freeOnAbort) := by
  simp [callRepo, Stmt.exec, decode_error]

/-- A call on an aborted transaction. -/
theorem call_aborted (ha : tx.aborted = true) (c : RepoCall) :
    callRepo cfg db tx none c = (.error (cfg.backend.driverError .inFailedSqlTransaction), tx) := by
  simp [callRepo, Stmt.exec, decode_error, ha]

/-- A call whose statement resolves. -/
theorem call_of_plan {c : RepoCall} {a : Access} (hp : (cfg.backend.method c).stmt.plan cfg.catalog = .ok a)
    (ha : tx.aborted = false) : callRepo cfg db tx none c =
      ((cfg.backend.method c).decode (a.exec cfg.freeOnAbort db tx).1, (a.exec cfg.freeOnAbort db tx).2) := by
  simp only [callRepo, Stmt.exec_of_plan hp ha]

/-- A call waits as its access does, unless its statement is made to fail. -/
theorem callWaits_of_plan {o : Others} {c : RepoCall} {a : Access} (fault : Option PgError)
    (hp : (cfg.backend.method c).stmt.plan cfg.catalog = .ok a) (ha : tx.aborted = false) :
    callWaits cfg o db tx fault c = (fault.isNone && a.waits o db tx) := by
  cases fault with
  | some e => rfl
  | none => simp [callWaits, Stmt.waits, ha, hp]

variable (hi : HasInventory cfg.catalog cfg.backend) (ha : tx.aborted = false)
include hi ha

theorem call_findForUpdate_none {itemId : ItemId} (h : tx.sees db (cfg.backend.inventoryKey itemId) = none) :
    callRepo cfg db tx none (.findByItemIdForUpdate itemId) = (.ok none, tx) := by
  rw [call_of_plan (by rw [stmt_findByItemIdForUpdate]; exact plan_selectInventory hi _ _) ha]
  simp only [Access.exec, show tx.sees db (cfg.backend.inventoryTable, itemId.uuid) = none from h]
  cases cfg.backend <;> rfl

theorem call_findForUpdate_some {itemId : ItemId} {q : Int32}
    (h : tx.sees db (cfg.backend.inventoryKey itemId) = some (inventoryRow itemId q)) :
    callRepo cfg db tx none (.findByItemIdForUpdate itemId) =
      (foundInventory itemId q, tx.lock (cfg.backend.inventoryKey itemId)) := by
  rw [call_of_plan (by rw [stmt_findByItemIdForUpdate]; exact plan_selectInventory hi _ _) ha]
  simp only [Access.exec, show tx.sees db (cfg.backend.inventoryTable, itemId.uuid) = _ from h]
  cases cfg.backend <;> rfl

theorem call_find_none {itemId : ItemId} (h : tx.sees db (cfg.backend.inventoryKey itemId) = none) :
    callRepo cfg db tx none (.findByItemId itemId) = (.ok none, tx) := by
  rw [call_of_plan (by rw [stmt_findByItemId]; exact plan_selectInventory hi _ _) ha]
  simp only [Access.exec, show tx.sees db (cfg.backend.inventoryTable, itemId.uuid) = none from h]
  cases cfg.backend <;> rfl

theorem call_find_some {itemId : ItemId} {q : Int32}
    (h : tx.sees db (cfg.backend.inventoryKey itemId) = some (inventoryRow itemId q)) :
    callRepo cfg db tx none (.findByItemId itemId) = (foundInventory itemId q, tx) := by
  rw [call_of_plan (by rw [stmt_findByItemId]; exact plan_selectInventory hi _ _) ha]
  simp only [Access.exec, show tx.sees db (cfg.backend.inventoryTable, itemId.uuid) = _ from h]
  cases cfg.backend <;> rfl

theorem call_createInventory_none {inventory : Inventory}
    (h : tx.sees db (cfg.backend.inventoryKey inventory.itemId) = none) :
    callRepo cfg db tx none (.createInventory inventory) = (.ok inventory,
      tx.write (cfg.backend.inventoryKey inventory.itemId)
        (inventoryRow inventory.itemId inventory.quantity)) := by
  rw [call_of_plan (by rw [stmt_createInventory]; exact plan_insertInventory hi _ _) ha]
  simp only [Access.exec, show tx.sees db (cfg.backend.inventoryTable, inventory.itemId.uuid) = none from h]
  cases cfg.backend <;> rfl

theorem call_createInventory_some {inventory : Inventory} {row : Row}
    (h : tx.sees db (cfg.backend.inventoryKey inventory.itemId) = some row) :
    callRepo cfg db tx none (.createInventory inventory) =
      (.error (cfg.backend.driverError (.uniqueViolation cfg.backend.inventoryTable)),
        tx.abort cfg.freeOnAbort) := by
  rw [call_of_plan (by rw [stmt_createInventory]; exact plan_insertInventory hi _ _) ha]
  simp only [Access.exec, show tx.sees db (cfg.backend.inventoryTable, inventory.itemId.uuid) = _ from h,
    decode_error]

theorem call_update_none {inventory : Inventory}
    (h : tx.sees db (cfg.backend.inventoryKey inventory.itemId) = none) :
    callRepo cfg db tx none (.updateInventory inventory) = (cfg.backend.missedUpdate inventory, tx) := by
  rw [call_of_plan (by rw [stmt_updateInventory]; exact plan_updateInventory hi _ _) ha]
  simp only [Access.exec, show tx.sees db (cfg.backend.inventoryTable, inventory.itemId.uuid) = none from h]
  cases cfg.backend <;> rfl

theorem call_update_some {inventory : Inventory} {q : Int32}
    (h : tx.sees db (cfg.backend.inventoryKey inventory.itemId) = some (inventoryRow inventory.itemId q)) :
    callRepo cfg db tx none (.updateInventory inventory) = (.ok inventory,
      tx.write (cfg.backend.inventoryKey inventory.itemId)
        (inventoryRow inventory.itemId inventory.quantity)) := by
  rw [call_of_plan (by rw [stmt_updateInventory]; exact plan_updateInventory hi _ _) ha]
  simp only [Access.exec, show tx.sees db (cfg.backend.inventoryTable, inventory.itemId.uuid) = _ from h]
  cases cfg.backend <;> rfl

omit hi
variable (ho : HasOrders cfg.catalog cfg.backend)
include ho

theorem call_findOrder_none {id : OrderId} (h : tx.sees db (cfg.backend.orderKey id) = none) :
    callRepo cfg db tx none (.findOrderById id) = (.ok none, tx) := by
  rw [call_of_plan (by rw [stmt_findOrderById]; exact plan_selectOrder ho _) ha]
  simp only [Access.exec, show tx.sees db (cfg.backend.ordersTable, id.uuid) = none from h]
  cases cfg.backend <;> rfl

theorem call_findOrder_some {id : OrderId} {o : OrderRow}
    (h : tx.sees db (cfg.backend.orderKey id) = some (orderRow id o)) :
    callRepo cfg db tx none (.findOrderById id) = (foundOrder id o, tx) := by
  rw [call_of_plan (by rw [stmt_findOrderById]; exact plan_selectOrder ho _) ha]
  simp only [Access.exec, show tx.sees db (cfg.backend.ordersTable, id.uuid) = _ from h]
  cases cfg.backend <;> rfl

theorem call_createOrder_none {order : Order} (h : tx.sees db (cfg.backend.orderKey order.id) = none) :
    callRepo cfg db tx none (.createOrder order) = (.ok order,
      tx.write (cfg.backend.orderKey order.id) (orderRow order.id ⟨order.itemId, order.quantity.toI32⟩)) := by
  rw [call_of_plan (by rw [stmt_createOrder]; exact plan_insertOrder ho _ _ _) ha]
  simp only [Access.exec, show tx.sees db (cfg.backend.ordersTable, order.id.uuid) = none from h]
  cases cfg.backend <;> rfl

theorem call_createOrder_some {order : Order} {row : Row}
    (h : tx.sees db (cfg.backend.orderKey order.id) = some row) :
    callRepo cfg db tx none (.createOrder order) =
      (.error (cfg.backend.driverError (.uniqueViolation cfg.backend.ordersTable)),
        tx.abort cfg.freeOnAbort) := by
  rw [call_of_plan (by rw [stmt_createOrder]; exact plan_insertOrder ho _ _ _) ha]
  simp only [Access.exec, show tx.sees db (cfg.backend.ordersTable, order.id.uuid) = _ from h, decode_error]

end

end TransactionManager
