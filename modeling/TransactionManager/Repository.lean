import TransactionManager.Sql
/-
# The repositories: sqlx and SeaORM

Every repository method locks the context, sends one statement, decodes the outcome and lets
go of the context (`Method`): the statement is what the server sees, the decoder what becomes
of its answer.

| here | there |
| --- | --- |
| `Sqlx.InventoryRepository.*`    | `sqlx_impl/src/inventory_repository.rs:20-104` |
| `Sqlx.OrderRepository.*`        | `sqlx_impl/src/order_repository.rs:19-62` |
| `SeaOrm.inventory`, `.orders`   | `sea_orm_impl/src/entities/inventory.rs`, `entities/orders.rs` |
| `SeaOrm.InventoryRepository.*`  | `sea_orm_impl/src/inventory_repository.rs:23-100` |
| `SeaOrm.OrderRepository.*`      | `sea_orm_impl/src/order_repository.rs:22-61` |
| `RepoCall`, `Backend.method`    | the traits `InventoryRepository`, `OrderRepository` of the domain crate |
-/

namespace TransactionManager

/-! ## Errors -/

/-- `sqlx::Error`, as far as the repositories can meet it. -/
inductive SqlxError where
  | database (e : PgError)
  | columnNotFound (column : String)
  | columnDecode (column : String)
deriving DecidableEq

/-- `sea_orm::DbErr`, as far as the repositories can meet it. -/
inductive DbErr where
  | runtime (e : PgError)
  | recordNotUpdated
  | type (column : String)
deriving DecidableEq

/-- `anyhow::Error`, the `Error` of both stacks: what was converted into it by `?`, or the
two errors made with `anyhow!`. -/
inductive Error where
  | orderQuantity (e : OrderQuantityError)
  | inventoryQuantity (e : InventoryQuantityError)
  | inventory (e : InventoryError)
  | sqlx (e : SqlxError)
  | seaOrm (e : DbErr)
  | inventoryNotFound (itemId : ItemId)
  | failedToExtractContext
deriving DecidableEq

/-- One repository method: the statement it sends and what it makes of the outcome. -/
structure Method (ρ : Type) where
  stmt : Stmt
  decode : Except PgError SqlResult → Except Error ρ

abbrev NamedRow := List (String × Value)

/-! ## sqlx -/

namespace Sqlx

def inventoryTable : QName := ⟨"poc_for_sqlx", "inventory"⟩
def ordersTable : QName := ⟨"poc_for_sqlx", "orders"⟩

/-- `.fetch_optional(&mut **txn)`. -/
def fetchOptional : Except PgError SqlResult → Except Error (Option NamedRow)
  | .error e => .error (.sqlx (.database e))
  | .ok (.rows rows) => .ok rows.head?
  | .ok (.affected _) => .ok none

/-- `.execute(&mut **txn)`: the number of rows affected. -/
def execute : Except PgError SqlResult → Except Error Nat
  | .error e => .error (.sqlx (.database e))
  | .ok (.rows _) => .ok 0
  | .ok (.affected count) => .ok count

/-- `row.try_get::<Uuid>(column)`. -/
def tryGetUuid (row : NamedRow) (column : String) : Except Error Uuid :=
  match row.lookup column with
  | some (.uuid u) => .ok u
  | some _ => .error (.sqlx (.columnDecode column))
  | none => .error (.sqlx (.columnNotFound column))

/-- `row.try_get::<i32>(column)`. -/
def tryGetI32 (row : NamedRow) (column : String) : Except Error Int32 :=
  match row.lookup column with
  | some (.integer n) => .ok n
  | some _ => .error (.sqlx (.columnDecode column))
  | none => .error (.sqlx (.columnNotFound column))

namespace InventoryRepository

def decodeRow (result : Except PgError SqlResult) : Except Error (Option Inventory) := do
  match ← fetchOptional result with
  | some row =>
    let itemId ← tryGetUuid row "item_id"
    let quantity ← tryGetI32 row "quantity"
    let inventory ← (Inventory.new ⟨itemId⟩ quantity).mapError .inventory
    return some inventory
  | none => return none

/-- The two finders differ in `FOR UPDATE` only. -/
def findQuery (forUpdate : Bool) (itemId : ItemId) : Method (Option Inventory) where
  stmt := .select inventoryTable ["item_id", "quantity"] "item_id" itemId.uuid forUpdate
  decode := decodeRow

def findByItemIdForUpdate : ItemId → Method (Option Inventory) := findQuery true

def findByItemId : ItemId → Method (Option Inventory) := findQuery false

def create (inventory : Inventory) : Method Inventory where
  stmt := .insert inventoryTable
    [("item_id", .uuid inventory.itemId.uuid), ("quantity", .integer inventory.quantity)]
  decode result := do
    let _ ← execute result
    return inventory

/-- The number of affected rows is not looked at. -/
def update (inventory : Inventory) : Method Inventory where
  stmt := .update inventoryTable [("quantity", .integer inventory.quantity)] "item_id" inventory.itemId.uuid
  decode result := do
    let _ ← execute result
    return inventory

end InventoryRepository

namespace OrderRepository

def findById (id : OrderId) : Method (Option Order) where
  stmt := .select ordersTable ["id", "item_id", "quantity"] "id" id.uuid false
  decode result := do
    match ← fetchOptional result with
    | some row =>
      let id ← tryGetUuid row "id"
      let itemId ← tryGetUuid row "item_id"
      let quantity ← tryGetI32 row "quantity"
      let quantity ← (OrderQuantity.tryFrom quantity).mapError .orderQuantity
      return some ⟨⟨id⟩, ⟨itemId⟩, quantity⟩
    | none => return none

def create (order : Order) : Method Order where
  stmt := .insert ordersTable
    [("id", .uuid order.id.uuid), ("item_id", .uuid order.itemId.uuid),
      ("quantity", .integer order.quantity.toI32)]
  decode result := do
    let _ ← execute result
    return order

end OrderRepository

end Sqlx

/-! ## SeaORM -/

namespace SeaOrm

/-- A `DeriveEntityModel` type: its table, its columns and which of them is the primary key. -/
structure Entity where
  schemaName : String
  tableName : String
  columns : List String
  primaryKey : String

namespace Entity

def inventory : Entity := ⟨"poc_for_sea_orm", "inventory", ["item_id", "quantity"], "item_id"⟩
def orders : Entity := ⟨"poc_for_sea_orm", "orders", ["id", "item_id", "quantity"], "id"⟩

def table (e : Entity) : QName := ⟨e.schemaName, e.tableName⟩

end Entity

/-- An `ActiveModel` whose fields are all `Set`: the primary key and the other columns. -/
structure ActiveModel where
  key : Uuid
  fields : List (String × Value)

/-- `Entity::find().filter(column.eq(param))`, with `.lock_exclusive()` when `forUpdate`. -/
def find (e : Entity) (column : String) (param : Uuid) (forUpdate : Bool) : Stmt :=
  .select e.table e.columns column param forUpdate

/-- `active_model.insert(txn)`. -/
def insert (e : Entity) (am : ActiveModel) : Stmt :=
  .insert e.table ((e.primaryKey, .uuid am.key) :: am.fields)

/-- `active_model.update(txn)`: the other columns are set where the primary key matches. -/
def update (e : Entity) (am : ActiveModel) : Stmt :=
  .update e.table am.fields e.primaryKey am.key

/-- `.one(txn)`. -/
def one : Except PgError SqlResult → Except Error (Option NamedRow)
  | .error e => .error (.seaOrm (.runtime e))
  | .ok (.rows rows) => .ok rows.head?
  | .ok (.affected _) => .ok none

/-- The outcome of `insert`. -/
def inserted : Except PgError SqlResult → Except Error Unit
  | .error e => .error (.seaOrm (.runtime e))
  | .ok _ => .ok ()

/-- The outcome of `update`: no row matched is `RecordNotUpdated`. -/
def updated : Except PgError SqlResult → Except Error Unit
  | .error e => .error (.seaOrm (.runtime e))
  | .ok (.affected 0) => .error (.seaOrm .recordNotUpdated)
  | .ok _ => .ok ()

/-- A `Uuid` field of a `Model` read from a row. -/
def modelUuid (row : NamedRow) (column : String) : Except Error Uuid :=
  match row.lookup column with
  | some (.uuid u) => .ok u
  | _ => .error (.seaOrm (.type column))

/-- An `i32` field of a `Model` read from a row. -/
def modelI32 (row : NamedRow) (column : String) : Except Error Int32 :=
  match row.lookup column with
  | some (.integer n) => .ok n
  | _ => .error (.seaOrm (.type column))

namespace InventoryRepository

def decodeModel (result : Except PgError SqlResult) : Except Error (Option Inventory) := do
  match ← one result with
  | some row =>
    let itemId ← modelUuid row "item_id"
    let quantity ← modelI32 row "quantity"
    let inventory ← (Inventory.new ⟨itemId⟩ quantity).mapError .inventory
    return some inventory
  | none => return none

/-- The two finders differ in `.lock_exclusive()` only. -/
def findQuery (forUpdate : Bool) (itemId : ItemId) : Method (Option Inventory) where
  stmt := find Entity.inventory "item_id" itemId.uuid forUpdate
  decode := decodeModel

def findByItemIdForUpdate : ItemId → Method (Option Inventory) := findQuery true

def findByItemId : ItemId → Method (Option Inventory) := findQuery false

def activeModel (inventory : Inventory) : ActiveModel :=
  ⟨inventory.itemId.uuid, [("quantity", .integer inventory.quantity)]⟩

def create (inventory : Inventory) : Method Inventory where
  stmt := insert Entity.inventory (activeModel inventory)
  decode result := do
    inserted result
    return inventory

def update (inventory : Inventory) : Method Inventory where
  stmt := SeaOrm.update Entity.inventory (activeModel inventory)
  decode result := do
    updated result
    return inventory

end InventoryRepository

namespace OrderRepository

def findById (id : OrderId) : Method (Option Order) where
  stmt := find Entity.orders "id" id.uuid false
  decode result := do
    match ← one result with
    | some row =>
      let id ← modelUuid row "id"
      let itemId ← modelUuid row "item_id"
      let quantity ← modelI32 row "quantity"
      let quantity ← (OrderQuantity.tryFrom quantity).mapError .orderQuantity
      return some ⟨⟨id⟩, ⟨itemId⟩, quantity⟩
    | none => return none

def create (order : Order) : Method Order where
  stmt := insert Entity.orders
    ⟨order.id.uuid, [("item_id", .uuid order.itemId.uuid), ("quantity", .integer order.quantity.toI32)]⟩
  decode result := do
    inserted result
    return order

end OrderRepository

end SeaOrm

/-! ## The repository traits -/

inductive Backend where
  | sqlx | seaOrm
deriving DecidableEq, Repr

/-- A call of a method of `InventoryRepository` or `OrderRepository`. -/
inductive RepoCall where
  | findByItemIdForUpdate (itemId : ItemId)
  | findByItemId (itemId : ItemId)
  | createInventory (inventory : Inventory)
  | updateInventory (inventory : Inventory)
  | findOrderById (id : OrderId)
  | createOrder (order : Order)

@[reducible] def RepoCall.Reply : RepoCall → Type
  | .findByItemIdForUpdate _ => Option Inventory
  | .findByItemId _ => Option Inventory
  | .createInventory _ => Inventory
  | .updateInventory _ => Inventory
  | .findOrderById _ => Option Order
  | .createOrder _ => Order

def Backend.method : Backend → (c : RepoCall) → Method c.Reply
  | .sqlx, .findByItemIdForUpdate itemId => Sqlx.InventoryRepository.findByItemIdForUpdate itemId
  | .sqlx, .findByItemId itemId => Sqlx.InventoryRepository.findByItemId itemId
  | .sqlx, .createInventory inventory => Sqlx.InventoryRepository.create inventory
  | .sqlx, .updateInventory inventory => Sqlx.InventoryRepository.update inventory
  | .sqlx, .findOrderById id => Sqlx.OrderRepository.findById id
  | .sqlx, .createOrder order => Sqlx.OrderRepository.create order
  | .seaOrm, .findByItemIdForUpdate itemId => SeaOrm.InventoryRepository.findByItemIdForUpdate itemId
  | .seaOrm, .findByItemId itemId => SeaOrm.InventoryRepository.findByItemId itemId
  | .seaOrm, .createInventory inventory => SeaOrm.InventoryRepository.create inventory
  | .seaOrm, .updateInventory inventory => SeaOrm.InventoryRepository.update inventory
  | .seaOrm, .findOrderById id => SeaOrm.OrderRepository.findById id
  | .seaOrm, .createOrder order => SeaOrm.OrderRepository.create order

def Backend.inventoryTable : Backend → QName
  | .sqlx => Sqlx.inventoryTable
  | .seaOrm => SeaOrm.Entity.inventory.table

def Backend.ordersTable : Backend → QName
  | .sqlx => Sqlx.ordersTable
  | .seaOrm => SeaOrm.Entity.orders.table

theorem Backend.tables_ne (b : Backend) : b.inventoryTable ≠ b.ordersTable := by
  cases b <;> decide

end TransactionManager
