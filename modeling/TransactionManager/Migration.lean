import TransactionManager.AllOrNothing
import TransactionManager.RoundTrip
/-
# The schemas that the migrations build

| here | there |
| --- | --- |
| `SeaOrm.Migration.createInventoryTable` | `m20250101_000001_create_inventory_table.rs:8-33` |
| `SeaOrm.Migration.createOrderTable`     | `m20250101_000002_create_order_table.rs:8-21` |
| `Sqlx.Migration.createInventoryTable`   | `001_create_inventory_table.sql` |
| `Sqlx.Migration.createOrderTable`       | `002_create_order_table.sql` |
| `Backend.migrations`                    | `Migrator::migrations` (`lib.rs:10-15`), the files of `run_migrations.sh` in their order |

The sqlx migrations build the two tables of the sqlx stack. Those of SeaORM name the second table
by `DeriveIden` on `enum Order`, `order`; the entity of the orders is on `orders`, as are sqlx, the
Makefile and CI. So on that schema no order is ever created (`runAlone_without_orders`), and
`migrations_iff` says on which inputs a stack does work on the schema of its own migrations.
-/

namespace TransactionManager

open RowStore RustInt Run

/-! ## The migrations -/

def snakeTail : List Char → List Char
  | [] => []
  | c :: cs => if c.isUpper then '_' :: c.toLower :: snakeTail cs else c :: snakeTail cs

/-- `CamelCase` to `camel_case`. -/
def snakeCase (s : String) : String :=
  match s.toList with
  | [] => ""
  | c :: cs => String.ofList (c.toLower :: snakeTail cs)

/-- `#[derive(DeriveIden)]`: `Table` has the name of its enum, every other variant its own. -/
def deriveIden (enum variant : String) : String :=
  if variant = "Table" then snakeCase enum else snakeCase variant

namespace SeaOrm.Migration

def createInventoryTable : List Ddl :=
  [.createSchema "poc_for_sea_orm" true,
   .createTable ⟨"poc_for_sea_orm", deriveIden "Inventory" "Table"⟩
    [⟨deriveIden "Inventory" "ItemId", .uuid, true, true⟩,
     ⟨deriveIden "Inventory" "Quantity", .integer, true, false⟩] true]

def createOrderTable : List Ddl :=
  [.createTable ⟨"poc_for_sea_orm", deriveIden "Order" "Table"⟩
    [⟨deriveIden "Order" "Id", .uuid, true, true⟩,
     ⟨deriveIden "Order" "ItemId", .uuid, true, false⟩,
     ⟨deriveIden "Order" "Quantity", .integer, true, false⟩] true]

end SeaOrm.Migration

namespace Sqlx.Migration

def createInventoryTable : List Ddl :=
  [.createSchema "poc_for_sqlx" true,
   .createTable ⟨"poc_for_sqlx", "inventory"⟩
    [⟨"item_id", .uuid, false, true⟩, ⟨"quantity", .integer, true, false⟩] true]

def createOrderTable : List Ddl :=
  [.createTable ⟨"poc_for_sqlx", "orders"⟩
    [⟨"id", .uuid, false, true⟩, ⟨"item_id", .uuid, true, false⟩, ⟨"quantity", .integer, true, false⟩] true]

end Sqlx.Migration

namespace Backend

def migrations : Backend → List (List Ddl)
  | .sqlx => [Sqlx.Migration.createInventoryTable, Sqlx.Migration.createOrderTable]
  | .seaOrm => [SeaOrm.Migration.createInventoryTable, SeaOrm.Migration.createOrderTable]

/-- The migrations applied in order to an empty catalog. -/
def migrate (b : Backend) : Except PgError Catalog := Catalog.empty.runAll b.migrations.flatten

/-- They all succeed, and leave the inventory of their stack. -/
theorem migrate_ok (b : Backend) : ∃ cat, b.migrate = .ok cat ∧ HasInventory cat b := by
  cases b with
  | sqlx => exact ⟨_, rfl, false, true, rfl⟩
  | seaOrm => exact ⟨_, rfl, true, true, rfl⟩

theorem sqlx_migrated {cat : Catalog} (h : Backend.sqlx.migrate = .ok cat) : Deployed cat .sqlx := by
  cases h
  exact ⟨⟨false, true, rfl⟩, false, true, true, rfl⟩

/-- The table of the orders is not there. -/
theorem seaOrm_migrated {cat : Catalog} (h : Backend.seaOrm.migrate = .ok cat) :
    cat.find Backend.seaOrm.ordersTable = .error (.undefinedTable Backend.seaOrm.ordersTable) := by
  cases h
  rfl

end Backend

/-! ## Seeding, ordering, reading back -/

/-- A closure that creates inventory rows one after the other. -/
def createAll : List Inventory → Closure Unit
  | [] => .ret (.ok ())
  | inventory :: rows => do
    let _ ← Closure.await (.createInventory inventory)
    createAll rows

/-- Inventory rows committed through `create`, one transaction for each list. -/
def seed (cfg : Config) (batches : List (List Inventory)) (db : Db) : Db :=
  batches.foldl (fun db rows => (transaction cfg .none (createAll rows).moved db).2) db

/-- Commands run one after the other. -/
def placeAll (cfg : Config) (calls : List CreateOrderCall) (db : Db) : Db :=
  calls.foldl (fun db call => ((createOrder cfg.profile call).runAlone cfg db).2) db

/-- `find_by_id` in a transaction of its own. -/
def findOrder (cfg : Config) (id : OrderId) (db : Db) : Phase (Option Order) :=
  (transaction cfg .none (Closure.await (.findOrderById id)).moved db).1

/-- A stack works on a schema: every seeding transaction commits, every command that the stock of
its item covers is answered with its order, and from then on `find_by_id` finds that order. -/
structure Works (cfg : Config) (batches : List (List Inventory)) (calls : List CreateOrderCall) : Prop where
  seeded : ∀ before rows after, batches = before ++ rows :: after →
    (transaction cfg .none (createAll rows).moved (seed cfg before fun _ => none)).1 = .returned (.ok ()) none
  served : ∀ before call after q, calls = before ++ call :: after →
    placeAll cfg before (seed cfg batches fun _ => none) (cfg.backend.inventoryKey call.itemId) =
      some (inventoryRow call.itemId q) →
    0 < call.qty.toInt → call.qty.toInt ≤ q.toInt →
    ((createOrder cfg.profile call).runAlone cfg (placeAll cfg before (seed cfg batches fun _ => none))).1 =
        .returned (.ok call.order) none ∧
      ∀ mid rest, after = mid ++ rest →
        findOrder cfg call.orderId (placeAll cfg (before ++ call :: mid) (seed cfg batches fun _ => none)) =
          .returned (.ok (some call.order)) none

/-! ## Seeding -/

namespace Tables

def stock (t : Tables) (rows : List Inventory) : Tables :=
  rows.foldl (fun t inventory => t.setStock inventory.itemId inventory.quantity) t

theorem stock_cons (t : Tables) (inventory : Inventory) (rows : List Inventory) :
    t.stock (inventory :: rows) = (t.setStock inventory.itemId inventory.quantity).stock rows := rfl

theorem stock_append (t : Tables) (rows rows' : List Inventory) :
    t.stock (rows ++ rows') = (t.stock rows).stock rows' :=
  List.foldl_append

@[simp] theorem stock_orders (t : Tables) (rows : List Inventory) : (t.stock rows).orders = t.orders := by
  induction rows generalizing t with
  | nil => rfl
  | cons inventory rows ih => rw [stock_cons, ih, setStock_orders]

/-- An item that is not in the rows keeps its stock. -/
theorem stock_ne {t : Tables} {rows : List Inventory} {x : ItemId} (h : x ∉ rows.map (·.itemId)) :
    (t.stock rows).inventory x = t.inventory x := by
  induction rows generalizing t with
  | nil => rfl
  | cons inventory rows ih =>
    rw [List.map_cons, List.mem_cons, not_or] at h
    rw [stock_cons, ih h.2, setStock_ne t _ h.1]

theorem stock_mem {t : Tables} {rows : List Inventory} (hn : (rows.map (·.itemId)).Nodup) {inventory : Inventory}
    (h : inventory ∈ rows) : (t.stock rows).inventory inventory.itemId = some inventory.quantity := by
  induction rows generalizing t with
  | nil => cases h
  | cons first rows ih =>
    rw [List.map_cons, List.nodup_cons] at hn
    rw [stock_cons]
    rcases List.mem_cons.1 h with rfl | h
    · rw [stock_ne hn.1, setStock_self]
    · exact ih hn.2 h

end Tables

/-- A driven closure at a call goes on with the reply. -/
theorem drive_call {α : Type} {cfg : Config} {db : Db} {c : RepoCall} {tx tx' : PgTx} {r : Except Error c.Reply}
    (faults : Faults) (k : Except Error c.Reply → Closure α) (refs : Refs) (calls : Nat)
    (h : callRepo cfg db tx (faults.stmt calls) c = (r, tx')) :
    ((Closure.call c k).drive cfg faults db refs calls tx).ended =
        ((k r).drive cfg faults db refs (calls + 1) tx').ended ∧
      ((Closure.call c k).drive cfg faults db refs calls tx).tx =
        ((k r).drive cfg faults db refs (calls + 1) tx').tx := by
  simp only [Closure.drive, h, and_self]

section
variable {cfg : Config} (hi : HasInventory cfg.catalog cfg.backend) {rows : List Inventory} {t : Tables}
include hi

/-- Rows for new items are all created. -/
theorem drive_createAll {db : Db} {tx : PgTx} (calls : Nat) (ha : tx.aborted = false)
    (hs : tx.sees db = t.store cfg.backend) (hn : (rows.map (·.itemId)).Nodup)
    (hnew : ∀ inventory ∈ rows, t.inventory inventory.itemId = none) :
    ((createAll rows).moved.drive cfg .none db .given calls tx).ended = .ready (.ok ()) 0 ∧
      ((createAll rows).moved.drive cfg .none db .given calls tx).tx.aborted = false ∧
      ((createAll rows).moved.drive cfg .none db .given calls tx).tx.sees db = (t.stock rows).store cfg.backend := by
  induction rows generalizing tx t calls with
  | nil => exact ⟨rfl, ha, hs⟩
  | cons inventory rows ih =>
    rw [List.map_cons, List.nodup_cons] at hn
    have hfree : tx.sees db (cfg.backend.inventoryKey inventory.itemId) = none := by
      rw [hs, Tables.store_inventoryKey, hnew inventory List.mem_cons_self]
      rfl
    have hcall := call_createInventory_none hi ha hfree
    obtain ⟨hended, htx⟩ :=
      drive_call .none (fun r => ((Closure.ret r).bind fun _ => createAll rows).moved) .given calls hcall
    have hsees : (tx.write (cfg.backend.inventoryKey inventory.itemId)
        (inventoryRow inventory.itemId inventory.quantity)).sees db =
          (t.setStock inventory.itemId inventory.quantity).store cfg.backend := by
      rw [Tx.sees_write, hs, Tables.put_inventory]
    have hactive : (tx.write (cfg.backend.inventoryKey inventory.itemId)
        (inventoryRow inventory.itemId inventory.quantity)).aborted = false := ha
    have hrest := ih (calls + 1) hactive hsees hn.2 fun other hother => by
      rw [Tables.setStock_ne t _ fun he => hn.1 (List.mem_map.2 ⟨other, hother, he⟩)]
      exact hnew other (List.mem_cons_of_mem _ hother)
    refine ⟨hended.trans hrest.1, ?_, ?_⟩
    · exact (congrArg Tx.aborted htx).trans hrest.2.1
    · exact (congrArg (Tx.sees · db) htx).trans hrest.2.2

/-- One seeding transaction. -/
theorem transaction_createAll (hn : (rows.map (·.itemId)).Nodup)
    (hnew : ∀ inventory ∈ rows, t.inventory inventory.itemId = none) :
    transaction cfg .none (createAll rows).moved (t.store cfg.backend) =
      (.returned (.ok ()) none, (t.stock rows).store cfg.backend) := by
  obtain ⟨hended, ha, hs⟩ := drive_createAll hi 0 Tx.fresh_aborted (Tx.sees_fresh _) hn hnew
  simp only [transaction, Faults.none, DbContext.commit] at hended ha hs ⊢
  rw [hended]
  simp only [Tx.commit_of_active ha, hs]
  rfl

/-- Seeding commits every row. -/
theorem seed_eq {batches : List (List Inventory)} (hn : (batches.flatten.map (·.itemId)).Nodup)
    (hnew : ∀ inventory ∈ batches.flatten, t.inventory inventory.itemId = none) :
    seed cfg batches (t.store cfg.backend) = (t.stock batches.flatten).store cfg.backend := by
  induction batches generalizing t with
  | nil => rfl
  | cons rows batches ih =>
    rw [List.flatten_cons, List.map_append, List.nodup_append] at hn
    obtain ⟨hrows, hrest, hdisj⟩ := hn
    rw [List.flatten_cons, Tables.stock_append]
    have hone := transaction_createAll hi hrows fun inventory h =>
      hnew inventory (by rw [List.flatten_cons]; exact List.mem_append_left _ h)
    have hseed : seed cfg (rows :: batches) (t.store cfg.backend) =
        seed cfg batches ((t.stock rows).store cfg.backend) := 
      congrArg (fun r : Phase Unit × Db => seed cfg batches r.2) hone
    rw [hseed]
    refine ih hrest fun inventory h => ?_
    rw [Tables.stock_ne fun hmem => hdisj _ hmem _ (List.mem_map.2 ⟨inventory, h, rfl⟩) rfl]
    exact hnew inventory (by rw [List.flatten_cons]; exact List.mem_append_right _ h)

end

/-! ## On a schema with both tables -/

section
variable {cfg : Config} (hd : Deployed cfg.catalog cfg.backend) {t : Tables} {call : CreateOrderCall}
include hd

theorem placeAll_eq (calls : List CreateOrderCall) (t : Tables) :
    placeAll cfg calls (t.store cfg.backend) = (after cfg id t calls).store cfg.backend := by
  induction calls generalizing t with
  | nil => rfl
  | cons call calls ih =>
    have hone := congrArg Prod.snd (runAlone_createOrder hd call t)
    have hcons : placeAll cfg (call :: calls) (t.store cfg.backend) =
        placeAll cfg calls (((createOrder cfg.profile call).runAlone cfg (t.store cfg.backend)).2) := rfl
    rw [hcons, hone]
    exact ih _

/-- A committed order row that gives the order back is found. -/
theorem findOrder_of_row {order : Order} (hrow : t.orders order.id = some ⟨order.itemId, order.quantity.toI32⟩)
    (hfound : order.found = .ok (some order)) :
    findOrder cfg order.id (t.store cfg.backend) = .returned (.ok (some order)) none := by
  have hcall : callRepo cfg (t.store cfg.backend) .fresh none (.findOrderById order.id) = (order.found, .fresh) :=
    call_findOrder_some Tx.fresh_aborted hd.orders (by rw [Tx.sees_fresh, Tables.store_orderKey, hrow]; rfl)
  obtain ⟨hended, -⟩ := drive_call .none (fun r => (Closure.ret r).moved) .given 0 hcall
  rw [hfound] at hended
  have hready : ((Closure.await (.findOrderById order.id)).moved.drive cfg .none (t.store cfg.backend) .given 0
      .fresh).ended = .ready (.ok (some order)) 0 := hended
  simp only [findOrder, transaction, Faults.none, DbContext.commit] at hready ⊢
  rw [hready]
  rfl

omit hd

/-- An order row that is there stays as it is. -/
theorem after_orders_some {id' : OrderId} {o : OrderRow} (calls : List CreateOrderCall)
    (h : t.orders id' = some o) : (after cfg id t calls).orders id' = some o := by
  induction calls generalizing t with
  | nil => exact h
  | cons call calls ih =>
    refine ih ?_
    rcases CreateOrderCall.outcome_cases cfg call t with ⟨q, hacc, ho⟩ | ⟨e, ho⟩
    · have hne : id' ≠ call.orderId := by
        rintro rfl
        rw [hacc.fresh] at h
        cases h
      simp only [id_eq, ho, CreateOrderCall.place, Tables.addOrder_ne _ _ hne, Tables.setStock_orders, h]
    · simp only [id_eq, ho, h]

/-- Only the calls' own orders come to be. -/
theorem after_orders_none {id' : OrderId} (calls : List CreateOrderCall) (hids : ∀ call ∈ calls, call.orderId ≠ id')
    (h : t.orders id' = none) : (after cfg id t calls).orders id' = none := by
  induction calls generalizing t with
  | nil => exact h
  | cons call calls ih =>
    refine ih (fun call' hmem => hids call' (List.mem_cons_of_mem _ hmem)) ?_
    rcases CreateOrderCall.outcome_cases cfg call t with ⟨q, -, ho⟩ | ⟨e, ho⟩
    · simp only [id_eq, ho, CreateOrderCall.place, Tables.addOrder_ne _ _ (Ne.symm (hids call List.mem_cons_self)),
        Tables.setStock_orders, h]
    · simp only [id_eq, ho, h]

/-- The order of a valid command fits its row. -/
theorem order_found (hpos : 0 < call.qty.toInt) : call.order.found = .ok (some call.order) := by
  refine Order.found_iff.2 ?_
  have hlt := call.qty.toInt_lt
  have hnat := CreateOrderCall.order_toNat hpos
  unfold OrderQuantity.Fits
  omega

include hd

/-- A command that the stock covers is answered with its order, which is found from then on. -/
theorem served_of_deployed {before after' : List CreateOrderCall} {q : Int32} (ht : ∀ id', t.orders id' = none)
    (hids : ((before ++ call :: after').map (·.orderId)).Nodup) (hfaults : call.faults = .none)
    (hstock : (after cfg id t before).inventory call.itemId = some q) (hpos : 0 < call.qty.toInt)
    (hle : call.qty.toInt ≤ q.toInt) :
    ((createOrder cfg.profile call).runAlone cfg (placeAll cfg before (t.store cfg.backend))).1 =
        .returned (.ok call.order) none ∧
      ∀ mid rest, after' = mid ++ rest →
        findOrder cfg call.orderId (placeAll cfg (before ++ call :: mid) (t.store cfg.backend)) =
          .returned (.ok (some call.order)) none := by
  rw [List.map_append, List.nodup_append] at hids
  have hfresh : (after cfg id t before).orders call.orderId = none :=
    after_orders_none before (fun call' hmem =>
      hids.2.2 _ (List.mem_map.2 ⟨call', hmem, rfl⟩) _ List.mem_cons_self) (ht _)
  obtain ⟨q', hacc⟩ := (accepted_iff_servable hfaults).2 ⟨hpos, ⟨q, hstock, hle⟩, hfresh⟩
  have hout := hacc.outcome cfg
  constructor
  · rw [placeAll_eq hd, runAlone_createOrder hd, hout]
  · rintro mid rest -
    rw [placeAll_eq hd, after_append]
    have hplaced : (after cfg id (after cfg id t before) (call :: mid)).orders call.orderId =
        some ⟨call.itemId, call.qty⟩ := by
      refine after_orders_some mid ?_
      simp only [id_eq, hout, CreateOrderCall.place, Tables.addOrder_self]
    rw [← CreateOrderCall.order_id]
    refine findOrder_of_row hd ?_ (order_found hpos)
    rw [CreateOrderCall.order_toI32 hpos]
    exact hplaced

end

/-! ## On a schema without the table of the orders -/

section
variable {cfg : Config} {e : PgError} (hmissing : cfg.catalog.find cfg.backend.ordersTable = .error e)

/-- Where the closure goes from the answer of the locked read: an error, a panic, or the update. -/
theorem afterFind_cases (p : BuildProfile) (order : Order) (r : Except Error (Option Inventory)) :
    (∃ e, afterFind p order r = .drop (.ret (.error e))) ∨ afterFind p order r = .panic ∨
      ∃ inventory, afterFind p order r = .call (.updateInventory inventory) (afterUpdate order) := by
  cases r with
  | error e => exact .inl ⟨e, rfl⟩
  | ok found =>
    cases found with
    | none => exact .inl ⟨_, rfl⟩
    | some inventory =>
      have hreserve : afterFind p order (.ok (some inventory)) =
          ((Closure.ret ((InventoryQuantity.tryFrom order.quantity.toI32).mapError .inventoryQuantity)).bind
            fun amount => (decreased p inventory amount).bind (persist order)).moved := rfl
      rw [hreserve]
      cases InventoryQuantity.tryFrom order.quantity.toI32 with
      | error e => exact .inl ⟨_, rfl⟩
      | ok amount =>
        unfold decreased
        simp only [Except.mapError, Closure.bind]
        split
        · rename_i inventory' _
          exact .inr (.inr ⟨inventory', rfl⟩)
        · exact .inl ⟨_, rfl⟩
        · exact .inr (.inl rfl)

include hmissing

theorem call_createOrder_missing (db : Db) (tx : PgTx) (fault : Option PgError) (order : Order) :
    ∃ e, (callRepo cfg db tx fault (.createOrder order)).1 = .error e := by
  have hplan : (cfg.backend.method (.createOrder order)).stmt.plan cfg.catalog = .error e := by
    rw [stmt_createOrder]
    simp only [Stmt.plan, hmissing]
    rfl
  cases fault with
  | some e => exact ⟨_, by rw [call_fault]⟩
  | none =>
    cases ha : tx.aborted with
    | true => exact ⟨_, by rw [call_aborted ha]⟩
    | false =>
      refine ⟨cfg.backend.driverError e, ?_⟩
      simp only [callRepo, Stmt.exec, ha, hplan, Bool.false_eq_true, if_false, decode_error]

theorem drive_afterUpdate_missing (faults : Faults) (db : Db) (order : Order) (r : Except Error Inventory)
    (calls : Nat) (tx : PgTx) (v : Order) (n : Nat) :
    ((afterUpdate order r).drive cfg faults db .given calls tx).ended ≠ .ready (.ok v) n := by
  cases r with
  | error e => rintro ⟨⟩
  | ok inventory =>
    obtain ⟨e, he⟩ := call_createOrder_missing hmissing db tx (faults.stmt calls) order
    let r := callRepo cfg db tx (faults.stmt calls) (.createOrder order)
    show ((afterCreate r.1).drive cfg faults db .given (calls + 1) r.2).ended ≠ .ready (.ok v) n
    rw [show r.1 = .error e from he]
    rintro ⟨⟩

/-- The closure of `create_order` does not end with `Ok`. -/
theorem drive_createOrder_missing (faults : Faults) (db : Db) (order v : Order) (n : Nat) :
    ((createOrderBody cfg.profile order).moved.drive cfg faults db .given 0 .fresh).ended ≠ .ready (.ok v) n := by
  let r := callRepo cfg db .fresh (faults.stmt 0) (.findByItemIdForUpdate order.itemId)
  show ((afterFind cfg.profile order r.1).drive cfg faults db .given 1 r.2).ended ≠ .ready (.ok v) n
  rcases afterFind_cases cfg.profile order r.1 with ⟨e, h⟩ | h | ⟨inventory, h⟩
  · rw [h]; rintro ⟨⟩
  · rw [h]; rintro ⟨⟩
  · rw [h]
    exact drive_afterUpdate_missing hmissing faults db order _ 2 _ v n

/-- No call of `create_order` returns `Ok` or changes a row. -/
theorem runAlone_without_orders (call : CreateOrderCall) (db : Db) :
    ((createOrder cfg.profile call).runAlone cfg db).2 = db ∧
      ∀ v escaped, ((createOrder cfg.profile call).runAlone cfg db).1 ≠ .returned (.ok v) escaped := by
  unfold Job.runAlone
  by_cases hpos : 0 < call.qty.toInt
  · rw [start_createOrder_of_pos hpos]
    simp only [createOrder_faults, transaction]
    cases call.faults.begin with
    | some e => exact ⟨rfl, by rintro v escaped ⟨⟩⟩
    | none =>
      have hnot := drive_createOrder_missing hmissing call.faults db call.order
      simp only
      rcases drive_ended cfg db (createOrderBody cfg.profile call.order).moved call.faults .given 0 .fresh with
        ⟨r, n, hr⟩ | ⟨n, hp⟩
      · cases r with
        | ok v => exact absurd hr (hnot v n)
        | error e =>
          rw [hr]
          cases n with
          | zero =>
            simp only [DbContext.rollback]
            cases call.faults.rollback <;> exact ⟨rfl, by rintro v escaped ⟨⟩⟩
          | succ n => exact ⟨rfl, by rintro v escaped ⟨⟩⟩
      · rw [hp]
        exact ⟨rfl, by rintro v escaped ⟨⟩⟩
  · rw [start_createOrder_of_nonpos (Int.not_lt.1 hpos)]
    exact ⟨rfl, by rintro v escaped ⟨⟩⟩

theorem placeAll_without_orders (calls : List CreateOrderCall) (db : Db) : placeAll cfg calls db = db := by
  induction calls with
  | nil => rfl
  | cons call calls ih =>
    have hone := (runAlone_without_orders hmissing call db).1
    have hcons : placeAll cfg (call :: calls) db =
        placeAll cfg calls ((createOrder cfg.profile call).runAlone cfg db).2 := rfl
    rw [hcons, hone, ih]

end

/-! ## The stacks on their own schemas -/

namespace Tables

/-- A stock that has been seeded. -/
theorem stock_some {t : Tables} {rows : List Inventory} (hn : (rows.map (·.itemId)).Nodup) {x : ItemId} {q : Int32}
    (ht : t.inventory x = none) (h : (t.stock rows).inventory x = some q) :
    ∃ inventory ∈ rows, inventory.itemId = x ∧ inventory.quantity = q := by
  by_cases hx : x ∈ rows.map (·.itemId)
  · obtain ⟨inventory, hmem, rfl⟩ := List.mem_map.1 hx
    rw [stock_mem hn hmem] at h
    exact ⟨inventory, hmem, rfl, Option.some.inj h⟩
  · rw [stock_ne hx, ht] at h
    cases h

end Tables

section
variable {cfg : Config} {batches : List (List Inventory)} (hn : (batches.flatten.map (·.itemId)).Nodup)

/-- The stock of an item, read off its row. -/
theorem stock_of_row {t : Tables} {x : ItemId} {q : Int32}
    (h : t.store cfg.backend (cfg.backend.inventoryKey x) = some (inventoryRow x q)) : t.inventory x = some q := by
  rw [Tables.store_inventoryKey] at h
  obtain ⟨q', hq, hrow⟩ := Option.map_eq_some_iff.1 h
  simp only [inventoryRow, List.cons.injEq, Value.integer.injEq, and_true, true_and] at hrow
  rw [hq, hrow]

include hn

theorem seed_empty (hi : HasInventory cfg.catalog cfg.backend) :
    seed cfg batches (fun _ => none) = (Tables.empty.stock batches.flatten).store cfg.backend := by
  rw [← Tables.store_empty cfg.backend]
  exact seed_eq hi hn fun _ _ => rfl

/-- Every seeding transaction commits. -/
theorem seeding_commits (hi : HasInventory cfg.catalog cfg.backend) {before after' : List (List Inventory)}
    {rows : List Inventory} (hb : batches = before ++ rows :: after') :
    (transaction cfg .none (createAll rows).moved (seed cfg before fun _ => none)).1 = .returned (.ok ()) none := by
  subst hb
  rw [List.flatten_append, List.flatten_cons, List.map_append, List.map_append, List.nodup_append,
    List.nodup_append] at hn
  obtain ⟨hbefore, ⟨hrows, -, -⟩, hdisj⟩ := hn
  have hnew : ∀ inventory ∈ rows, (Tables.empty.stock before.flatten).inventory inventory.itemId = none := by
    intro inventory hmem
    rw [Tables.stock_ne]
    · rfl
    · intro hmem'
      exact hdisj _ hmem' _ (List.mem_append_left _ (List.mem_map.2 ⟨inventory, hmem, rfl⟩)) rfl
  rw [seed_empty hbefore hi, transaction_createAll hi hrows hnew]

/-- A stack works on a schema with both of its tables. -/
theorem works_of_deployed (hd : Deployed cfg.catalog cfg.backend) {calls : List CreateOrderCall}
    (hids : (calls.map (·.orderId)).Nodup) (hfaults : ∀ call ∈ calls, call.faults = .none) :
    Works cfg batches calls where
  seeded _ _ _ hb := seeding_commits hn hd.inventory hb
  served before call after' q hcalls hrow hpos hle := by
    subst hcalls
    rw [seed_empty hn hd.inventory] at hrow ⊢
    rw [placeAll_eq hd] at hrow
    exact served_of_deployed hd (fun id' => by simp [Tables.empty]) hids (hfaults call (by simp)) (stock_of_row hrow)
      hpos hle

/-- Without the table of the orders it works only as long as there is nothing to serve. -/
theorem works_iff_of_missing {e : PgError} (hi : HasInventory cfg.catalog cfg.backend)
    (hmissing : cfg.catalog.find cfg.backend.ordersTable = .error e) (calls : List CreateOrderCall) :
    Works cfg batches calls ↔ ∀ call ∈ calls, ∀ inventory ∈ batches.flatten, inventory.itemId = call.itemId →
      0 < call.qty.toInt → inventory.quantity.toInt < call.qty.toInt := by
  have hplace := placeAll_without_orders hmissing
  have hseed := seed_empty hn hi
  constructor
  · intro hworks call hcall inventory hmem hitem hpos
    by_contra hlt
    obtain ⟨before, after', rfl⟩ := List.append_of_mem hcall
    have hstock : placeAll cfg before (seed cfg batches fun _ => none) (cfg.backend.inventoryKey call.itemId) =
        some (inventoryRow call.itemId inventory.quantity) := by
      rw [hplace, hseed, Tables.store_inventoryKey, ← hitem, Tables.stock_mem hn hmem]
      rfl
    have hserved := hworks.served before call after' inventory.quantity rfl hstock hpos (Int.not_lt.1 hlt)
    exact (runAlone_without_orders hmissing call _).2 _ _ hserved.1
  · intro hcond
    refine ⟨fun _ _ _ hb => seeding_commits hn hi hb, fun before call after' q hcalls hrow hpos hle => ?_⟩
    rw [hplace, hseed] at hrow
    obtain ⟨inventory, hmem, hitem, rfl⟩ := Tables.stock_some hn rfl (stock_of_row hrow)
    have hlt := hcond call (by simp [hcalls]) inventory hmem hitem hpos
    omega

end

/-- **A stack on the schema of its own migrations.** The migrations apply; and the stack works on
the schema exactly when it is the sqlx stack, or no command asks for what the seeded stock covers. -/
theorem migrations_iff (b : Backend) (free : Bool) (p : BuildProfile) (batches : List (List Inventory))
    (calls : List CreateOrderCall) (hitems : (batches.flatten.map (·.itemId)).Nodup)
    (hids : (calls.map (·.orderId)).Nodup) (hfaults : ∀ call ∈ calls, call.faults = .none) :
    ∃ cat, b.migrate = .ok cat ∧ (Works ⟨b, cat, free, p⟩ batches calls ↔ b = .sqlx ∨
      ∀ call ∈ calls, ∀ inventory ∈ batches.flatten, inventory.itemId = call.itemId → 0 < call.qty.toInt →
        inventory.quantity.toInt < call.qty.toInt) := by
  obtain ⟨cat, hcat, hi⟩ := b.migrate_ok
  refine ⟨cat, hcat, ?_⟩
  let cfg : Config := ⟨b, cat, free, p⟩
  cases b with
  | sqlx =>
    have hd : Deployed cfg.catalog cfg.backend := Backend.sqlx_migrated hcat
    exact iff_of_true (works_of_deployed hitems hd hids hfaults) (.inl rfl)
  | seaOrm =>
    have hmissing : cfg.catalog.find cfg.backend.ordersTable = .error _ := Backend.seaOrm_migrated hcat
    have hi : HasInventory cfg.catalog cfg.backend := hi
    exact (works_iff_of_missing hitems hi hmissing calls).trans (by simp)

/-- An item with a stock of 5, and a command for 3 of it. -/
def shelf : List (List Inventory) := [[⟨⟨7⟩, 5⟩]]

def purchase : List CreateOrderCall := [⟨⟨⟨7⟩, 3⟩, ⟨1⟩, .none⟩]

theorem migrations_iff_purchase : ∃ cat, Backend.sqlx.migrate = .ok cat ∧
    (Works ⟨.sqlx, cat, true, .dev⟩ shelf purchase ↔ Backend.sqlx = .sqlx ∨
      ∀ call ∈ purchase, ∀ inventory ∈ shelf.flatten, inventory.itemId = call.itemId → 0 < call.qty.toInt →
        inventory.quantity.toInt < call.qty.toInt) :=
  migrations_iff .sqlx true .dev shelf purchase (by decide) (by decide) (by simp [purchase])

/-- On SeaORM's schema the same command fails on a table that is not there. -/
theorem migrations_miss_orders : ∃ cat, Backend.seaOrm.migrate = .ok cat ∧
    cat.tables.map (·.1) = [⟨"poc_for_sea_orm", "inventory"⟩, ⟨"poc_for_sea_orm", "order"⟩] ∧
    ((createOrder .dev ⟨⟨⟨7⟩, 3⟩, ⟨1⟩, .none⟩).runAlone ⟨.seaOrm, cat, true, .dev⟩
      (seed ⟨.seaOrm, cat, true, .dev⟩ shelf fun _ => none)).1 =
        .returned (.error (.seaOrm (.runtime (.undefinedTable ⟨"poc_for_sea_orm", "orders"⟩)))) none ∧
    ¬ Works ⟨.seaOrm, cat, true, .dev⟩ shelf purchase := by
  refine ⟨_, rfl, rfl, rfl, fun h => ?_⟩
  have hserved := (h.served [] ⟨⟨⟨7⟩, 3⟩, ⟨1⟩, .none⟩ [] 5 rfl rfl (by decide) (by decide)).1
  cases hserved

end TransactionManager
