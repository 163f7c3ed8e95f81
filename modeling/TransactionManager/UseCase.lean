import TransactionManager.Transaction
/-
# `OrderManagementUseCase::create_order` (`use_case/src/order_management.rs:37-72`)

The closure is written in the monad of `Closure`: a bind is `.await?`, an `Err` ends the
closure. `moved` is the `async move` block around it: the captured context goes when the
future completes, on whichever path.
-/

namespace TransactionManager

open RowStore RustInt

/-! ## Closures as programs with `?` -/

namespace Closure

variable {α β : Type}

def bind : Closure α → (α → Closure β) → Closure β
  | .ret (.ok v), g => g v
  | .ret (.error e), _ => .ret (.error e)
  | .panic, _ => .panic
  | .call c k, g => .call c fun r => (k r).bind g
  | .clone k, g => .clone (k.bind g)
  | .drop k, g => .drop (k.bind g)
  | .lend k, g => .lend (k.bind g)
  | .reclaim k, g => .reclaim (k.bind g)

instance : Monad Closure where
  pure v := .ret (.ok v)
  bind := Closure.bind

/-- `repository.method(&db_context, ..).await?`. -/
def await (c : RepoCall) : Closure c.Reply := .call c .ret

/-- An `async move` block that has captured the context. -/
def moved : Closure α → Closure α
  | .ret r => .drop (.ret r)
  | .panic => .panic
  | .call c k => .call c fun r => (k r).moved
  | .clone k => .clone k.moved
  | .drop k => .drop k.moved
  | .lend k => .lend k.moved
  | .reclaim k => .reclaim k.moved

end Closure

/-! ## `create_order` -/

/-- One call of `create_order`: the command, what `OrderId::new()` draws, the failures. -/
structure CreateOrderCall where
  command : CreateOrderCommand
  orderId : OrderId
  faults : Faults

namespace CreateOrderCall

def itemId (call : CreateOrderCall) : ItemId := call.command.itemId

/-- The ordered quantity as the command has it. -/
def qty (call : CreateOrderCall) : Int32 := call.command.quantity

/-- The order a valid command makes; an invalid one never gets to the repositories. -/
def order (call : CreateOrderCall) : Order where
  id := call.orderId
  itemId := call.itemId
  quantity := if h : 0 < call.qty.toInt then .ofPos call.qty h else ⟨1, by decide⟩

@[simp] theorem order_id (call : CreateOrderCall) : call.order.id = call.orderId := rfl

theorem order_of_pos {call : CreateOrderCall} (h : 0 < call.qty.toInt) :
    call.order = ⟨call.orderId, call.itemId, .ofPos call.qty h⟩ := by
  simp [order, h]

theorem order_toI32 {call : CreateOrderCall} (h : 0 < call.qty.toInt) : call.order.quantity.toI32 = call.qty := by
  simp [order_of_pos h]

theorem order_toNat {call : CreateOrderCall} (h : 0 < call.qty.toInt) :
    (call.order.quantity.value.toNat : Int) = call.qty.toInt := by
  rw [order_of_pos h]
  exact toNat_toUInt32_of_nonneg (Int.le_of_lt h)

end CreateOrderCall

/-- `.ok_or_else(|| anyhow!("Inventory not found for item: {}", order.item_id()))?`. -/
def foundOr (order : Order) : Option Inventory → Closure Inventory
  | some inventory => .ret (.ok inventory)
  | none => .ret (.error (.inventoryNotFound order.itemId))

/-- `inventory.decrease_stock(inventory_quantity)?`: the decreased aggregate. -/
def decreased (p : BuildProfile) (inventory : Inventory) (amount : InventoryQuantity) : Closure Inventory :=
  match inventory.decreaseStock p amount with
  | some (.ok (), inventory') => .ret (.ok inventory')
  | some (.error e, _) => .ret (.error (.inventory e))
  | none => .panic

/-- The closure from the update on. -/
def persist (order : Order) (inventory : Inventory) : Closure Order := do
  let _ ← Closure.await (.updateInventory inventory)
  let createdOrder ← Closure.await (.createOrder order)
  return createdOrder

/-- The closure from the answer of the locked read on. -/
def reserve (p : BuildProfile) (order : Order) (found : Option Inventory) : Closure Order := do
  let inventory ← foundOr order found
  let inventoryQuantity ←
    Closure.ret ((InventoryQuantity.tryFrom order.quantity.toI32).mapError .inventoryQuantity)
  let inventory ← decreased p inventory inventoryQuantity
  persist order inventory

/-- The body of the closure passed to `transaction`. -/
def createOrderBody (p : BuildProfile) (order : Order) : Closure Order := do
  let found ← Closure.await (.findByItemIdForUpdate order.itemId)
  reserve p order found

/-- `create_order`: `Order::try_from(command)?`, then the transaction block. -/
def createOrder (p : BuildProfile) (call : CreateOrderCall) : Job Order where
  start := ((Order.tryFrom call.orderId call.command).mapError .orderQuantity).map fun order =>
    (createOrderBody p order).moved
  faults := call.faults

/-! ## The closure between its calls -/

/-- The closure once the locked read has answered. -/
def afterFind (p : BuildProfile) (order : Order) (r : Except Error (Option Inventory)) : Closure Order :=
  ((Closure.ret r).bind (reserve p order)).moved

/-- The closure once the update has answered. -/
def afterUpdate (order : Order) (r : Except Error Inventory) : Closure Order :=
  ((Closure.ret r).bind fun _ => Closure.await (.createOrder order)).moved

/-- The closure once the insert of the order has answered. -/
def afterCreate (r : Except Error Order) : Closure Order := (Closure.ret r).moved

variable {p : BuildProfile} {order : Order}

theorem poll_afterFind_error (e : Error) : (afterFind p order (.error e)).poll .given = .ready (.error e) 0 := rfl

theorem poll_afterFind_none :
    (afterFind p order (.ok none)).poll .given = .ready (.error (.inventoryNotFound order.itemId)) 0 := rfl

theorem poll_afterUpdate_error (e : Error) : (afterUpdate order (.error e)).poll .given = .ready (.error e) 0 := rfl

theorem poll_afterUpdate_ok (inventory : Inventory) :
    (afterUpdate order (.ok inventory)).poll .given = .pending (.createOrder order) afterCreate .given := rfl

theorem poll_afterCreate (r : Except Error Order) : (afterCreate r).poll .given = .ready r 0 := by
  cases r <;> rfl

theorem reserve_some {inventory : Inventory} (hpos : 0 < order.quantity.toI32.toInt) :
    reserve p order (some inventory) =
      (decreased p inventory (.ofPos order.quantity.toI32 hpos)).bind (persist order) := by
  simp only [reserve, InventoryQuantity.tryFrom_of_pos hpos]
  rfl

/-- Enough stock: the decreased aggregate goes to `update`. -/
theorem poll_afterFind_covered {inventory : Inventory} (hpos : 0 < order.quantity.toI32.toInt)
    (h : order.quantity.toI32.toInt ≤ inventory.quantity.toInt) :
    (afterFind p order (.ok (some inventory))).poll .given =
      .pending (.updateInventory { inventory with quantity := inventory.quantity - order.quantity.toI32 })
        (afterUpdate order) .given := by
  have hcast := InventoryQuantity.toI32_ofPos hpos
  have hd := Inventory.decreaseStock_covered p inventory (.ofPos order.quantity.toI32 hpos)
    (by rw [hcast]; omega) (by rw [hcast]; omega)
  rw [hcast] at hd
  simp only [afterFind, Closure.bind, reserve_some hpos, decreased, hd]
  rfl

/-- Not enough stock: the closure ends with the refusal. -/
theorem poll_afterFind_refused {inventory : Inventory} (hpos : 0 < order.quantity.toI32.toInt)
    (h : inventory.quantity.toInt < order.quantity.toI32.toInt) :
    (afterFind p order (.ok (some inventory))).poll .given =
      .ready (.error (.inventory (.insufficientStock inventory.quantity order.quantity.toI32))) 0 := by
  have hcast := InventoryQuantity.toI32_ofPos hpos
  have hd := Inventory.decreaseStock_refused p inventory (.ofPos order.quantity.toI32 hpos)
    (by rw [hcast]; omega)
  rw [hcast] at hd
  simp only [afterFind, Closure.bind, reserve_some hpos, decreased, hd]
  rfl

@[simp] theorem createOrder_faults (p : BuildProfile) (call : CreateOrderCall) :
    (createOrder p call).faults = call.faults := rfl

theorem start_createOrder_of_nonpos {call : CreateOrderCall} (h : call.qty.toInt ≤ 0) :
    (createOrder p call).start = .error (.orderQuantity (.nonPositive call.qty)) := by
  simp only [createOrder, Order.tryFrom_of_nonpos _ h]
  rfl

theorem start_createOrder_of_pos {call : CreateOrderCall} (h : 0 < call.qty.toInt) :
    (createOrder p call).start = .ok (createOrderBody p call.order).moved := by
  rw [CreateOrderCall.order_of_pos h]
  simp only [createOrder, Order.tryFrom_of_pos _ h]
  rfl

end TransactionManager
