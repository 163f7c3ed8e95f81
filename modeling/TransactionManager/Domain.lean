import TransactionManager.Lib.RustInt
/-
# The domain crate: identifiers, quantities, `Inventory`, `Order`

| here | there |
| --- | --- |
| `ItemId`, `OrderId`                       | `item/item_id.rs:3-4`, `order/order_id.rs:3-4`, newtypes over a 128-bit `Uuid` |
| `InventoryQuantity`, `OrderQuantity`      | `inventory/inventory_quantity.rs:1-32`, `order/order_quantity.rs:1-32`, newtypes over `u32` |
| `Inventory.new`, `decreaseStock`, `increaseStock` | `inventory/inventory.rs:10-49` |
| `Order.tryFrom`                           | `order/order.rs:42-49`; the id drawn by `OrderId::new()` is a parameter |

A `&mut self` method returns its `Result` and the value afterwards; `none` is the arithmetic
overflow panic of a build with overflow checks.
-/

namespace TransactionManager

open RustInt

abbrev Uuid := BitVec 128

structure ItemId where
  uuid : Uuid
deriving DecidableEq

structure OrderId where
  uuid : Uuid
deriving DecidableEq

/-! ## Quantities -/

/-- `new(value: u32)` of both quantity types. -/
def newQuantity {Q E : Type} (mk : (value : UInt32) → value ≠ 0 → Q) (zero : E) (value : UInt32) : Except E Q :=
  if h : value = 0 then .error zero else .ok (mk value h)

/-- `TryFrom<i32>` of both quantity types. -/
def quantityTryFrom {Q E : Type} (mk : (value : UInt32) → value ≠ 0 → Q) (nonPositive : Int32 → E)
    (value : Int32) : Except E Q :=
  if h : value ≤ 0 then .error (nonPositive value) else .ok (mk value.toUInt32 (toUInt32_ne_zero h))

inductive InventoryQuantityError where
  | zero
  | nonPositive (value : Int32)
deriving DecidableEq

/-- The field is private: every quantity comes from one of the two constructors. -/
structure InventoryQuantity where
  value : UInt32
  ne_zero : value ≠ 0
deriving DecidableEq

def InventoryQuantity.new : UInt32 → Except InventoryQuantityError InventoryQuantity :=
  newQuantity InventoryQuantity.mk .zero

def InventoryQuantity.tryFrom : Int32 → Except InventoryQuantityError InventoryQuantity :=
  quantityTryFrom InventoryQuantity.mk .nonPositive

/-- `From<InventoryQuantity> for i32`: the cast `q.0 as i32`. -/
def InventoryQuantity.toI32 (q : InventoryQuantity) : Int32 := q.value.toInt32

inductive OrderQuantityError where
  | zero
  | nonPositive (value : Int32)
deriving DecidableEq

structure OrderQuantity where
  value : UInt32
  ne_zero : value ≠ 0
deriving DecidableEq

def OrderQuantity.new : UInt32 → Except OrderQuantityError OrderQuantity :=
  newQuantity OrderQuantity.mk .zero

def OrderQuantity.tryFrom : Int32 → Except OrderQuantityError OrderQuantity :=
  quantityTryFrom OrderQuantity.mk .nonPositive

/-- `From<OrderQuantity> for i32`: the cast `q.0 as i32`. -/
def OrderQuantity.toI32 (q : OrderQuantity) : Int32 := q.value.toInt32

section
variable {Q E : Type} {mk : (value : UInt32) → value ≠ 0 → Q} {zero : E} {nonPositive : Int32 → E} {n : Int32}

theorem not_nonPositive (h : 0 < n.toInt) : ¬ n ≤ 0 := by
  rw [le_zero_iff]
  omega

theorem newQuantity_of_ne {value : UInt32} (h : value ≠ 0) : newQuantity mk zero value = .ok (mk value h) := by
  simp [newQuantity, h]

theorem quantityTryFrom_of_pos (h : 0 < n.toInt) :
    quantityTryFrom mk nonPositive n = .ok (mk n.toUInt32 (toUInt32_ne_zero (not_nonPositive h))) := by
  simp [quantityTryFrom, not_nonPositive h]

theorem quantityTryFrom_of_nonpos (h : n.toInt ≤ 0) : quantityTryFrom mk nonPositive n = .error (nonPositive n) := by
  have hn : n ≤ 0 := le_zero_iff.2 h
  simp [quantityTryFrom, hn]

end

/-- The quantity of a positive `i32`. -/
def InventoryQuantity.ofPos (n : Int32) (h : 0 < n.toInt) : InventoryQuantity :=
  ⟨n.toUInt32, toUInt32_ne_zero (not_nonPositive h)⟩

@[simp] theorem InventoryQuantity.toI32_ofPos {n : Int32} (h : 0 < n.toInt) : (ofPos n h).toI32 = n := by
  simp [ofPos, toI32]

theorem InventoryQuantity.tryFrom_of_pos {n : Int32} (h : 0 < n.toInt) : tryFrom n = .ok (ofPos n h) :=
  quantityTryFrom_of_pos h

/-- The quantity of a positive `i32`. -/
def OrderQuantity.ofPos (n : Int32) (h : 0 < n.toInt) : OrderQuantity :=
  ⟨n.toUInt32, toUInt32_ne_zero (not_nonPositive h)⟩

@[simp] theorem OrderQuantity.toI32_ofPos {n : Int32} (h : 0 < n.toInt) : (ofPos n h).toI32 = n := by
  simp [ofPos, toI32]

theorem OrderQuantity.tryFrom_of_pos {n : Int32} (h : 0 < n.toInt) : tryFrom n = .ok (ofPos n h) :=
  quantityTryFrom_of_pos h

theorem OrderQuantity.tryFrom_of_nonpos {n : Int32} (h : n.toInt ≤ 0) : tryFrom n = .error (.nonPositive n) :=
  quantityTryFrom_of_nonpos h

/-- The quantities are those that `new` builds. -/
theorem InventoryQuantity.new_value (q : InventoryQuantity) : new q.value = .ok q := newQuantity_of_ne q.ne_zero

/-- The quantities are those that `new` builds. -/
theorem OrderQuantity.new_value (q : OrderQuantity) : new q.value = .ok q := newQuantity_of_ne q.ne_zero

theorem OrderQuantity.pos (q : OrderQuantity) : 0 < q.value.toNat :=
  Nat.pos_of_ne_zero fun h => q.ne_zero (UInt32.toNat_inj.1 h)

/-! ## `Inventory` -/

inductive InventoryError where
  | negativeQuantity (quantity : Int32)
  | negativeAmount (amount : Int32)
  | insufficientStock (available requested : Int32)
deriving DecidableEq

structure Inventory where
  itemId : ItemId
  quantity : Int32
deriving DecidableEq

namespace Inventory

def new (itemId : ItemId) (quantity : Int32) : Except InventoryError Inventory :=
  if quantity < 0 then .error (.negativeQuantity quantity) else .ok ⟨itemId, quantity⟩

def decreaseStock (p : BuildProfile) (self : Inventory) (amount : InventoryQuantity) :
    Option (Except InventoryError Unit × Inventory) :=
  let amountI32 := amount.toI32
  if self.quantity < amountI32 then
    some (.error (.insufficientStock self.quantity amountI32), self)
  else (subI32 p self.quantity amountI32).map fun quantity => (.ok (), { self with quantity })

def increaseStock (p : BuildProfile) (self : Inventory) (amount : Int32) :
    Option (Except InventoryError Unit × Inventory) :=
  if amount < 0 then some (.error (.negativeAmount amount), self)
  else (addI32 p self.quantity amount).map fun quantity => (.ok (), { self with quantity })

theorem new_of_nonneg {itemId : ItemId} {q : Int32} (h : 0 ≤ q.toInt) : new itemId q = .ok ⟨itemId, q⟩ := by
  have hq : ¬ q < 0 := by rw [lt_zero_iff]; omega
  simp [new, hq]

theorem new_of_neg {itemId : ItemId} {q : Int32} (h : q.toInt < 0) :
    new itemId q = .error (.negativeQuantity q) := by
  have hq : q < 0 := lt_zero_iff.2 h
  simp [new, hq]

theorem new_ok {itemId : ItemId} {q : Int32} {inventory : Inventory} (h : new itemId q = .ok inventory) :
    inventory = ⟨itemId, q⟩ ∧ 0 ≤ q.toInt := by
  by_cases hq : 0 ≤ q.toInt
  · rw [new_of_nonneg hq] at h
    exact ⟨(Except.ok.inj h).symm, hq⟩
  · rw [new_of_neg (by omega)] at h
    cases h

theorem decreaseStock_refused (p : BuildProfile) (self : Inventory) (amount : InventoryQuantity)
    (h : self.quantity.toInt < amount.toI32.toInt) :
    self.decreaseStock p amount = some (.error (.insufficientStock self.quantity amount.toI32), self) := by
  have hlt : self.quantity < amount.toI32 := Int32.lt_iff_toInt_lt.2 h
  simp [decreaseStock, hlt]

/-- An amount that is positive as `i32` and covered by the stock is subtracted exactly. -/
theorem decreaseStock_covered (p : BuildProfile) (self : Inventory) (amount : InventoryQuantity)
    (h0 : 0 ≤ amount.toI32.toInt) (h : amount.toI32.toInt ≤ self.quantity.toInt) :
    self.decreaseStock p amount =
      some (.ok (), { self with quantity := self.quantity - amount.toI32 }) := by
  have hlt : ¬ self.quantity < amount.toI32 := by rw [Int32.lt_iff_toInt_lt]; omega
  have hmax := self.quantity.toInt_lt
  have hr : InI32 (self.quantity.toInt - amount.toI32.toInt) := ⟨by omega, by omega⟩
  simp [decreaseStock, hlt, subI32_of_inI32 hr]

end Inventory

/-! ## `Order` -/

structure Order where
  id : OrderId
  itemId : ItemId
  quantity : OrderQuantity
deriving DecidableEq

structure CreateOrderCommand where
  itemId : ItemId
  quantity : Int32
deriving DecidableEq

/-- `TryFrom<CreateOrderCommand> for Order`, `id` being what `OrderId::new()` drew. -/
def Order.tryFrom (id : OrderId) (command : CreateOrderCommand) : Except OrderQuantityError Order := do
  let quantity ← OrderQuantity.tryFrom command.quantity
  return ⟨id, command.itemId, quantity⟩

theorem Order.tryFrom_of_pos (id : OrderId) {command : CreateOrderCommand} (h : 0 < command.quantity.toInt) :
    Order.tryFrom id command = .ok ⟨id, command.itemId, .ofPos command.quantity h⟩ := by
  simp only [Order.tryFrom, OrderQuantity.tryFrom_of_pos h]
  rfl

theorem Order.tryFrom_of_nonpos (id : OrderId) {command : CreateOrderCommand} (h : command.quantity.toInt ≤ 0) :
    Order.tryFrom id command = .error (.nonPositive command.quantity) := by
  simp only [Order.tryFrom, OrderQuantity.tryFrom_of_nonpos h]
  rfl

end TransactionManager
