import TransactionManager.AppendOnly
/-
# What a block may rely on

At READ COMMITTED a row may change between two reads of one block. Some do not: the row of an item that the
block has read FOR UPDATE, or created, is its own until it ends, and an order it has seen is for good. The
`Memory` of a block is what its calls have told of these rows, its own writes included. Whatever other blocks
run meanwhile, contexts that escape included, every later answer agrees with it (`memory_reliable`).
-/

namespace TransactionManager

open RowStore RustInt Run

/-! ## Memory -/

/-- The stock of the items whose row is the block's own, and the orders it has seen. -/
structure Memory where
  stock : ItemId → Option Int32
  order : OrderId → Option Order

namespace Memory

def blank : Memory := ⟨fun _ => none, fun _ => none⟩

def keepStock (m : Memory) (inventory : Inventory) : Memory :=
  { m with stock := Function.update m.stock inventory.itemId (some inventory.quantity) }

def keepOrder (m : Memory) (order : Order) : Memory :=
  { m with order := Function.update m.order order.id (some order) }

/-- The memory after a call. A plain read tells nothing that lasts, and an update tells the stock only of a
row that is known to be there. -/
def learn (m : Memory) : Exchange → Memory
  | ⟨.findByItemIdForUpdate _, .ok (some inventory)⟩ => m.keepStock inventory
  | ⟨.createInventory inventory, .ok _⟩ => m.keepStock inventory
  | ⟨.updateInventory inventory, .ok _⟩ => if (m.stock inventory.itemId).isSome then m.keepStock inventory else m
  | ⟨.findOrderById _, .ok (some order)⟩ => m.keepOrder order
  | ⟨.createOrder order, .ok _⟩ => m.keepOrder order
  | _ => m

/-- The answer agrees with the memory: a finder finds what is known, nothing that is known is created once
more, and no update misses a row that is known. -/
def Agrees (m : Memory) : Exchange → Prop
  | ⟨.findByItemIdForUpdate itemId, .ok found⟩ => ∀ q, m.stock itemId = some q → found = some ⟨itemId, q⟩
  | ⟨.findByItemId itemId, .ok found⟩ => ∀ q, m.stock itemId = some q → found = some ⟨itemId, q⟩
  | ⟨.createInventory inventory, .ok _⟩ => m.stock inventory.itemId = none
  | ⟨.updateInventory inventory, .error (.seaOrm .recordNotUpdated)⟩ => m.stock inventory.itemId = none
  | ⟨.findOrderById id, .ok found⟩ => ∀ order, m.order id = some order → found = some order
  | ⟨.createOrder order, .ok _⟩ => m.order order.id = none
  | _ => True

end Memory

/-- The memory of a block after its calls. -/
def remembered (xs : List Exchange) : Memory := xs.foldl Memory.learn .blank

theorem remembered_concat (xs : List Exchange) (x : Exchange) :
    remembered (xs ++ [x]) = (remembered xs).learn x := by simp [remembered]

/-! ## Orders and their rows -/

namespace Order

/-- Whatever is found in the row of an order is the order. -/
theorem found_ok {order : Order} {r : Option Order} (h : order.found = .ok r) : r = some order := by
  by_cases hpos : 0 < order.quantity.toI32.toInt
  · have hback : OrderQuantity.ofPos order.quantity.toI32 hpos = order.quantity := by
      simp [OrderQuantity.ofPos, OrderQuantity.toI32]
    simp only [found, foundOrder, OrderQuantity.tryFrom_of_pos hpos, hback] at h
    cases h
    rfl
  · simp only [found, foundOrder, OrderQuantity.tryFrom_of_nonpos (Int.not_lt.1 hpos)] at h
    cases h

end Order

theorem orderRow_inj {id : OrderId} {o o' : OrderRow} (h : orderRow id o = orderRow id o') : o = o' := by
  obtain ⟨⟨item⟩, quantity⟩ := o
  obtain ⟨⟨item'⟩, quantity'⟩ := o'
  simpa [orderRow] using h

/-- The order found in a row has that row. -/
theorem foundOrder_row {id : OrderId} {o : OrderRow} {order : Order} (h : foundOrder id o = .ok (some order)) :
    order.id = id ∧ order.row = orderRow id o := by
  by_cases hpos : 0 < o.quantity.toInt
  · simp only [foundOrder, OrderQuantity.tryFrom_of_pos hpos] at h
    cases h
    exact ⟨rfl, by simp [Order.row]⟩
  · simp only [foundOrder, OrderQuantity.tryFrom_of_nonpos (Int.not_lt.1 hpos)] at h
    cases h

theorem foundInventory_ok {x : ItemId} {q : Int32} {found : Option Inventory} (h : foundInventory x q = .ok found) :
    found = some ⟨x, q⟩ := by
  by_cases hq : 0 ≤ q.toInt
  · rw [foundInventory_of_nonneg hq] at h
    cases h
    rfl
  · rw [foundInventory_of_neg (Int.not_le.1 hq)] at h
    cases h

/-! ## What the memory is worth -/

/-- The memory is right: what it knows of the stock is in rows that the transaction has locked, and the orders
it knows are in rows that the transaction sees. -/
structure Recalls (b : Backend) (m : Memory) (tx : PgTx) (db : Db) : Prop where
  stock : ∀ x q, m.stock x = some q →
    b.inventoryKey x ∈ tx.locks ∧ tx.sees db (b.inventoryKey x) = some (inventoryRow x q)
  order : ∀ id order, m.order id = some order → order.id = id ∧ tx.sees db (b.orderKey id) = some order.row

theorem recalls_blank (b : Backend) (tx : PgTx) (db : Db) : Recalls b .blank tx db where
  stock _ _ h := by cases h
  order _ _ h := by cases h

section
variable {b : Backend} {m : Memory} {tx : PgTx} {db : Db}

theorem Recalls.unknown (h : Recalls b m tx db) {x : ItemId} (hs : tx.sees db (b.inventoryKey x) = none) :
    m.stock x = none := by
  by_contra hne
  obtain ⟨q, hq⟩ := Option.ne_none_iff_exists'.1 hne
  rw [(h.stock x q hq).2] at hs
  cases hs

theorem Recalls.unknown_order (h : Recalls b m tx db) {id : OrderId} (hs : tx.sees db (b.orderKey id) = none) :
    m.order id = none := by
  by_contra hne
  obtain ⟨order, horder⟩ := Option.ne_none_iff_exists'.1 hne
  rw [(h.order id order horder).2] at hs
  cases hs

theorem Recalls.known (h : Recalls b m tx db) {x : ItemId} {q q' : Int32}
    (hs : tx.sees db (b.inventoryKey x) = some (inventoryRow x q)) (hq : m.stock x = some q') : q' = q := by
  have hrow := (h.stock x q' hq).2.symm.trans hs
  simpa [inventoryRow] using hrow

theorem Recalls.lock (h : Recalls b m tx db) (k : Key) : Recalls b m (tx.lock k) db :=
  ⟨fun x q hq => ⟨List.mem_cons_of_mem k (h.stock x q hq).1, (h.stock x q hq).2⟩, h.order⟩

/-- The row of an item is locked or written, and its stock is known. -/
theorem Recalls.keepStock {tx' : PgTx} {inventory : Inventory} (h : Recalls b m tx db)
    (hlocks : tx'.locks = b.inventoryKey inventory.itemId :: tx.locks)
    (hself : tx'.sees db (b.inventoryKey inventory.itemId) = some (inventoryRow inventory.itemId inventory.quantity))
    (hother : ∀ k, k ≠ b.inventoryKey inventory.itemId → tx'.sees db k = tx.sees db k) :
    Recalls b (m.keepStock inventory) tx' db where
  stock x q hq := by
    by_cases hx : x = inventory.itemId
    · subst hx
      simp only [Memory.keepStock, Function.update_self, Option.some.injEq] at hq
      subst hq
      exact ⟨by rw [hlocks]; exact List.mem_cons_self, hself⟩
    · simp only [Memory.keepStock, Function.update_of_ne hx] at hq
      obtain ⟨hlocked, hs⟩ := h.stock x q hq
      refine ⟨by rw [hlocks]; exact List.mem_cons_of_mem _ hlocked, ?_⟩
      rw [hother _ fun e => hx (Backend.inventoryKey_inj.1 e), hs]
  order id order horder := by
    obtain ⟨hid, hs⟩ := h.order id order horder
    exact ⟨hid, by rw [hother _ (Ne.symm (b.inventoryKey_ne_orderKey _ _)), hs]⟩

theorem Recalls.writeStock (h : Recalls b m tx db) (inventory : Inventory) :
    Recalls b (m.keepStock inventory)
      (tx.write (b.inventoryKey inventory.itemId) (inventoryRow inventory.itemId inventory.quantity)) db :=
  h.keepStock rfl (by rw [Tx.sees_write, put_self]) fun k hk => by rw [Tx.sees_write, put_ne _ hk]

/-- A write to a row of which nothing is known. -/
theorem Recalls.writeUnknown (h : Recalls b m tx db) {x : ItemId} (hx : m.stock x = none) (row : Row) :
    Recalls b m (tx.write (b.inventoryKey x) row) db where
  stock y q hq := by
    obtain ⟨hlocked, hs⟩ := h.stock y q hq
    have hne : b.inventoryKey y ≠ b.inventoryKey x := fun e => by
      rw [Backend.inventoryKey_inj.1 e, hx] at hq
      cases hq
    exact ⟨List.mem_cons_of_mem _ hlocked, by rw [Tx.sees_write, put_ne _ hne, hs]⟩
  order id order horder := by
    obtain ⟨hid, hs⟩ := h.order id order horder
    exact ⟨hid, by rw [Tx.sees_write, put_ne _ (Ne.symm (b.inventoryKey_ne_orderKey _ _)), hs]⟩

theorem Recalls.keepOrder {tx' : PgTx} {order : Order} (h : Recalls b m tx db) (hlocks : ∀ k ∈ tx.locks, k ∈ tx'.locks)
    (hself : tx'.sees db (b.orderKey order.id) = some order.row)
    (hother : ∀ k, k ≠ b.orderKey order.id → tx'.sees db k = tx.sees db k) : Recalls b (m.keepOrder order) tx' db where
  stock x q hq := by
    obtain ⟨hlocked, hs⟩ := h.stock x q hq
    exact ⟨hlocks _ hlocked, by rw [hother _ (b.inventoryKey_ne_orderKey _ _), hs]⟩
  order id order' horder := by
    by_cases hid : id = order.id
    · subst hid
      simp only [Memory.keepOrder, Function.update_self, Option.some.injEq] at horder
      subst horder
      exact ⟨rfl, hself⟩
    · simp only [Memory.keepOrder, Function.update_of_ne hid] at horder
      obtain ⟨hid', hs⟩ := h.order id order' horder
      exact ⟨hid', by rw [hother _ fun e => hid (Backend.orderKey_inj.1 e), hs]⟩

end

section
variable {cfg : Config} {m : Memory} {db : Db} {tx tx' : PgTx} {c : RepoCall} {r : Except Error c.Reply}

theorem agrees_error (m : Memory) (b : Backend) (c : RepoCall) (e : PgError) :
    m.Agrees ⟨c, .error (b.driverError e)⟩ := by cases b <;> cases c <;> trivial

/-- An update that finds no row agrees with knowing nothing of it, and tells nothing. -/
theorem Memory.missed (b : Backend) {inventory : Inventory} (h : m.stock inventory.itemId = none) :
    m.Agrees ⟨.updateInventory inventory, b.missedUpdate inventory⟩ ∧
      m.learn ⟨.updateInventory inventory, b.missedUpdate inventory⟩ = m := by
  cases b with
  | sqlx => exact ⟨trivial, by simp [learn, Backend.missedUpdate, h]⟩
  | seaOrm => exact ⟨h, rfl⟩

/-- **One call.** Its answer agrees with the memory, and leaves a memory that is right. -/
theorem Recalls.call (hd : Deployed cfg.catalog cfg.backend) (ht : Tables.Typed cfg.backend (tx.sees db))
    (h : tx.aborted = false → Recalls cfg.backend m tx db) {fault : Option PgError}
    (hcall : callRepo cfg db tx fault c = (r, tx')) :
    m.Agrees ⟨c, r⟩ ∧ (tx'.aborted = false → Recalls cfg.backend (m.learn ⟨c, r⟩) tx' db) := by
  cases fault with
  | some e =>
    rw [call_fault] at hcall
    cases hcall
    exact ⟨agrees_error m _ c e, fun ha => by simp at ha⟩
  | none =>
    cases ha : tx.aborted with
    | true =>
      rw [call_aborted ha] at hcall
      cases hcall
      exact ⟨agrees_error m _ c _, fun hact => by rw [ha] at hact; cases hact⟩
    | false =>
      have hm := h ha
      cases c with
      | findByItemIdForUpdate x =>
        cases hs : tx.sees db (cfg.backend.inventoryKey x) with
        | none =>
          rw [call_findForUpdate_none hd.inventory ha hs] at hcall
          cases hcall
          exact ⟨fun q hq => (by rw [hm.unknown hs] at hq; cases hq), fun _ => hm⟩
        | some row =>
          obtain ⟨q, rfl⟩ := ht.1 x row hs
          rw [call_findForUpdate_some hd.inventory ha hs] at hcall
          cases hf : foundInventory x q with
          | error e =>
            rw [hf] at hcall
            cases hcall
            exact ⟨trivial, fun _ => hm.lock _⟩
          | ok found =>
            obtain rfl := foundInventory_ok hf
            rw [hf] at hcall
            cases hcall
            exact ⟨fun q' hq' => by rw [hm.known hs hq'], fun _ => hm.keepStock rfl hs fun _ _ => rfl⟩
      | findByItemId x =>
        cases hs : tx.sees db (cfg.backend.inventoryKey x) with
        | none =>
          rw [call_find_none hd.inventory ha hs] at hcall
          cases hcall
          exact ⟨fun q hq => (by rw [hm.unknown hs] at hq; cases hq), fun _ => hm⟩
        | some row =>
          obtain ⟨q, rfl⟩ := ht.1 x row hs
          rw [call_find_some hd.inventory ha hs] at hcall
          cases hf : foundInventory x q with
          | error e =>
            rw [hf] at hcall
            cases hcall
            exact ⟨trivial, fun _ => hm⟩
          | ok found =>
            obtain rfl := foundInventory_ok hf
            rw [hf] at hcall
            cases hcall
            exact ⟨fun q' hq' => by rw [hm.known hs hq'], fun _ => hm⟩
      | createInventory inventory =>
        cases hs : tx.sees db (cfg.backend.inventoryKey inventory.itemId) with
        | none =>
          rw [call_createInventory_none hd.inventory ha hs] at hcall
          cases hcall
          exact ⟨hm.unknown hs, fun _ => hm.writeStock inventory⟩
        | some row =>
          rw [call_createInventory_some hd.inventory ha hs] at hcall
          cases hcall
          exact ⟨agrees_error m _ _ _, fun hact => by simp at hact⟩
      | updateInventory inventory =>
        cases hs : tx.sees db (cfg.backend.inventoryKey inventory.itemId) with
        | none =>
          -- nothing is known of the row, so nothing is learnt of it
          have hnone := hm.unknown hs
          rw [call_update_none hd.inventory ha hs] at hcall
          cases hcall
          obtain ⟨hagrees, hlearn⟩ := Memory.missed cfg.backend hnone
          exact ⟨hagrees, fun _ => by rw [hlearn]; exact hm⟩
        | some row =>
          obtain ⟨q, rfl⟩ := ht.1 _ row hs
          rw [call_update_some hd.inventory ha hs] at hcall
          cases hcall
          refine ⟨trivial, fun _ => ?_⟩
          simp only [Memory.learn]
          split
          · exact hm.writeStock inventory
          · rename_i hunknown
            exact hm.writeUnknown (by simpa using hunknown) _
      | findOrderById id =>
        cases hs : tx.sees db (cfg.backend.orderKey id) with
        | none =>
          rw [call_findOrder_none ha hd.orders hs] at hcall
          cases hcall
          exact ⟨fun order horder => (by rw [hm.unknown_order hs] at horder; cases horder), fun _ => hm⟩
        | some row =>
          obtain ⟨o, rfl⟩ := ht.2 id row hs
          rw [call_findOrder_some ha hd.orders hs] at hcall
          cases hf : foundOrder id o with
          | error e =>
            rw [hf] at hcall
            cases hcall
            exact ⟨trivial, fun _ => hm⟩
          | ok found =>
            rw [hf] at hcall
            cases hcall
            refine ⟨fun order horder => ?_, fun _ => ?_⟩
            · obtain ⟨rfl, hrow⟩ := hm.order id order horder
              have ho := orderRow_inj (Option.some.inj (hs.symm.trans hrow))
              rw [ho] at hf
              exact Order.found_ok hf
            · cases found with
              | none => exact hm
              | some order =>
                obtain ⟨rfl, hrow⟩ := foundOrder_row hf
                exact hm.keepOrder (fun _ hk => hk) (hs.trans (by rw [hrow])) fun _ _ => rfl
      | createOrder order =>
        cases hs : tx.sees db (cfg.backend.orderKey order.id) with
        | none =>
          rw [call_createOrder_none ha hd.orders hs] at hcall
          cases hcall
          refine ⟨hm.unknown_order hs, fun _ => hm.keepOrder (fun k hk => List.mem_cons_of_mem _ hk) ?_ fun k hk => ?_⟩
          · rw [Tx.sees_write, put_self]
            rfl
          · rw [Tx.sees_write, put_ne _ hk]
        | some row =>
          rw [call_createOrder_some ha hd.orders hs] at hcall
          cases hcall
          exact ⟨agrees_error m _ _ _, fun hact => by simp at hact⟩

end

/-! ## Every run -/

namespace State

variable {ι α : Type} [DecidableEq ι] [Fintype ι] {cfg : Config} {jobs : ι → Job α} {s s' : State ι α} {t₀ : Tables}
  {i : ι} {m : Memory} {tx : PgTx}

/-- **The frame.** What others do leaves the rows alone that `i` knows. -/
theorem recalls_frame (hreg : s.Regular cfg) {a : Action ι} (hstep : s.step cfg jobs a = some s') (hi : i ≠ a.caller)
    (htx : s.openTx i = some tx) (h : Recalls cfg.backend m tx s.committed) :
    Recalls cfg.backend m tx s'.committed where
  stock x q hq := by
    obtain ⟨hlocked, hs⟩ := h.stock x q hq
    exact ⟨hlocked, (sees_congr (step_frame hreg.sound hstep hi htx hlocked)) ▸ hs⟩
  order id order horder := by
    obtain ⟨hid, hs⟩ := h.order id order horder
    refine ⟨hid, ?_⟩
    cases hw : tx.writes (cfg.backend.orderKey id) with
    | some row =>
      rw [Tx.sees, overlay_of_some hw] at hs ⊢
      exact hs
    | none =>
      rw [Tx.sees, overlay_of_none hw] at hs ⊢
      exact order_stays hreg hstep hs

variable (hd : Deployed cfg.catalog cfg.backend) {as : List (Action ι)}
include hd

/-- The memory of a block that is going on is right. -/
theorem recalls_run (h : run (step cfg jobs) (init (t₀.store cfg.backend)) as = some s) (i : ι) :
    (s.phase i).live = true → ∀ tx, s.openTx i = some tx → tx.aborted = false →
      Recalls cfg.backend (remembered (callsOf cfg jobs (t₀.store cfg.backend) as i)) tx s.committed := by
  refine run_history (fun as s => (s.phase i).live = true → ∀ tx, s.openTx i = some tx → tx.aborted = false →
    Recalls cfg.backend (remembered (callsOf cfg jobs (t₀.store cfg.backend) as i)) tx s.committed)
    (fun _ tx htx => by cases htx) ?_ as h
  intro as s a s' hrun ih hstep hlive tx htx hact
  have hreg : s.Regular cfg := regular_run hd (regular_init cfg t₀) hrun
  by_cases hi : i = a.caller
  · rcases callsOf_concat hrun hstep i with
      ⟨hsame, hbegun⟩ | ⟨c, kont, n, calls, tx₀, fault, r, tx', hp, -, hcall, hdb, hopen, hnew⟩
    · obtain ⟨hp, -⟩ := hbegun hi hlive tx htx
      have hnil : callsOf cfg jobs (t₀.store cfg.backend) as i = [] := (hp ▸ history_run hrun i).exchanges_created
      rw [hsame, hnil]
      exact recalls_blank _ _ _
    · have hopen₀ : s.openTx i = some tx₀ := by rw [openTx, hp]; rfl
      obtain rfl := hopen tx htx
      rw [hnew, remembered_concat, hdb]
      exact (Recalls.call hd (hreg.typed.sees hopen₀) (ih (by rw [hp]; rfl) tx₀ hopen₀) hcall).2 hact
  · rw [step_phase_ne hstep hi] at hlive
    rw [step_openTx_ne hstep hi] at htx
    rw [callsOf_other hrun hstep hi]
    exact recalls_frame hreg hstep hi htx (ih hlive tx htx hact)

/-- Every answer agrees with what the calls before it have told. -/
theorem agrees_run (h : run (step cfg jobs) (init (t₀.store cfg.backend)) as = some s) (i : ι) :
    ∀ before x after, callsOf cfg jobs (t₀.store cfg.backend) as i = before ++ x :: after →
      (remembered before).Agrees x := by
  refine run_history (fun as _ => ∀ before x after, callsOf cfg jobs (t₀.store cfg.backend) as i = before ++ x :: after →
    (remembered before).Agrees x) (fun before x after hnil => by simp [callsOf, trace, exchanges] at hnil) ?_ as h
  intro as s a s' hrun ih hstep before x after hsplit
  rcases callsOf_concat hrun hstep i with
    ⟨hsame, -⟩ | ⟨c, kont, n, calls, tx₀, fault, r, tx', hp, -, hcall, -, -, hnew⟩
  · exact ih before x after (hsame ▸ hsplit)
  · rw [hnew] at hsplit
    rcases List.eq_nil_or_concat after with rfl | ⟨after, y, rfl⟩
    · obtain ⟨rfl, hx⟩ := List.append_inj' hsplit rfl
      cases hx
      have hreg : s.Regular cfg := regular_run hd (regular_init cfg t₀) hrun
      have hopen : s.openTx i = some tx₀ := by rw [openTx, hp]; rfl
      exact (Recalls.call hd (hreg.typed.sees hopen) (recalls_run hd hrun i (by rw [hp]; rfl) tx₀ hopen) hcall).1
    · rw [List.concat_eq_append, ← List.cons_append, ← List.append_assoc] at hsplit
      exact ih before x after (List.append_inj' hsplit rfl).1

/-- **The memory of a block is reliable.** In every run of any blocks, contexts that escape included: every
answer that a block gets agrees with what its calls before have told, and while the block is going on its
memory is right about the tables. -/
theorem memory_reliable (h : run (step cfg jobs) (init (t₀.store cfg.backend)) as = some s) (i : ι) :
    (∀ before x after, callsOf cfg jobs (t₀.store cfg.backend) as i = before ++ x :: after →
      (remembered before).Agrees x) ∧
    ((s.phase i).live = true → ∀ tx, s.openTx i = some tx → tx.aborted = false →
      Recalls cfg.backend (remembered (callsOf cfg jobs (t₀.store cfg.backend) as i)) tx s.committed) :=
  ⟨agrees_run hd h i, recalls_run hd h i⟩

end State

/-- A block that reads the item FOR UPDATE and once more, and one that writes it without having read it. -/
def stocktaking : Bool → Job Unit
  | false => ⟨.ok (Closure.moved do
      let _ ← Closure.await (.findByItemIdForUpdate ⟨7⟩)
      let _ ← Closure.await (.findByItemId ⟨7⟩)), .none⟩
  | true => ⟨.ok (Closure.moved do let _ ← Closure.await (.updateInventory ⟨⟨7⟩, 9⟩)), .none⟩

/-- The writer begins between the two reads. -/
def interrupted : List (Action Bool) := [.poll false, .poll false, .poll true, .poll false, .poll false, .poll true]

theorem stocktaking_runs : (run (State.step (Makefile.config .sqlx) stocktaking) (.init (stocked.store .sqlx))
    interrupted).isSome := by decide +kernel

theorem stocktaking_calls : State.callsOf (Makefile.config .sqlx) stocktaking (stocked.store .sqlx) interrupted false =
    [⟨.findByItemIdForUpdate ⟨7⟩, .ok (some ⟨⟨7⟩, 5⟩)⟩, ⟨.findByItemId ⟨7⟩, .ok (some ⟨⟨7⟩, 5⟩)⟩] := rfl

theorem State.memory_reliable_stocktaking :
    (remembered [⟨.findByItemIdForUpdate ⟨7⟩, .ok (some ⟨⟨7⟩, 5⟩)⟩]).Agrees
      ⟨.findByItemId ⟨7⟩, .ok (some ⟨⟨7⟩, 5⟩)⟩ :=
  (State.memory_reliable (Makefile.deployed .sqlx) (Option.some_get stocktaking_runs).symm false).1 _ _ []
    stocktaking_calls

end TransactionManager
