import TransactionManager.Block
/-
# What one repository call can do

`CallStep` is the inversion of `callRepo` on typed rows: a call fails and aborts, is refused on an
aborted transaction, reads, inserts or updates its one row, or is an update that finds no row.
Every invariant of calls, transactions and runs below is a case analysis of it.
-/

namespace TransactionManager

open RowStore Run

/-- The row a write is about, and what it leaves there. -/
def RepoCall.write (b : Backend) : RepoCall → Option (Key × Row)
  | .createInventory inventory | .updateInventory inventory =>
    some (b.inventoryKey inventory.itemId, inventoryRow inventory.itemId inventory.quantity)
  | .createOrder order =>
    some (b.orderKey order.id, orderRow order.id ⟨order.itemId, order.quantity.toI32⟩)
  | .findByItemIdForUpdate _ | .findByItemId _ | .findOrderById _ => none

/-! ## Typed rows -/

namespace Tables

variable {b : Backend} {db top : Db}

theorem Typed.overlay (h : Typed b db) (ht : Typed b top) : Typed b (overlay db top) := by
  constructor
  · intro x row hr
    cases hw : top (b.inventoryKey x) with
    | some v => rw [overlay_of_some hw] at hr; exact ht.1 x row (hw.trans hr)
    | none => rw [overlay_of_none hw] at hr; exact h.1 x row hr
  · intro id row hr
    cases hw : top (b.orderKey id) with
    | some v => rw [overlay_of_some hw] at hr; exact ht.2 id row (hw.trans hr)
    | none => rw [overlay_of_none hw] at hr; exact h.2 id row hr

theorem Typed.put_inventory (h : Typed b db) (x : ItemId) (q : Int32) :
    Typed b (put db (b.inventoryKey x) (inventoryRow x q)) := by
  constructor
  · intro y row hr
    by_cases hy : y = x
    · subst hy
      rw [put_self] at hr
      exact ⟨q, (Option.some.inj hr).symm⟩
    · rw [put_ne _ (fun e => hy (Backend.inventoryKey_inj.1 e))] at hr
      exact h.1 y row hr
  · intro id row hr
    rw [put_ne _ (Ne.symm (b.inventoryKey_ne_orderKey x id))] at hr
    exact h.2 id row hr

theorem Typed.put_order (h : Typed b db) (id : OrderId) (o : OrderRow) :
    Typed b (put db (b.orderKey id) (orderRow id o)) := by
  constructor
  · intro y row hr
    rw [put_ne _ (b.inventoryKey_ne_orderKey y id)] at hr
    exact h.1 y row hr
  · intro j row hr
    by_cases hj : j = id
    · subst hj
      rw [put_self] at hr
      exact ⟨o, (Option.some.inj hr).symm⟩
    · rw [put_ne _ (fun e => hj (Backend.orderKey_inj.1 e))] at hr
      exact h.2 j row hr

/-- A write leaves a typed row. -/
theorem Typed.put_write (h : Typed b db) {c : RepoCall} {k : Key} {row : Row} (hw : c.write b = some (k, row)) :
    Typed b (put db k row) := by
  cases c with
  | createInventory inventory | updateInventory inventory => cases hw; exact h.put_inventory _ _
  | createOrder order => cases hw; exact h.put_order _ _
  | findByItemIdForUpdate | findByItemId | findOrderById => cases hw

end Tables

/-! ## Calls -/

/-- The error is the server's. -/
def Backend.ServerError (b : Backend) (e : Error) : Prop := ∃ pg, e = b.driverError pg

inductive CallStep (cfg : Config) (db : Db) (tx : PgTx) : (c : RepoCall) → Except Error c.Reply → PgTx → Prop where
  | failed (c : RepoCall) (e : PgError) :
      CallStep cfg db tx c (.error (cfg.backend.driverError e)) (tx.abort cfg.freeOnAbort)
  | refused (c : RepoCall) (ha : tx.aborted = true) :
      CallStep cfg db tx c (.error (cfg.backend.driverError .inFailedSqlTransaction)) tx
  | read (c : RepoCall) (r : Except Error c.Reply) (ha : tx.aborted = false) (hw : c.write cfg.backend = none)
      (hr : ∀ e, r = .error e → ¬ cfg.backend.ServerError e) : CallStep cfg db tx c r tx
  | lockedRead (c : RepoCall) (r : Except Error c.Reply) (k : Key) (ha : tx.aborted = false)
      (hw : c.write cfg.backend = none) (hr : ∀ e, r = .error e → ¬ cfg.backend.ServerError e) :
      CallStep cfg db tx c r (tx.lock k)
  | inserted (c : RepoCall) (v : c.Reply) (k : Key) (row : Row) (ha : tx.aborted = false)
      (hw : c.write cfg.backend = some (k, row)) (hs : tx.sees db k = none)
      (hc : ∀ inventory, c ≠ .updateInventory inventory) : CallStep cfg db tx c (.ok v) (tx.write k row)
  | updated (inventory : Inventory) (q : Int32) (ha : tx.aborted = false)
      (hs : tx.sees db (cfg.backend.inventoryKey inventory.itemId) = some (inventoryRow inventory.itemId q)) :
      CallStep cfg db tx (.updateInventory inventory) (.ok inventory)
        (tx.write (cfg.backend.inventoryKey inventory.itemId) (inventoryRow inventory.itemId inventory.quantity))
  | missed (inventory : Inventory) (ha : tx.aborted = false)
      (hs : tx.sees db (cfg.backend.inventoryKey inventory.itemId) = none) :
      CallStep cfg db tx (.updateInventory inventory) (cfg.backend.missedUpdate inventory) tx

section
variable {cfg : Config} {db : Db} {tx tx' : PgTx} {c : RepoCall} {r : Except Error c.Reply}

theorem foundInventory_error (b : Backend) {x : ItemId} {q : Int32} {e : Error} (h : foundInventory x q = .error e) :
    ¬ b.ServerError e := by
  by_cases hq : 0 ≤ q.toInt
  · rw [foundInventory_of_nonneg hq] at h
    cases h
  · rw [foundInventory_of_neg (Int.not_le.1 hq)] at h
    cases h
    rintro ⟨pg, he⟩
    cases b <;> cases he

theorem foundOrder_error (b : Backend) {id : OrderId} {o : OrderRow} {e : Error} (h : foundOrder id o = .error e) :
    ¬ b.ServerError e := by
  by_cases hpos : 0 < o.quantity.toInt
  · simp only [foundOrder, OrderQuantity.tryFrom_of_pos hpos] at h
    cases h
  · simp only [foundOrder, OrderQuantity.tryFrom_of_nonpos (Int.not_lt.1 hpos)] at h
    cases h
    rintro ⟨pg, he⟩
    cases b <;> cases he

/-- The SeaORM repository's own error for an update that finds no row is not the server's. -/
theorem missedUpdate_error (b : Backend) {inventory : Inventory} {e : Error} (h : b.missedUpdate inventory = .error e) :
    ¬ b.ServerError e := by
  rintro ⟨pg, he⟩
  cases b with
  | sqlx => cases h
  | seaOrm => cases h; cases he

/-- **The inversion of a call.** -/
theorem call_step (hd : Deployed cfg.catalog cfg.backend) (ht : Tables.Typed cfg.backend (tx.sees db))
    (fault : Option PgError) (c : RepoCall) :
    CallStep cfg db tx c (callRepo cfg db tx fault c).1 (callRepo cfg db tx fault c).2 := by
  cases fault with
  | some e => rw [call_fault]; exact .failed c e
  | none =>
    cases ha : tx.aborted with
    | true => rw [call_aborted ha]; exact .refused c ha
    | false =>
      cases c with
      | findByItemIdForUpdate x =>
        cases hs : tx.sees db (cfg.backend.inventoryKey x) with
        | none => rw [call_findForUpdate_none hd.inventory ha hs]; exact .read _ _ ha rfl fun e he => by cases he
        | some row =>
          obtain ⟨q, rfl⟩ := ht.1 x row hs
          rw [call_findForUpdate_some hd.inventory ha hs]
          exact .lockedRead _ _ _ ha rfl fun e => foundInventory_error _
      | findByItemId x =>
        cases hs : tx.sees db (cfg.backend.inventoryKey x) with
        | none => rw [call_find_none hd.inventory ha hs]; exact .read _ _ ha rfl fun e he => by cases he
        | some row =>
          obtain ⟨q, rfl⟩ := ht.1 x row hs
          rw [call_find_some hd.inventory ha hs]
          exact .read _ _ ha rfl fun e => foundInventory_error _
      | createInventory inventory =>
        cases hs : tx.sees db (cfg.backend.inventoryKey inventory.itemId) with
        | none =>
          rw [call_createInventory_none hd.inventory ha hs]
          exact .inserted _ _ _ _ ha rfl hs fun _ h => by cases h
        | some row => rw [call_createInventory_some hd.inventory ha hs]; exact .failed _ _
      | updateInventory inventory =>
        cases hs : tx.sees db (cfg.backend.inventoryKey inventory.itemId) with
        | none => rw [call_update_none hd.inventory ha hs]; exact .missed inventory ha hs
        | some row =>
          obtain ⟨q, rfl⟩ := ht.1 _ row hs
          rw [call_update_some hd.inventory ha hs]
          exact .updated inventory q ha hs
      | findOrderById id =>
        cases hs : tx.sees db (cfg.backend.orderKey id) with
        | none => rw [call_findOrder_none ha hd.orders hs]; exact .read _ _ ha rfl fun e he => by cases he
        | some row =>
          obtain ⟨o, rfl⟩ := ht.2 id row hs
          rw [call_findOrder_some ha hd.orders hs]
          exact .read _ _ ha rfl fun e => foundOrder_error _
      | createOrder order =>
        cases hs : tx.sees db (cfg.backend.orderKey order.id) with
        | none =>
          rw [call_createOrder_none ha hd.orders hs]
          exact .inserted _ _ _ _ ha rfl hs fun _ h => by cases h
        | some row => rw [call_createOrder_some ha hd.orders hs]; exact .failed _ _

/-- What a call changes in the written rows: nothing, everything forgotten, or the row of a write. -/
theorem CallStep.writes (h : CallStep cfg db tx c r tx') :
    tx'.writes = tx.writes ∨ (tx'.aborted = true ∧ tx'.writes = fun _ => none) ∨
      ∃ k row, c.write cfg.backend = some (k, row) ∧ tx'.writes = put tx.writes k row := by
  cases h with
  | failed c e =>
    unfold Tx.abort
    split
    · exact .inr (.inl ⟨rfl, rfl⟩)
    · exact .inl rfl
  | refused c ha => exact .inl rfl
  | read c r ha hw => exact .inl rfl
  | lockedRead c r k ha hw => exact .inl rfl
  | inserted c v k row ha hw hs => exact .inr (.inr ⟨k, row, hw, rfl⟩)
  | updated inventory q ha hs => exact .inr (.inr ⟨_, _, rfl, rfl⟩)
  | missed inventory ha hs => exact .inl rfl

theorem CallStep.typed (h : CallStep cfg db tx c r tx') (ht : Tables.Typed cfg.backend tx.writes) :
    Tables.Typed cfg.backend tx'.writes := by
  rcases h.writes with hw | ⟨-, hw⟩ | ⟨k, row, hc, hw⟩
  · rw [hw]; exact ht
  · rw [hw]; exact Tables.typed_none _
  · rw [hw]; exact ht.put_write hc

end

/-! ## The calls of a block -/

namespace State

section
variable {ι α : Type} [DecidableEq ι] [Fintype ι] {cfg : Config} {jobs : ι → Job α} {db : Db} {as : List (Action ι)}
  {s s' : State ι α}

/-- The calls that `i` has made. -/
def callsOf (cfg : Config) (jobs : ι → Job α) (db : Db) (as : List (Action ι)) (i : ι) : List Exchange :=
  exchanges (trace cfg jobs i (init db) as)

/-- What an action adds to the calls of `i`: nothing, and if it is `i`'s then its transaction is fresh or
over; or the call that it has been at. -/
theorem callsOf_concat (h : run (step cfg jobs) (init db) as = some s) {a : Action ι}
    (hstep : s.step cfg jobs a = some s') (i : ι) :
    (callsOf cfg jobs db (as ++ [a]) i = callsOf cfg jobs db as i ∧
      (i = a.caller → (s'.phase i).live = true → ∀ tx, s'.openTx i = some tx → s.phase i = .created ∧ tx = .fresh)) ∨
      ∃ c kont n calls tx fault r tx', s.phase i = .awaiting c kont n calls tx ∧ a = .poll i ∧
        callRepo cfg s.committed tx fault c = (r, tx') ∧ s'.committed = s.committed ∧
        (∀ tx, s'.openTx i = some tx → tx = tx') ∧
        callsOf cfg jobs db (as ++ [a]) i = callsOf cfg jobs db as i ++ [⟨c, r⟩] := by
  have hresumed : ∀ calls tx₀ (p : Polled α) tx, (resume calls tx₀ p).openTx = some tx → tx = tx₀ := by
    intro calls tx₀ p tx htx
    rcases openTx_resume calls tx₀ p with ho | ho
    · rw [ho] at htx; exact (Option.some.inj htx).symm
    · rw [ho] at htx; cases htx
  unfold callsOf
  rw [trace_concat h hstep, exchanges_append]
  by_cases hi : i = a.caller
  · obtain ⟨j, ⟨ev, p', db'⟩, rfl, -, hr, rfl⟩ | ⟨j, rfl, -, rfl⟩ | ⟨j, act, ctx, q, rfl, hp, -, rfl⟩ :=
      step_cases hstep
    · obtain rfl : i = j := hi
      rw [events_poll hr, goto_phase_self, goto_openTx_self]
      cases hp : s.phase i with
      | created =>
        rw [hp] at hr
        simp only [Phase.poll] at hr
        split at hr
        · cases hr; exact .inl ⟨List.append_nil _, fun _ hl => by cases hl⟩
        · split at hr
          · cases hr; exact .inl ⟨List.append_nil _, fun _ hl => by cases hl⟩
          · rename_i f _ _ _
            cases hr
            rw [show exchanges (.begin none :: (f.poll .given).events) = exchanges (f.poll .given).events from rfl,
              exchanges_events]
            exact .inl ⟨List.append_nil _, fun _ _ tx htx => ⟨rfl, hresumed _ _ _ tx htx⟩⟩
      | awaiting c kont n calls tx =>
        rw [hp] at hr
        simp only [Phase.poll, Option.some.injEq, Prod.mk.injEq] at hr
        obtain ⟨rfl, rfl, rfl⟩ := hr
        rw [exchanges_call, exchanges_events]
        exact .inr ⟨c, kont, n, calls, tx, (jobs i).faults.stmt calls, _, _, rfl, rfl, rfl, rfl, hresumed _ _ _, rfl⟩
      | committing v tx =>
        rw [hp] at hr
        cases hr
        exact .inl ⟨List.append_nil _, fun _ hl => by cases hl⟩
      | rollingBack e tx =>
        rw [hp] at hr
        cases hr
        exact .inl ⟨List.append_nil _, fun _ hl => by cases hl⟩
      | returned | dropped => rw [hp] at hr; cases hr
    · obtain rfl : i = j := hi
      rw [goto_phase_self, exchanges_cancel, cancel_live]
      exact .inl ⟨List.append_nil _, fun _ hl => by cases hl⟩
    · obtain rfl : i = j := hi
      rw [goto_phase_self, leave_live, live_escaped hp]
      exact .inl ⟨List.append_nil _, fun _ hl => by cases hl⟩
  · rw [events_ne hi]
    exact .inl ⟨List.append_nil _, fun e => absurd e hi⟩

/-- An action of another adds nothing. -/
theorem callsOf_other (h : run (step cfg jobs) (init db) as = some s) {a : Action ι}
    (hstep : s.step cfg jobs a = some s') {i : ι} (hi : i ≠ a.caller) :
    callsOf cfg jobs db (as ++ [a]) i = callsOf cfg jobs db as i := by
  unfold callsOf
  rw [trace_concat h hstep, exchanges_append, events_ne hi]
  exact List.append_nil _

end

end State

/-! ## Typed rows in every run -/

namespace State

variable {ι α : Type} [DecidableEq ι]

/-- Committed and pending rows are typed. -/
structure Typed (cfg : Config) (s : State ι α) : Prop where
  committed : Tables.Typed cfg.backend s.committed
  pending : ∀ i tx, s.openTx i = some tx → Tables.Typed cfg.backend tx.writes

variable {cfg : Config} {jobs : ι → Job α} {s s' : State ι α}

omit [DecidableEq ι] in
theorem Typed.sees (h : s.Typed cfg) {i : ι} {tx : PgTx} (htx : s.openTx i = some tx) :
    Tables.Typed cfg.backend (tx.sees s.committed) :=
  h.committed.overlay (h.pending i tx htx)

variable [Fintype ι] (hd : Deployed cfg.catalog cfg.backend)
include hd

theorem typed_step (h : s.Typed cfg) {a : Action ι} (hstep : s.step cfg jobs a = some s') : s'.Typed cfg := by
  have hnew : ∀ o db, TxStep cfg s a.caller o db → Tables.Typed cfg.backend db ∧
      ∀ tx, o = some tx → Tables.Typed cfg.backend tx.writes := by
    intro o db ho
    cases ho with
    | keep => exact ⟨h.committed, h.pending _⟩
    | close => exact ⟨h.committed, fun tx htx => by cases htx⟩
    | begin => exact ⟨h.committed, fun tx htx => by cases htx; exact Tables.typed_none _⟩
    | call tx fault c htx hw =>
      refine ⟨h.committed, fun tx' htx' => ?_⟩
      cases htx'
      exact (call_step hd (h.sees htx) fault c).typed (h.pending _ tx htx)
    | commit tx htx =>
      refine ⟨?_, fun tx' htx' => by cases htx'⟩
      unfold Tx.commit
      split
      · exact h.committed
      · exact h.sees htx
  obtain ⟨hdb, hown⟩ := hnew _ _ (step_tx hstep)
  refine ⟨hdb, fun i tx htx => ?_⟩
  by_cases hi : i = a.caller
  · subst hi; exact hown tx htx
  · rw [step_openTx_ne hstep hi] at htx
    exact h.pending i tx htx

/-- Over typed tables every run keeps all rows typed. -/
theorem typed_run {t₀ : Tables} {as : List (Action ι)}
    (h : run (step cfg jobs) (init (t₀.store cfg.backend)) as = some s) : s.Typed cfg :=
  run_inv _ (fun _ _ _ hs hst => typed_step hd hs hst) as
    ⟨Tables.typed_store _ _, fun _ _ htx => by cases htx⟩ h

/-- The call that `i` is at is a `CallStep`. -/
theorem call_at {t₀ : Tables} {as : List (Action ι)}
    (h : run (step cfg jobs) (init (t₀.store cfg.backend)) as = some s) {i : ι} {c : RepoCall}
    {kont : Except Error c.Reply → Closure α} {n : Refs} {calls : Nat} {tx tx' : PgTx} {fault : Option PgError}
    {r : Except Error c.Reply} (hp : s.phase i = .awaiting c kont n calls tx)
    (hcall : callRepo cfg s.committed tx fault c = (r, tx')) : CallStep cfg s.committed tx c r tx' := by
  have hopen : s.openTx i = some tx := by rw [openTx, hp]; rfl
  have hstep := call_step hd ((typed_run hd h).sees hopen) fault c
  rwa [hcall] at hstep

/-- **An invariant of the calls of a block.** What holds of no calls and a fresh transaction, and
is kept by every call, holds of the calls and the transaction of a block still going, in every run. -/
theorem calls_run (I : List Exchange → PgTx → Prop) (h0 : I [] .fresh)
    (hcall : ∀ (db : Db) (xs : List Exchange) (tx : PgTx) (c : RepoCall) (r : Except Error c.Reply) (tx' : PgTx),
      I xs tx → CallStep cfg db tx c r tx' → I (xs ++ [⟨c, r⟩]) tx')
    {t₀ : Tables} {as : List (Action ι)} (h : run (step cfg jobs) (init (t₀.store cfg.backend)) as = some s)
    (i : ι) : (s.phase i).live = true → ∀ tx, s.openTx i = some tx → I (callsOf cfg jobs (t₀.store cfg.backend) as i) tx := by
  refine run_history (fun as s => (s.phase i).live = true → ∀ tx, s.openTx i = some tx →
    I (callsOf cfg jobs (t₀.store cfg.backend) as i) tx) ?_ ?_ as h
  · intro _ tx htx
    cases htx
  · intro as s a s' hrun ih hstep hlive tx htx
    rcases callsOf_concat hrun hstep i with
      ⟨hsame, hbegun⟩ | ⟨c, kont, n, calls, tx₀, fault, r, tx', hp, -, hanswer, -, hopen, hnew⟩
    · by_cases hi : i = a.caller
      · obtain ⟨hp, rfl⟩ := hbegun hi hlive tx htx
        have hnil : callsOf cfg jobs (t₀.store cfg.backend) as i = [] := (hp ▸ history_run hrun i).exchanges_created
        rw [hsame, hnil]
        exact h0
      · rw [step_phase_ne hstep hi] at hlive
        rw [step_openTx_ne hstep hi] at htx
        rw [hsame]
        exact ih hlive tx htx
    · have hopen₀ : s.openTx i = some tx₀ := by rw [openTx, hp]; rfl
      obtain rfl := hopen tx htx
      rw [hnew]
      exact hcall _ _ _ _ _ _ (ih (by rw [hp]; rfl) tx₀ hopen₀) (call_at hd hrun hp hanswer)

end State

end TransactionManager
