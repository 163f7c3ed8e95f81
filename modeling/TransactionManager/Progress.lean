import TransactionManager.System
import TransactionManager.Tables
/-
# `create_order` as a machine over the tables

`outcome` is `create_order` on the tables in one go, with its faults: the result and the tables
after it. `Progress` is how far a call has come and `Progress.next` its next step on the tables;
the block's polls do what the machine does (`poll_progress`). `Stage` says what a call knows of the
committed tables where it is: what it has read is still there and covers the order. A poll moves a
staged call to its next stage, or decides it, and then result and tables are the `outcome` of the
tables of that moment (`poll_stage`).
-/

namespace TransactionManager

open RowStore RustInt Run

namespace CreateOrderCall

/-- The tables after a successful call on an item with stock `q`. -/
def place (call : CreateOrderCall) (t : Tables) (q : Int32) : Tables :=
  (t.setStock call.itemId (q - call.qty)).addOrder call.orderId ⟨call.itemId, call.qty⟩

/-- What becomes of a call that has read a stock of `q` and found it enough. -/
def settle (cfg : Config) (call : CreateOrderCall) (t : Tables) (q : Int32) : Except Error Order × Tables :=
  match call.faults.stmt 1, call.faults.stmt 2, t.orders call.orderId, call.faults.commit with
  | some e, _, _, _ => (.error (cfg.backend.driverError e), t)
  | none, some e, _, _ => (.error (cfg.backend.driverError e), t)
  | none, none, some _, _ => (.error (cfg.backend.driverError (.uniqueViolation cfg.backend.ordersTable)), t)
  | none, none, none, some e => (.error (cfg.backend.driverError e), t)
  | none, none, none, none => (.ok call.order, call.place t q)

/-- The result of a call and the tables after it, from the tables before it. -/
def outcome (cfg : Config) (call : CreateOrderCall) (t : Tables) : Except Error Order × Tables :=
  if call.qty.toInt ≤ 0 then (.error (.orderQuantity (.nonPositive call.qty)), t)
  else match call.faults.begin, call.faults.stmt 0, t.inventory call.itemId with
    | some e, _, _ => (.error (cfg.backend.driverError e), t)
    | none, some e, _ => (.error (cfg.backend.driverError e), t)
    | none, none, none => (.error (.inventoryNotFound call.itemId), t)
    | none, none, some q =>
      if q.toInt < 0 then (.error (.inventory (.negativeQuantity q)), t)
      else if q.toInt < call.qty.toInt then (.error (.inventory (.insufficientStock q call.qty)), t)
      else call.settle cfg t q

/-! ## The transaction of a call -/

section
variable (b : Backend) (call : CreateOrderCall)

/-- After the locked read. -/
def lockedTx : PgTx := Tx.fresh.lock (b.inventoryKey call.itemId)

/-- After the update of a stock of `q`. -/
def updatedTx (q : Int32) : PgTx :=
  (lockedTx b call).write (b.inventoryKey call.itemId) (inventoryRow call.itemId (q - call.qty))

/-- After the insert of the order. -/
def createdTx (q : Int32) : PgTx :=
  (updatedTx b call q).write (b.orderKey call.orderId) (orderRow call.orderId ⟨call.itemId, call.qty⟩)

@[simp] theorem lockedTx_aborted : (lockedTx b call).aborted = false := by simp [lockedTx]
@[simp] theorem updatedTx_aborted (q : Int32) : (updatedTx b call q).aborted = false := by simp [updatedTx]
@[simp] theorem createdTx_aborted (q : Int32) : (createdTx b call q).aborted = false := by simp [createdTx]
@[simp] theorem sees_lockedTx (db : Db) : (lockedTx b call).sees db = db := by simp [lockedTx]

theorem sees_updatedTx (t : Tables) (q : Int32) :
    (updatedTx b call q).sees (t.store b) = (t.setStock call.itemId (q - call.qty)).store b := by
  rw [updatedTx, Tx.sees_write, sees_lockedTx, Tables.put_inventory]

theorem sees_createdTx (t : Tables) (q : Int32) :
    (createdTx b call q).sees (t.store b) = (call.place t q).store b := by
  rw [createdTx, Tx.sees_write, sees_updatedTx, Tables.put_order]
  rfl

theorem commit_createdTx (t : Tables) (q : Int32) :
    (createdTx b call q).commit (t.store b) = (call.place t q).store b := by
  rw [Tx.commit_of_active (createdTx_aborted b call q), sees_createdTx]

end

end CreateOrderCall

/-! ## The machine -/

/-- How far a call has come. From `updating` on it has read a stock; a call that rolls back still
has its transaction. -/
inductive Progress where
  | created
  | finding
  | updating (stock : Int32)
  | creating (stock : Int32)
  | committing (stock : Int32)
  | rollingBack (error : Error) (tx : PgTx)
  | returned (result : Except Error Order)
  | dropped

namespace Progress

/-- The await point of the block. -/
def phase (cfg : Config) (call : CreateOrderCall) : Progress → Phase Order
  | created => .created
  | finding => .awaiting (.findByItemIdForUpdate call.itemId) (afterFind cfg.profile call.order) .given 0 .fresh
  | updating q => .awaiting (.updateInventory ⟨call.itemId, q - call.qty⟩) (afterUpdate call.order) .given 1
      (call.lockedTx cfg.backend)
  | creating q => .awaiting (.createOrder call.order) afterCreate .given 2 (call.updatedTx cfg.backend q)
  | committing q => .committing call.order (call.createdTx cfg.backend q)
  | rollingBack e tx => .rollingBack e tx
  | returned r => .returned r none
  | dropped => .dropped none

/-- The result a call has been decided to return, when it has been. -/
def decided : Progress → Option (Except Error Order)
  | rollingBack e _ => some (.error e)
  | returned r => some r
  | _ => none

/-- The future exists and has not completed. -/
def live : Progress → Bool
  | returned _ => false
  | dropped => false
  | _ => true

/-- The next step of a call on the committed tables, which only COMMIT changes. -/
def next (cfg : Config) (call : CreateOrderCall) (t : Tables) : Progress → Option (Progress × Tables)
  | created =>
    if call.qty.toInt ≤ 0 then some (returned (.error (.orderQuantity (.nonPositive call.qty))), t)
    else match call.faults.begin with
      | some e => some (returned (.error (cfg.backend.driverError e)), t)
      | none => some (finding, t)
  | finding =>
    match call.faults.stmt 0, t.inventory call.itemId with
    | some e, _ => some (rollingBack (cfg.backend.driverError e) (Tx.fresh.abort cfg.freeOnAbort), t)
    | none, none => some (rollingBack (.inventoryNotFound call.itemId) .fresh, t)
    | none, some q =>
      if q.toInt < 0 then
        some (rollingBack (.inventory (.negativeQuantity q)) (call.lockedTx cfg.backend), t)
      else if q.toInt < call.qty.toInt then
        some (rollingBack (.inventory (.insufficientStock q call.qty)) (call.lockedTx cfg.backend), t)
      else some (updating q, t)
  | updating q =>
    match call.faults.stmt 1 with
    | some e =>
      some (rollingBack (cfg.backend.driverError e) ((call.lockedTx cfg.backend).abort cfg.freeOnAbort), t)
    | none => some (creating q, t)
  | creating q =>
    match call.faults.stmt 2, t.orders call.orderId with
    | some e, _ =>
      some (rollingBack (cfg.backend.driverError e) ((call.updatedTx cfg.backend q).abort cfg.freeOnAbort), t)
    | none, some _ =>
      some (rollingBack (cfg.backend.driverError (.uniqueViolation cfg.backend.ordersTable))
        ((call.updatedTx cfg.backend q).abort cfg.freeOnAbort), t)
    | none, none => some (committing q, t)
  | committing q =>
    match call.faults.commit with
    | some e => some (returned (.error (cfg.backend.driverError e)), t)
    | none => some (returned (.ok call.order), call.place t q)
  | rollingBack e _ => some (returned (.error e), t)
  | returned _ => none
  | dropped => none

/-- The next step has to wait for another transaction. -/
def waits (cfg : Config) (call : CreateOrderCall) (o : Others) (t : Tables) : Progress → Bool
  | finding =>
    (call.faults.stmt 0).isNone && (t.inventory call.itemId).isSome && o.locked (cfg.backend.inventoryKey call.itemId)
  | updating _ =>
    (call.faults.stmt 1).isNone && (t.inventory call.itemId).isSome && o.locked (cfg.backend.inventoryKey call.itemId)
  | creating _ => (call.faults.stmt 2).isNone && o.written (cfg.backend.orderKey call.orderId)
  | _ => false

end Progress

/-! ## What a call knows -/

/-- The part of a command's and its faults' story that must be true for a call to have come
as far as its `n`-th statement. -/
structure Begun (call : CreateOrderCall) (n : Nat) : Prop where
  pos : 0 < call.qty.toInt
  begin : call.faults.begin = none
  stmt : ∀ m < n, call.faults.stmt m = none

/-- The stock the call has read is committed, and covers the order. -/
structure Covered (call : CreateOrderCall) (t : Tables) (q : Int32) : Prop where
  stock : t.inventory call.itemId = some q
  le : call.qty.toInt ≤ q.toInt

theorem Begun.next {call : CreateOrderCall} {n : Nat} (h : Begun call n) (hf : call.faults.stmt n = none) :
    Begun call (n + 1) :=
  ⟨h.pos, h.begin, fun m hm => by
    rcases Nat.lt_succ_iff_lt_or_eq.1 hm with hm | rfl
    · exact h.stmt m hm
    · exact hf⟩

/-- The outcome of a call that has got past its locked read. -/
theorem Covered.outcome {cfg : Config} {call : CreateOrderCall} {t : Tables} {q : Int32} {n : Nat}
    (hc : Covered call t q) (hb : Begun call (n + 1)) : call.outcome cfg t = call.settle cfg t q := by
  have hpos := hb.pos
  have hle := hc.le
  simp only [CreateOrderCall.outcome, hb.begin, hb.stmt 0 (Nat.succ_pos n), hc.stock,
    if_neg (show ¬ call.qty.toInt ≤ 0 by omega), if_neg (show ¬ q.toInt < 0 by omega),
    if_neg (show ¬ q.toInt < call.qty.toInt by omega)]

/-- All that a call must meet to be placed: nothing fails, and the tables have the stock and
not yet the order. -/
structure Accepted (call : CreateOrderCall) (t : Tables) (q : Int32) : Prop where
  begun : Begun call 3
  covered : Covered call t q
  fresh : t.orders call.orderId = none
  commit : call.faults.commit = none

theorem Accepted.outcome (cfg : Config) {call : CreateOrderCall} {t : Tables} {q : Int32}
    (h : Accepted call t q) : call.outcome cfg t = (.ok call.order, call.place t q) := by
  rw [h.covered.outcome h.begun]
  simp only [CreateOrderCall.settle, h.begun.stmt 1 (by omega), h.begun.stmt 2 (by omega), h.fresh, h.commit]

/-- A call is placed or refused, and a refused call changes nothing. -/
theorem CreateOrderCall.outcome_cases (cfg : Config) (call : CreateOrderCall) (t : Tables) :
    (∃ q, Accepted call t q ∧ call.outcome cfg t = (.ok call.order, call.place t q)) ∨
      ∃ e, call.outcome cfg t = (.error e, t) := by
  by_cases hacc : ∃ q, Accepted call t q
  · obtain ⟨q, h⟩ := hacc
    exact .inl ⟨q, h, h.outcome cfg⟩
  · right
    unfold CreateOrderCall.outcome
    split
    · exact ⟨_, rfl⟩
    · rename_i hpos
      split
      · exact ⟨_, rfl⟩
      · exact ⟨_, rfl⟩
      · exact ⟨_, rfl⟩
      · rename_i q hbegin h0 hq
        split
        · exact ⟨_, rfl⟩
        · split
          · exact ⟨_, rfl⟩
          · rename_i hle
            unfold CreateOrderCall.settle
            split
            · exact ⟨_, rfl⟩
            · exact ⟨_, rfl⟩
            · exact ⟨_, rfl⟩
            · exact ⟨_, rfl⟩
            · rename_i h1 h2 hfresh hcommit
              refine absurd ⟨q, ⟨Int.not_le.1 hpos, hbegin, fun m hm => ?_⟩, ⟨hq, Int.not_lt.1 hle⟩, hfresh, hcommit⟩
                hacc
              obtain rfl | rfl | rfl : m = 0 ∨ m = 1 ∨ m = 2 := by omega
              · exact h0
              · exact h1
              · exact h2

/-- What a call knows of the tables where it is. -/
def Progress.Holds (call : CreateOrderCall) (t : Tables) : Progress → Prop
  | finding => Begun call 0
  | updating q => Begun call 1 ∧ Covered call t q
  | creating q => Begun call 2 ∧ Covered call t q
  | committing q => Begun call 3 ∧ Covered call t q ∧ t.orders call.orderId = none
  | _ => True

/-! ## The block does what the machine does -/

section
variable {cfg : Config} {call : CreateOrderCall} {t : Tables}

/-- What a poll makes of a call that is at `g`. -/
def polled (cfg : Config) (call : CreateOrderCall) (t : Tables) (g : Progress) : Option (Phase Order × Db) :=
  ((g.phase cfg call).poll cfg (createOrder cfg.profile call) (t.store cfg.backend)).map (·.2)

/-- What the machine makes of it. -/
def advanced (cfg : Config) (call : CreateOrderCall) (t : Tables) (g : Progress) : Option (Phase Order × Db) :=
  (g.next cfg call t).map fun n => (n.1.phase cfg call, n.2.store cfg.backend)

/-- A poll at a statement that is made to fail. -/
theorem polled_fault {g : Progress} {c : RepoCall} {k : Except Error c.Reply → Closure Order} {n : Refs} {calls : Nat}
    {tx : PgTx} {e : PgError} (hg : g.phase cfg call = .awaiting c k n calls tx)
    (hf : call.faults.stmt calls = some e) :
    polled cfg call t g = some (resume (calls + 1) (tx.abort cfg.freeOnAbort)
      ((k (.error (cfg.backend.driverError e))).poll n), t.store cfg.backend) := by
  simp only [polled, hg, Phase.poll, createOrder_faults, hf, call_fault, Option.map_some]

/-- A poll at a statement that runs: the closure goes on with the reply. -/
theorem polled_call {g : Progress} {c : RepoCall} {k : Except Error c.Reply → Closure Order} {n : Refs} {calls : Nat}
    {tx tx' : PgTx} {r : Except Error c.Reply} (hg : g.phase cfg call = .awaiting c k n calls tx)
    (hf : call.faults.stmt calls = none) (hc : callRepo cfg (t.store cfg.backend) tx none c = (r, tx')) :
    polled cfg call t g = some (resume (calls + 1) tx' ((k r).poll n), t.store cfg.backend) := by
  simp only [polled, hg, Phase.poll, createOrder_faults, hf, hc, Option.map_some]

theorem polled_created : polled cfg call t .created = advanced cfg call t .created := by
  unfold polled advanced Progress.phase Progress.next
  by_cases hq : call.qty.toInt ≤ 0
  · simp only [Phase.poll, start_createOrder_of_nonpos hq, if_pos hq]
    rfl
  · simp only [Phase.poll, start_createOrder_of_pos (Int.not_le.1 hq), createOrder_faults, if_neg hq]
    cases hb : call.faults.begin with
    | some e => rfl
    | none => rfl

theorem polled_committing (q : Int32) : polled cfg call t (.committing q) = advanced cfg call t (.committing q) := by
  unfold polled advanced Progress.phase Progress.next
  simp only [Phase.poll, createOrder_faults, DbContext.commit, Option.map_some]
  cases hf : call.faults.commit with
  | some e => rfl
  | none =>
    simp only [CreateOrderCall.commit_createdTx]
    rfl

theorem polled_rollingBack (e : Error) (tx : PgTx) :
    polled cfg call t (.rollingBack e tx) = advanced cfg call t (.rollingBack e tx) := by
  unfold polled advanced Progress.phase Progress.next
  simp only [Phase.poll, DbContext.rollback, Option.map_some]
  cases (createOrder cfg.profile call).faults.rollback <;> rfl

variable (hd : Deployed cfg.catalog cfg.backend)
include hd

theorem polled_finding (hb : Begun call 0) : polled cfg call t .finding = advanced cfg call t .finding := by
  have hqty := CreateOrderCall.order_toI32 hb.pos
  have hpos : 0 < call.order.quantity.toI32.toInt := by rw [hqty]; exact hb.pos
  cases hf : call.faults.stmt 0 with
  | some e =>
    rw [polled_fault rfl hf, poll_afterFind_error]
    simp only [advanced, Progress.next, hf]
    rfl
  | none =>
    cases hs : t.inventory call.itemId with
    | none =>
      have hc : callRepo cfg (t.store cfg.backend) Tx.fresh none (.findByItemIdForUpdate call.itemId) =
          (.ok none, .fresh) := call_findForUpdate_none hd.inventory Tx.fresh_aborted (by simp [hs])
      rw [polled_call rfl hf hc, poll_afterFind_none]
      simp only [advanced, Progress.next, hf, hs]
      rfl
    | some q =>
      have hc : callRepo cfg (t.store cfg.backend) Tx.fresh none (.findByItemIdForUpdate call.itemId) =
          (foundInventory call.itemId q, call.lockedTx cfg.backend) :=
        call_findForUpdate_some hd.inventory Tx.fresh_aborted (by simp [hs])
      by_cases hneg : q.toInt < 0
      · rw [foundInventory_of_neg hneg] at hc
        rw [polled_call rfl hf hc, poll_afterFind_error]
        simp only [advanced, Progress.next, hf, hs, if_pos hneg]
        rfl
      · rw [foundInventory_of_nonneg (Int.not_lt.1 hneg)] at hc
        rw [polled_call rfl hf hc]
        by_cases hlt : q.toInt < call.qty.toInt
        · rw [poll_afterFind_refused hpos (by rw [hqty]; exact hlt), hqty]
          simp only [advanced, Progress.next, hf, hs, if_neg hneg, if_pos hlt]
          rfl
        · rw [poll_afterFind_covered hpos (by rw [hqty]; exact Int.not_lt.1 hlt), hqty]
          simp only [advanced, Progress.next, hf, hs, if_neg hneg, if_neg hlt]
          rfl

theorem polled_updating {q : Int32} (hc : Covered call t q) :
    polled cfg call t (.updating q) = advanced cfg call t (.updating q) := by
  cases hf : call.faults.stmt 1 with
  | some e =>
    rw [polled_fault rfl hf, poll_afterUpdate_error]
    simp only [advanced, Progress.next, hf]
    rfl
  | none =>
    have hu : callRepo cfg (t.store cfg.backend) (call.lockedTx cfg.backend) none
        (.updateInventory ⟨call.itemId, q - call.qty⟩) =
          (.ok ⟨call.itemId, q - call.qty⟩, call.updatedTx cfg.backend q) :=
      call_update_some hd.inventory rfl (q := q) (by simp [hc.stock])
    rw [polled_call rfl hf hu, poll_afterUpdate_ok]
    simp only [advanced, Progress.next, hf]
    rfl

theorem polled_creating {q : Int32} (hpos : 0 < call.qty.toInt) :
    polled cfg call t (.creating q) = advanced cfg call t (.creating q) := by
  have hsees : (call.updatedTx cfg.backend q).sees (t.store cfg.backend) (cfg.backend.orderKey call.order.id) =
      (t.orders call.orderId).map (orderRow call.orderId) := by
    rw [CreateOrderCall.sees_updatedTx]
    simp
  cases hf : call.faults.stmt 2 with
  | some e =>
    rw [polled_fault rfl hf, poll_afterCreate]
    simp only [advanced, Progress.next, hf]
    rfl
  | none =>
    cases ho : t.orders call.orderId with
    | some o =>
      rw [ho] at hsees
      rw [polled_call rfl hf (call_createOrder_some rfl hd.orders hsees), poll_afterCreate]
      simp only [advanced, Progress.next, hf, ho]
      rfl
    | none =>
      rw [ho] at hsees
      rw [polled_call rfl hf (call_createOrder_none rfl hd.orders hsees), poll_afterCreate,
        CreateOrderCall.order_toI32 hpos]
      simp only [advanced, Progress.next, hf, ho]
      rfl

/-- **Refinement.** A poll of the block is a step of the machine. -/
theorem poll_progress {g : Progress} (hg : g.Holds call t) : polled cfg call t g = advanced cfg call t g := by
  cases g with
  | created => exact polled_created
  | finding => exact polled_finding hd hg
  | updating q => exact polled_updating hd hg.2
  | creating q => exact polled_creating hd hg.1.pos
  | committing q => exact polled_committing q
  | rollingBack e tx => exact polled_rollingBack e tx
  | returned | dropped => rfl

/-- The block waits where the machine does. -/
theorem waits_progress (o : Others) (g : Progress) :
    (g.phase cfg call).waits cfg (createOrder cfg.profile call) o (t.store cfg.backend) = g.waits cfg call o t := by
  cases g with
  | created | committing | rollingBack | returned | dropped => rfl
  | finding =>
    have hplan := plan_selectInventory hd.inventory call.itemId.uuid true
    rw [← stmt_findByItemIdForUpdate] at hplan
    refine (callWaits_of_plan _ hplan Tx.fresh_aborted).trans ?_
    simp only [Access.waits, Tx.sees_fresh, Progress.waits, createOrder_faults, Bool.true_and, Bool.and_assoc]
    rw [← Backend.inventoryKey, Tables.store_inventoryKey, Option.isSome_map]
  | updating q =>
    have hplan := plan_updateInventory hd.inventory call.itemId.uuid (q - call.qty)
    rw [← stmt_updateInventory cfg.backend ⟨call.itemId, q - call.qty⟩] at hplan
    refine (callWaits_of_plan _ hplan (call.lockedTx_aborted cfg.backend)).trans ?_
    simp only [Access.waits, CreateOrderCall.sees_lockedTx, Progress.waits, createOrder_faults, Bool.and_assoc]
    rw [← Backend.inventoryKey, Tables.store_inventoryKey, Option.isSome_map]
  | creating q =>
    have hplan := plan_insertOrder hd.orders call.order.id.uuid call.order.itemId.uuid call.order.quantity.toI32
    rw [← stmt_createOrder cfg.backend call.order] at hplan
    exact callWaits_of_plan _ hplan (call.updatedTx_aborted cfg.backend q)

end

/-! ## What one step decides -/

/-- What one step makes of a call: it goes on undecided, it is decided with the `outcome` of
the committed tables, or, decided before, it ends. -/
inductive Polls (cfg : Config) (call : CreateOrderCall) (t : Tables) (g g' : Progress) (t' : Tables) : Prop where
  | on (hg : g.decided = none) (hg' : g'.decided = none) (hl : g'.live = true) (ht : t' = t)
  | decides (hg : g.decided = none) (hg' : g'.decided = some (call.outcome cfg t).1)
      (ht : t' = (call.outcome cfg t).2)
  | ends (hg : g.decided ≠ none) (hg' : g'.decided = g.decided) (ht : t' = t)

section
variable {cfg : Config} {call : CreateOrderCall} {t t' : Tables} {g g' : Progress}

/-- A call that fails before its commit is decided with the tables as they are. -/
theorem Polls.fails {e : Error} (hg : g.decided = none) (ho : call.outcome cfg t = (.error e, t))
    (hg' : g'.decided = some (.error e)) : Polls cfg call t g g' t :=
  .decides hg (by rw [ho, hg']) (by rw [ho])

/-- **The step lemma.** A step is one of `Polls`, and what the call knows after it holds. -/
theorem polls_next (hg : g.Holds call t) (h : g.next cfg call t = some (g', t')) :
    Polls cfg call t g g' t' ∧ g'.Holds call t' := by
  cases g with
  | created =>
    by_cases hq : call.qty.toInt ≤ 0
    · simp only [Progress.next, if_pos hq] at h
      cases h
      exact ⟨.fails rfl (by simp only [CreateOrderCall.outcome, if_pos hq]) rfl, trivial⟩
    · cases hb : call.faults.begin with
      | some e =>
        simp only [Progress.next, if_neg hq, hb] at h
        cases h
        exact ⟨.fails rfl (by simp only [CreateOrderCall.outcome, if_neg hq, hb]) rfl, trivial⟩
      | none =>
        simp only [Progress.next, if_neg hq, hb] at h
        cases h
        exact ⟨.on rfl rfl rfl rfl, Int.not_le.1 hq, hb, fun m hm => absurd hm (Nat.not_lt_zero m)⟩
  | finding =>
    have hb : Begun call 0 := hg
    have hq : ¬ call.qty.toInt ≤ 0 := Int.not_le.2 hb.pos
    cases hf : call.faults.stmt 0 with
    | some e =>
      simp only [Progress.next, hf] at h
      cases h
      exact ⟨.fails rfl (by simp only [CreateOrderCall.outcome, if_neg hq, hb.begin, hf]) rfl, trivial⟩
    | none =>
      cases hs : t.inventory call.itemId with
      | none =>
        simp only [Progress.next, hf, hs] at h
        cases h
        exact ⟨.fails rfl (by simp only [CreateOrderCall.outcome, if_neg hq, hb.begin, hf, hs]) rfl, trivial⟩
      | some q =>
        by_cases hneg : q.toInt < 0
        · simp only [Progress.next, hf, hs, if_pos hneg] at h
          cases h
          exact ⟨.fails rfl (by simp only [CreateOrderCall.outcome, if_neg hq, hb.begin, hf, hs, if_pos hneg]) rfl,
            trivial⟩
        · by_cases hlt : q.toInt < call.qty.toInt
          · simp only [Progress.next, hf, hs, if_neg hneg, if_pos hlt] at h
            cases h
            exact ⟨.fails rfl (by simp only [CreateOrderCall.outcome, if_neg hq, hb.begin, hf, hs, if_neg hneg,
              if_pos hlt]) rfl, trivial⟩
          · simp only [Progress.next, hf, hs, if_neg hneg, if_neg hlt] at h
            cases h
            exact ⟨.on rfl rfl rfl rfl, hb.next hf, hs, Int.not_lt.1 hlt⟩
  | updating q =>
    obtain ⟨hb, hc⟩ := hg
    cases hf : call.faults.stmt 1 with
    | some e =>
      simp only [Progress.next, hf] at h
      cases h
      exact ⟨.fails rfl (by rw [hc.outcome hb]; simp only [CreateOrderCall.settle, hf]) rfl, trivial⟩
    | none =>
      simp only [Progress.next, hf] at h
      cases h
      exact ⟨.on rfl rfl rfl rfl, hb.next hf, hc⟩
  | creating q =>
    obtain ⟨hb, hc⟩ := hg
    have hf1 : call.faults.stmt 1 = none := hb.stmt 1 (by omega)
    cases hf : call.faults.stmt 2 with
    | some e =>
      simp only [Progress.next, hf] at h
      cases h
      exact ⟨.fails rfl (by rw [hc.outcome hb]; simp only [CreateOrderCall.settle, hf1, hf]) rfl, trivial⟩
    | none =>
      cases ho : t.orders call.orderId with
      | some o =>
        simp only [Progress.next, hf, ho] at h
        cases h
        exact ⟨.fails rfl (by rw [hc.outcome hb]; simp only [CreateOrderCall.settle, hf1, hf, ho]) rfl, trivial⟩
      | none =>
        simp only [Progress.next, hf, ho] at h
        cases h
        exact ⟨.on rfl rfl rfl rfl, hb.next hf, hc, ho⟩
  | committing q =>
    obtain ⟨hb, hc, hn⟩ := hg
    have hf1 : call.faults.stmt 1 = none := hb.stmt 1 (by omega)
    have hf2 : call.faults.stmt 2 = none := hb.stmt 2 (by omega)
    cases hf : call.faults.commit with
    | some e =>
      simp only [Progress.next, hf] at h
      cases h
      exact ⟨.fails rfl (by rw [hc.outcome hb]; simp only [CreateOrderCall.settle, hf1, hf2, hn, hf]) rfl, trivial⟩
    | none =>
      have ho := Accepted.outcome cfg ⟨hb, hc, hn, hf⟩
      simp only [Progress.next, hf] at h
      cases h
      exact ⟨.decides rfl (by rw [ho]; rfl) (by rw [ho]), trivial⟩
  | rollingBack e tx =>
    cases h
    exact ⟨.ends (by simp [Progress.decided]) rfl rfl, trivial⟩
  | returned r | dropped => cases h

/-- What a call knows survives a change of the tables outside the rows it has locked. -/
theorem Progress.Holds.frame (h : g.Holds call t)
    (hi : ∀ tx, (g.phase cfg call).openTx = some tx → cfg.backend.inventoryKey call.itemId ∈ tx.locks →
      t'.inventory call.itemId = t.inventory call.itemId)
    (ho : ∀ tx, (g.phase cfg call).openTx = some tx → cfg.backend.orderKey call.orderId ∈ tx.locks →
      t'.orders call.orderId = t.orders call.orderId) : g.Holds call t' := by
  cases g with
  | created | rollingBack | returned | dropped => trivial
  | finding => exact h
  | updating q =>
    obtain ⟨hb, hc⟩ := h
    exact ⟨hb, (hi _ rfl (by simp [CreateOrderCall.lockedTx])).trans hc.stock, hc.le⟩
  | creating q =>
    obtain ⟨hb, hc⟩ := h
    exact ⟨hb, (hi _ rfl (by simp [CreateOrderCall.updatedTx])).trans hc.stock, hc.le⟩
  | committing q =>
    obtain ⟨hb, hc, hn⟩ := h
    exact ⟨hb,
      ⟨(hi _ rfl (by simp [CreateOrderCall.createdTx, CreateOrderCall.updatedTx])).trans hc.stock, hc.le⟩,
      (ho _ rfl (by simp [CreateOrderCall.createdTx])).trans hn⟩

end

/-! ## Stages -/

/-- The result a block has been decided to return, when it has been. -/
def Phase.decided {α : Type} : Phase α → Option (Except Error α)
  | .rollingBack e _ => some (.error e)
  | .returned r none => some r
  | _ => none

@[simp] theorem Progress.phase_decided (cfg : Config) (call : CreateOrderCall) (g : Progress) :
    (g.phase cfg call).decided = g.decided := by cases g <;> rfl

@[simp] theorem Progress.phase_live (cfg : Config) (call : CreateOrderCall) (g : Progress) :
    (g.phase cfg call).live = g.live := by cases g <;> rfl

/-- The context never leaves a call. -/
@[simp] theorem Progress.phase_escaped (cfg : Config) (call : CreateOrderCall) (g : Progress) :
    (g.phase cfg call).escaped = none := by cases g <;> rfl

@[simp] theorem Progress.phase_cancel (cfg : Config) (call : CreateOrderCall) (g : Progress) :
    (g.phase cfg call).cancel = .dropped none := by cases g <;> rfl

/-- A block at some point of the machine, with what the call knows there. -/
def Stage (cfg : Config) (call : CreateOrderCall) (t : Tables) (p : Phase Order) : Prop :=
  ∃ g : Progress, p = g.phase cfg call ∧ g.Holds call t

/-- What a call knows survives the actions of the others: it has locked what it has read or inserted. -/
theorem Progress.Holds.step {ι : Type} [DecidableEq ι] [Fintype ι] {cfg : Config} {jobs : ι → Job Order}
    {s s' : State ι Order} {a : Action ι} {j : ι} {call : CreateOrderCall} {g : Progress} {t t' : Tables}
    (h : g.Holds call t) (hs : s.Sound) (hstep : s.step cfg jobs a = some s') (hj : j ≠ a.caller)
    (hg : s.phase j = g.phase cfg call) (hdb : s.committed = t.store cfg.backend)
    (hdb' : s'.committed = t'.store cfg.backend) : g.Holds call t' := by
  have hframe : ∀ tx, (g.phase cfg call).openTx = some tx → ∀ k ∈ tx.locks,
      t'.store cfg.backend k = t.store cfg.backend k := by
    intro tx htx k hk
    rw [← hdb, ← hdb']
    exact State.step_frame hs hstep hj (by rw [State.openTx, hg, htx]) hk
  exact h.frame (fun tx htx hk => Tables.inventory_of_store (hframe tx htx _ hk))
    fun tx htx hk => Tables.orders_of_store (hframe tx htx _ hk)

section
variable {cfg : Config} {call : CreateOrderCall} {t : Tables} {p p' : Phase Order} {ev : List (Event Order)}
  {db' : Db}

/-- A poll of a staged call is its next step on the tables. -/
theorem poll_next (hd : Deployed cfg.catalog cfg.backend) (hs : Stage cfg call t p)
    (h : p.poll cfg (createOrder cfg.profile call) (t.store cfg.backend) = some (ev, p', db')) :
    ∃ (g g' : Progress) (t' : Tables), p = g.phase cfg call ∧ p' = g'.phase cfg call ∧ db' = t'.store cfg.backend ∧
      g.Holds call t ∧ g.next cfg call t = some (g', t') := by
  obtain ⟨g, rfl, hg⟩ := hs
  have hpoll := poll_progress hd hg
  simp only [polled, h, Option.map_some, advanced] at hpoll
  obtain ⟨⟨g', t'⟩, hn, he⟩ := Option.map_eq_some_iff.1 hpoll.symm
  cases he
  exact ⟨g, g', t', rfl, rfl, rfl, hg, hn⟩

/-- A poll of a staged call leads to a stage by one of `Polls`. -/
theorem poll_stage (hd : Deployed cfg.catalog cfg.backend) (hs : Stage cfg call t p)
    (h : p.poll cfg (createOrder cfg.profile call) (t.store cfg.backend) = some (ev, p', db')) :
    ∃ g g' t', p = g.phase cfg call ∧ p' = g'.phase cfg call ∧ db' = t'.store cfg.backend ∧
      Polls cfg call t g g' t' ∧ g'.Holds call t' := by
  obtain ⟨g, g', t', hp, hp', hdb, hg, hn⟩ := poll_next hd hs h
  exact ⟨g, g', t', hp, hp', hdb, polls_next hg hn⟩

end

end TransactionManager
