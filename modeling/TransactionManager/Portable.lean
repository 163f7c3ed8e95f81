import TransactionManager.Stacks
import TransactionManager.Calls
/-
# Any closure on either stack

The repositories and the transaction manager are traits, and a closure over the traits runs on both
stacks. It is `Portable` when it does not tell the errors of one driver from those of the other; what
is written with `?` is. On databases with the same rows portable jobs go through every schedule side
by side, contexts that escape included (`stacks_portable`), up to the first update that finds no row:
there the two stacks answer differently (`missed_update_differs`).
-/

namespace TransactionManager

open RowStore RustInt Run

variable {α β : Type}

/-! ## The same answer in the words of two drivers -/

inductive SameError (b b' : Backend) : Error → Error → Prop where
  | same (e : Error) : SameError b b' e e
  | driver (e : PgError) : SameError b b' (b.driverError e) (b'.driverError e)
  | inventory : SameError b b' (b.driverError (.uniqueViolation b.inventoryTable))
      (b'.driverError (.uniqueViolation b'.inventoryTable))
  | orders : SameError b b' (b.driverError (.uniqueViolation b.ordersTable))
      (b'.driverError (.uniqueViolation b'.ordersTable))

inductive SameResult (b b' : Backend) : Except Error α → Except Error α → Prop where
  | ok (v : α) : SameResult b b' (.ok v) (.ok v)
  | error (e e' : Error) (h : SameError b b' e e') : SameResult b b' (.error e) (.error e')

namespace Closure

/-- Two closures that go on alike on the answers of two drivers. -/
inductive Same (b b' : Backend) : Closure α → Closure α → Prop where
  | ret (r r' : Except Error α) (h : SameResult b b' r r') : Same b b' (.ret r) (.ret r')
  | panic : Same b b' .panic .panic
  | call (c : RepoCall) (k k' : Except Error c.Reply → Closure α)
    (h : ∀ r r', SameResult b b' r r' → Same b b' (k r) (k' r')) : Same b b' (.call c k) (.call c k')
  | clone (f f' : Closure α) (h : Same b b' f f') : Same b b' (.clone f) (.clone f')
  | drop (f f' : Closure α) (h : Same b b' f f') : Same b b' (.drop f) (.drop f')
  | lend (f f' : Closure α) (h : Same b b' f f') : Same b b' (.lend f) (.lend f')
  | reclaim (f f' : Closure α) (h : Same b b' f f') : Same b b' (.reclaim f) (.reclaim f')

end Closure

/-- The job does not tell the errors of the two drivers apart. -/
def Job.Portable (b b' : Backend) (job : Job α) : Prop := ∀ f, job.start = .ok f → f.Same b b' f

section
variable {b b' : Backend}

theorem SameResult.refl (r : Except Error α) : SameResult b b' r r := by
  cases r with
  | ok v => exact .ok v
  | error e => exact .error e e (.same e)

/-! ## What is written with `?` is portable -/

namespace Closure

theorem same_await (c : RepoCall) : (await c).Same b b' (await c) := .call c _ _ fun _ _ h => .ret _ _ h

theorem same_ret (r : Except Error α) : (ret r).Same b b' (ret r) := .ret _ _ (.refl r)

theorem Same.bind {f f' : Closure α} {g g' : α → Closure β} (hf : f.Same b b' f')
    (hg : ∀ v, (g v).Same b b' (g' v)) : (f.bind g).Same b b' (f'.bind g') := by
  induction hf with
  | ret r r' h =>
    cases h with
    | ok v => exact hg v
    | error e e' h => exact .ret _ _ (.error e e' h)
  | panic => exact .panic
  | call c k k' h ih => exact .call c _ _ fun r r' hr => ih r r' hr
  | clone f f' h ih => exact .clone _ _ ih
  | drop f f' h ih => exact .drop _ _ ih
  | lend f f' h ih => exact .lend _ _ ih
  | reclaim f f' h ih => exact .reclaim _ _ ih

theorem Same.moved {f f' : Closure α} (hf : f.Same b b' f') : f.moved.Same b b' f'.moved := by
  induction hf with
  | ret r r' h => exact .drop _ _ (.ret _ _ h)
  | panic => exact .panic
  | call c k k' h ih => exact .call c _ _ fun r r' hr => ih r r' hr
  | clone f f' h ih => exact .clone _ _ ih
  | drop f f' h ih => exact .drop _ _ ih
  | lend f f' h ih => exact .lend _ _ ih
  | reclaim f f' h ih => exact .reclaim _ _ ih

end Closure

/-- `create_order` is written with `?`. -/
theorem createOrder_portable (p : BuildProfile) (call : CreateOrderCall) : (createOrder p call).Portable b b' := by
  intro f hf
  by_cases hpos : 0 < call.qty.toInt
  · rw [start_createOrder_of_pos hpos] at hf
    cases hf
    have hpersist : ∀ order inventory, (persist order inventory).Same b b' (persist order inventory) :=
      fun order inventory => (Closure.same_await _).bind fun _ => Closure.same_await _
    have hreserve : ∀ found, (reserve p call.order found).Same b b' (reserve p call.order found) := by
      intro found
      have hfound : (foundOr call.order found).Same b b' (foundOr call.order found) := by
        cases found <;> exact Closure.same_ret _
      refine hfound.bind fun inventory => (Closure.same_ret _).bind fun amount => ?_
      have hdecreased : (decreased p inventory amount).Same b b' (decreased p inventory amount) := by
        unfold decreased
        split
        · exact Closure.same_ret _
        · exact Closure.same_ret _
        · exact .panic
      exact hdecreased.bind fun inventory => hpersist _ inventory
    exact ((Closure.same_await _).bind hreserve).moved
  · rw [start_createOrder_of_nonpos (Int.not_lt.1 hpos)] at hf
    cases hf

/-! ## The two transactions of a block -/

/-- The two transactions have done the same, and both are active or neither is. -/
structure TwinTx (b b' : Backend) (tx tx' : PgTx) : Prop where
  same : SameTx b b' tx tx'
  aborted : tx.aborted = tx'.aborted

variable {tx tx' : PgTx} {db db' : Db}

theorem TwinTx.fresh : TwinTx b b' .fresh .fresh := ⟨.fresh, rfl⟩

theorem TwinTx.abort (h : TwinTx b b' tx tx') (free : Bool) : TwinTx b b' (tx.abort free) (tx'.abort free) :=
  ⟨h.same.abort free, by simp only [Tx.abort_aborted]⟩

theorem TwinTx.sees (h : TwinTx b b' tx tx') (hdb : SameRows b b' db db') :
    SameRows b b' (tx.sees db) (tx'.sees db') := by
  intro k k' hk
  simp only [Tx.sees, overlay, h.same.writes k k' hk, hdb k k' hk]

theorem TwinTx.commit (h : TwinTx b b' tx tx') (hdb : SameRows b b' db db') :
    SameRows b b' (tx.commit db) (tx'.commit db') := by
  intro k k' hk
  cases ha : tx.aborted with
  | true => rw [Tx.commit_of_aborted ha, Tx.commit_of_aborted (h.aborted ▸ ha), hdb k k' hk]
  | false => rw [Tx.commit_of_active ha, Tx.commit_of_active (h.aborted ▸ ha), h.sees hdb k k' hk]

end

/-! ## One call -/

/-- The call is an update, executed on the active transaction, that finds no row. -/
def RepoCall.misses (b : Backend) (db : Db) (tx : PgTx) (fault : Option PgError) : RepoCall → Bool
  | .updateInventory inventory =>
    fault.isNone && !tx.aborted && (tx.sees db (b.inventoryKey inventory.itemId)).isNone
  | _ => false

section
variable {cfg cfg' : Config} {tx tx' : PgTx} {db db' : Db} {o o' : Others} {fault : Option PgError}
  (hd : Deployed cfg.catalog cfg.backend) (hd' : Deployed cfg'.catalog cfg'.backend)
  (hfree : cfg.freeOnAbort = cfg'.freeOnAbort) (htx : TwinTx cfg.backend cfg'.backend tx tx')
  (hdb : SameRows cfg.backend cfg'.backend db db') (ht : Tables.Typed cfg.backend (tx.sees db))
include hd hd' hfree htx hdb ht

/-- **A call on both stacks.** Its transactions stay twins, and its answers are the same unless it is an
update that finds no row. -/
theorem callRepo_same (fault : Option PgError) (c : RepoCall) :
    TwinTx cfg.backend cfg'.backend (callRepo cfg db tx fault c).2 (callRepo cfg' db' tx' fault c).2 ∧
      (c.misses cfg.backend db tx fault = false →
        SameResult cfg.backend cfg'.backend (callRepo cfg db tx fault c).1 (callRepo cfg' db' tx' fault c).1) := by
  have hsees := htx.sees hdb
  cases fault with
  | some e =>
    rw [call_fault, call_fault, hfree]
    exact ⟨htx.abort _, fun _ => .error _ _ (.driver e)⟩
  | none =>
    cases ha : tx.aborted with
    | true =>
      rw [call_aborted ha, call_aborted (htx.aborted ▸ ha)]
      exact ⟨htx, fun _ => .error _ _ (.driver _)⟩
    | false =>
      have ha' : tx'.aborted = false := htx.aborted ▸ ha
      cases c with
      | findByItemIdForUpdate x =>
        have hk := hsees _ _ (.inventory x)
        cases hs : tx.sees db (cfg.backend.inventoryKey x) with
        | none =>
          rw [call_findForUpdate_none hd.inventory ha hs, call_findForUpdate_none hd'.inventory ha' (hk ▸ hs)]
          exact ⟨htx, fun _ => .refl _⟩
        | some row =>
          obtain ⟨q, rfl⟩ := ht.1 x row hs
          rw [call_findForUpdate_some hd.inventory ha hs, call_findForUpdate_some hd'.inventory ha' (hk ▸ hs)]
          exact ⟨⟨htx.same.lock (.inventory x), htx.aborted⟩, fun _ => .refl _⟩
      | findByItemId x =>
        have hk := hsees _ _ (.inventory x)
        cases hs : tx.sees db (cfg.backend.inventoryKey x) with
        | none =>
          rw [call_find_none hd.inventory ha hs, call_find_none hd'.inventory ha' (hk ▸ hs)]
          exact ⟨htx, fun _ => .refl _⟩
        | some row =>
          obtain ⟨q, rfl⟩ := ht.1 x row hs
          rw [call_find_some hd.inventory ha hs, call_find_some hd'.inventory ha' (hk ▸ hs)]
          exact ⟨htx, fun _ => .refl _⟩
      | createInventory inventory =>
        have hk := hsees _ _ (.inventory inventory.itemId)
        cases hs : tx.sees db (cfg.backend.inventoryKey inventory.itemId) with
        | none =>
          rw [call_createInventory_none hd.inventory ha hs, call_createInventory_none hd'.inventory ha' (hk ▸ hs)]
          exact ⟨⟨htx.same.write (.inventory _) _, htx.aborted⟩, fun _ => .refl _⟩
        | some row =>
          rw [call_createInventory_some hd.inventory ha hs, call_createInventory_some hd'.inventory ha' (hk ▸ hs),
            hfree]
          exact ⟨htx.abort _, fun _ => .error _ _ .inventory⟩
      | updateInventory inventory =>
        have hk := hsees _ _ (.inventory inventory.itemId)
        cases hs : tx.sees db (cfg.backend.inventoryKey inventory.itemId) with
        | none =>
          rw [call_update_none hd.inventory ha hs, call_update_none hd'.inventory ha' (hk ▸ hs)]
          exact ⟨htx, fun hm => by simp [RepoCall.misses, ha, hs] at hm⟩
        | some row =>
          obtain ⟨q, rfl⟩ := ht.1 _ row hs
          rw [call_update_some hd.inventory ha hs, call_update_some hd'.inventory ha' (hk ▸ hs)]
          exact ⟨⟨htx.same.write (.inventory _) _, htx.aborted⟩, fun _ => .refl _⟩
      | findOrderById id =>
        have hk := hsees _ _ (.order id)
        cases hs : tx.sees db (cfg.backend.orderKey id) with
        | none =>
          rw [call_findOrder_none ha hd.orders hs, call_findOrder_none ha' hd'.orders (hk ▸ hs)]
          exact ⟨htx, fun _ => .refl _⟩
        | some row =>
          obtain ⟨r, rfl⟩ := ht.2 id row hs
          rw [call_findOrder_some ha hd.orders hs, call_findOrder_some ha' hd'.orders (hk ▸ hs)]
          exact ⟨htx, fun _ => .refl _⟩
      | createOrder order =>
        have hk := hsees _ _ (.order order.id)
        cases hs : tx.sees db (cfg.backend.orderKey order.id) with
        | none =>
          rw [call_createOrder_none ha hd.orders hs, call_createOrder_none ha' hd'.orders (hk ▸ hs)]
          exact ⟨⟨htx.same.write (.order _) _, htx.aborted⟩, fun _ => .refl _⟩
        | some row =>
          rw [call_createOrder_some ha hd.orders hs, call_createOrder_some ha' hd'.orders (hk ▸ hs), hfree]
          exact ⟨htx.abort _, fun _ => .error _ _ .orders⟩

omit hfree ht in
/-- A call waits on both stacks or on neither. -/
theorem callWaits_same (ho : SameOthers cfg.backend cfg'.backend o o') (c : RepoCall) :
    callWaits cfg o db tx fault c = callWaits cfg' o' db' tx' fault c := by
  have hsees := htx.sees hdb
  have haccess : ∀ a a', (cfg.backend.method c).stmt.plan cfg.catalog = .ok a →
      (cfg'.backend.method c).stmt.plan cfg'.catalog = .ok a' → a.waits o db tx = a'.waits o' db' tx' →
      callWaits cfg o db tx fault c = callWaits cfg' o' db' tx' fault c := by
    intro a a' hp hp' hw
    cases ha : tx.aborted with
    | true => simp [callWaits, Stmt.waits, ha, htx.aborted ▸ ha]
    | false => rw [callWaits_of_plan fault hp ha, callWaits_of_plan fault hp' (htx.aborted ▸ ha), hw]
  cases c with
  | findByItemIdForUpdate x =>
    refine haccess _ _ (by rw [stmt_findByItemIdForUpdate]; exact plan_selectInventory hd.inventory _ _)
      (by rw [stmt_findByItemIdForUpdate]; exact plan_selectInventory hd'.inventory _ _) ?_
    simp only [Access.waits]
    exact congrArg₂ _ (congrArg _ (congrArg _ (hsees _ _ (.inventory x)))) (ho.locked _ _ (.inventory x))
  | findByItemId x =>
    refine haccess _ _ (by rw [stmt_findByItemId]; exact plan_selectInventory hd.inventory _ _)
      (by rw [stmt_findByItemId]; exact plan_selectInventory hd'.inventory _ _) ?_
    simp only [Access.waits, Bool.false_and]
  | createInventory inventory =>
    refine haccess _ _ (by rw [stmt_createInventory]; exact plan_insertInventory hd.inventory _ _)
      (by rw [stmt_createInventory]; exact plan_insertInventory hd'.inventory _ _) ?_
    exact ho.written _ _ (.inventory inventory.itemId)
  | updateInventory inventory =>
    refine haccess _ _ (by rw [stmt_updateInventory]; exact plan_updateInventory hd.inventory _ _)
      (by rw [stmt_updateInventory]; exact plan_updateInventory hd'.inventory _ _) ?_
    simp only [Access.waits]
    exact congrArg₂ _ (congrArg _ (hsees _ _ (.inventory inventory.itemId)))
      (ho.locked _ _ (.inventory inventory.itemId))
  | findOrderById id =>
    refine haccess _ _ (by rw [stmt_findOrderById]; exact plan_selectOrder hd.orders _)
      (by rw [stmt_findOrderById]; exact plan_selectOrder hd'.orders _) ?_
    simp only [Access.waits, Bool.false_and]
  | createOrder order =>
    refine haccess _ _ (by rw [stmt_createOrder]; exact plan_insertOrder hd.orders _ _ _)
      (by rw [stmt_createOrder]; exact plan_insertOrder hd'.orders _ _ _) ?_
    exact ho.written _ _ (.order order.id)

end

/-! ## Blocks side by side -/

/-- The same is left of a context on both stacks. -/
inductive SameContext (b b' : Backend) : Option Context → Option Context → Prop where
  | gone : SameContext b b' none none
  | held (tx tx' : PgTx) (n : Nat) (htx : TwinTx b b' tx tx') : SameContext b b' (some ⟨tx, n⟩) (some ⟨tx', n⟩)

/-- A block is at the same point on both stacks, and will go on alike from there. -/
inductive SamePhase (b b' : Backend) : Phase α → Phase α → Prop where
  | created : SamePhase b b' .created .created
  | awaiting (c : RepoCall) (k k' : Except Error c.Reply → Closure α) (n : Refs) (calls : Nat) (tx tx' : PgTx)
    (h : ∀ r r', SameResult b b' r r' → (k r).Same b b' (k' r')) (htx : TwinTx b b' tx tx') :
    SamePhase b b' (.awaiting c k n calls tx) (.awaiting c k' n calls tx')
  | committing (v : α) (tx tx' : PgTx) (htx : TwinTx b b' tx tx') : SamePhase b b' (.committing v tx) (.committing v tx')
  | rollingBack (e e' : Error) (tx tx' : PgTx) (h : SameError b b' e e') (htx : TwinTx b b' tx tx') :
    SamePhase b b' (.rollingBack e tx) (.rollingBack e' tx')
  | returned (r r' : Except Error α) (ctx ctx' : Option Context) (h : SameResult b b' r r')
    (hctx : SameContext b b' ctx ctx') : SamePhase b b' (.returned r ctx) (.returned r' ctx')
  | dropped (ctx ctx' : Option Context) (hctx : SameContext b b' ctx ctx') : SamePhase b b' (.dropped ctx) (.dropped ctx')

section
variable {b b' : Backend} {p p' : Phase α}

theorem SamePhase.live_eq (h : SamePhase b b' p p') : p.live = p'.live := by cases h <;> rfl

theorem SameContext.left {tx tx' : PgTx} (htx : TwinTx b b' tx tx') :
    ∀ lent, SameContext b b' (Context.left tx lent) (Context.left tx' lent)
  | 0 => .gone
  | n + 1 => .held tx tx' (n + 1) htx

theorem SameContext.openTx {ctx ctx' : Option Context} (h : SameContext b b' ctx ctx') :
    Option.Rel (SameTx b b') (ctx.map Context.tx) (ctx'.map Context.tx) := by
  cases h with
  | gone => exact .none
  | held tx tx' n htx => exact .some htx.same

theorem SamePhase.openTx (h : SamePhase b b' p p') : Option.Rel (SameTx b b') p.openTx p'.openTx := by
  cases h with
  | created => exact .none
  | awaiting _ _ _ _ _ _ _ _ htx => exact .some htx.same
  | committing _ _ _ htx | rollingBack _ _ _ _ _ htx => exact .some htx.same
  | returned _ _ _ _ _ hctx | dropped _ _ hctx => exact hctx.openTx

theorem SamePhase.escaped (h : SamePhase b b' p p') : SameContext b b' p.escaped p'.escaped := by
  cases h with
  | created | awaiting | committing | rollingBack => exact .gone
  | returned _ _ _ _ _ hctx | dropped _ _ hctx => exact hctx

theorem SamePhase.leave (h : SamePhase b b' p p') {ctx ctx' : Option Context} (hctx : SameContext b b' ctx ctx') :
    SamePhase b b' (p.leave ctx) (p'.leave ctx') := by
  cases h with
  | returned r r' _ _ h => exact .returned r r' _ _ h hctx
  | dropped => exact .dropped _ _ hctx
  | created => exact .created
  | awaiting c k k' n calls tx tx' h htx => exact .awaiting c k k' n calls tx tx' h htx
  | committing v tx tx' htx => exact .committing v tx tx' htx
  | rollingBack e e' tx tx' h htx => exact .rollingBack e e' tx tx' h htx

theorem SamePhase.cancel (h : SamePhase b b' p p') : SamePhase b b' p.cancel p'.cancel := by
  cases h with
  | awaiting c k k' n calls tx tx' h htx => exact .dropped _ _ (.left htx n.lent)
  | created | committing | rollingBack | returned | dropped => exact .dropped _ _ .gone

/-- Closures that go on alike come to the same await point. -/
theorem Closure.Same.resume {f f' : Closure α} {tx tx' : PgTx} (h : f.Same b b' f') (htx : TwinTx b b' tx tx')
    (calls : Nat) (n : Refs) : SamePhase b b' (resume calls tx (f.poll n)) (resume calls tx' (f'.poll n)) := by
  induction h generalizing n with
  | ret r r' h =>
    simp only [Closure.poll]
    generalize n.clones = m
    cases h with
    | ok v =>
      cases m with
      | zero => exact .committing v _ _ htx
      | succ m => exact .returned _ _ _ _ (.refl _) (.held _ _ _ htx)
    | error e e' h =>
      cases m with
      | zero => exact .rollingBack e e' _ _ h htx
      | succ m => exact .returned _ _ _ _ (.error e e' h) (.held _ _ _ htx)
  | panic => exact .dropped _ _ (.left htx n.lent)
  | call c k k' h => exact .awaiting c k k' n calls _ _ h htx
  | clone f f' h ih => exact ih n.clone
  | drop f f' h ih => exact ih n.drop
  | lend f f' h ih => exact ih n.lend
  | reclaim f f' h ih => exact ih n.reclaim

end

/-- The await point is an update that will find no row. -/
def Phase.misses (cfg : Config) (job : Job α) (db : Db) : Phase α → Bool
  | .awaiting c _ _ calls tx => c.misses cfg.backend db tx (job.faults.stmt calls)
  | _ => false

section
variable {cfg cfg' : Config} {job : Job α} {p p' : Phase α} {db db' : Db} {o o' : Others}
  (hd : Deployed cfg.catalog cfg.backend) (hd' : Deployed cfg'.catalog cfg'.backend)
  (hdb : SameRows cfg.backend cfg'.backend db db')

include hdb in
theorem commit_same (fault : Option PgError) {tx tx' : PgTx} (htx : TwinTx cfg.backend cfg'.backend tx tx') (v : α) :
    SameResult cfg.backend cfg'.backend ((DbContext.commit cfg fault tx db).1.map fun _ => v)
        ((DbContext.commit cfg' fault tx' db').1.map fun _ => v) ∧
      SameRows cfg.backend cfg'.backend (DbContext.commit cfg fault tx db).2 (DbContext.commit cfg' fault tx' db').2 := by
  cases fault with
  | some e => exact ⟨.error _ _ (.driver e), hdb⟩
  | none => exact ⟨.ok v, htx.commit hdb⟩

include hdb in
theorem rollback_same (fault : Option PgError) (tx tx' : PgTx) :
    SameRows cfg.backend cfg'.backend (DbContext.rollback cfg fault tx db).2
      (DbContext.rollback cfg' fault tx' db').2 := by
  cases fault with
  | some e => exact hdb
  | none => exact hdb

include hd hd' hdb

theorem SamePhase.waits_eq (h : SamePhase cfg.backend cfg'.backend p p')
    (ho : SameOthers cfg.backend cfg'.backend o o') : p.waits cfg job o db = p'.waits cfg' job o' db' := by
  cases h with
  | awaiting c k k' n calls tx tx' _ htx => exact callWaits_same hd hd' htx hdb ho c
  | created | committing | rollingBack | returned | dropped => rfl

/-- **Polls on both stacks** lead to the same point. -/
theorem SamePhase.poll (hfree : cfg.freeOnAbort = cfg'.freeOnAbort) (h : SamePhase cfg.backend cfg'.backend p p')
    (hjob : job.Portable cfg.backend cfg'.backend)
    (ht : ∀ tx, p.openTx = some tx → Tables.Typed cfg.backend (tx.sees db)) (hm : p.misses cfg job db = false) :
    Option.Rel (fun q q' => SamePhase cfg.backend cfg'.backend q.2.1 q'.2.1 ∧
      SameRows cfg.backend cfg'.backend q.2.2 q'.2.2) (p.poll cfg job db) (p'.poll cfg' job db') := by
  cases h with
  | created =>
    simp only [Phase.poll]
    cases hs : job.start with
    | error e => exact .some ⟨.returned _ _ _ _ (.refl _) .gone, hdb⟩
    | ok f =>
      cases job.faults.begin with
      | some e => exact .some ⟨.returned _ _ _ _ (.error _ _ (.driver e)) .gone, hdb⟩
      | none => exact .some ⟨(hjob f hs).resume .fresh 0 .given, hdb⟩
  | awaiting c k k' n calls tx tx' hk htx =>
    obtain ⟨htx', hr⟩ := callRepo_same hd hd' hfree htx hdb (ht tx rfl) (job.faults.stmt calls) c
    exact .some ⟨(hk _ _ (hr hm)).resume htx' (calls + 1) n, hdb⟩
  | committing v tx tx' htx =>
    obtain ⟨hr, hrows⟩ := commit_same hdb job.faults.commit htx v
    exact .some ⟨.returned _ _ _ _ hr .gone, hrows⟩
  | rollingBack e e' tx tx' h htx =>
    exact .some ⟨.returned _ _ _ _ (.error e e' h) .gone, rollback_same hdb job.faults.rollback tx tx'⟩
  | returned | dropped => exact .none

/-- Whoever holds an escaped context does the same with it on both stacks. -/
theorem act_same (hfree : cfg.freeOnAbort = cfg'.freeOnAbort) {tx tx' : PgTx}
    (htx : TwinTx cfg.backend cfg'.backend tx tx') (ht : Tables.Typed cfg.backend (tx.sees db))
    (ho : SameOthers cfg.backend cfg'.backend o o') (n : Nat) (act : HolderAct) :
    Option.Rel (fun q q' => SameContext cfg.backend cfg'.backend q.1 q'.1 ∧ SameRows cfg.backend cfg'.backend q.2 q'.2)
      (Context.act cfg o db ⟨tx, n⟩ act) (Context.act cfg' o' db' ⟨tx', n⟩ act) := by
  cases act with
  | call c fault =>
    simp only [Context.act, callWaits_same hd hd' htx hdb ho c]
    split
    · exact .none
    · exact .some ⟨.held _ _ n (callRepo_same hd hd' hfree htx hdb ht fault c).1, hdb⟩
  | clone => exact .some ⟨.held _ _ _ htx, hdb⟩
  | drop =>
    simp only [Context.act]
    split
    · exact .some ⟨.gone, hdb⟩
    · exact .some ⟨.held _ _ _ htx, hdb⟩
  | commit fault =>
    simp only [Context.act]
    split
    · exact .some ⟨.gone, (commit_same hdb fault htx ()).2⟩
    · exact .some ⟨.held _ _ _ htx, hdb⟩
  | rollback fault =>
    simp only [Context.act]
    split
    · exact .some ⟨.gone, rollback_same hdb fault tx tx'⟩
    · exact .some ⟨.held _ _ _ htx, hdb⟩

end

/-! ## Servers side by side -/

namespace State

variable {ι : Type}

/-- The two servers hold the same rows, and every block is at the same point. -/
structure Beside (b b' : Backend) (s s' : State ι α) : Prop where
  rows : SameRows b b' s.committed s'.committed
  phase : ∀ i, SamePhase b b' (s.phase i) (s'.phase i)

/-- The action runs an update that finds no row. -/
def missesUpdate (cfg : Config) (jobs : ι → Job α) (s : State ι α) : Action ι → Bool
  | .poll i => (s.phase i).misses cfg (jobs i) s.committed
  | .cancel _ | .holder _ _ => false

variable [DecidableEq ι] [Fintype ι]

/-- Every update that a schedule runs finds its row. -/
def updatesFind (cfg : Config) (jobs : ι → Job α) : State ι α → List (Action ι) → Bool
  | _, [] => true
  | s, a :: as => !s.missesUpdate cfg jobs a && match s.step cfg jobs a with
    | none => true
    | some s' => s'.updatesFind cfg jobs as

section
variable {cfg cfg' : Config} {jobs : ι → Job α} {s s' : State ι α}

omit [DecidableEq ι] [Fintype ι] in
theorem Beside.openTx {b b' : Backend} (h : Beside b b' s s') (i : ι) :
    Option.Rel (SameTx b b') (s.openTx i) (s'.openTx i) := (h.phase i).openTx

theorem Beside.others {b b' : Backend} (h : Beside b b' s s') (i : ι) : SameOthers b b' (s.others i) (s'.others i) where
  locked k k' hk := by
    have hj : ∀ j, (s.openTx j).any (fun tx => decide (k ∈ tx.locks)) =
        (s'.openTx j).any fun tx => decide (k' ∈ tx.locks) :=
      fun j => any_eq (h.openTx j) fun tx tx' htx => decide_eq_decide.2 (htx.locks k k' hk)
    simp only [State.others, hj]
  written k k' hk := by
    have hj : ∀ j, (s.openTx j).any (fun tx => (tx.writes k).isSome) =
        (s'.openTx j).any fun tx => (tx.writes k').isSome :=
      fun j => any_eq (h.openTx j) fun tx tx' htx => by rw [htx.writes k k' hk]
    simp only [State.others, hj]

omit [Fintype ι] in
theorem Beside.goto {b b' : Backend} (h : Beside b b' s s') (i : ι) {p p' : Phase α} {db db' : Db}
    (hp : SamePhase b b' p p') (hdb : SameRows b b' db db') : Beside b b' (s.goto i p db) (s'.goto i p' db') where
  rows := hdb
  phase j := by
    by_cases hj : j = i
    · subst hj
      rw [goto_phase_self, goto_phase_self]
      exact hp
    · rw [goto_phase_ne _ _ _ hj, goto_phase_ne _ _ _ hj]
      exact h.phase j

variable (hd : Deployed cfg.catalog cfg.backend) (hd' : Deployed cfg'.catalog cfg'.backend)
  (hfree : cfg.freeOnAbort = cfg'.freeOnAbort) (hjobs : ∀ i, (jobs i).Portable cfg.backend cfg'.backend)
include hd hd' hfree hjobs

/-- **The step lemma.** Unless an update finds no row, both servers refuse an action, or both take it and stay
side by side. -/
theorem beside_step (ht : s.Typed cfg) (h : Beside cfg.backend cfg'.backend s s') {a : Action ι}
    (hm : s.missesUpdate cfg jobs a = false) :
    Option.Rel (Beside cfg.backend cfg'.backend) (s.step cfg jobs a) (s'.step cfg' jobs a) := by
  cases a with
  | poll i =>
    have hwaits : (s.phase i).waits cfg (jobs i) (s.others i) s.committed =
        (s'.phase i).waits cfg' (jobs i) (s'.others i) s'.committed :=
      (h.phase i).waits_eq hd hd' h.rows (h.others i)
    simp only [step, hwaits]
    split
    · exact .none
    · have hpoll := (h.phase i).poll hd hd' h.rows hfree (hjobs i) (fun tx htx => ht.sees htx) hm
      generalize (s.phase i).poll cfg (jobs i) s.committed = q, (s'.phase i).poll cfg' (jobs i) s'.committed = q' at hpoll
      cases hpoll with
      | none => exact .none
      | some hq => exact .some (h.goto i hq.1 hq.2)
  | cancel i =>
    simp only [step, (h.phase i).live_eq]
    split
    · exact .some (h.goto i (h.phase i).cancel h.rows)
    · exact .none
  | holder i act =>
    have hescaped := (h.phase i).escaped
    simp only [step]
    generalize hp : (s.phase i).escaped = ctx, (s'.phase i).escaped = ctx' at hescaped
    cases hescaped with
    | gone => exact .none
    | held tx tx' n htx =>
      have htyped : Tables.Typed cfg.backend (tx.sees s.committed) := ht.sees (openTx_escaped hp)
      have hact := act_same hd hd' h.rows hfree htx htyped (h.others i) n act
      simp only
      generalize Context.act cfg (s.others i) s.committed ⟨tx, n⟩ act = q,
        Context.act cfg' (s'.others i) s'.committed ⟨tx', n⟩ act = q' at hact
      cases hact with
      | none => exact .none
      | some hq => exact .some (h.goto i ((h.phase i).leave hq.1) hq.2)

theorem beside_run : ∀ (as : List (Action ι)) {s s' : State ι α}, s.Typed cfg → Beside cfg.backend cfg'.backend s s' →
    s.updatesFind cfg jobs as = true →
    Option.Rel (fun m m' => m.Typed cfg ∧ Beside cfg.backend cfg'.backend m m') (run (step cfg jobs) s as)
      (run (step cfg' jobs) s' as)
  | [], s, s', ht, h, _ => by
    rw [run_nil, run_nil]
    exact .some ⟨ht, h⟩
  | a :: as, s, s', ht, h, hfind => by
    simp only [updatesFind, Bool.and_eq_true, Bool.not_eq_true'] at hfind
    obtain ⟨hm, hrest⟩ := hfind
    have hstep := beside_step hd hd' hfree hjobs ht h hm
    rw [run_cons, run_cons]
    generalize hs : s.step cfg jobs a = o, s'.step cfg' jobs a = o' at hstep
    rw [hs] at hrest
    cases hstep with
    | none => exact .none
    | some hnext => exact beside_run as (typed_step hd ht hs) hnext hrest

end

/-- `i` runs an update, and the two stacks answer it differently. -/
def Differ (cfg cfg' : Config) (jobs : ι → Job α) (s s' : State ι α) (i : ι) : Prop :=
  ∃ inventory : Inventory, exchanges (s.events cfg jobs i (.poll i)) = [⟨.updateInventory inventory, .ok inventory⟩] ∧
    exchanges (s'.events cfg' jobs i (.poll i)) = [⟨.updateInventory inventory, .error (.seaOrm .recordNotUpdated)⟩]

omit [Fintype ι] in
/-- An update that finds no row succeeds in sqlx, and is an error in SeaORM. -/
theorem missed_update_differs {cfg cfg' : Config} {jobs : ι → Job α} {s s' : State ι α} (hb : cfg.backend = .sqlx)
    (hb' : cfg'.backend = .seaOrm) (hd : Deployed cfg.catalog cfg.backend) (hd' : Deployed cfg'.catalog cfg'.backend)
    (h : Beside cfg.backend cfg'.backend s s') {i : ι} (hm : s.missesUpdate cfg jobs (.poll i) = true) :
    Differ cfg cfg' jobs s s' i := by
  have hphase := h.phase i
  simp only [missesUpdate] at hm
  unfold Differ
  simp only [events, if_true]
  generalize hp : s.phase i = p, hp' : s'.phase i = p' at hphase hm
  cases hphase with
  | awaiting c k k' n calls tx tx' hk htx =>
    simp only [Phase.misses] at hm
    cases c with
    | updateInventory inventory =>
      simp only [RepoCall.misses, Bool.and_eq_true, Option.isNone_iff_eq_none, Bool.not_eq_true'] at hm
      obtain ⟨⟨hfault, ha⟩, hs⟩ := hm
      have hs' := (htx.sees h.rows _ _ (.inventory inventory.itemId)).symm.trans hs
      refine ⟨inventory, ?_, ?_⟩
      · simp only [Phase.poll, hfault, call_update_none hd.inventory ha hs, Option.map_some, Option.getD_some,
          exchanges_call, exchanges_events, hb, Backend.missedUpdate]
      · simp only [Phase.poll, hfault, call_update_none hd'.inventory (htx.aborted ▸ ha) hs', Option.map_some,
          Option.getD_some, exchanges_call, exchanges_events, hb', Backend.missedUpdate]
    | findByItemIdForUpdate | findByItemId | createInventory | findOrderById | createOrder => cases hm
  | created | committing | rollingBack | returned | dropped => cases hm

/-- **Portable jobs run alike on both stacks.** On databases with the same rows, a schedule in which every
update finds its row runs on both stacks or on neither, and leads every block to the same point and both
databases to the same rows; and where it leads to an update that finds none, the stacks part. -/
theorem stacks_portable {cat cat' : Catalog} (hd : Deployed cat .sqlx) (hd' : Deployed cat' .seaOrm) {db db' : Db}
    (hdb : Tables.Typed .sqlx db) (hrows : SameRows .sqlx .seaOrm db db') (free : Bool) (p : BuildProfile)
    {jobs : ι → Job α} (hjobs : ∀ i, (jobs i).Portable .sqlx .seaOrm) (as : List (Action ι)) :
    let sqlx : Config := ⟨.sqlx, cat, free, p⟩
    let seaOrm : Config := ⟨.seaOrm, cat', free, p⟩
    (init db).updatesFind sqlx jobs as = true →
      Option.Rel (fun s s' => Beside .sqlx .seaOrm s s' ∧
          ∀ i, s.missesUpdate sqlx jobs (.poll i) = true → Differ sqlx seaOrm jobs s s' i)
        (run (step sqlx jobs) (init db) as) (run (step seaOrm jobs) (init db') as) := by
  intro sqlx seaOrm hfind
  have htyped : (init db : State ι α).Typed sqlx := ⟨hdb, fun i tx htx => by cases htx⟩
  have hinit : Beside .sqlx .seaOrm (init db : State ι α) (init db') := ⟨hrows, fun i => .created⟩
  have hfree : sqlx.freeOnAbort = seaOrm.freeOnAbort := rfl
  have hrun := beside_run hd hd' hfree hjobs as htyped hinit hfind
  generalize run (step sqlx jobs) (init db) as = o, run (step seaOrm jobs) (init db') as = o' at hrun
  cases hrun with
  | none => exact .none
  | some h => exact .some ⟨h.2, fun i hm => missed_update_differs rfl rfl hd hd' h.2 hm⟩

end State

/-- One more of the item, if it is there. -/
def restockBody : Closure Inventory := do
  let found ← Closure.await (.findByItemIdForUpdate ⟨7⟩)
  match found with
  | some inventory => Closure.await (.updateInventory ⟨inventory.itemId, inventory.quantity + 1⟩)
  | none => .ret (.error (.inventoryNotFound ⟨7⟩))

/-- Restocking the item, and an update of an item that is not there. -/
def clerks : Bool → Job Inventory
  | false => ⟨.ok restockBody.moved, .none⟩
  | true => ⟨.ok (Closure.await (.updateInventory ⟨⟨8⟩, 1⟩)).moved, .none⟩

theorem clerks_portable (i : Bool) : (clerks i).Portable .sqlx .seaOrm := by
  cases i with
  | false =>
    rintro f ⟨⟩
    refine ((Closure.same_await _).bind fun found => ?_).moved
    cases found with
    | none => exact Closure.same_ret _
    | some inventory => exact Closure.same_await _
  | true =>
    rintro f ⟨⟩
    exact (Closure.same_await _).moved

/-- The item is restocked, and the other update is about to run. -/
def clerical : List (Action Bool) := [.poll false, .poll false, .poll false, .poll true, .poll false]

/-- Up to the update of the missing item both stacks go side by side. -/
theorem State.stacks_portable_clerks :
    let sqlx : Config := ⟨.sqlx, Makefile.catalog, true, .dev⟩
    let seaOrm : Config := ⟨.seaOrm, Makefile.catalog, true, .dev⟩
    Option.Rel (fun s s' => State.Beside .sqlx .seaOrm s s' ∧
        ∀ i, s.missesUpdate sqlx clerks (.poll i) = true → State.Differ sqlx seaOrm clerks s s' i)
      (run (State.step sqlx clerks) (.init (stocked.store .sqlx)) clerical)
      (run (State.step seaOrm clerks) (.init (stocked.store .seaOrm)) clerical) := by
  have hd : Deployed Makefile.catalog .sqlx := Makefile.deployed .sqlx
  have hd' : Deployed Makefile.catalog .seaOrm := Makefile.deployed .seaOrm
  have hrows : SameRows .sqlx .seaOrm (stocked.store .sqlx) (stocked.store .seaOrm) :=
    SameTables.store ⟨rfl, rfl⟩ _ _
  exact State.stacks_portable hd hd' (Tables.typed_store _ stocked) hrows true .dev clerks_portable clerical
    (by decide +kernel)

end TransactionManager
