import TransactionManager.Serial
/-
# The sqlx stack and the SeaORM stack side by side

Two servers, one for each stack, the same `create_order` calls with the same ids and failures on
both, and the same schedule. A call is at the same `Progress` on both sides (`Twin`), its two
transactions have locked and written the same rows of their own tables (`SameTx`), so it waits on
both sides or on neither, and a step leads to twins again (`lockstep_step`).

The one answer in which the repositories differ, `update` of an absent row
(`sqlx_impl/src/inventory_repository.rs:88-103`, `sea_orm_impl/src/inventory_repository.rs:85-100`),
is out of reach: the row that a call updates is the one it has locked (`UpdatesFound`).
-/

namespace TransactionManager

open RowStore RustInt Run

/-! ## The same rows in two schemas -/

/-- The keys of one row in the schemas of two stacks. -/
inductive SameKey (b b' : Backend) : Key → Key → Prop where
  | inventory (x : ItemId) : SameKey b b' (b.inventoryKey x) (b'.inventoryKey x)
  | order (id : OrderId) : SameKey b b' (b.orderKey id) (b'.orderKey id)

/-- `inventory` and `orders` of the two stacks hold the same rows. -/
def SameRows (b b' : Backend) (db db' : Db) : Prop := ∀ k k', SameKey b b' k k' → db k = db' k'

structure SameTx (b b' : Backend) (tx tx' : PgTx) : Prop where
  locks : ∀ k k', SameKey b b' k k' → (k ∈ tx.locks ↔ k' ∈ tx'.locks)
  writes : SameRows b b' tx.writes tx'.writes

structure SameOthers (b b' : Backend) (o o' : Others) : Prop where
  locked : ∀ k k', SameKey b b' k k' → o.locked k = o'.locked k'
  written : ∀ k k', SameKey b b' k k' → o.written k = o'.written k'

def SameTables (t t' : Tables) : Prop := t.inventory = t'.inventory ∧ t.orders = t'.orders

section
variable {b b' : Backend} {tx tx' : PgTx} {t t' : Tables} {k k' j j' : Key}

theorem SameKey.eq_iff (hk : SameKey b b' k k') (hj : SameKey b b' j j') : k = j ↔ k' = j' := by
  cases hk with
  | inventory x =>
    cases hj with
    | inventory y => rw [Backend.inventoryKey_inj, Backend.inventoryKey_inj]
    | order id => exact iff_of_false (b.inventoryKey_ne_orderKey x id) (b'.inventoryKey_ne_orderKey x id)
  | order id =>
    cases hj with
    | inventory y =>
      exact iff_of_false (Ne.symm (b.inventoryKey_ne_orderKey y id)) (Ne.symm (b'.inventoryKey_ne_orderKey y id))
    | order id' => rw [Backend.orderKey_inj, Backend.orderKey_inj]

theorem SameTx.fresh : SameTx b b' .fresh .fresh where
  locks k k' _ := by simp
  writes k k' _ := rfl

theorem SameTx.lock (h : SameTx b b' tx tx') (hj : SameKey b b' j j') : SameTx b b' (tx.lock j) (tx'.lock j') where
  locks k k' hk := by
    rw [Tx.lock_locks, Tx.lock_locks, List.mem_cons, List.mem_cons, hk.eq_iff hj, h.locks k k' hk]
  writes := h.writes

/-- The rows differ from stack to stack only in their key. -/
theorem SameTx.write (h : SameTx b b' tx tx') (hj : SameKey b b' j j') (row : Row) :
    SameTx b b' (tx.write j row) (tx'.write j' row) where
  locks k k' hk := by
    rw [Tx.write_locks, Tx.write_locks, List.mem_cons, List.mem_cons, hk.eq_iff hj, h.locks k k' hk]
  writes k k' hk := by
    rw [Tx.write_writes, Tx.write_writes]
    by_cases e : k = j
    · have e' := (hk.eq_iff hj).1 e
      rw [e, e', put_self, put_self]
    · have e' := mt (hk.eq_iff hj).2 e
      rw [put_ne row e, put_ne row e', h.writes k k' hk]

theorem SameTx.abort (h : SameTx b b' tx tx') (free : Bool) : SameTx b b' (tx.abort free) (tx'.abort free) := by
  cases free with
  | true => exact ⟨fun k k' _ => by simp [Tx.abort], fun k k' _ => rfl⟩
  | false => exact ⟨h.locks, h.writes⟩

theorem SameTables.store (h : SameTables t t') (b b' : Backend) : SameRows b b' (t.store b) (t'.store b') := by
  rintro k k' (x | id)
  · rw [Tables.store_inventoryKey, Tables.store_inventoryKey, h.1]
  · rw [Tables.store_orderKey, Tables.store_orderKey, h.2]

theorem SameRows.tables (h : SameRows b b' (t.store b) (t'.store b')) : SameTables t t' :=
  ⟨funext fun x => Tables.inventory_of_store (h _ _ (.inventory x)),
    funext fun id => Tables.orders_of_store (h _ _ (.order id))⟩

theorem SameRows.typed {db db' : Db} (h : SameRows b b' db db') (hdb : Tables.Typed b db) : Tables.Typed b' db' := by
  constructor
  · intro x row hrow
    exact hdb.1 x row (by rw [h _ _ (.inventory x), hrow])
  · intro id row hrow
    exact hdb.2 id row (by rw [h _ _ (.order id), hrow])

end

section
variable (b b' : Backend) (call : CreateOrderCall) (q : Int32)

theorem sameTx_locked : SameTx b b' (call.lockedTx b) (call.lockedTx b') := SameTx.fresh.lock (.inventory _)

theorem sameTx_updated : SameTx b b' (call.updatedTx b q) (call.updatedTx b' q) :=
  (sameTx_locked b b' call).write (.inventory _) _

theorem sameTx_created : SameTx b b' (call.createdTx b q) (call.createdTx b' q) :=
  (sameTx_updated b b' call q).write (.order _) _

end

/-! ## Twins -/

/-- A call is as far on both sides; its errors and its transactions are those of each stack. -/
inductive Twin (b b' : Backend) : Progress → Progress → Prop where
  | created : Twin b b' .created .created
  | finding : Twin b b' .finding .finding
  | updating (q : Int32) : Twin b b' (.updating q) (.updating q)
  | creating (q : Int32) : Twin b b' (.creating q) (.creating q)
  | committing (q : Int32) : Twin b b' (.committing q) (.committing q)
  | rollingBack (e e' : Error) (tx tx' : PgTx) (h : SameTx b b' tx tx') :
    Twin b b' (.rollingBack e tx) (.rollingBack e' tx')
  | ok (order : Order) : Twin b b' (.returned (.ok order)) (.returned (.ok order))
  | error (e e' : Error) : Twin b b' (.returned (.error e)) (.returned (.error e'))
  | dropped : Twin b b' .dropped .dropped

/-- What a caller sees of a call: the same repository call sent, the same order about to be
committed or returned, an error on both sides, or dropped on both sides. -/
inductive SamePoint : Phase Order → Phase Order → Prop where
  | created : SamePoint .created .created
  | awaiting (c : RepoCall) (k k' : Except Error c.Reply → Closure Order) (n : Refs) (calls : Nat) (tx tx' : PgTx) :
    SamePoint (.awaiting c k n calls tx) (.awaiting c k' n calls tx')
  | committing (order : Order) (tx tx' : PgTx) : SamePoint (.committing order tx) (.committing order tx')
  | rollingBack (e e' : Error) (tx tx' : PgTx) : SamePoint (.rollingBack e tx) (.rollingBack e' tx')
  | ok (order : Order) : SamePoint (.returned (.ok order) none) (.returned (.ok order) none)
  | error (e e' : Error) : SamePoint (.returned (.error e) none) (.returned (.error e') none)
  | dropped : SamePoint (.dropped none) (.dropped none)

section
variable {cfg cfg' : Config} {call : CreateOrderCall} {t t' : Tables} {g g' : Progress} {o o' : Others}

theorem Twin.point (h : Twin cfg.backend cfg'.backend g g') : SamePoint (g.phase cfg call) (g'.phase cfg' call) := by
  cases h with
  | created => exact .created
  | finding => exact .awaiting _ _ _ _ _ _ _
  | updating q => exact .awaiting _ _ _ _ _ _ _
  | creating q => exact .awaiting _ _ _ _ _ _ _
  | committing q => exact .committing _ _ _
  | rollingBack e e' tx tx' => exact .rollingBack _ _ _ _
  | ok order => exact .ok order
  | error e e' => exact .error e e'
  | dropped => exact .dropped

theorem Twin.live_eq {b b' : Backend} (h : Twin b b' g g') : g.live = g'.live := by
  cases h <;> rfl

theorem Twin.openTx (h : Twin cfg.backend cfg'.backend g g') :
    Option.Rel (SameTx cfg.backend cfg'.backend) (g.phase cfg call).openTx (g'.phase cfg' call).openTx := by
  cases h with
  | created | ok | error | dropped => exact .none
  | finding => exact .some .fresh
  | updating q => exact .some (sameTx_locked _ _ call)
  | creating q => exact .some (sameTx_updated _ _ call q)
  | committing q => exact .some (sameTx_created _ _ call q)
  | rollingBack e e' tx tx' h => exact .some h

theorem Twin.holds {b b' : Backend} (h : Twin b b' g g') (ht : SameTables t t') (hg : g.Holds call t) :
    g'.Holds call t' := by
  cases h with
  | created | rollingBack | ok | error | dropped => trivial
  | finding => exact hg
  | updating q | creating q => exact ⟨hg.1, ht.1 ▸ hg.2.stock, hg.2.le⟩
  | committing q => exact ⟨hg.1, ⟨ht.1 ▸ hg.2.1.stock, hg.2.1.le⟩, ht.2 ▸ hg.2.2⟩

/-- Twins wait alike. -/
theorem Twin.waits_eq (h : Twin cfg.backend cfg'.backend g g') (ht : SameTables t t')
    (ho : SameOthers cfg.backend cfg'.backend o o') : g.waits cfg call o t = g'.waits cfg' call o' t' := by
  cases h with
  | created | committing | rollingBack | ok | error | dropped => rfl
  | finding | updating q => simp only [Progress.waits, ht.1, ho.locked _ _ (.inventory call.itemId)]
  | creating q => simp only [Progress.waits, ho.written _ _ (.order call.orderId)]

theorem SameTables.place (h : SameTables t t') (call : CreateOrderCall) (q : Int32) :
    SameTables (call.place t q) (call.place t' q) := by
  constructor
  · simp only [CreateOrderCall.place, Tables.addOrder_inventory, Tables.setStock, h.1]
  · simp only [CreateOrderCall.place, Tables.addOrder, Tables.setStock_orders, h.2]

/-- **Twins step to twins.** -/
theorem Twin.next (call : CreateOrderCall) (h : Twin cfg.backend cfg'.backend g g') (ht : SameTables t t')
    (hfree : cfg.freeOnAbort = cfg'.freeOnAbort) :
    Option.Rel (fun n n' => Twin cfg.backend cfg'.backend n.1 n'.1 ∧ SameTables n.2 n'.2)
      (g.next cfg call t) (g'.next cfg' call t') := by
  cases h with
  | created =>
    by_cases hq : call.qty.toInt ≤ 0
    · simp only [Progress.next, if_pos hq]
      exact .some ⟨.error _ _, ht⟩
    · simp only [Progress.next, if_neg hq]
      cases call.faults.begin with
      | some e => exact .some ⟨.error _ _, ht⟩
      | none => exact .some ⟨.finding, ht⟩
  | finding =>
    simp only [Progress.next, ← ht.1, hfree]
    cases call.faults.stmt 0 with
    | some e => exact .some ⟨.rollingBack _ _ _ _ (SameTx.fresh.abort _), ht⟩
    | none =>
      cases t.inventory call.itemId with
      | none => exact .some ⟨.rollingBack _ _ _ _ .fresh, ht⟩
      | some q =>
        simp only
        split
        · exact .some ⟨.rollingBack _ _ _ _ (sameTx_locked _ _ call), ht⟩
        · split
          · exact .some ⟨.rollingBack _ _ _ _ (sameTx_locked _ _ call), ht⟩
          · exact .some ⟨.updating q, ht⟩
  | updating q =>
    simp only [Progress.next, hfree]
    cases call.faults.stmt 1 with
    | some e => exact .some ⟨.rollingBack _ _ _ _ ((sameTx_locked _ _ call).abort _), ht⟩
    | none => exact .some ⟨.creating q, ht⟩
  | creating q =>
    simp only [Progress.next, ← ht.2, hfree]
    cases call.faults.stmt 2 with
    | some e => exact .some ⟨.rollingBack _ _ _ _ ((sameTx_updated _ _ call q).abort _), ht⟩
    | none =>
      cases t.orders call.orderId with
      | some o => exact .some ⟨.rollingBack _ _ _ _ ((sameTx_updated _ _ call q).abort _), ht⟩
      | none => exact .some ⟨.committing q, ht⟩
  | committing q =>
    simp only [Progress.next]
    cases call.faults.commit with
    | some e => exact .some ⟨.error _ _, ht⟩
    | none => exact .some ⟨.ok _, ht.place call q⟩
  | rollingBack e e' tx tx' h => exact .some ⟨.error e e', ht⟩
  | ok | error | dropped => exact .none

end

/-! ## Lock-step -/

variable {ι : Type} [DecidableEq ι] [Fintype ι]

/-- A poll, as a step of the machine. -/
theorem step_poll {cfg : Config} {calls : ι → CreateOrderCall} {s : State ι Order} {i : ι} {t : Tables} {g : Progress}
    (hd : Deployed cfg.catalog cfg.backend) (hdb : s.committed = t.store cfg.backend)
    (hp : s.phase i = g.phase cfg (calls i)) (hg : g.Holds (calls i) t) :
    s.step cfg (createOrders cfg calls) (.poll i) =
      if g.waits cfg (calls i) (s.others i) t then none
      else (g.next cfg (calls i) t).map fun n => s.goto i (n.1.phase cfg (calls i)) (n.2.store cfg.backend) := by
  have hpoll := poll_progress hd hg
  simp only [polled, advanced] at hpoll
  simp only [State.step, createOrders, hp, hdb, waits_progress hd]
  split
  · rfl
  · have := congrArg (Option.map fun r : Phase Order × Db => s.goto i r.1 r.2) hpoll
    simpa only [Option.map_map, Function.comp_def] using this

/-- The two servers, the tables they keep and the progress of every call. -/
structure Lockstep (cfg cfg' : Config) (calls : ι → CreateOrderCall) (t t' : Tables) (s s' : State ι Order) :
    Prop where
  sound : s.Sound
  tables : SameTables t t'
  committed : s.committed = t.store cfg.backend
  committed' : s'.committed = t'.store cfg'.backend
  twin : ∀ i, ∃ g g', s.phase i = g.phase cfg (calls i) ∧ s'.phase i = g'.phase cfg' (calls i) ∧
    Twin cfg.backend cfg'.backend g g' ∧ g.Holds (calls i) t

section
variable {cfg cfg' : Config} {calls : ι → CreateOrderCall} {t t' : Tables} {s s' : State ι Order}

omit [DecidableEq ι] [Fintype ι] in
theorem Lockstep.openTx (h : Lockstep cfg cfg' calls t t' s s') (i : ι) :
    Option.Rel (SameTx cfg.backend cfg'.backend) (s.openTx i) (s'.openTx i) := by
  obtain ⟨g, g', hg, hg', htwin, -⟩ := h.twin i
  simp only [State.openTx, hg, hg']
  exact htwin.openTx

theorem any_eq {b b' : Backend} {o o' : Option PgTx} (h : Option.Rel (SameTx b b') o o') {P P' : PgTx → Bool}
    (hP : ∀ tx tx', SameTx b b' tx tx' → P tx = P' tx') : o.any P = o'.any P' := by
  cases h with
  | none => rfl
  | some h => exact hP _ _ h

/-- What the others of a call hold is the same on both sides. -/
theorem Lockstep.others (h : Lockstep cfg cfg' calls t t' s s') (i : ι) :
    SameOthers cfg.backend cfg'.backend (s.others i) (s'.others i) where
  locked k k' hk := by
    have hj : ∀ j, (s.openTx j).any (fun tx => decide (k ∈ tx.locks)) =
        (s'.openTx j).any fun tx => decide (k' ∈ tx.locks) :=
      fun j => any_eq (h.openTx j) fun tx tx' htx => decide_eq_decide.2 (htx.locks k k' hk)
    simp only [State.others, hj]
  written k k' hk := by
    have hj : ∀ j, (s.openTx j).any (fun tx => (tx.writes k).isSome) =
        (s'.openTx j).any fun tx => (tx.writes k').isSome :=
      fun j => any_eq (h.openTx j) fun tx tx' htx => by rw [htx.writes k k' hk]
    simp only [State.others, hj]

/-- One call has gone from twins to twins, and everyone else has stayed. -/
theorem Lockstep.goto (h : Lockstep cfg cfg' calls t t' s s') {a : Action ι} {n n' : Progress} {u u' : Tables}
    (hstep : s.step cfg (createOrders cfg calls) a =
      some (s.goto a.caller (n.phase cfg (calls a.caller)) (u.store cfg.backend)))
    (htwin : Twin cfg.backend cfg'.backend n n') (hu : SameTables u u') (hn : n.Holds (calls a.caller) u) :
    Lockstep cfg cfg' calls u u' (s.goto a.caller (n.phase cfg (calls a.caller)) (u.store cfg.backend))
      (s'.goto a.caller (n'.phase cfg' (calls a.caller)) (u'.store cfg'.backend)) where
  sound := State.sound_step h.sound hstep
  tables := hu
  committed := rfl
  committed' := rfl
  twin j := by
    by_cases hj : j = a.caller
    · subst hj
      exact ⟨n, n', by simp, by simp, htwin, hn⟩
    · obtain ⟨g, g', hg, hg', htwin, hholds⟩ := h.twin j
      exact ⟨g, g', by rw [State.goto_phase_ne _ _ _ hj, hg], by rw [State.goto_phase_ne _ _ _ hj, hg'], htwin,
        hholds.step h.sound hstep hj hg h.committed rfl⟩

/-- **The step lemma.** Both stacks refuse an action, or both take it and stay in lock-step. -/
theorem lockstep_step (hd : Deployed cfg.catalog cfg.backend) (hd' : Deployed cfg'.catalog cfg'.backend)
    (hfree : cfg.freeOnAbort = cfg'.freeOnAbort) (h : Lockstep cfg cfg' calls t t' s s') (a : Action ι) :
    Option.Rel (fun s s' => ∃ t t', Lockstep cfg cfg' calls t t' s s')
      (s.step cfg (createOrders cfg calls) a) (s'.step cfg' (createOrders cfg' calls) a) := by
  cases a with
  | poll i =>
    obtain ⟨g, g', hg, hg', htwin, hholds⟩ := h.twin i
    have hs := step_poll hd h.committed hg hholds
    have hs' := step_poll hd' h.committed' hg' (htwin.holds h.tables hholds)
    have hnext := htwin.next (calls i) h.tables hfree
    rw [← htwin.waits_eq h.tables (h.others i)] at hs'
    cases hw : g.waits cfg (calls i) (s.others i) t with
    | true =>
      simp only [hw, if_true] at hs hs'
      rw [hs, hs']
      exact .none
    | false =>
      simp only [hw, Bool.false_eq_true, if_false] at hs hs'
      rw [hs']
      generalize hn : g.next cfg (calls i) t = o, g'.next cfg' (calls i) t' = o' at hnext hs
      cases hnext with
      | none => rw [hs]; exact .none
      | @some n n' hnn =>
        rw [hs]
        exact .some ⟨n.2, n'.2, h.goto hs hnn.1 hnn.2 (polls_next hholds hn).2⟩
  | cancel i =>
    obtain ⟨g, g', hg, hg', htwin, -⟩ := h.twin i
    simp only [State.step, hg, hg', Progress.phase_live, ← htwin.live_eq]
    split
    · rename_i hl
      have hs : s.step cfg (createOrders cfg calls) (.cancel i) =
          some (s.goto i (.dropped none) (t.store cfg.backend)) := by
        simp only [State.step, hg, Progress.phase_live, hl, if_true, Progress.phase_cancel, h.committed]
      rw [Progress.phase_cancel, Progress.phase_cancel, h.committed, h.committed']
      exact .some ⟨t, t', h.goto (n := .dropped) hs .dropped h.tables trivial⟩
    · exact .none
  | holder i act =>
    -- a call's context never escapes
    obtain ⟨g, g', hg, hg', -⟩ := h.twin i
    have hs : s.step cfg (createOrders cfg calls) (.holder i act) = none := by
      simp only [State.step, hg]
      cases g <;> rfl
    have hs' : s'.step cfg' (createOrders cfg' calls) (.holder i act) = none := by
      simp only [State.step, hg']
      cases g' <;> rfl
    rw [hs, hs']
    exact .none

end

/-! ## What is seen of it -/

/-- An update on its way has its row. -/
def UpdatesFound (b : Backend) (s : State ι Order) : Prop :=
  ∀ i inventory k n calls tx, s.phase i = .awaiting (.updateInventory inventory) k n calls tx →
    tx.sees s.committed (b.inventoryKey inventory.itemId) ≠ none

/-- The two servers as callers and readers see them. -/
structure SideBySide (b b' : Backend) (s s' : State ι Order) : Prop where
  rows : SameRows b b' s.committed s'.committed
  point : ∀ i, SamePoint (s.phase i) (s'.phase i)
  found : UpdatesFound b s
  found' : UpdatesFound b' s'

section
variable {cfg cfg' : Config} {calls : ι → CreateOrderCall} {t t' : Tables} {s s' : State ι Order}

omit [DecidableEq ι] [Fintype ι] in
/-- A call updates the row it has locked, and that row stays. -/
theorem updatesFound (hdb : s.committed = t.store cfg.backend)
    (hs : ∀ i, Stage cfg (calls i) t (s.phase i)) : UpdatesFound cfg.backend s := by
  intro i inventory k n calls tx hp
  obtain ⟨g, hg, hholds⟩ := hs i
  rw [hp] at hg
  cases g with
  | updating q =>
    cases hg
    rw [hdb, CreateOrderCall.sees_lockedTx, Tables.store_inventoryKey, hholds.2.stock]
    exact Option.some_ne_none _
  | created | finding | creating | committing | rollingBack | returned | dropped => cases hg

omit [DecidableEq ι] [Fintype ι] in
theorem Lockstep.sideBySide (h : Lockstep cfg cfg' calls t t' s s') : SideBySide cfg.backend cfg'.backend s s' where
  rows := by
    rw [h.committed, h.committed']
    exact h.tables.store _ _
  point i := by
    obtain ⟨g, g', hg, hg', htwin, -⟩ := h.twin i
    rw [hg, hg']
    exact htwin.point
  found := updatesFound h.committed fun i => by
    obtain ⟨g, g', hg, -, -, hholds⟩ := h.twin i
    exact ⟨g, hg, hholds⟩
  found' := updatesFound h.committed' fun i => by
    obtain ⟨g, g', -, hg', htwin, hholds⟩ := h.twin i
    exact ⟨g', hg', htwin.holds h.tables hholds⟩

end

/-- **The two stacks are observationally equivalent for orders.** On databases with the same rows
every schedule of the same calls runs on both stacks or on neither, and wherever it runs it has led
every call to the same point and both databases to the same rows, with every update on its row. -/
theorem stacks_equivalent {cat cat' : Catalog} (hd : Deployed cat .sqlx) (hd' : Deployed cat' .seaOrm) {db db' : Db}
    (hdb : Tables.Typed .sqlx db) (hrows : SameRows .sqlx .seaOrm db db') (free : Bool) (p : BuildProfile)
    (calls : ι → CreateOrderCall) (as : List (Action ι)) :
    let sqlx : Config := ⟨.sqlx, cat, free, p⟩
    let seaOrm : Config := ⟨.seaOrm, cat', free, p⟩
    Option.Rel (SideBySide .sqlx .seaOrm)
      (run (State.step sqlx (createOrders sqlx calls)) (.init db) as)
      (run (State.step seaOrm (createOrders seaOrm calls)) (.init db') as) := by
  intro sqlx seaOrm
  obtain ⟨t, rfl⟩ := Tables.exists_store hdb
  obtain ⟨t', rfl⟩ := Tables.exists_store (hrows.typed hdb)
  have hinit : Lockstep sqlx seaOrm calls t t' (.init (t.store .sqlx)) (.init (t'.store .seaOrm)) :=
    ⟨State.sound_init _, hrows.tables, rfl, rfl, fun i => ⟨.created, .created, rfl, rfl, .created, trivial⟩⟩
  have hstep : ∀ (s s' : State ι Order) (a : Action ι), (∃ t t', Lockstep sqlx seaOrm calls t t' s s') →
      Option.Rel (fun s s' => ∃ t t', Lockstep sqlx seaOrm calls t t' s s')
        (s.step sqlx (createOrders sqlx calls) a) (s'.step seaOrm (createOrders seaOrm calls) a) := by
    rintro s s' a ⟨t, t', h⟩
    exact lockstep_step hd hd' (show sqlx.freeOnAbort = seaOrm.freeOnAbort from rfl) h a
  have hrun := run_lockstep _ hstep as ⟨t, t', hinit⟩
  generalize run (State.step sqlx (createOrders sqlx calls)) (.init (t.store .sqlx)) as = o,
    run (State.step seaOrm (createOrders seaOrm calls)) (.init (t'.store .seaOrm)) as = o' at hrun
  cases hrun with
  | none => exact .none
  | some h =>
    obtain ⟨t, t', h⟩ := h
    exact .some h.sideBySide

theorem stacks_equivalent_rivalry :
    let sqlx : Config := ⟨.sqlx, Makefile.catalog, true, .dev⟩
    let seaOrm : Config := ⟨.seaOrm, Makefile.catalog, true, .dev⟩
    Option.Rel (SideBySide .sqlx .seaOrm)
      (run (State.step sqlx (createOrders sqlx rivals)) (.init (stocked.store .sqlx)) rivalry)
      (run (State.step seaOrm (createOrders seaOrm rivals)) (.init (stocked.store .seaOrm)) rivalry) := by
  have hd : Deployed Makefile.catalog .sqlx := Makefile.deployed .sqlx
  have hd' : Deployed Makefile.catalog .seaOrm := Makefile.deployed .seaOrm
  have hrows : SameRows .sqlx .seaOrm (stocked.store .sqlx) (stocked.store .seaOrm) :=
    SameTables.store ⟨rfl, rfl⟩ _ _
  exact stacks_equivalent hd hd' (Tables.typed_store _ stocked) hrows true .dev rivals rivalry

end TransactionManager
