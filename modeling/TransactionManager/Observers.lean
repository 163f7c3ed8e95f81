import TransactionManager.Answers
import TransactionManager.Migration
import TransactionManager.Readable
import TransactionManager.Sharing
/-
# Blocks that only look

A block that keeps to the finders, and lets go of its context, has no part in what the others do: it can
be left out of any run (`observers_invisible`). What it sees next to concurrent `create_order` calls are the tables of the
orders acknowledged so far, never a write that may still be undone; so a stock seen later is not
higher, and an order once seen or acknowledged is seen from then on (`observers_see`). COMMIT and its
acknowledgement are one step: an order whose COMMIT has taken effect counts as acknowledged.
-/

namespace TransactionManager

open RowStore RustInt Run

variable {α : Type}

/-! ## Leaving observers out -/

/-- The block keeps to calls that only read, and its transaction has written nothing. -/
structure Phase.Quiet (p : Phase α) : Prop where
  keeps : p.KeepsTo (·.reads = true)
  unwritten : ∀ tx, p.openTx = some tx → ∀ k, tx.writes k = none

theorem Phase.Quiet.poll {cfg : Config} {job : Job α} {p p' : Phase α} {db db' : Db} {ev : List (Event α)}
    (hj : job.KeepsTo (·.reads = true)) (h : p.Quiet) (hp : p.poll cfg job db = some (ev, p', db')) : p'.Quiet where
  keeps := h.keeps.poll hj hp
  unwritten := by
    intro tx htx k
    cases p with
    | created =>
      simp only [Phase.poll] at hp
      split at hp
      · cases hp; cases htx
      · split at hp
        · cases hp; cases htx
        · rename_i f _ _ _
          cases hp
          rcases openTx_resume 0 Tx.fresh (f.poll .given) with ho | ho
          · rw [ho] at htx; cases htx; rfl
          · rw [ho] at htx; cases htx
    | awaiting c kont n calls tx₀ =>
      cases hp
      rcases openTx_resume (calls + 1) (callRepo cfg db tx₀ (job.faults.stmt calls) c).2
        ((kont (callRepo cfg db tx₀ (job.faults.stmt calls) c).1).poll n) with ho | ho
      · rw [ho] at htx
        cases htx
        refine callRepo_writes (h.unwritten tx₀ rfl k) fun a ha => ?_
        rw [cfg.backend.plan_reads h.keeps.2.1 ha]
        rintro ⟨⟩
      · rw [ho] at htx; cases htx
    | committing v tx₀ => cases hp; cases htx
    | rollingBack e tx₀ => cases hp; cases htx
    | returned | dropped => cases hp

namespace State

variable {ι : Type} [DecidableEq ι] [Fintype ι] {cfg : Config} {jobs jobs' : ι → Job α} {s s' : State ι α}

theorem quiet_step {i : ι} (hj : (jobs i).KeepsTo (·.reads = true)) (h : (s.phase i).Quiet) {a : Action ι}
    (hstep : s.step cfg jobs a = some s') : (s'.phase i).Quiet := by
  by_cases hi : i = a.caller
  · obtain ⟨j, ⟨ev, p', db'⟩, rfl, -, hr, rfl⟩ | ⟨j, rfl, -, rfl⟩ | ⟨j, act, ctx, q, rfl, hp, -, rfl⟩ :=
      step_cases hstep
    · obtain rfl : i = j := hi
      rw [goto_phase_self]
      exact h.poll hj hr
    · obtain rfl : i = j := hi
      rw [goto_phase_self]
      refine ⟨h.keeps.cancel, fun tx htx => ?_⟩
      rw [h.keeps.openTx_cancel] at htx
      cases htx
    · -- its context has not escaped
      obtain rfl : i = j := hi
      rw [h.keeps.escaped] at hp
      cases hp
  · rw [step_phase_ne hstep hi]
    exact h

/-- All callers but those of `busy` are quiet. -/
def Watched (busy : ι → Bool) (s : State ι α) : Prop := ∀ i, busy i = false → (s.phase i).Quiet

omit [DecidableEq ι] [Fintype ι] in
theorem watched_init (busy : ι → Bool) (db : Db) : (init db : State ι α).Watched busy :=
  fun _ _ => ⟨trivial, fun tx htx => by cases htx⟩

variable {busy : ι → Bool}

theorem watched_run (hlook : ∀ i, busy i = false → (jobs i).KeepsTo (·.reads = true)) {db : Db}
    {as : List (Action ι)} (h : run (step cfg jobs) (init db) as = some s) : s.Watched busy :=
  run_inv _ (fun _ _ _ hs hst i hi => quiet_step (hlook i hi) (hs i hi) hst) as (watched_init busy db) h

theorem run_unwatched (hlook : ∀ i, busy i = false → (jobs i).KeepsTo (·.reads = true)) {db : Db}
    {as : List (Action ι)} (h : run (step cfg jobs) (init db) as = some s) :
    ∃ t, run (step cfg jobs) (init db) (as.filter fun a => busy a.caller) = some t ∧
      Erased busy (fun _ => True) s t := by
  have h' : run (stepEach (fun _ => cfg) jobs) (init db) as = some s := h
  exact run_erased busy (fun _ => True) (Watched busy) (watched_init busy db)
    (fun _ _ _ hs hstep i hi => quiet_step (hlook i hi) (hs i hi) hstep) (fun _ _ _ _ _ => trivial)
    (fun _ i hs hi tx htx k _ => (hs i hi).unwritten tx htx k) (fun _ _ => rfl) h'

/-- **Observers are invisible.** Whatever the blocks of `busy` do, even with contexts that escape: in the
run without the blocks that only read, they have the same results and commit the same rows. -/
theorem observers_invisible (hlook : ∀ i, busy i = false → (jobs i).KeepsTo (·.reads = true)) {db : Db}
    {as : List (Action ι)} (h : run (step cfg jobs) (init db) as = some s) :
    ∃ t, run (step cfg jobs) (init db) (as.filter fun a => busy a.caller) = some t ∧
      t.committed = s.committed ∧ ∀ i, busy i = true → t.phase i = s.phase i := by
  obtain ⟨t, ht, herased⟩ := run_unwatched hlook h
  exact ⟨t, ht, funext fun k => herased.committed k trivial, herased.phase⟩

/-- An action runs the job of its caller, and no other. -/
theorem step_job {a : Action ι} (h : jobs a.caller = jobs' a.caller) (s : State ι α) :
    s.step cfg jobs a = s.step cfg jobs' a := by
  cases a with
  | poll i => simp only [step, show jobs i = jobs' i from h]
  | cancel i => rfl
  | holder i act => rfl

end State

/-! ## What a finder answers -/

namespace State

variable {ι : Type} [DecidableEq ι] [Fintype ι] {cfg : Config} {jobs : ι → Job α} {s : State ι α} {i : ι}

/-- `i` can be polled in `s`, and the poll shows it the reply `r` to its call `c`. -/
def Replied (cfg : Config) (jobs : ι → Job α) (s : State ι α) (i : ι) (c : RepoCall) (r : Except Error c.Reply) :
    Prop :=
  (s.step cfg jobs (.poll i)).isSome = true ∧ ⟨c, r⟩ ∈ exchanges (s.events cfg jobs i (.poll i))

/-- A finder of either kind answers `i` for the item. -/
def SeesStock (cfg : Config) (jobs : ι → Job α) (s : State ι α) (i : ι) (itemId : ItemId)
    (found : Option Inventory) : Prop :=
  s.Replied cfg jobs i (.findByItemId itemId) (.ok found) ∨
    s.Replied cfg jobs i (.findByItemIdForUpdate itemId) (.ok found)

def SeesOrder (cfg : Config) (jobs : ι → Job α) (s : State ι α) (i : ι) (id : OrderId) (found : Option Order) :
    Prop :=
  s.Replied cfg jobs i (.findOrderById id) (.ok found)

/-- A reply is that of the statement the block was waiting for. -/
theorem Replied.awaiting {c : RepoCall} {r : Except Error c.Reply} (h : s.Replied cfg jobs i c r) :
    ∃ k n calls tx, s.phase i = .awaiting c k n calls tx ∧
      r = (callRepo cfg s.committed tx ((jobs i).faults.stmt calls) c).1 := by
  obtain ⟨-, hmem⟩ := h
  simp only [events, if_true] at hmem
  cases hp : s.phase i with
  | created =>
    simp only [hp, Phase.poll] at hmem
    cases hs : (jobs i).start with
    | error e => simp [hs, exchanges] at hmem
    | ok f =>
      cases hb : (jobs i).faults.begin with
      | some e => simp [hs, hb, exchanges] at hmem
      | none =>
        simp only [hs, hb, Option.map_some, Option.getD_some] at hmem
        rw [show exchanges (.begin none :: (f.poll .given).events) = exchanges (f.poll .given).events from rfl,
          exchanges_events] at hmem
        cases hmem
  | awaiting c' k n calls tx =>
    simp only [hp, Phase.poll, Option.map_some, Option.getD_some, exchanges_call, exchanges_events,
      List.mem_singleton] at hmem
    cases hmem
    exact ⟨k, n, calls, tx, rfl, rfl⟩
  | committing v tx => simp [hp, Phase.poll, exchanges] at hmem
  | rollingBack e tx => simp [hp, Phase.poll, exchanges] at hmem
  | returned | dropped => simp [hp, Phase.poll, exchanges] at hmem

/-- A call answered with `Ok` was executed on an active transaction. -/
theorem Replied.executed {c : RepoCall} {v : c.Reply} (h : s.Replied cfg jobs i c (.ok v)) :
    ∃ k n calls tx, s.phase i = .awaiting c k n calls tx ∧ tx.aborted = false ∧
      (callRepo cfg s.committed tx none c).1 = .ok v := by
  obtain ⟨k, n, calls, tx, hp, hr⟩ := h.awaiting
  cases hf : (jobs i).faults.stmt calls with
  | some e =>
    rw [hf, call_fault] at hr
    cases hr
  | none =>
    rw [hf] at hr
    cases ha : tx.aborted with
    | true =>
      rw [call_aborted ha] at hr
      cases hr
    | false => exact ⟨k, n, calls, tx, hp, ha, hr.symm⟩

end State

section
variable {cfg : Config} (hd : Deployed cfg.catalog cfg.backend) {t : Tables} {db : Db} {tx : PgTx}
  (ha : tx.aborted = false) (hs : tx.sees db = t.store cfg.backend)
include hd ha hs

/-- A finder that answers with `Ok` answers with the stock. -/
theorem lookup_ok {x : ItemId} (forUpdate : Bool) {found : Option Inventory}
    (h : lookup cfg db tx x forUpdate = .ok found) : found = (t.inventory x).map (Inventory.mk x) := by
  have hrow : tx.sees db (cfg.backend.inventoryKey x) = (t.inventory x).map (inventoryRow x) := by simp [hs]
  cases hq : t.inventory x with
  | none =>
    rw [lookup_none hd ha (by rw [hrow, hq]; rfl)] at h
    exact (Except.ok.inj h).symm
  | some q =>
    rw [lookup_some hd ha (by rw [hrow, hq]; rfl)] at h
    by_cases hneg : q.toInt < 0
    · rw [foundInventory_of_neg hneg] at h
      cases h
    · rw [foundInventory_of_nonneg (Int.not_lt.1 hneg)] at h
      exact (Except.ok.inj h).symm

/-- `find_by_id` that answers with `Ok` answers with the order in the row, if there is one. -/
theorem findOrder_ok {id : OrderId} {found : Option Order}
    (h : (callRepo cfg db tx none (.findOrderById id)).1 = .ok found) :
    (found = none ∧ t.orders id = none) ∨
      ∃ o, found = some o ∧ o.id = id ∧ t.orders id = some ⟨o.itemId, o.quantity.toI32⟩ := by
  have hrow : tx.sees db (cfg.backend.orderKey id) = (t.orders id).map (orderRow id) := by simp [hs]
  cases ho : t.orders id with
  | none =>
    rw [call_findOrder_none ha hd.orders (by rw [hrow, ho]; rfl)] at h
    exact .inl ⟨(Except.ok.inj h).symm, rfl⟩
  | some row =>
    rw [call_findOrder_some ha hd.orders (by rw [hrow, ho]; rfl)] at h
    simp only [foundOrder] at h
    by_cases hpos : 0 < row.quantity.toInt
    · rw [OrderQuantity.tryFrom_of_pos hpos] at h
      obtain rfl := Except.ok.inj h
      exact .inr ⟨_, rfl, rfl, by simp⟩
    · rw [OrderQuantity.tryFrom_of_nonpos (Int.not_lt.1 hpos)] at h
      cases h

end

/-- An order is its id and what `find_by_id` reads of its row. -/
theorem Order.ext_row {o o' : Order} (hid : o.id = o'.id)
    (hrow : (⟨o.itemId, o.quantity.toI32⟩ : OrderRow) = ⟨o'.itemId, o'.quantity.toI32⟩) : o = o' := by
  obtain ⟨id, x, ⟨v, hv⟩⟩ := o
  obtain ⟨id', x', ⟨v', hv'⟩⟩ := o'
  simp only [OrderRow.mk.injEq, OrderQuantity.toI32] at hrow hid
  obtain ⟨rfl, hq⟩ := hrow
  have hval : v = v' := by rw [← UInt32.toUInt32_toInt32 v, hq, UInt32.toUInt32_toInt32]
  subst hid hval
  rfl

/-! ## Next to `create_order` -/

/-- Callers of `create_order`, and callers whose blocks are their own. -/
def alongside {ι : Type} (cfg : Config) (orders : ι → Bool) (calls : ι → CreateOrderCall) (look : ι → Job Order) (i : ι) :
    Job Order :=
  if orders i then createOrder cfg.profile (calls i) else look i

section
variable {ι : Type} [DecidableEq ι] [Fintype ι] {cfg : Config} {orders : ι → Bool} {calls : ι → CreateOrderCall}
  {look : ι → Job Order} {t₀ t : Tables} {ds : List ι} {s s' e e' : State ι Order}

/-- `e` is `s` without its observers, after the calls of `ds`. -/
structure View (cfg : Config) (orders : ι → Bool) (calls : ι → CreateOrderCall) (t₀ : Tables) (ds : List ι)
    (s e : State ι Order) : Prop where
  erased : State.Erased orders (fun _ => True) s e
  watched : s.Watched orders
  sound : e.Sound
  served : Served cfg calls t₀ ds e

omit [DecidableEq ι] [Fintype ι] in
theorem View.committed (h : View cfg orders calls t₀ ds s e) :
    s.committed = (after cfg calls t₀ ds).store cfg.backend := by
  rw [← h.served.committed]
  exact funext fun k => (h.erased.committed k trivial).symm

/-- The answer of a finder is that of the tables after the calls of `ds`. -/
theorem View.executed (h : View cfg orders calls t₀ ds s e) {i : ι} {c : RepoCall} {v : c.Reply}
    (hc : c.reads = true) (hr : s.Replied cfg (alongside cfg orders calls look) i c (.ok v)) :
    ∃ tx, tx.aborted = false ∧ tx.sees s.committed = (after cfg calls t₀ ds).store cfg.backend ∧
      (callRepo cfg s.committed tx none c).1 = .ok v := by
  obtain ⟨k, n, calls', tx, hp, ha, hans⟩ := hr.executed
  refine ⟨tx, ha, ?_, hans⟩
  rw [← h.committed]
  cases ho : orders i with
  | false =>
    refine funext fun key => overlay_of_none ?_
    exact (h.watched i ho).unwritten tx (by rw [hp]; rfl) key
  | true =>
    -- a call of `create_order` reads before it writes
    obtain ⟨g, hg, -⟩ := h.served.stage i
    rw [h.erased.phase i ho, hp] at hg
    cases g with
    | finding => cases hg; exact Tx.sees_fresh _
    | updating | creating => cases hg; cases hc
    | created | committing | rollingBack | returned | dropped => cases hg

theorem View.seesStock (hd : Deployed cfg.catalog cfg.backend) (h : View cfg orders calls t₀ ds s e) {i : ι} {x : ItemId}
    {found : Option Inventory} (hsees : s.SeesStock cfg (alongside cfg orders calls look) i x found) :
    found = ((after cfg calls t₀ ds).inventory x).map (Inventory.mk x) := by
  rcases hsees with hr | hr
  · obtain ⟨tx, ha, hs, hans⟩ := h.executed rfl hr
    exact lookup_ok hd ha hs false hans
  · obtain ⟨tx, ha, hs, hans⟩ := h.executed rfl hr
    exact lookup_ok hd ha hs true hans

theorem View.seesOrder (hd : Deployed cfg.catalog cfg.backend) (h : View cfg orders calls t₀ ds s e) {i : ι} {id : OrderId}
    {found : Option Order} (hsees : s.SeesOrder cfg (alongside cfg orders calls look) i id found) :
    (found = none ∧ (after cfg calls t₀ ds).orders id = none) ∨
      ∃ o, found = some o ∧ o.id = id ∧ (after cfg calls t₀ ds).orders id = some ⟨o.itemId, o.quantity.toI32⟩ := by
  obtain ⟨tx, ha, hs, hans⟩ := h.executed rfl hsees
  exact findOrder_ok hd ha hs hans

/-- The actions of the callers of `create_order`, run on their own, and what follows them. -/
theorem view_run (hd : Deployed cfg.catalog cfg.backend)
    (hlook : ∀ i, orders i = false → (look i).KeepsTo (·.reads = true)) {as : List (Action ι)}
    (h : run (State.step cfg (alongside cfg orders calls look)) (.init (t₀.store cfg.backend)) as = some s) :
    ∃ e ds, run (State.step cfg (createOrders cfg calls)) (.init (t₀.store cfg.backend))
      (as.filter fun a => orders a.caller) = some e ∧ View cfg orders calls t₀ ds s e := by
  have hlook' : ∀ i, orders i = false → (alongside cfg orders calls look i).KeepsTo (·.reads = true) := by
    intro i hi
    rw [alongside, hi]
    exact hlook i hi
  obtain ⟨e, he, herased⟩ := State.run_unwatched hlook' h
  have hsame : ∀ a ∈ as.filter fun a => orders a.caller, ∀ s : State ι Order,
      s.step cfg (alongside cfg orders calls look) a = s.step cfg (createOrders cfg calls) a := by
    intro a ha s
    have hjob : alongside cfg orders calls look a.caller = createOrders cfg calls a.caller :=
      if_pos (List.mem_filter.1 ha).2
    exact State.step_job hjob s
  rw [run_congr _ _ hsame] at he
  obtain ⟨hsound, ds, hserved⟩ := served_run hd he
  exact ⟨e, ds, he, herased, State.watched_run hlook' h, hsound, hserved⟩

/-- What the calls have placed at a moment is still there later. -/
theorem View.later (hd : Deployed cfg.catalog cfg.backend)
    (hlook : ∀ i, orders i = false → (look i).KeepsTo (·.reads = true)) {as as' : List (Action ι)}
    (h : run (State.step cfg (alongside cfg orders calls look)) (.init (t₀.store cfg.backend)) as = some s)
    (h' : run (State.step cfg (alongside cfg orders calls look)) s as' = some s') :
    ∃ e e' ds es, View cfg orders calls t₀ ds s e ∧ View cfg orders calls t₀ (ds ++ es) s' e' := by
  have hboth : run (State.step cfg (alongside cfg orders calls look)) (.init (t₀.store cfg.backend)) (as ++ as') =
      some s' := by rw [run_append, h]; exact h'
  obtain ⟨e, ds, he, hview⟩ := view_run hd hlook h
  obtain ⟨e', ds', he', hview'⟩ := view_run hd hlook hboth
  rw [List.filter_append, run_append, he] at he'
  obtain ⟨-, es, hserved⟩ := served_later hd hview.sound hview.served he'
  exact ⟨e, e', ds, es, hview, hview'.erased, hview'.watched, hview'.sound, hserved⟩

/-- What the finders answer in `s`: the first tables with the orders that have been acknowledged. -/
structure Seen (cfg : Config) (orders : ι → Bool) (calls : ι → CreateOrderCall) (look : ι → Job Order) (t₀ : Tables)
    (s : State ι Order) : Prop where
  stock : ∀ i x inventory, s.SeesStock cfg (alongside cfg orders calls look) i x (some inventory) →
    inventory.itemId = x ∧ ∃ q₀, t₀.inventory x = some q₀ ∧ inventory.quantity.toInt +
      ∑ j with orders j = true ∧ (s.phase j).ok = true ∧ (calls j).itemId = x, (calls j).qty.toInt = q₀.toInt
  noStock : ∀ i x, s.SeesStock cfg (alongside cfg orders calls look) i x none → t₀.inventory x = none
  order : ∀ i id o, s.SeesOrder cfg (alongside cfg orders calls look) i id (some o) → o.id = id ∧
    (t₀.orders id = some ⟨o.itemId, o.quantity.toI32⟩ ∨ ∃ j, orders j = true ∧ s.phase j = .returned (.ok o) none)
  noOrder : ∀ i id, s.SeesOrder cfg (alongside cfg orders calls look) i id none → t₀.orders id = none ∧
    ∀ j o, orders j = true → s.phase j = .returned (.ok o) none → o.id ≠ id

/-- What the finders answer in `s'`, a while after `s`. -/
structure SeenLater (cfg : Config) (orders : ι → Bool) (calls : ι → CreateOrderCall) (look : ι → Job Order)
    (s s' : State ι Order) : Prop where
  stock : ∀ i x found, s.SeesStock cfg (alongside cfg orders calls look) i x found →
    ∀ j found', s'.SeesStock cfg (alongside cfg orders calls look) j x found' →
      (found = none ∧ found' = none) ∨ ∃ inventory inventory', found = some inventory ∧ found' = some inventory' ∧
        inventory'.quantity.toInt ≤ inventory.quantity.toInt
  order : ∀ i id o, s.SeesOrder cfg (alongside cfg orders calls look) i id (some o) →
    ∀ j found, s'.SeesOrder cfg (alongside cfg orders calls look) j id found → found = some o
  acknowledged : ∀ i o, orders i = true → s.phase i = .returned (.ok o) none →
    ∀ j found, s'.SeesOrder cfg (alongside cfg orders calls look) j o.id found → found = some o

omit [DecidableEq ι] [Fintype ι] in
theorem View.ok_iff (h : View cfg orders calls t₀ ds s e) (i : ι) :
    (e.phase i).ok = true ↔ orders i = true ∧ (s.phase i).ok = true := by
  cases ho : orders i with
  | false => simp [h.erased.absent i ho, Phase.ok]
  | true => simp [h.erased.phase i ho]

/-- An acknowledged order has its row. -/
theorem View.acknowledged (h : View cfg orders calls t₀ ds s e) {i : ι} {o : Order} (ho : orders i = true)
    (hr : s.phase i = .returned (.ok o) none) :
    (after cfg calls t₀ ds).orders o.id = some ⟨o.itemId, o.quantity.toI32⟩ := by
  have hack := h.served.acknowledged
  rw [← h.erased.phase i ho] at hr
  obtain ⟨rfl, -⟩ := hack.answer i o none hr
  obtain ⟨before, rest, -, hout⟩ := h.served.returned hr
  have hok : ∃ order, ((calls i).outcome cfg (after cfg calls t₀ before)).1 = .ok order :=
    ⟨_, (Phase.returned.inj (hr.symm.trans hout)).1.symm⟩
  obtain ⟨q, hacc⟩ := (outcome_ok_iff cfg).1 hok
  refine (hack.orders _ _).2 (.inr ⟨i, Phase.ok_iff.2 ⟨_, _, hr⟩, rfl, ?_⟩)
  rw [CreateOrderCall.order_toI32 hacc.begun.pos, CreateOrderCall.row, CreateOrderCall.order]

theorem View.seen (hd : Deployed cfg.catalog cfg.backend) (h : View cfg orders calls t₀ ds s e) :
    Seen cfg orders calls look t₀ s := by
  have hack := h.served.acknowledged
  refine ⟨fun i x inventory hsees => ?_, fun i x hsees => ?_, fun i id o hsees => ?_, fun i id hsees => ?_⟩
  · have hstock := h.seesStock hd hsees
    obtain ⟨q, hq, rfl⟩ := Option.map_eq_some_iff.1 hstock.symm
    cases h0 : t₀.inventory x with
    | none => rw [hack.absent x h0] at hq; cases hq
    | some q₀ =>
      obtain ⟨q', hq', hsum⟩ := hack.stock x q₀ h0
      obtain rfl := Option.some.inj (hq.symm.trans hq')
      refine ⟨rfl, q₀, rfl, ?_⟩
      simpa only [h.ok_iff, and_assoc] using hsum
  · have hstock := h.seesStock hd hsees
    cases h0 : t₀.inventory x with
    | none => rfl
    | some q₀ =>
      obtain ⟨q', hq', -⟩ := hack.stock x q₀ h0
      rw [hq'] at hstock
      cases hstock
  · rcases h.seesOrder hd hsees with ⟨hn, -⟩ | ⟨o', ho, rfl, hrow⟩
    · cases hn
    · obtain rfl := Option.some.inj ho
      refine ⟨rfl, ?_⟩
      rcases (hack.orders _ _).1 hrow with h0 | ⟨j, hok, hid, hj⟩
      · exact .inl h0
      · obtain ⟨hoj, -⟩ := (h.ok_iff j).1 hok
        obtain ⟨o', escaped, hr⟩ := Phase.ok_iff.1 hok
        obtain ⟨rfl, rfl⟩ := hack.answer j o' escaped hr
        rw [h.erased.phase j hoj] at hr
        have hrow' := h.acknowledged hoj hr
        rw [CreateOrderCall.order_id, hid, hrow] at hrow'
        exact .inr ⟨j, hoj, by rw [hr, Order.ext_row hid.symm (Option.some.inj hrow')]⟩
  · rcases h.seesOrder hd hsees with ⟨-, hn⟩ | ⟨o, ho, -⟩
    · constructor
      · cases h0 : t₀.orders id with
        | none => rfl
        | some row =>
          rw [(hack.orders id row).2 (.inl h0)] at hn
          cases hn
      · rintro j o hoj hr rfl
        rw [h.acknowledged hoj hr] at hn
        cases hn
    · cases ho

theorem after_map {κ : Type} (cfg : Config) (calls : κ → CreateOrderCall) (t : Tables) (ds : List κ) :
    after cfg calls t ds = after cfg id t (ds.map calls) := by
  simp only [after, List.foldl_map, id_eq]

theorem View.seenLater (hd : Deployed cfg.catalog cfg.backend) {es : List ι} (h : View cfg orders calls t₀ ds s e)
    (h' : View cfg orders calls t₀ (ds ++ es) s' e') : SeenLater cfg orders calls look s s' := by
  -- an order row that is there stays, and is read as the same order
  have hkept : ∀ o : Order, (after cfg calls t₀ ds).orders o.id = some ⟨o.itemId, o.quantity.toI32⟩ →
      ∀ j found, s'.SeesOrder cfg (alongside cfg orders calls look) j o.id found → found = some o := by
    intro o hrow j found hsees
    have hrow' : (after cfg id (after cfg calls t₀ ds) (es.map calls)).orders o.id = _ :=
      after_orders_some (es.map calls) hrow
    rw [← after_map, ← after_append] at hrow'
    rcases h'.seesOrder hd hsees with ⟨-, hn⟩ | ⟨o', rfl, hid, ho'⟩
    · rw [hrow'] at hn
      cases hn
    · rw [hrow'] at ho'
      rw [Order.ext_row hid (Option.some.inj ho').symm]
  refine ⟨fun i x found hsees j found' hsees' => ?_, fun i id o hsees => ?_, fun i o ho hr => ?_⟩
  · rw [h.seesStock hd hsees, h'.seesStock hd hsees']
    cases hq : (after cfg calls t₀ ds).inventory x with
    | none =>
      refine .inl ⟨rfl, ?_⟩
      have h0 : t₀.inventory x = none := by
        cases h0 : t₀.inventory x with
        | none => rfl
        | some q₀ =>
          obtain ⟨q, hq', -⟩ := h.served.acknowledged.stock x q₀ h0
          rw [hq] at hq'
          cases hq'
      rw [h'.served.acknowledged.absent x h0]
      rfl
    | some q =>
      obtain ⟨q', hq', hle⟩ := after_stock_le cfg es hq
      rw [after_append, hq']
      exact .inr ⟨_, _, rfl, rfl, hle⟩
  · rcases h.seesOrder hd hsees with ⟨hn, -⟩ | ⟨o', ho, rfl, hrow⟩
    · cases hn
    · obtain rfl := Option.some.inj ho
      exact hkept o hrow
  · exact hkept o (h.acknowledged ho hr)

/-- **What observers see.** In every run of `create_order` calls and blocks that only read, whatever a
finder answers is the first tables with the orders acknowledged so far; and later answers agree with
earlier ones and with what has been acknowledged before them. -/
theorem observers_see (hd : Deployed cfg.catalog cfg.backend)
    (hlook : ∀ i, orders i = false → (look i).KeepsTo (·.reads = true)) {as : List (Action ι)}
    (h : run (State.step cfg (alongside cfg orders calls look)) (.init (t₀.store cfg.backend)) as = some s) :
    Seen cfg orders calls look t₀ s ∧ ∀ as' s',
      run (State.step cfg (alongside cfg orders calls look)) s as' = some s' → SeenLater cfg orders calls look s s' := by
  constructor
  · obtain ⟨e, ds, -, hview⟩ := view_run hd hlook h
    exact hview.seen hd
  · intro as' s' h'
    obtain ⟨e, e', ds, es, hview, hview'⟩ := View.later hd hlook h h'
    exact hview.seenLater hd hview'

end

/-- The stock of the item and the first order, looked up one after the other. -/
def glance : Job Order where
  start := .ok (Closure.moved do
    let _ ← Closure.await (.findByItemId ⟨7⟩)
    let found ← Closure.await (.findOrderById ⟨0⟩)
    match found with
    | some order => return order
    | none => .ret (.error (.inventoryNotFound ⟨7⟩)))
  faults := .none

theorem glance_keepsTo : glance.KeepsTo (·.reads = true) := by
  rintro f ⟨⟩
  have hstock : (Closure.await (.findByItemId ⟨7⟩)).Makes (·.reads = true) := Closure.makes_await rfl
  have horder : (Closure.await (.findOrderById ⟨0⟩)).Makes (·.reads = true) := Closure.makes_await rfl
  refine Closure.Makes.moved (hstock.bind fun _ => horder.bind fun found => ?_)
  cases found <;> trivial

/-- The stock is read before the order is committed, the order after. -/
def glancing : List (Action Bool) :=
  [.poll true, .poll false, .poll true, .poll true, .poll false, .poll true, .poll true, .poll false, .poll false]

theorem glancing_runs : (run (State.step (Makefile.config .sqlx)
    (alongside (Makefile.config .sqlx) id (fun _ => rivals 0) fun _ => glance))
      (.init (stocked.store .sqlx)) glancing).isSome := by decide +kernel

theorem observers_see_glance : Seen (Makefile.config .sqlx) id (fun _ => rivals 0) (fun _ => glance) stocked
    (Option.get _ glancing_runs) :=
  (observers_see (Makefile.deployed .sqlx) (fun _ _ => glance_keepsTo) (Option.some_get glancing_runs).symm).1

theorem State.observers_invisible_glance : ∃ t, run (State.step (Makefile.config .sqlx)
    (alongside (Makefile.config .sqlx) id (fun _ => rivals 0) fun _ => glance)) (.init (stocked.store .sqlx))
      (glancing.filter fun a => id a.caller) = some t ∧
    t.committed = (Option.get _ glancing_runs).committed ∧
    ∀ i, id i = true → t.phase i = (Option.get _ glancing_runs).phase i :=
  State.observers_invisible (fun i hi => by rw [alongside, hi]; exact glance_keepsTo)
    (Option.some_get glancing_runs).symm

end TransactionManager
