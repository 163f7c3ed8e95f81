import TransactionManager.Durability
/-
# The order round trip

A quantity travels `u32`, `as i32`, INTEGER column, `TryFrom<i32>`, `u32`. The row of a created
order survives all that can come after it (`Continues.kept` in its transaction, `settled_run` in
every run once it is committed), so whether `find_by_id` gives the order back depends on the row
alone, and that on whether the quantity fits `i32` (`foundOrder_iff`).
-/

namespace TransactionManager

open RowStore RustInt Run

variable {α : Type}

/-! ## The row -/

/-- The quantity is representable in the INTEGER column. -/
def OrderQuantity.Fits (q : OrderQuantity) : Prop := q.value.toNat ≤ 2147483647

namespace Order

/-- The row that `create` inserts. -/
def row (order : Order) : Row := orderRow order.id ⟨order.itemId, order.quantity.toI32⟩

/-- What `find_by_id` makes of the row of an order. -/
def found (order : Order) : Except Error (Option Order) := foundOrder order.id ⟨order.itemId, order.quantity.toI32⟩

/-- The row gives the order back exactly when the quantity fits the column. -/
theorem found_iff {order : Order} : order.found = .ok (some order) ↔ order.quantity.Fits := by
  have hpos := order.quantity.pos
  have hlt := UInt32.toNat_lt order.quantity.value
  constructor
  · intro h
    by_contra hfits
    have hneg := toInt_toInt32_of_le (u := order.quantity.value) (by unfold OrderQuantity.Fits at hfits; omega)
    have herr : OrderQuantity.tryFrom order.quantity.toI32 = .error (.nonPositive order.quantity.toI32) :=
      OrderQuantity.tryFrom_of_nonpos (by unfold OrderQuantity.toI32; omega)
    simp only [found, foundOrder, herr] at h
    cases h
  · intro hfits
    have hint := toInt_toInt32_of_lt (u := order.quantity.value) (by unfold OrderQuantity.Fits at hfits; omega)
    have hok : OrderQuantity.tryFrom order.quantity.toI32 = .ok order.quantity := by
      rw [OrderQuantity.tryFrom_of_pos (by unfold OrderQuantity.toI32; omega)]
      simp [OrderQuantity.ofPos, OrderQuantity.toI32]
    simp only [found, foundOrder, hok]
    rfl

end Order

section
variable {cfg : Config} {db : Db} {tx tx' : PgTx} {order : Order}

/-- A visible order row is what `find_by_id` answers with. -/
theorem find_of_sees (hd : Deployed cfg.catalog cfg.backend) (ha : tx.aborted = false)
    (hs : tx.sees db (cfg.backend.orderKey order.id) = some order.row) :
    (callRepo cfg db tx none (.findOrderById order.id)).1 = order.found := by
  rw [call_findOrder_some ha hd.orders hs]
  rfl

/-! ## In the same transaction -/

/-- A call that has returned `Ok` leaves the transaction active. -/
theorem CallStep.active {c : RepoCall} {v : c.Reply} (h : CallStep cfg db tx c (.ok v) tx') :
    tx'.aborted = false := by
  generalize hr : Except.ok v = r at h
  cases h with
  | failed c e => cases hr
  | refused c ha => cases hr
  | read c r ha hw => exact ha
  | lockedRead c r k ha hw => exact ha
  | inserted c v k row ha hw hs => exact ha
  | updated inventory q ha hs => exact ha
  | missed inventory ha hs => exact ha

/-- No call writes under the id of an order that is there. -/
theorem CallStep.order_kept {c : RepoCall} {r : Except Error c.Reply} (h : CallStep cfg db tx c r tx') (id : OrderId)
    (hs : tx.sees db (cfg.backend.orderKey id) ≠ none) :
    tx'.writes (cfg.backend.orderKey id) = tx.writes (cfg.backend.orderKey id) ∨
      (tx'.aborted = true ∧ tx'.writes (cfg.backend.orderKey id) = none) := by
  cases h with
  | failed c e =>
    unfold Tx.abort
    split
    · exact .inr ⟨rfl, rfl⟩
    · exact .inl rfl
  | refused c ha => exact .inl rfl
  | read c r ha hw => exact .inl rfl
  | lockedRead c r k ha hw => exact .inl rfl
  | inserted c v k row ha hw hn =>
    refine .inl (put_ne _ ?_)
    rintro rfl
    exact hs hn
  | updated inventory q ha hn => exact .inl (put_ne _ (Ne.symm (cfg.backend.inventoryKey_ne_orderKey _ _)))
  | missed inventory ha hn => exact .inl rfl

/-- A sequence of successful calls, each over the rows committed at its time. -/
inductive Continues (cfg : Config) (tx : PgTx) : PgTx → Prop where
  | refl : Continues cfg tx tx
  | call (db : Db) (tx' : PgTx) (fault : Option PgError) (c : RepoCall) (v : c.Reply) (h : Continues cfg tx tx')
      (ht : Tables.Typed cfg.backend (tx'.sees db)) (hok : (callRepo cfg db tx' fault c).1 = .ok v) :
      Continues cfg tx (callRepo cfg db tx' fault c).2

/-- Successful calls keep an order row that the transaction has inserted. -/
theorem Continues.kept (hd : Deployed cfg.catalog cfg.backend) (h : Continues cfg tx tx') (ha : tx.aborted = false)
    {id : OrderId} {row : Row}
    (hw : tx.writes (cfg.backend.orderKey id) = some row) :
    tx'.aborted = false ∧ tx'.writes (cfg.backend.orderKey id) = some row := by
  induction h with
  | refl => exact ⟨ha, hw⟩
  | call db tx' fault c v h ht hok ih =>
    obtain ⟨-, hw'⟩ := ih
    have hstep := call_step hd ht fault c
    rw [hok] at hstep
    have hact := hstep.active
    rcases hstep.order_kept id (by rw [Tx.sees, overlay_of_some hw']; simp) with hk | ⟨hab, -⟩
    · exact ⟨hact, hk.trans hw'⟩
    · rw [hact] at hab; cases hab

/-- The round trip within a transaction, from a state of it. -/
structure ReadBack (cfg : Config) (db : Db) (tx : PgTx) (order : Order) : Prop where
  created : (callRepo cfg db tx none (.createOrder order)).1 = .ok order
  found : ∀ tx' db', Continues cfg (callRepo cfg db tx none (.createOrder order)).2 tx' →
    (callRepo cfg db' tx' none (.findOrderById order.id)).1 = .ok (some order)

theorem readBack_iff (hd : Deployed cfg.catalog cfg.backend)
    (hfree : tx.sees db (cfg.backend.orderKey order.id) = none) :
    ReadBack cfg db tx order ↔ tx.aborted = false ∧ order.quantity.Fits := by
  constructor
  · rintro ⟨hcreated, hfound⟩
    cases ha : tx.aborted with
    | true => rw [call_aborted ha] at hcreated; cases hcreated
    | false =>
      refine ⟨rfl, Order.found_iff.1 ?_⟩
      have hf := hfound _ db .refl
      rw [call_createOrder_none ha hd.orders hfree] at hf
      have hactive : (tx.write (cfg.backend.orderKey order.id) order.row).aborted = false := ha
      have hsees : (tx.write (cfg.backend.orderKey order.id) order.row).sees db (cfg.backend.orderKey order.id) =
          some order.row := by rw [Tx.sees_write, put_self]
      exact (find_of_sees hd hactive hsees).symm.trans hf
  · rintro ⟨ha, hfits⟩
    have hcreate := call_createOrder_none ha hd.orders hfree
    refine ⟨by rw [hcreate], fun tx' db' hc => ?_⟩
    rw [hcreate] at hc
    obtain ⟨ha', hw⟩ := Continues.kept hd hc ha (put_self _ _ _)
    rw [find_of_sees hd ha' (by rw [Tx.sees, overlay_of_some hw]; rfl)]
    exact Order.found_iff.2 hfits

end

/-! ## In later transactions -/

/-- Unless its transaction is aborted, every order a block has created is among its pending rows. -/
def Inserted (b : Backend) (xs : List Exchange) (tx : PgTx) : Prop :=
  tx.aborted = false → ∀ order v : Order, ⟨.createOrder order, .ok v⟩ ∈ xs →
    tx.writes (b.orderKey order.id) = some order.row

/-- A call on an active transaction, or one that stays aborted. -/
theorem CallStep.was_active {cfg : Config} {db : Db} {tx tx' : PgTx} {c : RepoCall} {r : Except Error c.Reply}
    (h : CallStep cfg db tx c r tx') (ha : tx'.aborted = false) : tx.aborted = false := by
  cases h with
  | failed c e => simp at ha
  | refused c hab => exact ha
  | read c r hact hw => exact hact
  | lockedRead c r k hact hw => exact hact
  | inserted c v k row hact hw hs => exact hact
  | updated inventory q hact hs => exact hact
  | missed inventory hact hs => exact hact

/-- An order that has been acknowledged is pending. -/
theorem CallStep.created {cfg : Config} {db : Db} {tx tx' : PgTx} {order v : Order}
    (h : CallStep cfg db tx (.createOrder order) (.ok v) tx') :
    tx'.writes (cfg.backend.orderKey order.id) = some order.row := by
  cases h with
  | read c r hact hw => cases hw
  | lockedRead c r k hact hw => cases hw
  | inserted c v k row hact hw hs =>
    cases hw
    exact put_self _ _ _

theorem Inserted.step {cfg : Config} {db : Db} {xs : List Exchange} {tx tx' : PgTx} {c : RepoCall}
    {r : Except Error c.Reply} (h : Inserted cfg.backend xs tx) (hc : CallStep cfg db tx c r tx') :
    Inserted cfg.backend (xs ++ [⟨c, r⟩]) tx' := by
  intro ha order v hmem
  rcases List.mem_append.1 hmem with hmem | hmem
  · have hw := h (hc.was_active ha) order v hmem
    rcases hc.order_kept order.id (by rw [Tx.sees, overlay_of_some hw]; simp) with hk | ⟨hab, -⟩
    · exact hk.trans hw
    · rw [ha] at hab; cases hab
  · cases List.mem_singleton.1 hmem
    exact hc.created

namespace State

variable {ι : Type} [DecidableEq ι]

/-- The order row is committed and nobody has written under its id since. -/
structure Settled (cfg : Config) (order : Order) (s : State ι α) : Prop where
  committed : s.committed (cfg.backend.orderKey order.id) = some order.row
  unwritten : ∀ i tx, s.openTx i = some tx → tx.writes (cfg.backend.orderKey order.id) = none

variable [Fintype ι] {cfg : Config} {jobs : ι → Job α} {s s' : State ι α} {order : Order}

theorem settled_step (hd : Deployed cfg.catalog cfg.backend) (ht : s.Typed cfg) (h : s.Settled cfg order)
    {a : Action ι} (hstep : s.step cfg jobs a = some s') : s'.Settled cfg order := by
  have hnew : ∀ o db, TxStep cfg s a.caller o db → db (cfg.backend.orderKey order.id) = some order.row ∧
      ∀ tx, o = some tx → tx.writes (cfg.backend.orderKey order.id) = none := by
    intro o db ho
    cases ho with
    | keep => exact ⟨h.committed, h.unwritten _⟩
    | close => exact ⟨h.committed, fun tx htx => by cases htx⟩
    | begin => exact ⟨h.committed, fun tx htx => by cases htx; rfl⟩
    | call tx fault c htx hw =>
      refine ⟨h.committed, fun tx' htx' => ?_⟩
      cases htx'
      have hnone := h.unwritten _ tx htx
      have hsees : tx.sees s.committed (cfg.backend.orderKey order.id) ≠ none := by
        rw [Tx.sees, overlay_of_none hnone, h.committed]
        simp
      rcases (call_step hd (ht.sees htx) fault c).order_kept order.id hsees with hk | ⟨-, hk⟩
      · exact hk.trans hnone
      · exact hk
    | commit tx htx =>
      exact ⟨(Tx.commit_of_not_written (h.unwritten _ tx htx)).trans h.committed, fun tx' htx' => by cases htx'⟩
  obtain ⟨hdb, hown⟩ := hnew _ _ (step_tx hstep)
  refine ⟨hdb, fun i tx htx => ?_⟩
  by_cases hi : i = a.caller
  · subst hi; exact hown tx htx
  · rw [step_openTx_ne hstep hi] at htx
    exact h.unwritten i tx htx

/-- A committed order row stays in every run. -/
theorem settled_run (hd : Deployed cfg.catalog cfg.backend) (ht : s.Typed cfg) (h : s.Settled cfg order)
    {as : List (Action ι)} (hrun : run (step cfg jobs) s as = some s') : s'.Settled cfg order :=
  (run_inv (fun s => s.Typed cfg ∧ s.Settled cfg order)
    (fun _ _ _ hs hst => ⟨typed_step hd hs.1 hst, settled_step hd hs.1 hs.2 hst⟩) as ⟨ht, h⟩ hrun).2

omit [Fintype ι] in
/-- COMMIT of an active transaction settles the orders it has inserted. -/
theorem settled_commit (hs : s.Sound) {i : ι} {tx : PgTx} (htx : s.openTx i = some tx) (ha : tx.aborted = false)
    (hw : tx.writes (cfg.backend.orderKey order.id) = some order.row) {p : Phase α} (hp : p.openTx = none) :
    (s.goto i p (tx.commit s.committed)).Settled cfg order where
  committed := by rw [goto_committed, Tx.commit_of_active ha, Tx.sees, overlay_of_some hw]
  unwritten j tj htj := by
    by_cases hj : j = i
    · subst hj
      rw [goto_openTx_self, hp] at htj
      cases htj
    · rw [goto_openTx_ne s p _ hj] at htj
      -- the inserter holds the row's lock, so nobody else can have written it
      have hlock := hs.writesLocked i tx htx _ (by rw [hw]; simp)
      have hother := hs.exclusive i j tx tj (Ne.symm hj) htx htj _ hlock
      by_contra hwj
      exact hother (hs.writesLocked j tj htj _ hwj)

/-- The round trip in later transactions: in every continuation, a transaction that begins then,
or is open then and not aborted, reads the order back. -/
def ReadBackLater (cfg : Config) (jobs : ι → Job α) (s : State ι α) (order : Order) : Prop :=
  ∀ as s' tx, run (step cfg jobs) s as = some s' → (tx = .fresh ∨ ∃ i, s'.openTx i = some tx) →
    tx.aborted = false → (callRepo cfg s'.committed tx none (.findOrderById order.id)).1 = .ok (some order)

theorem readBackLater_iff (hd : Deployed cfg.catalog cfg.backend) (ht : s.Typed cfg) (h : s.Settled cfg order) :
    s.ReadBackLater cfg jobs order ↔ order.quantity.Fits := by
  have hfind : ∀ as s' tx, run (step cfg jobs) s as = some s' → (tx = .fresh ∨ ∃ i, s'.openTx i = some tx) →
      tx.aborted = false → (callRepo cfg s'.committed tx none (.findOrderById order.id)).1 = order.found := by
    intro as s' tx hrun htx ha
    have hsettled := settled_run hd ht h hrun
    refine find_of_sees hd ha ?_
    rw [Tx.sees, overlay_of_none, hsettled.committed]
    rcases htx with rfl | ⟨i, hi⟩
    · rfl
    · exact hsettled.unwritten i tx hi
  constructor
  · intro hlater
    have hnow := hlater [] s .fresh rfl (.inl rfl) rfl
    rw [hfind [] s .fresh rfl (.inl rfl) rfl] at hnow
    exact Order.found_iff.1 hnow
  · intro hfits as s' tx hrun htx ha
    rw [hfind as s' tx hrun htx ha]
    exact Order.found_iff.2 hfits

/-- **The order round trip.** For every order, in every state of a transaction that
sees no row under its id: it is created and read back after any successful calls if and only if the
transaction is active and the quantity fits. And in every run in which a block has created it and
commits while active, all later transactions read it back if and only if the quantity fits. -/
theorem order_round_trip_iff (hd : Deployed cfg.catalog cfg.backend) (order : Order) :
    (∀ db tx, tx.sees db (cfg.backend.orderKey order.id) = none →
      (ReadBack cfg db tx order ↔ tx.aborted = false ∧ order.quantity.Fits)) ∧
    ∀ (jobs : ι → Job α) (t₀ : Tables) as (s s' : State ι α) i v escaped tx (r : Order),
      run (step cfg jobs) (init (t₀.store cfg.backend)) as = some s → s.step cfg jobs (.poll i) = some s' →
      s'.phase i = .returned (.ok v) escaped → s.openTx i = some tx → tx.aborted = false →
      ⟨.createOrder order, .ok r⟩ ∈ exchanges (trace cfg jobs i (init (t₀.store cfg.backend)) as) →
      (s'.ReadBackLater cfg jobs order ↔ order.quantity.Fits) := by
  refine ⟨fun db tx hfree => readBack_iff hd hfree, ?_⟩
  intro jobs t₀ as s s' i v escaped tx r hrun hstep hok htx ha hmem
  have hs := sound_run hrun
  have ht := typed_run hd hrun
  have ht' := typed_step hd ht hstep
  obtain ⟨tx', hp, rfl⟩ := step_ok hstep hok
  have htx' : s.openTx i = some tx' := by simp [openTx, hp, Phase.openTx]
  obtain rfl : tx = tx' := Option.some.inj (htx.symm.trans htx')
  have hins := calls_run hd (Inserted cfg.backend) (fun _ _ _ h => by cases h)
    (fun _ _ _ _ _ _ hI hc => hI.step hc) hrun i (by rw [hp]; rfl) tx htx
  exact readBackLater_iff hd ht' (settled_commit hs htx ha (hins ha order r hmem) rfl)

/-- An order for 3, and one for 2 ^ 31. -/
def modest : Order := ⟨⟨1⟩, ⟨7⟩, ⟨3, by decide⟩⟩

def enormous : Order := ⟨⟨1⟩, ⟨7⟩, ⟨2147483648, by decide⟩⟩

def modestJob (_ : Unit) : Job Unit :=
  ⟨.ok (.call (.createOrder modest) fun _ => .drop (.ret (.ok ()))), .none⟩

theorem modest_runs : (run (step (Makefile.config .seaOrm) modestJob) (init (Tables.empty.store .seaOrm))
    (List.replicate 2 (.poll ()))).isSome := by decide +kernel

theorem modest_commits : ((Option.get _ modest_runs).step (Makefile.config .seaOrm) modestJob (.poll ())).isSome := by
  decide +kernel

theorem order_round_trip_iff_modest :
    (ReadBack (Makefile.config .seaOrm) (fun _ => none) .fresh modest ↔ false = false ∧ modest.quantity.Fits) ∧
      ((Option.get _ modest_commits).ReadBackLater (Makefile.config .seaOrm) modestJob modest ↔
        modest.quantity.Fits) := by
  have h := order_round_trip_iff (α := Unit) (ι := Unit) (Makefile.deployed .seaOrm) modest
  refine ⟨h.1 (fun _ => none) .fresh rfl, ?_⟩
  refine h.2 modestJob .empty _ _ _ () () none _ modest (Option.some_get modest_runs).symm
    (Option.some_get modest_commits).symm rfl rfl rfl ?_
  show _ ∈ ([⟨.createOrder modest, .ok modest⟩] : List Exchange)
  exact List.mem_singleton.2 rfl

/-- An order for 2 ^ 31, which `OrderQuantity::new` accepts, is created and then cannot be read. -/
theorem order_unreadable : OrderQuantity.new 2147483648 = .ok enormous.quantity ∧
    (callRepo (Makefile.config .sqlx) (fun _ => none) .fresh none (.createOrder enormous)).1 = .ok enormous ∧
    (callRepo (Makefile.config .sqlx) (fun _ => none)
      (callRepo (Makefile.config .sqlx) (fun _ => none) .fresh none (.createOrder enormous)).2 none
      (.findOrderById enormous.id)).1 = .error (.orderQuantity (.nonPositive (-2147483648))) ∧
    ¬ ReadBack (Makefile.config .sqlx) (fun _ => none) .fresh enormous := by
  refine ⟨rfl, rfl, rfl, fun h => ?_⟩
  cases h.found _ (fun _ => none) .refl

end State

end TransactionManager
