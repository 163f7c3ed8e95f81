import TransactionManager.Calls
import TransactionManager.Deadlock
import TransactionManager.Locking
/-
# Rows locked in an order

Two blocks that lock two rows in opposite orders can bring each other to a halt (`opposed_deadlock`).
Here the rows have levels and a block locks upwards (`Closure.Ascends`): every call that locks is for a row
that is locked already, or above all others that the block may have locked. A block that waits for a row has
locked only lower ones then (`Phase.Ascends.lower`), so of any number of such blocks one can always go on,
and they can all be brought to their end (`ordered_blocks_end`). `create_order` is such a block. Such a block
keeps its context to itself, so that its transaction ends with it, and lets go of it.
-/

namespace TransactionManager

open RowStore RustInt Run WaitFor

/-! ## What a call locks -/

/-- The call locks its row, where it finds one or makes one. -/
def RepoCall.locks : RepoCall → Bool
  | .findByItemIdForUpdate _ | .createInventory _ | .updateInventory _ | .createOrder _ => true
  | .findByItemId _ | .findOrderById _ => false

/-- The answer says that the row is locked now. -/
def RepoCall.confirms : (c : RepoCall) → Except Error c.Reply → Bool
  | .findByItemIdForUpdate _, .ok found => Option.isSome found
  | .createInventory _, .ok _ | .createOrder _, .ok _ => true
  | _, _ => false

/-- The answer is about what the call asks for. -/
def RepoCall.About : (c : RepoCall) → Except Error c.Reply → Prop
  | .findByItemIdForUpdate itemId, .ok (some inventory) => Inventory.itemId inventory = itemId
  | .findByItemId itemId, .ok (some inventory) => Inventory.itemId inventory = itemId
  | .findOrderById id, .ok (some order) => Order.id order = id
  | .createInventory inventory, .ok created => created = inventory
  | .updateInventory inventory, .ok updated => updated = inventory
  | .createOrder order, .ok created => created = order
  | _, _ => True

def Access.locks : Access → Bool
  | .read _ _ forUpdate => forUpdate
  | .insert _ _ | .update _ _ => true

theorem abort_locks (free : Bool) {tx : PgTx} : ∀ k ∈ (tx.abort free).locks, k ∈ tx.locks := by
  intro k hk
  unfold Tx.abort at hk
  split at hk
  · simp at hk
  · exact hk

theorem Access.exec_locks (free : Bool) (db : Db) (tx : PgTx) (a : Access) :
    ∀ k ∈ (a.exec free db tx).2.locks, k ∈ tx.locks ∨ (a.locks = true ∧ k = a.key) := by
  intro k hk
  cases a with
  | read key columns forUpdate =>
    simp only [exec] at hk
    cases hs : tx.sees db key with
    | none => simp only [hs] at hk; exact .inl hk
    | some row =>
      simp only [hs] at hk
      cases forUpdate with
      | false => exact .inl hk
      | true => exact (List.mem_cons.1 hk).elim (fun e => .inr ⟨rfl, e⟩) .inl
  | insert key row =>
    simp only [exec] at hk
    cases hs : tx.sees db key with
    | some _ => simp only [hs] at hk; exact .inl (abort_locks _ k hk)
    | none => simp only [hs] at hk; exact (List.mem_cons.1 hk).elim (fun e => .inr ⟨rfl, e⟩) .inl
  | update key set =>
    simp only [exec] at hk
    cases hs : tx.sees db key with
    | none => simp only [hs] at hk; exact .inl hk
    | some row => simp only [hs] at hk; exact (List.mem_cons.1 hk).elim (fun e => .inr ⟨rfl, e⟩) .inl

/-- Only an access that locks its row waits, and only for somebody who has locked or written it. -/
theorem Access.waits_cases {o : Others} {db : Db} {tx : PgTx} {a : Access} (h : a.waits o db tx = true) :
    a.locks = true ∧ (o.locked a.key = true ∨ o.written a.key = true) := by
  cases a with
  | read key columns forUpdate =>
    simp only [waits, Bool.and_eq_true] at h
    exact ⟨h.1.1, .inl h.2⟩
  | insert key row => exact ⟨rfl, .inr h⟩
  | update key set =>
    simp only [waits, Bool.and_eq_true] at h
    exact ⟨rfl, .inl h.2⟩

section
variable {cfg : Config} {db : Db} {tx : PgTx} {fault : Option PgError} {c : RepoCall}
  (hd : Deployed cfg.catalog cfg.backend)
include hd

theorem plan_locks {a : Access} (h : (cfg.backend.method c).stmt.plan cfg.catalog = .ok a) : a.locks = c.locks := by
  cases c with
  | findByItemIdForUpdate itemId =>
    rw [stmt_findByItemIdForUpdate, plan_selectInventory hd.inventory] at h
    cases h; rfl
  | findByItemId itemId =>
    rw [stmt_findByItemId, plan_selectInventory hd.inventory] at h
    cases h; rfl
  | createInventory inventory =>
    rw [stmt_createInventory, plan_insertInventory hd.inventory] at h
    cases h; rfl
  | updateInventory inventory =>
    rw [stmt_updateInventory, plan_updateInventory hd.inventory] at h
    cases h; rfl
  | findOrderById id =>
    rw [stmt_findOrderById, plan_selectOrder hd.orders] at h
    cases h; rfl
  | createOrder order =>
    rw [stmt_createOrder, plan_insertOrder hd.orders] at h
    cases h; rfl

/-- A call locks no row but its own. -/
theorem callRepo_locked : ∀ k ∈ (callRepo cfg db tx fault c).2.locks,
    k ∈ tx.locks ∨ (c.locks = true ∧ k = c.key cfg.backend) := by
  intro k hk
  cases fault with
  | some e => rw [call_fault] at hk; exact .inl (abort_locks _ k hk)
  | none =>
    cases ha : tx.aborted with
    | true => rw [call_aborted ha] at hk; exact .inl hk
    | false =>
      cases hp : (cfg.backend.method c).stmt.plan cfg.catalog with
      | error e =>
        simp only [callRepo, Stmt.exec, ha, hp] at hk
        exact .inl (abort_locks _ k hk)
      | ok a =>
        rw [call_of_plan hp ha] at hk
        rw [← plan_locks hd hp, ← hd.plan_key hp]
        exact a.exec_locks _ db tx k hk

/-- A call that waits is about a row that it would lock, on a transaction that is not aborted. -/
theorem callWaits_cases {o : Others} (h : callWaits cfg o db tx fault c = true) :
    tx.aborted = false ∧ c.locks = true ∧ (o.locked (c.key cfg.backend) = true ∨ o.written (c.key cfg.backend) = true) := by
  unfold callWaits Stmt.waits at h
  cases fault with
  | some e => cases h
  | none =>
    simp only [Bool.and_eq_true, Bool.not_eq_true'] at h
    obtain ⟨ha, h⟩ := h
    cases hp : (cfg.backend.method c).stmt.plan cfg.catalog with
    | error e => simp only [hp] at h; cases h
    | ok a =>
      simp only [hp] at h
      rw [← plan_locks hd hp, ← hd.plan_key hp]
      exact ⟨ha, Access.waits_cases h⟩

/-- What an answer confirms is so, unless the transaction is aborted. -/
theorem callRepo_confirms (h : c.confirms (callRepo cfg db tx fault c).1 = true)
    (ha : (callRepo cfg db tx fault c).2.aborted = false) :
    c.key cfg.backend ∈ (callRepo cfg db tx fault c).2.locks := by
  cases c with
  | findByItemIdForUpdate itemId =>
    have hc : (RepoCall.findByItemIdForUpdate itemId).locking fun _ => True := trivial
    rcases locking_call hd hc ha with hk | ⟨x, -, -, hnone⟩
    · exact hk
    · -- no row: the answer is `Ok(None)`
      obtain ⟨hact, rfl, -⟩ := callRepo_locks ha
      rw [call_findForUpdate_none hd.inventory hact hnone] at h
      cases h
  | createInventory inventory =>
    have hc : (RepoCall.createInventory inventory).locking fun _ => False := id
    exact (locking_call hd hc ha).elim id fun ⟨_, hx, _⟩ => hx.elim
  | createOrder order =>
    have hc : (RepoCall.createOrder order).locking fun _ => False := trivial
    exact (locking_call hd hc ha).elim id fun ⟨_, hx, _⟩ => hx.elim
  | findByItemId | updateInventory | findOrderById => cases h

theorem callRepo_about (ht : Tables.Typed cfg.backend (tx.sees db)) : c.About (callRepo cfg db tx fault c).1 := by
  have herror : ∀ e, c.About (.error e) := fun e => by cases c <;> trivial
  have hfound : ∀ x q, (RepoCall.findByItemIdForUpdate x).About (foundInventory x q) ∧
      (RepoCall.findByItemId x).About (foundInventory x q) := by
    intro x q
    by_cases hq : 0 ≤ q.toInt
    · rw [foundInventory_of_nonneg hq]
      exact ⟨rfl, rfl⟩
    · rw [foundInventory_of_neg (Int.not_le.1 hq)]
      exact ⟨trivial, trivial⟩
  cases fault with
  | some e => rw [call_fault]; exact herror _
  | none =>
    cases ha : tx.aborted with
    | true => rw [call_aborted ha]; exact herror _
    | false =>
      cases c with
      | findByItemIdForUpdate x =>
        cases hs : tx.sees db (cfg.backend.inventoryKey x) with
        | none => rw [call_findForUpdate_none hd.inventory ha hs]; trivial
        | some row =>
          obtain ⟨q, rfl⟩ := ht.1 x row hs
          rw [call_findForUpdate_some hd.inventory ha hs]
          exact (hfound x q).1
      | findByItemId x =>
        cases hs : tx.sees db (cfg.backend.inventoryKey x) with
        | none => rw [call_find_none hd.inventory ha hs]; trivial
        | some row =>
          obtain ⟨q, rfl⟩ := ht.1 x row hs
          rw [call_find_some hd.inventory ha hs]
          exact (hfound x q).2
      | createInventory inventory =>
        cases hs : tx.sees db (cfg.backend.inventoryKey inventory.itemId) with
        | none => rw [call_createInventory_none hd.inventory ha hs]; rfl
        | some row => rw [call_createInventory_some hd.inventory ha hs]; trivial
      | updateInventory inventory =>
        cases hs : tx.sees db (cfg.backend.inventoryKey inventory.itemId) with
        | none =>
          rw [call_update_none hd.inventory ha hs]
          cases cfg.backend with
          | sqlx => rfl
          | seaOrm => trivial
        | some row =>
          obtain ⟨q, rfl⟩ := ht.1 _ row hs
          rw [call_update_some hd.inventory ha hs]
          rfl
      | findOrderById id =>
        cases hs : tx.sees db (cfg.backend.orderKey id) with
        | none => rw [call_findOrder_none ha hd.orders hs]; trivial
        | some row =>
          obtain ⟨o, rfl⟩ := ht.2 id row hs
          rw [call_findOrder_some ha hd.orders hs]
          unfold foundOrder
          cases OrderQuantity.tryFrom o.quantity with
          | error e => trivial
          | ok quantity => rfl
      | createOrder order =>
        cases hs : tx.sees db (cfg.backend.orderKey order.id) with
        | none => rw [call_createOrder_none ha hd.orders hs]; rfl
        | some row => rw [call_createOrder_some ha hd.orders hs]; trivial

end

/-! ## Blocks that lock upwards -/

section
variable {α L : Type} [LinearOrder L]

/-- The closure, with the given references to the context, locks upwards: the rows of `sure` are locked, those
outside `may` are not, and a call that locks is for one of the former or for a row above all of the latter.
It has let go of the context when it ends, and has none of it lent at a call or in a panic. -/
def Closure.Ascends (b : Backend) (level : Key → L) : Closure α → Refs → (sure may : List Key) → Prop
  | .ret _, refs, _, _ => refs.clones = 0
  | .panic, refs, _, _ => refs.lent = 0
  | .call c k, refs, sure, may =>
    refs.lent = 0 ∧ (c.locks = true → c.key b ∉ sure → ∀ j ∈ may, j ≠ c.key b → level j < level (c.key b)) ∧
      ∀ r, c.About r → (k r).Ascends b level refs (if c.confirms r then c.key b :: sure else sure)
        (if c.locks then c.key b :: may else may)
  | .clone k, refs, sure, may => k.Ascends b level refs.clone sure may
  | .drop k, refs, sure, may => k.Ascends b level refs.drop sure may
  | .lend k, refs, sure, may => k.Ascends b level refs.lend sure may
  | .reclaim k, refs, sure, may => k.Ascends b level refs.reclaim sure may

/-- The block locks upwards from where it is. -/
def Phase.Ascends (b : Backend) (level : Key → L) : Phase α → Prop
  | .awaiting c k refs _ tx => ∃ sure may, (tx.aborted = false → ∀ j ∈ sure, j ∈ tx.locks) ∧
      (∀ j ∈ tx.locks, j ∈ may) ∧ (Closure.call c k).Ascends b level refs sure may
  | .returned _ escaped => escaped = none
  | .dropped escaped => escaped = none
  | _ => True

/-- The code before the block fails, or its closure locks upwards. -/
def Job.Ascends (b : Backend) (level : Key → L) (job : Job α) : Prop :=
  ∀ f, job.start = .ok f → f.Ascends b level .given [] []

/-- The job, with nothing failing any more. -/
def Job.faultless (job : Job α) : Job α := { job with faults := .none }

variable {b : Backend} {level : Key → L}

theorem Closure.Ascends.resume {f : Closure α} {refs : Refs} {sure may : List Key}
    (h : f.Ascends b level refs sure may) (calls : Nat) {tx : PgTx}
    (hsure : tx.aborted = false → ∀ j ∈ sure, j ∈ tx.locks) (hmay : ∀ j ∈ tx.locks, j ∈ may) :
    (resume calls tx (f.poll refs)).Ascends b level := by
  induction f generalizing refs with
  | ret r =>
    rw [Closure.poll, show refs.clones = 0 from h]
    cases r <;> trivial
  | panic =>
    rw [Closure.poll, show refs.lent = 0 from h]
    rfl
  | call c k => exact ⟨sure, may, hsure, hmay, h⟩
  | clone k ih | drop k ih | lend k ih | reclaim k ih => exact ih h

theorem Phase.Ascends.cancel {p : Phase α} (h : p.Ascends b level) : p.cancel.Ascends b level := by
  cases p with
  | awaiting c k refs calls tx =>
    obtain ⟨sure, may, -, -, hlent, -⟩ := h
    rw [Phase.cancel, hlent]
    rfl
  | created | committing | rollingBack | returned | dropped => rfl

theorem Phase.Ascends.escaped {p : Phase α} (h : p.Ascends b level) : p.escaped = none := by
  cases p with
  | returned | dropped => exact h
  | created | awaiting | committing | rollingBack => rfl

variable {cfg : Config} {job : Job α} {p p' : Phase α} {db db' : Db} {ev : List (Event α)}

/-- **The step lemma.** A poll leaves a block that locks upwards. -/
theorem Phase.Ascends.poll (hd : Deployed cfg.catalog cfg.backend) (hj : job.Ascends cfg.backend level)
    (h : p.Ascends cfg.backend level) (ht : ∀ tx, p.openTx = some tx → Tables.Typed cfg.backend (tx.sees db))
    (hp : p.poll cfg job db = some (ev, p', db')) : p'.Ascends cfg.backend level := by
  cases p with
  | created =>
    simp only [Phase.poll] at hp
    split at hp
    · cases hp; rfl
    · split at hp
      · cases hp; rfl
      · rename_i f hs _ _
        cases hp
        exact (hj f hs).resume 0 (fun _ j hj => absurd hj List.not_mem_nil) fun j hj => hj
  | awaiting c k n calls tx =>
    obtain ⟨sure, may, hsure, hmay, -, hcall, hk⟩ := h
    cases hp
    refine (hk _ (callRepo_about hd (ht tx rfl))).resume _ (fun ha j hj => ?_) fun j hj => ?_
    · obtain ⟨hact, -, hkept⟩ := callRepo_locks ha
      split at hj
      · rename_i hc
        rcases List.mem_cons.1 hj with rfl | hj
        · exact callRepo_confirms hd hc ha
        · exact hkept j (hsure hact j hj)
      · exact hkept j (hsure hact j hj)
    · rcases callRepo_locked hd j hj with hj | ⟨hc, rfl⟩
      · split
        · exact List.mem_cons_of_mem _ (hmay j hj)
        · exact hmay j hj
      · rw [if_pos hc]
        exact List.mem_cons_self
  | committing v tx => cases hp; rfl
  | rollingBack e tx => cases hp; rfl
  | returned | dropped => cases hp

/-- **A block that waits has locked only lower rows**, unless it has locked the row itself. -/
theorem Phase.Ascends.lower {c : RepoCall} {k : Except Error c.Reply → Closure α} {n : Refs} {calls : Nat} {tx : PgTx}
    (h : (Phase.awaiting c k n calls tx).Ascends b level) (ha : tx.aborted = false) (hc : c.locks = true)
    (hfree : c.key b ∉ tx.locks) : ∀ j ∈ tx.locks, level j < level (c.key b) := by
  obtain ⟨sure, may, hsure, hmay, -, hcall, -⟩ := h
  intro j hj
  refine hcall hc (fun hmem => hfree (hsure ha _ hmem)) j (hmay j hj) ?_
  rintro rfl
  exact hfree hj

end

/-! ## Every run -/

namespace State

variable {ι α L : Type} [DecidableEq ι] [Fintype ι] [LinearOrder L] {cfg : Config} {jobs : ι → Job α}
  {level : Key → L} {s s' : State ι α} {i : ι} {k : Key}

/-- The row that the next statement of `i` has to wait for, if nothing fails. -/
def asks (cfg : Config) (s : State ι α) (i : ι) : Option Key :=
  match s.phase i with
  | .awaiting c _ _ _ tx =>
    if callWaits cfg (s.others i) s.committed tx none c then some (c.key cfg.backend) else none
  | _ => none

omit [DecidableEq ι] [Fintype ι] in
/-- `i` has locked the row. -/
def Holds (s : State ι α) (i : ι) (k : Key) : Prop := ∃ tx, s.openTx i = some tx ∧ k ∈ tx.locks

/-- Open transactions exclude each other, rows are typed, and every block locks upwards. -/
structure Ascending (cfg : Config) (level : Key → L) (s : State ι α) : Prop where
  sound : s.Sound
  typed : s.Typed cfg
  ascends : ∀ i, (s.phase i).Ascends cfg.backend level

omit [DecidableEq ι] [Fintype ι] in
theorem ascending_init (cfg : Config) (level : Key → L) (t₀ : Tables) :
    (init (t₀.store cfg.backend) : State ι α).Ascending cfg level :=
  ⟨sound_init _, ⟨Tables.typed_store _ _, fun _ _ htx => by cases htx⟩, fun _ => trivial⟩

theorem ascending_step (hd : Deployed cfg.catalog cfg.backend) (hjobs : ∀ i, (jobs i).Ascends cfg.backend level)
    (h : s.Ascending cfg level) {a : Action ι} (hstep : s.step cfg jobs a = some s') :
    s'.Ascending cfg level := by
  refine ⟨sound_step h.sound hstep, typed_step hd h.typed hstep, fun i => ?_⟩
  by_cases hi : i = a.caller
  · obtain ⟨j, ⟨ev, p', db'⟩, rfl, -, hr, rfl⟩ | ⟨j, rfl, -, rfl⟩ | ⟨j, act, ctx, q, rfl, hp, -, rfl⟩ :=
      step_cases hstep
    · obtain rfl : i = j := hi
      rw [goto_phase_self]
      exact (h.ascends i).poll hd (hjobs i) (fun tx htx => h.typed.sees htx) hr
    · obtain rfl : i = j := hi
      rw [goto_phase_self]
      exact (h.ascends i).cancel
    · obtain rfl : i = j := hi
      rw [(h.ascends i).escaped] at hp
      cases hp
  · rw [step_phase_ne hstep hi]
    exact h.ascends i

/-- An action takes one block further down, and no other. -/
theorem Ascending.down (h : s.Ascending cfg level) {a : Action ι} (hstep : s.step cfg jobs a = some s') :
    OneMoves Phase.After s'.phase s.phase := by
  refine ⟨a.caller, ?_, fun j hj => step_phase_ne hstep hj⟩
  obtain ⟨j, ⟨ev, p', db'⟩, rfl, -, hr, rfl⟩ | ⟨j, rfl, hl, rfl⟩ | ⟨j, act, ctx, q, rfl, hp, -, rfl⟩ :=
    step_cases hstep
  · rw [Action.caller, goto_phase_self]
    exact .poll hr
  · rw [Action.caller, goto_phase_self]
    exact .cancel hl
  · rw [(h.ascends j).escaped] at hp
    cases hp

omit [DecidableEq ι] [Fintype ι] in
/-- Whoever has a transaction open has not returned. -/
theorem Ascending.live_of_open (h : s.Ascending cfg level) {tx : PgTx} (htx : s.openTx i = some tx) :
    (s.phase i).live = true := by
  have hescaped := h.ascends i
  unfold openTx at htx
  cases hp : s.phase i with
  | created => rw [hp] at htx; cases htx
  | awaiting | committing | rollingBack => rfl
  | returned _ escaped | dropped escaped =>
    rw [hp] at htx hescaped
    obtain rfl : escaped = none := hescaped
    cases htx

theorem asks_cases (h : s.asks cfg i = some k) : ∃ c kont n calls tx, s.phase i = .awaiting c kont n calls tx ∧
    callWaits cfg (s.others i) s.committed tx none c = true ∧ k = c.key cfg.backend := by
  unfold asks at h
  split at h
  · rename_i c kont n calls tx hp
    split at h
    · rename_i hw
      exact ⟨c, kont, n, calls, tx, hp, hw, (Option.some.inj h).symm⟩
    · cases h
  · cases h

/-- What is waited for somebody else has locked. -/
theorem asks_held (hd : Deployed cfg.catalog cfg.backend) (hs : s.Sound) (h : s.asks cfg i = some k) :
    ∃ j, j ≠ i ∧ s.Holds j k := by
  obtain ⟨c, kont, n, calls, tx, hp, hw, rfl⟩ := asks_cases h
  obtain ⟨-, -, hlocked | hwritten⟩ := callWaits_cases hd hw
  · obtain ⟨j, hj, hheld⟩ := others_locked hlocked
    obtain ⟨tx', htx', hk⟩ := (Option.any_eq_true _ _).1 hheld
    exact ⟨j, hj, tx', htx', List.contains_iff_mem.1 hk⟩
  · obtain ⟨j, hj, hheld⟩ := others_written hwritten
    obtain ⟨tx', htx', hk⟩ := (Option.any_eq_true _ _).1 hheld
    exact ⟨j, hj, tx', htx', hs.writesLocked j tx' htx' _ (Option.isSome_iff_ne_none.1 hk)⟩

/-- Whoever waits has locked only rows below the one it waits for. -/
theorem Ascending.lower (hd : Deployed cfg.catalog cfg.backend) (h : s.Ascending cfg level)
    (hask : s.asks cfg i = some k) : ∀ k', s.Holds i k' → level k' < level k := by
  obtain ⟨j, hj, tx', htx', hk⟩ := asks_held hd h.sound hask
  obtain ⟨c, kont, n, calls, tx, hp, hw, rfl⟩ := asks_cases hask
  obtain ⟨ha, hc, -⟩ := callWaits_cases hd hw
  have hopen : s.openTx i = some tx := by rw [openTx, hp]; rfl
  have hascends := h.ascends i
  rw [hp] at hascends
  rintro k' ⟨tx'', htx'', hk'⟩
  rw [hopen] at htx''
  cases htx''
  exact hascends.lower ha hc (fun hmem => h.sound.exclusive j i tx' tx hj htx' hopen _ hk hmem) k' hk'

/-- Whoever waits for no row can go on. -/
theorem poll_of_not_asking (hlive : (s.phase i).live = true) (hask : s.asks cfg i = none) :
    ∃ s', s.step cfg (fun i => (jobs i).faultless) (.poll i) = some s' := by
  have hw : (s.phase i).waits cfg (jobs i).faultless (s.others i) s.committed = false := by
    unfold asks at hask
    cases hp : s.phase i with
    | awaiting c kont n calls tx =>
      simp only [hp] at hask
      split at hask
      · cases hask
      · rename_i hw
        simpa [Phase.waits, Job.faultless, Faults.none] using hw
    | created | committing | rollingBack | returned | dropped => rfl
  obtain ⟨r, hr⟩ := Phase.poll_live cfg (jobs i).faultless s.committed hlive
  simp only [step, hw, hr, Bool.false_eq_true, if_false, Option.map_some]
  exact ⟨_, rfl⟩

/-- **Somebody can go on.** -/
theorem Ascending.go_on (hd : Deployed cfg.catalog cfg.backend) (h : s.Ascending cfg level)
    (hlive : (s.phase i).live = true) :
    ∃ j s', (s.phase j).live = true ∧ s.step cfg (fun i => (jobs i).faultless) (.poll j) = some s' := by
  have hup : ∀ i k, s.asks cfg i = some k → ∀ k', s.Holds i k' → level k' < level k :=
    fun i k hask => h.lower hd hask
  have hheld : ∀ i k, s.asks cfg i = some k → ∃ j, (s.phase j).live = true ∧ s.Holds j k := by
    intro i k hask
    obtain ⟨j, -, tx, htx, hk⟩ := asks_held hd h.sound hask
    exact ⟨j, h.live_of_open htx, tx, htx, hk⟩
  obtain ⟨j, hj, hask⟩ := exists_not_asking hup hheld hlive
  obtain ⟨s', hs'⟩ := poll_of_not_asking hj hask
  exact ⟨j, s', hj, hs'⟩

/-- **Blocks that lock upwards do not deadlock, and end.** In every state that any number of them can come
to, whatever their calls answer and whatever fails or is cancelled: if a block has not ended then one of
them can go on; and going on leads to a state in which all have ended and no transaction is open. -/
theorem ordered_blocks_end (hd : Deployed cfg.catalog cfg.backend) (level : Key → L)
    (hjobs : ∀ i, (jobs i).Ascends cfg.backend level) {t₀ : Tables} {as : List (Action ι)}
    (h : run (step cfg jobs) (init (t₀.store cfg.backend)) as = some s) :
    (∀ i, (s.phase i).live = true → ∃ j s', (s.phase j).live = true ∧
      s.step cfg (fun i => (jobs i).faultless) (.poll j) = some s') ∧
    ∃ polls s', (∀ a ∈ polls, ∃ i, a = .poll i) ∧
      run (step cfg fun i => (jobs i).faultless) s polls = some s' ∧
      ∀ i, (s'.phase i).live = false ∧ s'.openTx i = none := by
  have hreached : s.Ascending cfg level :=
    run_inv _ (fun _ _ _ hs hstep => ascending_step hd hjobs hs hstep) as (ascending_init cfg level t₀) h
  refine ⟨fun i hlive => hreached.go_on hd hlive, ?_⟩
  have hfaultless : ∀ i, (jobs i).faultless.Ascends cfg.backend level := hjobs
  have hkeeps : ∀ (s : State ι α) a s', s.Ascending cfg level → s.step cfg (fun i => (jobs i).faultless) a = some s' →
      s'.Ascending cfg level := fun _ _ _ hs hstep => ascending_step hd hfaultless hs hstep
  obtain ⟨polls, s', hpolls, hrun, hs', hstuck⟩ := run_settles (Ascending cfg level)
    (InvImage.wf State.phase (oneMoves_wf after_wf)) hkeeps (fun _ _ _ hs hstep => hs.down hstep)
    (fun a => ∃ i, a = Action.poll i) hreached
  have hover : ∀ i, (s'.phase i).live = false := by
    intro i
    by_contra hlive
    have hgo : ∃ j m, (s'.phase j).live = true ∧ s'.step cfg (fun i => (jobs i).faultless) (.poll j) = some m :=
      hs'.go_on hd (by simpa using hlive)
    obtain ⟨j, m, -, hm⟩ := hgo
    rw [hstuck _ ⟨j, rfl⟩] at hm
    cases hm
  refine ⟨polls, s', hpolls, hrun, fun i => ⟨hover i, ?_⟩⟩
  by_contra hopen
  obtain ⟨tx, htx⟩ := Option.ne_none_iff_exists'.1 hopen
  have hlive := hs'.live_of_open htx
  rw [hover i] at hlive
  cases hlive

end State

/-! ## Blocks that do, and blocks that do not -/

section
variable {α L : Type} [LinearOrder L] {b : Backend} {level : Key → L}

/-- The update is of the row of the locked read, and the order is above it. -/
theorem persist_ascends (hlevel : ∀ x id, level (b.inventoryKey x) < level (b.orderKey id)) (order : Order) (q : Int32)
    (sure : List Key) :
    (persist order ⟨order.itemId, q⟩).moved.Ascends b level .given sure [b.inventoryKey order.itemId] := by
  refine ⟨rfl, fun _ _ j hj hne => absurd (List.mem_singleton.1 hj) hne, fun r _ => ?_⟩
  cases r with
  | error e => rfl
  | ok updated =>
    refine ⟨rfl, fun _ _ j hj _ => ?_, fun r _ => by cases r <;> rfl⟩
    have hrow : j = b.inventoryKey order.itemId := by simpa [RepoCall.locks, RepoCall.key] using hj
    rw [hrow]
    exact hlevel _ _

/-- `create_order` locks its inventory row before its order. -/
theorem createOrder_ascends (hlevel : ∀ x id, level (b.inventoryKey x) < level (b.orderKey id)) (p : BuildProfile)
    (call : CreateOrderCall) : (createOrder p call).Ascends b level := by
  intro f hf
  by_cases hpos : 0 < call.qty.toInt
  · rw [start_createOrder_of_pos hpos] at hf
    cases hf
    refine ⟨rfl, fun _ _ j hj => absurd hj List.not_mem_nil, fun found habout => ?_⟩
    match found with
    | .error e => rfl
    | .ok none => rfl
    | .ok (some ⟨itemId, stock⟩) =>
      obtain rfl : itemId = call.order.itemId := habout
      have hqty : 0 < call.order.quantity.toI32.toInt := by rw [CreateOrderCall.order_toI32 hpos]; exact hpos
      have hcast := InventoryQuantity.toI32_ofPos hqty
      change (reserve p call.order (some ⟨call.order.itemId, stock⟩)).moved.Ascends b level .given _ _
      rw [reserve_some hqty, decreased]
      by_cases hstock : call.order.quantity.toI32.toInt ≤ stock.toInt
      · rw [Inventory.decreaseStock_covered _ _ _ (by rw [hcast]; omega) (by rw [hcast]; exact hstock)]
        exact persist_ascends hlevel _ _ _
      · rw [Inventory.decreaseStock_refused _ _ _ (by rw [hcast]; exact Int.not_le.1 hstock)]
        rfl
  · rw [start_createOrder_of_nonpos (Int.not_lt.1 hpos)] at hf
    cases hf

/-- A closure that locks the rows of some items one after the other. -/
def lockAll : List ItemId → Closure Unit
  | [] => .ret (.ok ())
  | x :: xs => do
    let _ ← Closure.await (.findByItemIdForUpdate x)
    lockAll xs

def locker (xs : List ItemId) : Job Unit := ⟨.ok (lockAll xs).moved, .none⟩

theorem lockAll_ascends {xs : List ItemId} {sure may : List Key}
    (hxs : xs.Pairwise fun x y => level (b.inventoryKey x) < level (b.inventoryKey y))
    (hmay : ∀ j ∈ may, ∀ x ∈ xs, level j < level (b.inventoryKey x)) :
    (lockAll xs).moved.Ascends b level .given sure may := by
  induction xs generalizing sure may with
  | nil => rfl
  | cons x xs ih =>
    obtain ⟨hx, hxs⟩ := List.pairwise_cons.1 hxs
    refine ⟨rfl, fun _ _ j hj _ => hmay j hj x List.mem_cons_self, fun r _ => ?_⟩
    cases r with
    | error e => rfl
    | ok found =>
      refine ih hxs fun j hj y hy => ?_
      rcases List.mem_cons.1 hj with rfl | hj
      · exact hx y hy
      · exact hmay j hj y (List.mem_cons_of_mem x hy)

theorem locker_ascends {xs : List ItemId}
    (hxs : xs.Pairwise fun x y => level (b.inventoryKey x) < level (b.inventoryKey y)) :
    (locker xs).Ascends b level := by
  rintro f ⟨⟩
  exact lockAll_ascends hxs fun j hj => absurd hj List.not_mem_nil

end

section
variable {cfg : Config} (hd : Deployed cfg.catalog cfg.backend) {x y : ItemId} {q : Int32} {db : Db} {tx : PgTx}

/-- What is left of `lockAll` once the row before `xs` has answered. -/
def afterLock (xs : List ItemId) (r : Except Error (Option Inventory)) : Closure Unit :=
  ((Closure.ret r).bind fun _ => lockAll xs).moved

include hd

theorem waits_lock (ha : tx.aborted = false) (hs : tx.sees db (cfg.backend.inventoryKey x) = some (inventoryRow x q))
    (o : Others) : callWaits cfg o db tx none (.findByItemIdForUpdate x) = o.locked (cfg.backend.inventoryKey x) := by
  have hplan := plan_selectInventory hd.inventory x.uuid true
  rw [← stmt_findByItemIdForUpdate] at hplan
  rw [callWaits_of_plan none hplan ha]
  have hsome : (tx.sees db (cfg.backend.inventoryTable, x.uuid)).isSome = true := by
    rw [show tx.sees db (cfg.backend.inventoryTable, x.uuid) = some (inventoryRow x q) from hs]
    rfl
  simp only [Access.waits, hsome, Option.isNone_none, Bool.true_and]
  rfl

theorem poll_lock (ha : tx.aborted = false) (hs : tx.sees db (cfg.backend.inventoryKey x) = some (inventoryRow x q))
    (hq : 0 ≤ q.toInt) (xs ys : List ItemId) (n : Nat) :
    (Phase.awaiting (.findByItemIdForUpdate x) (afterLock (y :: ys)) .given n tx).poll cfg (locker xs) db =
      some ([.call ⟨.findByItemIdForUpdate x, .ok (some ⟨x, q⟩)⟩],
        .awaiting (.findByItemIdForUpdate y) (afterLock ys) .given (n + 1) (tx.lock (cfg.backend.inventoryKey x)), db) := by
  have hcall := call_findForUpdate_some hd.inventory ha hs
  rw [foundInventory_of_nonneg hq] at hcall
  simp only [Phase.poll, locker, Faults.none, hcall]
  rfl

end

/-- Two blocks that lock the same two rows in the same order; the first has locked one, and the second is
at it. -/
def orderly (_ : Bool) : Job Unit := locker [⟨7⟩, ⟨8⟩]

def plenty : Tables := ⟨fun _ => some 5, fun _ => none, fun _ => none⟩

theorem orderly_runs : (run (State.step (Makefile.config .sqlx) orderly) (.init (plenty.store .sqlx))
    [.poll false, .poll true, .poll false]).isSome := by decide +kernel

theorem State.ordered_blocks_end_orderly : ∃ polls s', (∀ a ∈ polls, ∃ i, a = Action.poll i) ∧
    run (State.step (Makefile.config .sqlx) fun i => (orderly i).faultless) (Option.get _ orderly_runs) polls = some s' ∧
    ∀ i, (s'.phase i).live = false ∧ s'.openTx i = none :=
  (State.ordered_blocks_end (Makefile.deployed .sqlx) (fun k => k.2.toNat)
    (fun _ => locker_ascends (by simp [Backend.inventoryKey])) (Option.some_get orderly_runs).symm).2

/-! ## Two blocks that lock in opposite orders -/

/-- The rows that a block locks, in its order. -/
def ways (x y : ItemId) : Bool → ItemId × ItemId
  | false => (x, y)
  | true => (y, x)

def opposed (x y : ItemId) (i : Bool) : Job Unit := locker [(ways x y i).1, (ways x y i).2]

namespace State

variable {cfg : Config} (hd : Deployed cfg.catalog cfg.backend) {x y : ItemId} {t : Tables} {s : State Bool Unit}

/-- What the one block finds locked is what the other has locked. -/
theorem locked_others (s : State Bool Unit) (i : Bool) (k : Key) :
    (s.others i).locked k = (s.openTx !i).any fun tx => decide (k ∈ tx.locks) := by
  cases i <;> simp [others]

/-- The block at its first lock, and with it at its second. -/
def atFirst (x y : ItemId) (i : Bool) : Phase Unit :=
  .awaiting (.findByItemIdForUpdate (ways x y i).1) (afterLock [(ways x y i).2]) .given 0 .fresh

def atSecond (b : Backend) (x y : ItemId) (i : Bool) : Phase Unit :=
  .awaiting (.findByItemIdForUpdate (ways x y i).2) (afterLock []) .given 1 (Tx.fresh.lock (b.inventoryKey (ways x y i).1))

theorem step_begins {i : Bool} (h : s.phase i = .created) :
    s.step cfg (opposed x y) (.poll i) = some (s.goto i (atFirst x y i) s.committed) := by
  simp only [step, h]
  rfl

section
variable (hrows : ∀ z, z = x ∨ z = y → ∃ q : Int32, t.inventory z = some q ∧ 0 ≤ q.toInt)
include hrows

theorem ways_rows (i : Bool) : (∃ q : Int32, t.inventory (ways x y i).1 = some q ∧ 0 ≤ q.toInt) ∧
    ∃ q : Int32, t.inventory (ways x y i).2 = some q ∧ 0 ≤ q.toInt := by
  cases i
  · exact ⟨hrows _ (.inl rfl), hrows _ (.inr rfl)⟩
  · exact ⟨hrows _ (.inr rfl), hrows _ (.inl rfl)⟩

include hd

theorem step_locks {i : Bool} (hc : s.committed = t.store cfg.backend) (h : s.phase i = atFirst x y i)
    (hfree : ∀ tx, s.openTx (!i) = some tx → cfg.backend.inventoryKey (ways x y i).1 ∉ tx.locks) :
    s.step cfg (opposed x y) (.poll i) = some (s.goto i (atSecond cfg.backend x y i) s.committed) := by
  obtain ⟨⟨q, hrow, hq⟩, -⟩ := ways_rows hrows i
  have hs : (Tx.fresh : PgTx).sees s.committed (cfg.backend.inventoryKey (ways x y i).1) =
      some (inventoryRow (ways x y i).1 q) := by
    rw [Tx.sees_fresh, hc, Tables.store_inventoryKey, hrow]
    rfl
  have hw : (atFirst x y i).waits cfg (opposed x y i) (s.others i) s.committed = false := by
    rw [atFirst, Phase.waits, opposed, locker, Faults.none, waits_lock hd rfl hs, locked_others]
    cases ho : s.openTx !i with
    | none => rfl
    | some tx => simpa using hfree tx ho
  simp only [step, h, hw, Bool.false_eq_true, if_false]
  rw [atFirst, opposed, poll_lock hd rfl hs hq]
  rfl

theorem step_stuck {i : Bool} (hc : s.committed = t.store cfg.backend)
    (h : ∀ i, s.phase i = atSecond cfg.backend x y i) : s.step cfg (opposed x y) (.poll i) = none := by
  obtain ⟨-, q, hrow, hq⟩ := ways_rows hrows i
  have hs : (Tx.fresh.lock (cfg.backend.inventoryKey (ways x y i).1) : PgTx).sees s.committed
      (cfg.backend.inventoryKey (ways x y i).2) = some (inventoryRow (ways x y i).2 q) := by
    rw [Tx.sees_lock, Tx.sees_fresh, hc, Tables.store_inventoryKey, hrow]
    rfl
  have hw : (atSecond cfg.backend x y i).waits cfg (opposed x y i) (s.others i) s.committed = true := by
    rw [atSecond, Phase.waits, opposed, locker, Faults.none, waits_lock hd rfl hs, locked_others, openTx, h]
    cases i <;> simp [atSecond, Phase.openTx, ways]
  simp only [step, h, hw, if_true]

/-- **The order is needed.** Over any tables in which two items have a stock, two blocks that lock them in
opposite orders can each lock its first row, and then neither can go on. -/
theorem opposed_deadlock (hne : x ≠ y) :
    ∃ as s, run (step cfg (opposed x y)) (init (t.store cfg.backend)) as = some s ∧
      ∀ i, (s.phase i).live = true ∧ s.step cfg (opposed x y) (.poll i) = none := by
  let db := t.store cfg.backend
  let s₂ : State Bool Unit := ((init db).goto false (atFirst x y false) db).goto true (atFirst x y true) db
  let s₃ := s₂.goto false (atSecond cfg.backend x y false) db
  let s₄ := s₃.goto true (atSecond cfg.backend x y true) db
  have hsecond : ∀ i, s₄.phase i = atSecond cfg.backend x y i := by
    intro i
    cases i <;> simp [s₄, s₃, goto]
  have h₁ : (init db : State Bool Unit).step cfg (opposed x y) (.poll false) = some _ := step_begins rfl
  have h₂ : ((init db : State Bool Unit).goto false (atFirst x y false) db).step cfg (opposed x y) (.poll true) =
      some s₂ := step_begins rfl
  have h₃ : s₂.step cfg (opposed x y) (.poll false) = some s₃ := by
    refine step_locks hd hrows rfl (by simp [s₂, goto]) fun tx htx => ?_
    cases htx
    exact List.not_mem_nil
  have h₄ : s₃.step cfg (opposed x y) (.poll true) = some s₄ := by
    refine step_locks hd hrows rfl (by simp [s₃, s₂, goto]) fun tx htx => ?_
    -- the first block has locked its own first row only
    rw [openTx, Bool.not_true, goto_phase_self] at htx
    cases htx
    simpa [ways] using fun h => hne (Backend.inventoryKey_inj.1 h).symm
  refine ⟨[.poll false, .poll true, .poll false, .poll true], s₄, ?_, fun i => ⟨?_, ?_⟩⟩
  · rw [run_cons, h₁, Option.bind_some, run_cons]
    rw [show (init db : State Bool Unit).committed = db from rfl, h₂, Option.bind_some, run_cons, h₃,
      Option.bind_some, run_cons, h₄]
    rfl
  · rw [hsecond]
    rfl
  · exact step_stuck hd hrows rfl hsecond

end

end State

end TransactionManager
