import TransactionManager.Lib.Decision
import TransactionManager.Footprint
import TransactionManager.Serial
/-
# Blocks that lock what they read

`create_order` is serializable because it reads its row FOR UPDATE. Here any closure may take its place
that makes only locking calls (`RepoCall.locking`): no plain read, and none of a row that a closure
creates meanwhile. What such a block has read it has locked, or nobody creates it (`open_transfer`), so
the blocks are parties that settle one after the other (`blocks_lawful`): by COMMIT, by their failure,
or by the statement that aborts their transaction. A block keeps its context to itself, and lets go of it.
COMMIT, its acknowledgement and the return are one step, here and in all that rests on it (`InFlight`).
-/

namespace TransactionManager

open RowStore RustInt Run Decision Relation

/-- A locked read or an update of one of the `items`, the creation of a row for none of them, or an
order. -/
def RepoCall.locking (items : ItemId → Prop) : RepoCall → Prop
  | .findByItemIdForUpdate itemId => items itemId
  | .updateInventory inventory => items inventory.itemId
  | .createInventory inventory => ¬ items inventory.itemId
  | .createOrder _ => True
  | .findByItemId _ | .findOrderById _ => False

/-! ## What a locking call leaves behind -/

section
variable {cfg : Config} {db db' : Db} {tx : PgTx} {fault : Option PgError} {c : RepoCall} {items : ItemId → Prop}

/-- A transaction that is not aborted has kept its locks. -/
theorem callRepo_locks (h : (callRepo cfg db tx fault c).2.aborted = false) :
    tx.aborted = false ∧ fault = none ∧ ∀ k ∈ tx.locks, k ∈ (callRepo cfg db tx fault c).2.locks := by
  have hexec : (callRepo cfg db tx fault c).2 =
      ((cfg.backend.method c).stmt.exec cfg.catalog cfg.freeOnAbort db tx fault).2 := rfl
  rw [hexec] at h ⊢
  unfold Stmt.exec at h ⊢
  cases fault with
  | some e => simp at h
  | none =>
    cases ha : tx.aborted with
    | true => simp [ha] at h
    | false =>
      refine ⟨rfl, rfl, ?_⟩
      simp only [ha, Bool.false_eq_true, if_false] at h ⊢
      cases hp : (cfg.backend.method c).stmt.plan cfg.catalog with
      | error e => simp [hp] at h
      | ok a =>
        simp only [hp] at h ⊢
        cases a with
        | read key columns forUpdate =>
          simp only [Access.exec] at h ⊢
          cases tx.sees db key with
          | none => exact fun k hk => hk
          | some row =>
            cases forUpdate with
            | true => exact fun k hk => List.mem_cons_of_mem _ hk
            | false => exact fun k hk => hk
        | insert key row =>
          simp only [Access.exec] at h ⊢
          cases hs : tx.sees db key with
          | some _ => simp [hs] at h
          | none => exact fun k hk => List.mem_cons_of_mem _ hk
        | update key set =>
          simp only [Access.exec]
          cases tx.sees db key with
          | none => exact fun k hk => hk
          | some row => exact fun k hk => List.mem_cons_of_mem _ hk

variable (hd : Deployed cfg.catalog cfg.backend)
include hd

/-- **What a locking call has read** it has locked, unless it has failed or found no row of an item. -/
theorem locking_call (hc : c.locking items) (hactive : (callRepo cfg db tx fault c).2.aborted = false) :
    c.key cfg.backend ∈ (callRepo cfg db tx fault c).2.locks ∨
      ∃ x, items x ∧ c.key cfg.backend = cfg.backend.inventoryKey x ∧ tx.sees db (c.key cfg.backend) = none := by
  obtain ⟨ha, rfl, -⟩ := callRepo_locks hactive
  cases c with
  | findByItemIdForUpdate x =>
    have hplan := plan_selectInventory hd.inventory x.uuid true
    rw [← stmt_findByItemIdForUpdate] at hplan
    rw [call_of_plan hplan ha]
    cases hs : tx.sees db (cfg.backend.inventoryKey x) with
    | none => exact .inr ⟨x, hc, rfl, hs⟩
    | some row =>
      refine .inl ?_
      simp only [Access.exec, show tx.sees db (cfg.backend.inventoryTable, x.uuid) = some row from hs]
      exact List.mem_cons_self
  | updateInventory inventory =>
    have hplan := plan_updateInventory hd.inventory inventory.itemId.uuid inventory.quantity
    rw [← stmt_updateInventory] at hplan
    rw [call_of_plan hplan ha]
    cases hs : tx.sees db (cfg.backend.inventoryKey inventory.itemId) with
    | none => exact .inr ⟨inventory.itemId, hc, rfl, hs⟩
    | some row =>
      refine .inl ?_
      simp only [Access.exec, show tx.sees db (cfg.backend.inventoryTable, inventory.itemId.uuid) = some row from hs]
      exact List.mem_cons_self
  | createInventory inventory =>
    cases hs : tx.sees db (cfg.backend.inventoryKey inventory.itemId) with
    | none =>
      rw [call_createInventory_none hd.inventory ha hs]
      exact .inl List.mem_cons_self
    | some row =>
      rw [call_createInventory_some hd.inventory ha hs, Tx.abort_aborted] at hactive
      cases hactive
  | createOrder order =>
    cases hs : tx.sees db (cfg.backend.orderKey order.id) with
    | none =>
      rw [call_createOrder_none ha hd.orders hs]
      exact .inl List.mem_cons_self
    | some row =>
      rw [call_createOrder_some ha hd.orders hs, Tx.abort_aborted] at hactive
      cases hactive
  | findByItemId | findOrderById => cases hc

/-- No locking call writes a row of an item that has none. -/
theorem locking_writes (hc : c.locking items) {x : ItemId} (hx : items x)
    (hnone : db (cfg.backend.inventoryKey x) = none) (hw : tx.writes (cfg.backend.inventoryKey x) = none) :
    (callRepo cfg db tx fault c).2.writes (cfg.backend.inventoryKey x) = none := by
  have hother : c.key cfg.backend ≠ cfg.backend.inventoryKey x →
      (callRepo cfg db tx fault c).2.writes (cfg.backend.inventoryKey x) = none := fun hne =>
    callRepo_writes hw fun a hp ht => hne (by rw [← hd.plan_key hp, Access.target_eq ht])
  by_cases hkey : c.key cfg.backend = cfg.backend.inventoryKey x
  · cases c with
    | findByItemIdForUpdate y =>
      exact callRepo_writes hw fun a hp ht => by
        rw [cfg.backend.plan_reads rfl hp] at ht
        cases ht
    | updateInventory inventory =>
      -- no row is there, so the update matches none
      have hs : tx.sees db (cfg.backend.inventoryKey inventory.itemId) = none := by
        rw [show cfg.backend.inventoryKey inventory.itemId = cfg.backend.inventoryKey x from hkey, Tx.sees,
          overlay_of_none hw, hnone]
      cases fault with
      | some e =>
        rw [call_fault]
        unfold Tx.abort
        split
        · rfl
        · exact hw
      | none =>
        cases ha : tx.aborted with
        | true => rw [call_aborted ha]; exact hw
        | false => rw [call_update_none hd.inventory ha hs]; exact hw
    | createInventory inventory => exact absurd (Backend.inventoryKey_inj.1 hkey ▸ hx) hc
    | createOrder order => exact absurd hkey.symm (cfg.backend.inventoryKey_ne_orderKey _ _)
    | findByItemId | findOrderById => cases hc
  · exact hother hkey

end

/-! ## Blocks as parties -/

variable {ι α : Type}

/-- Nothing that others do matters to the block any more: its transaction is aborted, or it is about to
roll back, or it has returned. -/
def Phase.settled : Phase α → Bool
  | .awaiting _ _ _ _ tx => tx.aborted
  | .committing _ tx => tx.aborted
  | .rollingBack _ _ => true
  | .returned _ _ => true
  | .created | .dropped _ => false

def Phase.hasReturned : Phase α → Bool
  | .returned _ _ => true
  | _ => false

/-- The future was dropped, or its closure has panicked. -/
def Phase.gone : Phase α → Bool
  | .dropped _ => true
  | _ => false

/-- The blocks as parties over the committed rows. -/
def blocks (cfg : Config) (jobs : ι → Job α) : Parties ι (Phase α) Db where
  start _ := .created
  next i x := (x.1.poll cfg (jobs i) x.2).map fun r => (r.2.1, r.2.2)
  settled p := p.settled = true
  gone p := p.gone = true

/-- On an aborted transaction a block is settled, or has panicked. -/
theorem resume_aborted (calls : Nat) {tx : PgTx} (ha : tx.aborted = true) (p : Polled α) :
    (resume calls tx p).settled = true ∨ (resume calls tx p).gone = true := by
  match p with
  | .pending c k n => exact .inl ha
  | .ready (.ok v) 0 => exact .inl ha
  | .ready (.error e) 0 | .ready (.ok v) (n + 1) | .ready (.error e) (n + 1) => exact .inl rfl
  | .panicked n => exact .inr rfl

/-- A block that goes on unsettled has its transaction, not aborted. -/
theorem resume_unsettled {calls : Nat} {tx : PgTx} {p : Polled α} (hs : (resume calls tx p).settled ≠ true)
    (hp : (resume calls tx p).gone ≠ true) : tx.aborted = false ∧ (resume calls tx p).openTx = some tx := by
  match p with
  | .pending c k n => exact ⟨by simpa [resume, Phase.settled] using hs, rfl⟩
  | .ready (.ok v) 0 => exact ⟨by simpa [resume, Phase.settled] using hs, rfl⟩
  | .ready (.error e) 0 | .ready (.ok v) (n + 1) | .ready (.error e) (n + 1) => exact absurd rfl hs
  | .panicked n => exact absurd rfl hp

section
variable {cfg : Config} {jobs : ι → Job α} {i : ι}

theorem next_blocks {p p' : Phase α} {d d' : Db} :
    (blocks cfg jobs).next i (p, d) = some (p', d') ↔ ∃ ev, p.poll cfg (jobs i) d = some (ev, p', d') := by
  simp [blocks]

theorem over_blocks {p : Phase α} : (blocks cfg jobs).Over i p ↔ p.live = false := by
  constructor
  · intro h
    by_contra hl
    obtain ⟨⟨ev, p', d'⟩, hr⟩ := Phase.poll_live cfg (jobs i) (fun _ => none) (by simpa using hl)
    have := h fun _ => none
    rw [next_blocks.2 ⟨ev, hr⟩] at this
    cases this
  · intro h d
    cases p with
    | returned | dropped => rfl
    | created | awaiting | committing | rollingBack => cases h

/-- A call on an aborted transaction answers the same whatever is committed. -/
theorem callRepo_aborted (cfg : Config) {tx : PgTx} (ha : tx.aborted = true) (db db' : Db) (fault : Option PgError)
    (c : RepoCall) :
    callRepo cfg db tx fault c = callRepo cfg db' tx fault c ∧ (callRepo cfg db tx fault c).2.aborted = true := by
  cases fault with
  | some e => simp only [call_fault, Tx.abort_aborted, and_self]
  | none => simp only [call_aborted ha, ha, and_self]

theorem blocks_lawful (cfg : Config) (jobs : ι → Job α) : (blocks cfg jobs).Lawful where
  settled := by
    intro i p d p' d' hp hn
    obtain ⟨ev, hr⟩ := next_blocks.1 hn
    cases p with
    | awaiting c k n calls tx =>
      have haborted := fun e => callRepo_aborted cfg (show tx.aborted = true from hp) d e
        ((jobs i).faults.stmt calls) c
      cases hr
      refine ⟨resume_aborted _ (haborted d).2 _, rfl, fun e => next_blocks.2 ?_⟩
      simp only [Phase.poll, (haborted e).1]
      exact ⟨_, rfl⟩
    | committing v tx =>
      have hcommit : ∀ e, DbContext.commit cfg (jobs i).faults.commit tx e =
          ((DbContext.commit cfg (jobs i).faults.commit tx d).1, e) := fun e => by
        unfold DbContext.commit
        cases (jobs i).faults.commit with
        | some pg => rfl
        | none => simp only [Tx.commit_of_aborted (show tx.aborted = true from hp)]
      cases hr
      refine ⟨.inl rfl, by rw [hcommit], fun e => next_blocks.2 ?_⟩
      simp only [Phase.poll, hcommit e]
      exact ⟨_, rfl⟩
    | rollingBack e tx =>
      cases hr
      refine ⟨.inl rfl, DbContext.rollback_rows _ _ _ d, fun e => next_blocks.2 ?_⟩
      simp only [Phase.poll, DbContext.rollback_rows]
      exact ⟨_, rfl⟩
    | returned | dropped => cases hr
    | created => cases hp
  unsettled := by
    intro i p d p' d' hn hp'
    obtain ⟨ev, hr⟩ := next_blocks.1 hn
    cases p with
    | created =>
      simp only [Phase.poll] at hr
      split at hr
      · cases hr; rfl
      · split at hr <;> cases hr <;> rfl
    | awaiting c k n calls tx => cases hr; rfl
    | committing v tx => cases hr; exact absurd rfl hp'
    | rollingBack e tx => cases hr; exact absurd rfl hp'
    | returned | dropped => cases hr
  last := by
    intro i p d p' d' hn
    obtain ⟨ev, hr⟩ := next_blocks.1 hn
    cases p with
    | created =>
      simp only [Phase.poll] at hr
      split at hr
      · cases hr; exact .inl rfl
      · split at hr <;> cases hr <;> exact .inl rfl
    | awaiting c k n calls tx => cases hr; exact .inl rfl
    | committing v tx => cases hr; exact .inr (over_blocks.2 rfl)
    | rollingBack e tx => cases hr; exact .inr (over_blocks.2 rfl)
    | returned | dropped => cases hr
  gone := by
    intro i p hp
    cases p with
    | dropped => exact over_blocks.2 rfl
    | created | awaiting | committing | rollingBack | returned => cases hp
  ended := by
    intro i p h
    cases p with
    | returned => exact .inl rfl
    | dropped => exact .inr rfl
    | created | awaiting | committing | rollingBack => cases over_blocks.1 h
  apart := by
    intro p hs hp
    cases p with
    | dropped => cases hs
    | created | awaiting | committing | rollingBack | returned => cases hp
  start _ := by simp [blocks, Phase.settled]

theorem blocks_alone (cfg : Config) (jobs : ι → Job α) :
    (blocks cfg jobs).RunsAlone fun i d => (jobs i).runAlone cfg d where
  path i d := (steps_runAlone cfg (jobs i) d).lift id fun _ _ ⟨ev, hev⟩ => next_blocks.2 ⟨ev, hev⟩
  ended i d := over_blocks.2 (runAlone_over cfg (jobs i) d)

/-! ## What a block has read stays true -/

variable {items : ItemId → Prop}

/-- `d'` has the rows of `d` under the locked keys, and no new rows of the items. -/
structure Agrees (b : Backend) (items : ItemId → Prop) (locks : List Key) (d d' : Db) : Prop where
  held : ∀ k ∈ locks, d' k = d k
  absent : ∀ x, items x → d (b.inventoryKey x) = none → d' (b.inventoryKey x) = none

/-- **The frame of an open block.** It gets to where it is over every database that has the rows it has
locked. -/
theorem open_transfer (hd : Deployed cfg.catalog cfg.backend) (hj : (jobs i).KeepsTo (·.locking items))
    {p : Phase α} {d d' : Db} (h : (blocks cfg jobs).Open i d p) (hs : p.settled ≠ true) (hp : p.gone ≠ true)
    (hagree : ∀ tx, p.openTx = some tx → Agrees cfg.backend items tx.locks d d') :
    p.KeepsTo (·.locking items) ∧ (blocks cfg jobs).Open i d' p := by
  induction h with
  | start => exact ⟨trivial, .start⟩
  | @next p p' hopen hn ih =>
    obtain ⟨ev, hr⟩ := next_blocks.1 hn
    cases p with
    | created =>
      exact ⟨Phase.KeepsTo.poll hj (p := .created) trivial hr, .next .start (next_blocks.2 ⟨ev, (poll_created hr d').2⟩)⟩
    | awaiting c k n calls tx =>
      let r := callRepo cfg d tx ((jobs i).faults.stmt calls) c
      have hp' : p' = resume (calls + 1) r.2 ((k r.1).poll n) := by
        simp only [Phase.poll, Option.some.injEq, Prod.mk.injEq] at hr
        exact hr.2.1.symm
      rw [hp'] at hs hp hagree
      obtain ⟨hactive, hopenTx⟩ := resume_unsettled hs hp
      obtain ⟨ha, -, hlocks⟩ := callRepo_locks hactive
      have hnew := hagree _ hopenTx
      obtain ⟨hkeeps, hopen'⟩ := ih (by simp [Phase.settled, ha]) (by simp [Phase.gone]) fun tx' htx' => by
        cases htx'
        exact ⟨fun k hk => hnew.held k (hlocks k hk), hnew.absent⟩
      refine ⟨hkeeps.poll hj hr, .next hopen' (next_blocks.2 ⟨ev, ?_⟩)⟩
      -- the row of the call is locked, or it is there on neither side
      have hsees : tx.sees d (c.key cfg.backend) = tx.sees d' (c.key cfg.backend) := by
        rcases locking_call hd hkeeps.2.1 hactive with hmem | ⟨x, hx, hkey, hnone⟩
        · exact sees_congr (hnew.held _ hmem)
        · rw [hnone, hkey]
          rw [hkey] at hnone
          have hdnone := Sound.not_seen hnone
          have hw : tx.writes (cfg.backend.inventoryKey x) = none := by
            by_contra hw
            obtain ⟨row, hrow⟩ := Option.ne_none_iff_exists'.1 hw
            rw [Tx.sees, overlay_of_some hrow] at hnone
            cases hnone
          rw [Tx.sees, overlay_of_none hw, hnew.absent x hx hdnone]
      exact (poll_awaiting (callRepo_congr fun a hplan => by rw [hd.plan_key hplan]; exact hsees) hr).2
    | committing v tx | rollingBack e tx =>
      simp only [Phase.poll, Option.some.injEq, Prod.mk.injEq] at hr
      obtain ⟨-, rfl, -⟩ := hr
      exact absurd rfl hs
    | returned | dropped => cases hr

end

/-! ## Every run -/

namespace State

variable [DecidableEq ι] [Fintype ι] {cfg : Config} {jobs : ι → Job α} {items : ItemId → Prop} {db : Db}
  {ds : List ι} {s s' : State ι α}

/-- The blocks of `ds` have settled, in this order; and nobody has written a row for an item without one. -/
structure Ordered (cfg : Config) (jobs : ι → Job α) (items : ItemId → Prop) (db : Db) (ds : List ι)
    (s : State ι α) : Prop where
  sound : s.Sound
  keeps : ∀ i, (s.phase i).KeepsTo (·.locking items)
  absent : ∀ i tx, s.openTx i = some tx → ∀ x, items x → s.committed (cfg.backend.inventoryKey x) = none →
    tx.writes (cfg.backend.inventoryKey x) = none
  placed : (blocks cfg jobs).Placed (fun i d => (jobs i).runAlone cfg d) db ds s.phase s.committed

omit [DecidableEq ι] [Fintype ι] in
theorem ordered_init (cfg : Config) (jobs : ι → Job α) (items : ItemId → Prop) (db : Db) :
    Ordered cfg jobs items db [] (init db) where
  sound := sound_init db
  keeps _ := trivial
  absent _ _ h := by cases h
  placed := Parties.placed_start (blocks_lawful cfg jobs) _ db

/-- A committed row stays. -/
theorem step_rows {a : Action ι} (h : s.step cfg jobs a = some s') {k : Key} (hk : s'.committed k = none) :
    s.committed k = none := by
  have hstep := step_tx h
  generalize s'.openTx a.caller = o, s'.committed = d at hstep hk
  cases hstep with
  | keep | close | begin | call => exact hk
  | commit tx htx =>
    by_contra hne
    exact Tx.commit_ne_none hne hk

/-- An item without a row gets none. -/
theorem Ordered.row_absent (h : Ordered cfg jobs items db ds s) {a : Action ι} (hstep : s.step cfg jobs a = some s')
    {x : ItemId} (hx : items x) (hnone : s.committed (cfg.backend.inventoryKey x) = none) :
    s'.committed (cfg.backend.inventoryKey x) = none := by
  have htx := step_tx hstep
  generalize s'.openTx a.caller = o, s'.committed = d at htx
  cases htx with
  | keep | close | begin | call => exact hnone
  | commit tx htx => exact (Tx.commit_of_not_written (h.absent _ tx htx x hx hnone)).trans hnone

omit [DecidableEq ι] [Fintype ι] in
/-- The transaction that a poll leaves has no row for an item without one. -/
theorem Ordered.poll_absent (hd : Deployed cfg.catalog cfg.backend) (h : Ordered cfg jobs items db ds s) {i : ι}
    {ev : List (Event α)} {p' : Phase α} {db' : Db}
    (hr : (s.phase i).poll cfg (jobs i) s.committed = some (ev, p', db')) {tx : PgTx} (htx : p'.openTx = some tx)
    {x : ItemId} (hx : items x) (hnone : s.committed (cfg.backend.inventoryKey x) = none) :
    tx.writes (cfg.backend.inventoryKey x) = none := by
  have hopen : ∀ {calls tx' p}, p' = resume calls tx' p → tx = tx' := by
    rintro calls tx' p rfl
    rcases openTx_resume calls tx' p with ho | ho
    · rw [ho] at htx; exact (Option.some.inj htx).symm
    · rw [ho] at htx; cases htx
  cases hp : s.phase i with
  | created =>
    simp only [hp, Phase.poll] at hr
    split at hr
    · cases hr; cases htx
    · split at hr
      · cases hr; cases htx
      · simp only [Option.some.injEq, Prod.mk.injEq] at hr
        rw [hopen hr.2.1.symm]
        rfl
  | awaiting c k n calls tx₀ =>
    have hkeeps := h.keeps i
    rw [hp] at hr hkeeps
    simp only [Phase.poll, Option.some.injEq, Prod.mk.injEq] at hr
    rw [hopen hr.2.1.symm]
    exact locking_writes hd hkeeps.2.1 hx hnone (h.absent i tx₀ (by rw [openTx, hp]; rfl) x hx hnone)
  | committing v tx₀ => rw [hp] at hr; cases hr; cases htx
  | rollingBack e tx₀ => rw [hp] at hr; cases hr; cases htx
  | returned | dropped => rw [hp] at hr; cases hr

/-- **The step lemma.** An action settles no block, or its caller's, which comes last then. -/
theorem ordered_step (hd : Deployed cfg.catalog cfg.backend) (hjobs : ∀ i, (jobs i).KeepsTo (·.locking items))
    (h : Ordered cfg jobs items db ds s) {a : Action ι} (hstep : s.step cfg jobs a = some s') :
    ∃ es, Ordered cfg jobs items db (ds ++ es) s' := by
  have hsound := sound_step h.sound hstep
  have hkeeps := fun i => keepsTo_step (hjobs i) (h.keeps i) hstep
  have habsent : (∀ tx, s'.openTx a.caller = some tx → ∀ x, items x →
      s.committed (cfg.backend.inventoryKey x) = none → tx.writes (cfg.backend.inventoryKey x) = none) →
      ∀ i tx, s'.openTx i = some tx → ∀ x, items x → s'.committed (cfg.backend.inventoryKey x) = none →
        tx.writes (cfg.backend.inventoryKey x) = none := by
    intro hcaller i tx htx x hx hnone
    have hbefore := step_rows hstep hnone
    by_cases hi : i = a.caller
    · subst hi; exact hcaller tx htx x hx hbefore
    · rw [step_openTx_ne hstep hi] at htx
      exact h.absent i tx htx x hx hbefore
  obtain ⟨i, ⟨ev, p', db'⟩, rfl, -, hr, rfl⟩ | ⟨i, rfl, hl, rfl⟩ | ⟨i, act, ctx, q, rfl, hp, -, rfl⟩ :=
    step_cases hstep
  · obtain ⟨es, hplaced⟩ := h.placed.next (blocks_lawful cfg jobs) (blocks_alone cfg jobs)
      (next_blocks.2 ⟨ev, hr⟩) fun j hj hopen hs hg =>
        (open_transfer hd (hjobs j) hopen hs hg fun tx htx =>
          ⟨fun k hk => step_frame h.sound hstep hj htx hk, fun x hx hnone => h.row_absent hstep hx hnone⟩).2
    refine ⟨es, hsound, hkeeps, habsent fun tx htx x hx hnone => ?_, hplaced⟩
    rw [Action.caller, goto_openTx_self] at htx
    exact h.poll_absent hd hr htx hx hnone
  · refine ⟨[], ?_⟩
    rw [List.append_nil]
    have hgone : (blocks cfg jobs).gone (s.phase i).cancel := by
      show (s.phase i).cancel.gone = true
      cases s.phase i <;> rfl
    refine ⟨hsound, hkeeps, habsent fun tx htx => ?_, h.placed.leave hgone fun ho => ?_⟩
    · rw [Action.caller, goto_openTx_self, (h.keeps i).openTx_cancel] at htx
      cases htx
    · rw [over_blocks.1 ho] at hl
      cases hl
  · rw [(h.keeps i).escaped] at hp
    cases hp

/-- **The invariant of every run**, and of every moment of it: the order only grows at its end. -/
theorem ordered_run (hd : Deployed cfg.catalog cfg.backend) (hjobs : ∀ i, (jobs i).KeepsTo (·.locking items))
    {as : List (Action ι)} (h : run (step cfg jobs) (init db) as = some s) :
    ∃ ds, Ordered cfg jobs items db ds s ∧ ∀ before rest m, as = before ++ rest →
      run (step cfg jobs) (init db) before = some m → ∃ l₁ l₂, ds = l₁ ++ l₂ ∧ Ordered cfg jobs items db l₁ m := by
  refine run_history (fun as s => ∃ ds, Ordered cfg jobs items db ds s ∧ ∀ before rest m, as = before ++ rest →
    run (step cfg jobs) (init db) before = some m → ∃ l₁ l₂, ds = l₁ ++ l₂ ∧ Ordered cfg jobs items db l₁ m)
    ⟨[], ordered_init cfg jobs items db, fun before rest m has hm => ?_⟩ ?_ as h
  · obtain ⟨rfl, rfl⟩ := List.append_eq_nil_iff.1 has.symm
    cases hm
    exact ⟨[], [], rfl, ordered_init cfg jobs items db⟩
  · rintro as s a s' hrun ⟨ds, hds, hbefore⟩ hstep
    obtain ⟨es, hes⟩ := ordered_step hd hjobs hds hstep
    refine ⟨ds ++ es, hes, fun before rest m has hm => ?_⟩
    rcases List.eq_nil_or_concat rest with rfl | ⟨rest, b, rfl⟩
    · rw [List.append_nil] at has
      rw [← has, run_concat hrun hstep] at hm
      cases hm
      exact ⟨ds ++ es, [], (List.append_nil _).symm, hes⟩
    · rw [List.concat_eq_append, ← List.append_assoc] at has
      obtain ⟨l₁, l₂, rfl, hl₁⟩ := hbefore before rest m (List.append_inj' has rfl).1 hm
      exact ⟨l₁, l₂ ++ es, List.append_assoc _ _ _, hl₁⟩

omit [Fintype ι] in
/-- Jobs run one at a time, block by block. -/
theorem serial_after (db : Db) (order : List ι) :
    (serial cfg jobs (init db) order).committed = Parties.after (fun i d => (jobs i).runAlone cfg d) db order := by
  induction order using List.reverseRecOn with
  | nil => rfl
  | append_singleton order i ih => rw [serial_concat, goto_committed, ih, Parties.after_concat]

omit [Fintype ι] in
theorem serial_phase {order : List ι} (hn : order.Nodup) : ∀ before i rest, order = before ++ i :: rest →
    (serial cfg jobs (init db) order).phase i =
      ((jobs i).runAlone cfg (Parties.after (fun i d => (jobs i).runAlone cfg d) db before)).1 := by
  induction order using List.reverseRecOn with
  | nil => intro before i rest h; simp at h
  | append_singleton order j ih =>
    rw [← List.concat_eq_append, List.nodup_concat] at hn
    intro before i rest h
    rw [serial_concat]
    rcases List.eq_nil_or_concat rest with rfl | ⟨rest, k, rfl⟩
    · obtain ⟨rfl, hji⟩ := List.append_inj' h rfl
      cases hji
      rw [goto_phase_self, serial_after]
    · rw [List.concat_eq_append, ← List.cons_append, ← List.append_assoc] at h
      obtain ⟨rfl, -⟩ := List.append_inj' h rfl
      rw [goto_phase_ne _ _ _ fun e => hn.1 (by simp [← e])]
      exact ih hn.2 before i rest rfl

/-- A block that has returned has returned for good. -/
theorem returned_step {a : Action ι} {i : ι} {r : Except Error α} (h : s.phase i = .returned r none)
    (hstep : s.step cfg jobs a = some s') : s'.phase i = .returned r none := by
  by_cases hi : i = a.caller
  · obtain ⟨j, x, rfl, -, hr, -⟩ | ⟨j, rfl, hl, -⟩ | ⟨j, act, ctx, q, rfl, hp, -⟩ := step_cases hstep
    · obtain rfl : i = j := hi
      rw [h] at hr; cases hr
    · obtain rfl : i = j := hi
      rw [h] at hl; cases hl
    · obtain rfl : i = j := hi
      rw [h] at hp; cases hp
  · rw [step_phase_ne hstep hi, h]

theorem returned_run {as : List (Action ι)} {i : ι} {r : Except Error α} (h : s.phase i = .returned r none)
    (hrun : run (step cfg jobs) s as = some s') : s'.phase i = .returned r none :=
  run_inv (fun s => s.phase i = .returned r none) (fun _ _ _ hs hstep => returned_step hs hstep) as h hrun

omit [DecidableEq ι] [Fintype ι] in
/-- Nobody keeps a context: who has returned has returned for good. -/
theorem Ordered.returned (h : Ordered cfg jobs items db ds s) (i : ι) :
    (s.phase i).hasReturned = true ↔ ∃ r, s.phase i = .returned r none := by
  have hk := h.keeps i
  cases hp : s.phase i with
  | returned r escaped =>
    rw [hp] at hk
    obtain rfl : escaped = none := hk
    simp [Phase.hasReturned]
  | created | awaiting | committing | rollingBack | dropped => simp [Phase.hasReturned]

omit [DecidableEq ι] [Fintype ι] in
/-- The blocks that have returned, in the order in which all have settled. -/
theorem Ordered.mem_returned (h : Ordered cfg jobs items db ds s) (i : ι) :
    i ∈ ds.filter (fun i => (s.phase i).hasReturned) ↔ ∃ r, s.phase i = .returned r none := by
  rw [List.mem_filter, h.returned]
  exact ⟨And.right, fun ⟨r, hr⟩ => ⟨h.placed.mem (blocks_lawful cfg jobs) (by rw [hr]; rfl), r, hr⟩⟩

omit [DecidableEq ι] [Fintype ι] in
/-- Run alone in this order, they leave the committed rows, and each returns what it has returned. -/
theorem Ordered.alone (h : Ordered cfg jobs items db ds s) :
    Parties.after (fun i d => (jobs i).runAlone cfg d) db (ds.filter fun i => (s.phase i).hasReturned) =
        s.committed ∧
      ∀ i ∈ ds.filter (fun i => (s.phase i).hasReturned), ∃ before rest,
        ds.filter (fun i => (s.phase i).hasReturned) = before ++ i :: rest ∧
          ((jobs i).runAlone cfg (Parties.after (fun i d => (jobs i).runAlone cfg d) db before)).1 = s.phase i := by
  have hover : ∀ i, (s.phase i).hasReturned = true ↔
      (blocks cfg jobs).Over i (s.phase i) ∧ ¬ (blocks cfg jobs).gone (s.phase i) := by
    intro i
    rw [over_blocks]
    simp only [blocks]
    cases s.phase i <;> simp [Phase.hasReturned, Phase.live, Phase.gone]
  obtain ⟨hstore, hplace⟩ := h.placed.serial (blocks_lawful cfg jobs) (blocks_alone cfg jobs) hover
  refine ⟨hstore, fun i hi => ?_⟩
  obtain ⟨hmem, hk⟩ := List.mem_filter.1 hi
  exact hplace i hmem hk

/-- **Strict serializability of locking blocks.** In every run, of any number of blocks that make only
locking calls and let go of their contexts, and however far it has come: the blocks that have returned,
run one at a time in some order, return the same and leave the same rows; and in that order a block that
had returned before another was first polled comes before it. -/
theorem locking_blocks_serializable (hd : Deployed cfg.catalog cfg.backend)
    (hjobs : ∀ i, (jobs i).KeepsTo (·.locking items)) {as : List (Action ι)}
    (h : run (step cfg jobs) (init db) as = some s) :
    ∃ order : List ι, order.Nodup ∧ (∀ i, i ∈ order ↔ ∃ r, s.phase i = .returned r none) ∧
      (serial cfg jobs (init db) order).committed = s.committed ∧
      (∀ i ∈ order, (serial cfg jobs (init db) order).phase i = s.phase i) ∧
      ∀ before rest m, as = before ++ rest → run (step cfg jobs) (init db) before = some m →
        ∃ l₁ l₂, order = l₁ ++ l₂ ∧ (∀ i r, m.phase i = .returned r none → i ∈ l₁) ∧
          ∀ i, m.phase i = .created → i ∉ l₁ := by
  obtain ⟨ds, hds, hbefore⟩ := ordered_run hd hjobs h
  obtain ⟨hstore, hplace⟩ := hds.alone
  have hnodup : (ds.filter fun i => (s.phase i).hasReturned).Nodup := hds.placed.nodup.filter _
  refine ⟨_, hnodup, hds.mem_returned, ?_, fun i hi => ?_, fun before rest m has hm => ?_⟩
  · rw [serial_after, hstore]
  · obtain ⟨l₁, l₂, hl, hphase⟩ := hplace i hi
    rw [serial_phase hnodup l₁ i l₂ hl, hphase]
  · obtain ⟨l₁, l₂, rfl, hl₁⟩ := hbefore before rest m has hm
    have hlawful := blocks_lawful cfg jobs
    refine ⟨l₁.filter _, l₂.filter _, List.filter_append _ _, fun i r hr => ?_, fun i hc hi => ?_⟩
    · refine List.mem_filter.2 ⟨hl₁.placed.mem hlawful (by rw [hr]; rfl), (hds.returned i).2 ⟨r, ?_⟩⟩
      rw [has, run_append, hm] at h
      exact returned_run hr h
    · obtain ⟨_, _, -, hcame⟩ := hl₁.placed.came (List.mem_filter.1 hi).1
      rw [hc] at hcame
      cases hcame with
      | settled hx => cases hx
      | gone hx => cases hx

end State

/-! ## `create_order` -/

theorem makes_decreased {ok : RepoCall → Prop} (p : BuildProfile) (inventory : Inventory)
    (amount : InventoryQuantity) : (decreased p inventory amount).Makes ok := by
  unfold decreased
  split <;> trivial

/-- `create_order` reads its row FOR UPDATE and creates no inventory. -/
theorem createOrderBody_makes (p : BuildProfile) (order : Order) :
    (createOrderBody p order).Makes (·.locking fun _ => True) := by
  refine (Closure.makes_await trivial).bind fun found => ?_
  refine Closure.Makes.bind (by cases found <;> trivial) fun inventory => ?_
  refine Closure.Makes.bind trivial fun amount => ?_
  refine (makes_decreased p inventory amount).bind fun inventory' => ?_
  refine (Closure.makes_await trivial).bind fun _ => ?_
  exact Closure.makes_await trivial

theorem createOrder_keepsTo (p : BuildProfile) (call : CreateOrderCall) :
    (createOrder p call).KeepsTo (·.locking fun _ => True) := by
  intro f hf
  by_cases hpos : 0 < call.qty.toInt
  · rw [start_createOrder_of_pos hpos] at hf
    cases hf
    exact (createOrderBody_makes p _).moved
  · rw [start_createOrder_of_nonpos (Int.not_lt.1 hpos)] at hf
    cases hf

/-- Two calls for one item, the second served first. -/
theorem locking_blocks_serializable_rivals : ∃ order : List (Fin 2), order.Nodup ∧
    (∀ i, i ∈ order ↔ ∃ r, (Option.get _ rivalry_runs).phase i = .returned r none) ∧
    (State.serial (Makefile.config .sqlx) (createOrders (Makefile.config .sqlx) rivals)
      (.init (stocked.store .sqlx)) order).committed = (Option.get _ rivalry_runs).committed := by
  obtain ⟨order, hn, hmem, hdb, -⟩ := State.locking_blocks_serializable (Makefile.deployed .sqlx)
    (fun i => createOrder_keepsTo _ (rivals i)) (Option.some_get rivalry_runs).symm
  exact ⟨order, hn, hmem, hdb⟩

end TransactionManager
