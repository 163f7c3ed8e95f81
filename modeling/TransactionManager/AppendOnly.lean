import TransactionManager.Locking
import TransactionManager.RoundTrip
/-
# Rows are created once, and stay

The repositories insert rows, update the quantity of an inventory row, and delete nothing. So whatever
blocks run and however their steps interleave, contexts that escape included: no committed row goes away
and no committed order changes (`committed_stays`), and no two blocks that go well have created the same
row (`rows_created_once`).
-/

namespace TransactionManager

open RowStore Run

/-- The row that the call has created. -/
def Exchange.created (b : Backend) : Exchange → Option Key
  | ⟨.createInventory inventory, .ok _⟩ => some (b.inventoryKey inventory.itemId)
  | ⟨.createOrder order, .ok _⟩ => some (b.orderKey order.id)
  | _ => none

/-- The rows that the calls have created, in their order. -/
def createdRows (b : Backend) (xs : List Exchange) : List Key := xs.filterMap (Exchange.created b)

theorem createdRows_append (b : Backend) (xs ys : List Exchange) :
    createdRows b (xs ++ ys) = createdRows b xs ++ createdRows b ys := List.filterMap_append

/-! ## What a call does to the rows it has created -/

section
variable {cfg : Config} {db : Db} {tx tx' : PgTx} {c : RepoCall} {r : Except Error c.Reply} {k : Key}

/-- A creation answers `Ok` where the transaction has seen no row, and leaves a pending one. -/
theorem CallStep.creates (h : CallStep cfg db tx c r tx') (hk : Exchange.created cfg.backend ⟨c, r⟩ = some k) :
    tx.sees db k = none ∧ tx'.writes k ≠ none := by
  cases h with
  | failed c e => cases c <;> cases hk
  | refused c ha => cases c <;> cases hk
  | read c r ha hw =>
    cases c with
    | createInventory | createOrder => cases hw
    | findByItemIdForUpdate | findByItemId | updateInventory | findOrderById => cases r <;> cases hk
  | lockedRead c r j ha hw =>
    cases c with
    | createInventory | createOrder => cases hw
    | findByItemIdForUpdate | findByItemId | updateInventory | findOrderById => cases r <;> cases hk
  | inserted c v j row ha hw hs =>
    have hkey : j = k := by
      cases c with
      | createInventory inventory | createOrder order => cases hw; exact Option.some.inj hk
      | findByItemIdForUpdate | findByItemId | updateInventory | findOrderById => cases hk
    subst hkey
    exact ⟨hs, by simp⟩
  | updated inventory q ha hs => cases hk
  | missed inventory ha hs => cases hm : cfg.backend.missedUpdate inventory <;> rw [hm] at hk <;> cases hk

/-- A pending row stays pending unless the transaction is aborted. -/
theorem CallStep.pending (h : CallStep cfg db tx c r tx') (ha : tx'.aborted = false) (hw : tx.writes k ≠ none) :
    tx'.writes k ≠ none := by
  rcases h.writes with he | ⟨hab, -⟩ | ⟨j, row, -, he⟩
  · rw [he]; exact hw
  · rw [ha] at hab; cases hab
  · rw [he]
    by_cases hj : k = j
    · subst hj; simp
    · rw [put_ne _ hj]; exact hw

/-- What holds of the calls of a block and its transaction: no row created twice, and those created pending. -/
structure CreatedOnce (b : Backend) (xs : List Exchange) (tx : PgTx) : Prop where
  active : (∀ x ∈ xs, x.2.isOk = true) → tx.aborted = false
  nodup : (createdRows b xs).Nodup
  pending : tx.aborted = false → ∀ k ∈ createdRows b xs, tx.writes k ≠ none

theorem createdOnce_fresh (b : Backend) : CreatedOnce b [] .fresh :=
  ⟨fun _ => rfl, List.nodup_nil, fun _ _ hk => absurd hk List.not_mem_nil⟩

theorem CreatedOnce.step {xs : List Exchange} (h : CreatedOnce cfg.backend xs tx) (hc : CallStep cfg db tx c r tx') :
    CreatedOnce cfg.backend (xs ++ [⟨c, r⟩]) tx' := by
  have hkept : tx'.aborted = false → ∀ k ∈ createdRows cfg.backend xs, tx'.writes k ≠ none := fun ha k hk =>
    hc.pending ha (h.pending (hc.was_active ha) k hk)
  have hactive : (∀ x ∈ xs ++ [(⟨c, r⟩ : Exchange)], x.2.isOk = true) → tx'.aborted = false := by
    intro hok
    cases r with
    | ok v => exact hc.active
    | error e =>
      have := hok ⟨c, .error e⟩ (by simp)
      cases this
  cases hnew : Exchange.created cfg.backend ⟨c, r⟩ with
  | none =>
    have hrows : createdRows cfg.backend (xs ++ [⟨c, r⟩]) = createdRows cfg.backend xs := by
      rw [createdRows_append]
      simp [createdRows, hnew]
    exact ⟨hactive, hrows ▸ h.nodup, fun ha => hrows ▸ hkept ha⟩
  | some k =>
    have hrows : createdRows cfg.backend (xs ++ [⟨c, r⟩]) = createdRows cfg.backend xs ++ [k] := by
      rw [createdRows_append]
      simp [createdRows, hnew]
    obtain ⟨hunseen, hpending⟩ := hc.creates hnew
    have hact : tx'.aborted = false := by
      cases r with
      | ok v => exact hc.active
      | error e => cases c <;> cases hnew
    have hfresh : k ∉ createdRows cfg.backend xs := fun hmem =>
      h.pending (hc.was_active hact) k hmem (writes_of_not_seen hunseen)
    refine ⟨hactive, ?_, fun ha j hj => ?_⟩
    · rw [hrows]
      exact List.nodup_append.2 ⟨h.nodup, List.nodup_singleton k, fun a ha b hb e => by
        cases List.mem_singleton.1 hb
        exact hfresh (e ▸ ha)⟩
    · rw [hrows] at hj
      rcases List.mem_append.1 hj with hj | hj
      · exact hkept ha j hj
      · cases List.mem_singleton.1 hj
        exact hpending

end

/-! ## Committed rows -/

namespace State

variable {ι α : Type} [DecidableEq ι] [Fintype ι] {cfg : Config} {jobs : ι → Job α} {s s' : State ι α} {t₀ : Tables}

/-- Rows are typed, locks exclude each other, and nobody has written under the id of a committed order. -/
structure Regular (cfg : Config) (s : State ι α) : Prop where
  sound : s.Sound
  typed : s.Typed cfg
  newOrders : ∀ i tx, s.openTx i = some tx → ∀ id, tx.writes (cfg.backend.orderKey id) ≠ none →
    s.committed (cfg.backend.orderKey id) = none

omit [DecidableEq ι] [Fintype ι] in
theorem regular_init (cfg : Config) (t₀ : Tables) : (init (t₀.store cfg.backend) : State ι α).Regular cfg where
  sound := sound_init _
  typed := ⟨Tables.typed_store _ _, fun _ _ htx => by cases htx⟩
  newOrders _ _ htx := by cases htx

/-- What is committed under the id of an order stays. -/
theorem order_stays {cfg : Config} (h : s.Regular cfg) {a : Action ι} (hstep : s.step cfg jobs a = some s')
    {id : OrderId} {row : Row} (hrow : s.committed (cfg.backend.orderKey id) = some row) :
    s'.committed (cfg.backend.orderKey id) = some row := by
  have hstep' := step_tx hstep
  generalize s'.openTx a.caller = o, s'.committed = db at hstep'
  cases hstep' with
  | keep | close | begin | call => exact hrow
  | commit tx htx =>
    have hw : tx.writes (cfg.backend.orderKey id) = none := by
      by_contra hw
      rw [h.newOrders _ tx htx id hw] at hrow
      cases hrow
    exact (Tx.commit_of_not_written hw).trans hrow

theorem regular_step (hd : Deployed cfg.catalog cfg.backend) (h : s.Regular cfg) {a : Action ι}
    (hstep : s.step cfg jobs a = some s') : s'.Regular cfg := by
  refine ⟨sound_step h.sound hstep, typed_step hd h.typed hstep, fun i tx htx id hw => ?_⟩
  by_cases hi : i = a.caller
  · subst hi
    have hstep' := step_tx hstep
    rw [htx] at hstep'
    generalize ho : some tx = o at hstep'
    generalize s'.committed = db at hstep'
    cases hstep' with
    | keep => exact h.newOrders _ tx ho.symm id hw
    | close | commit => cases ho
    | begin => cases ho; exact absurd rfl hw
    | call tx₀ fault c htx₀ _ =>
      cases ho
      by_cases hs : tx₀.sees s.committed (cfg.backend.orderKey id) = none
      · exact Sound.not_seen hs
      · rcases (call_step hd (h.typed.sees htx₀) fault c).order_kept id hs with he | ⟨-, hnone⟩
        · exact h.newOrders _ tx₀ htx₀ id (he ▸ hw)
        · exact absurd hnone hw
  · -- the row is locked by `i`, so the action leaves it alone
    rw [step_openTx_ne hstep hi] at htx
    rw [step_frame h.sound hstep hi htx (h.sound.writesLocked i tx htx _ hw)]
    exact h.newOrders i tx htx id hw

theorem regular_run (hd : Deployed cfg.catalog cfg.backend) (h : s.Regular cfg) {as : List (Action ι)}
    (hrun : run (step cfg jobs) s as = some s') : s'.Regular cfg :=
  run_inv _ (fun _ _ _ hs hstep => regular_step hd hs hstep) as h hrun

/-- **Nothing is deleted, and no order is changed**, in any run from here. -/
theorem committed_stays (hd : Deployed cfg.catalog cfg.backend) (h : s.Regular cfg) {as : List (Action ι)}
    (hrun : run (step cfg jobs) s as = some s') :
    (∀ k, s.committed k ≠ none → s'.committed k ≠ none) ∧
      ∀ id row, s.committed (cfg.backend.orderKey id) = some row → s'.committed (cfg.backend.orderKey id) = some row := by
  refine (run_inv (fun m => m.Regular cfg ∧ (∀ k, s.committed k ≠ none → m.committed k ≠ none) ∧
    ∀ id row, s.committed (cfg.backend.orderKey id) = some row → m.committed (cfg.backend.orderKey id) = some row)
    ?_ as ⟨h, fun _ hk => hk, fun _ _ hrow => hrow⟩ hrun).2
  rintro m a m' ⟨hm, hrows, horders⟩ hstep
  exact ⟨regular_step hd hm hstep, fun k hk hnone => hrows k hk (step_rows hstep hnone),
    fun id row hrow => order_stays hm hstep (horders id row hrow)⟩

/-! ## Blocks that go well -/

omit [DecidableEq ι] [Fintype ι] in
/-- Every call of the block has been answered `Ok`, and the block is going on or has returned `Ok`. -/
def GoesWell (xs : List Exchange) (p : Phase α) : Prop :=
  (∀ x ∈ xs, x.2.isOk = true) ∧ (p.live = true ∨ ∃ v escaped, p = .returned (.ok v) escaped)

section
variable (hd : Deployed cfg.catalog cfg.backend) {as : List (Action ι)}
include hd

theorem createdOnce_run (h : run (step cfg jobs) (init (t₀.store cfg.backend)) as = some s) (i : ι)
    (hlive : (s.phase i).live = true) {tx : PgTx} (htx : s.openTx i = some tx) :
    CreatedOnce cfg.backend (callsOf cfg jobs (t₀.store cfg.backend) as i) tx :=
  calls_run hd (CreatedOnce cfg.backend) (createdOnce_fresh _) (fun _ _ _ _ _ _ hx hc => hx.step hc) h i hlive tx htx

omit hd in
/-- At some moment of the run `i` has committed, and it has made no call since. -/
def Committed (cfg : Config) (jobs : ι → Job α) (db : Db) (as : List (Action ι)) (s : State ι α) (i : ι) : Prop :=
  ∃ before rest m m' tx, as = before ++ .poll i :: rest ∧ run (step cfg jobs) (init db) before = some m ∧
    (m.phase i).live = true ∧ m.openTx i = some tx ∧ m.step cfg jobs (.poll i) = some m' ∧
    m'.committed = tx.commit m.committed ∧ run (step cfg jobs) m' rest = some s ∧
    callsOf cfg jobs db as i = callsOf cfg jobs db before i

omit hd in
/-- A block that has returned `Ok` has committed. -/
theorem committed_of_ok (h : run (step cfg jobs) (init (t₀.store cfg.backend)) as = some s) {i : ι} {v : α}
    {escaped : Option Context} (hok : s.phase i = .returned (.ok v) escaped) :
    Committed cfg jobs (t₀.store cfg.backend) as s i := by
  refine run_history (fun as s => ∀ v escaped, s.phase i = .returned (.ok v) escaped →
    Committed cfg jobs (t₀.store cfg.backend) as s i) (fun v escaped hp => by cases hp) ?_ as h v escaped hok
  intro as s a s' hrun ih hstep v escaped hp
  have hcalls := callsOf_concat hrun hstep i
  have hlater : ∀ v' escaped', s.phase i = .returned (.ok v') escaped' →
      Committed cfg jobs (t₀.store cfg.backend) (as ++ [a]) s' i := by
    intro v' escaped' hp'
    obtain ⟨before, rest, m, m', tx, has, hm, hlive, hopen, hcommit, hdb, hrest, heq⟩ := ih v' escaped' hp'
    refine ⟨before, rest ++ [a], m, m', tx, by rw [has]; simp, hm, hlive, hopen, hcommit, hdb, run_concat hrest hstep, ?_⟩
    rcases hcalls with ⟨hsame, -⟩ | ⟨c, kont, n, calls, tx₀, fault, r, tx', hawait, -⟩
    · rw [hsame, heq]
    · rw [hp'] at hawait
      cases hawait
  by_cases hi : i = a.caller
  · obtain ⟨j, x, rfl, -, hr, -⟩ | ⟨j, rfl, -, rfl⟩ | ⟨j, act, ctx, q, rfl, hescaped, -, rfl⟩ := step_cases hstep
    · obtain rfl : i = j := hi
      obtain ⟨tx, hcommitting, rfl⟩ := step_ok hstep hp
      refine ⟨as, [], s, _, tx, rfl, hrun, by rw [hcommitting]; rfl, by rw [openTx, hcommitting]; rfl, hstep, rfl, rfl, ?_⟩
      rcases hcalls with ⟨hsame, -⟩ | ⟨c, kont, n, calls, tx₀, fault, r, tx', hawait, -⟩
      · exact hsame
      · rw [hcommitting] at hawait
        cases hawait
    · obtain rfl : i = j := hi
      rw [goto_phase_self] at hp
      exact absurd hp (cancel_ne_returned _ _ _)
    · obtain rfl : i = j := hi
      rw [goto_phase_self] at hp
      exact hlater v _ (of_leave hescaped hp)
  · rw [step_phase_ne hstep hi] at hp
    exact hlater v escaped hp

/-- **What a block that has returned `Ok` has created is there**, if all its calls succeeded. -/
theorem created_stays (h : run (step cfg jobs) (init (t₀.store cfg.backend)) as = some s) {i : ι} {v : α}
    {escaped : Option Context} (hok : s.phase i = .returned (.ok v) escaped)
    (hcalls : ∀ x ∈ callsOf cfg jobs (t₀.store cfg.backend) as i, x.2.isOk = true) {k : Key}
    (hk : k ∈ createdRows cfg.backend (callsOf cfg jobs (t₀.store cfg.backend) as i)) : s.committed k ≠ none := by
  obtain ⟨before, rest, m, m', tx, -, hm, hlive, hopen, hstep, hdb, hrest, heq⟩ := committed_of_ok h hok
  rw [heq] at hcalls hk
  have hcreated := createdOnce_run hd hm i hlive hopen
  have hact := hcreated.active hcalls
  obtain ⟨row, hrow⟩ := Option.ne_none_iff_exists'.1 (hcreated.pending hact k hk)
  have hreg := regular_run hd (regular_init cfg t₀) (run_concat hm hstep)
  refine (committed_stays hd hreg hrest).1 k ?_
  rw [hdb, Tx.commit_of_active hact, Tx.sees, overlay_of_some hrow]
  simp

/-- A row that a block has created was not there at first. -/
theorem created_new (h : run (step cfg jobs) (init (t₀.store cfg.backend)) as = some s) (i : ι) :
    ∀ k ∈ createdRows cfg.backend (callsOf cfg jobs (t₀.store cfg.backend) as i), t₀.store cfg.backend k = none := by
  refine run_history (fun as s => ∀ k ∈ createdRows cfg.backend (callsOf cfg jobs (t₀.store cfg.backend) as i),
    t₀.store cfg.backend k = none) (fun k hk => absurd hk List.not_mem_nil) ?_ as h
  intro as s a s' hrun ih hstep k hk
  rcases callsOf_concat hrun hstep i with ⟨hsame, -⟩ | ⟨c, kont, n, calls, tx, fault, r, tx', hawait, -, hcall, -, -, hnew⟩
  · exact ih k (hsame ▸ hk)
  · rw [hnew, createdRows_append, List.mem_append] at hk
    rcases hk with hk | hk
    · exact ih k hk
    · obtain ⟨x, hx, hcreated⟩ := List.mem_filterMap.1 hk
      cases List.mem_singleton.1 hx
      by_contra hthere
      have hfree := Sound.not_seen ((call_at hd hrun hawait hcall).creates hcreated).1
      exact (committed_stays hd (regular_init cfg t₀) hrun).1 k hthere hfree

omit [DecidableEq ι] [Fintype ι] in
omit hd in
/-- A live block that has made a call has its transaction. -/
theorem open_of_live {p : Phase α} (hlive : p.live = true) (hp : p ≠ .created) : ∃ tx, p.openTx = some tx := by
  cases p with
  | created => exact absurd rfl hp
  | awaiting | committing | rollingBack => exact ⟨_, rfl⟩
  | returned | dropped => cases hlive

/-- A block that goes well and has created the row has written or committed it. -/
theorem created_here (h : run (step cfg jobs) (init (t₀.store cfg.backend)) as = some s) {i : ι} {k : Key}
    (hwell : GoesWell (callsOf cfg jobs (t₀.store cfg.backend) as i) (s.phase i))
    (hk : k ∈ createdRows cfg.backend (callsOf cfg jobs (t₀.store cfg.backend) as i)) :
    (∃ tx, s.openTx i = some tx ∧ tx.writes k ≠ none) ∨ s.committed k ≠ none := by
  obtain ⟨hcalls, hlive | ⟨v, escaped, hok⟩⟩ := hwell
  · have hne : s.phase i ≠ .created := by
      intro hp
      have hnil : callsOf cfg jobs (t₀.store cfg.backend) as i = [] := (hp ▸ history_run h i).exchanges_created
      rw [hnil] at hk
      exact absurd hk List.not_mem_nil
    obtain ⟨tx, htx⟩ := open_of_live hlive hne
    have hcreated := createdOnce_run hd h i hlive htx
    exact .inl ⟨tx, htx, hcreated.pending (hcreated.active hcalls) k hk⟩
  · exact .inr (created_stays hd h hok hcalls hk)

omit hd in
/-- Whoever goes well has gone well before. -/
theorem GoesWell.before {a : Action ι} (hstep : s.step cfg jobs a = some s') {i : ι} (hi : i = a.caller)
    {xs ys : List Exchange} (h : GoesWell (xs ++ ys) (s'.phase i)) : GoesWell xs (s.phase i) := by
  obtain ⟨hcalls, hphase⟩ := h
  refine ⟨fun x hx => hcalls x (List.mem_append_left ys hx), ?_⟩
  obtain ⟨j, r, rfl, -, hr, -⟩ | ⟨j, rfl, hl, -⟩ | ⟨j, act, ctx, q, rfl, hp, -, rfl⟩ := step_cases hstep
  · obtain rfl : i = j := hi
    refine .inl ?_
    cases hp : s.phase i with
    | created | awaiting | committing | rollingBack => rfl
    | returned | dropped => rw [hp] at hr; cases hr
  · obtain rfl : i = j := hi
    exact .inl hl
  · obtain rfl : i = j := hi
    rw [goto_phase_self] at hphase
    obtain hlive | ⟨v, escaped, hok⟩ := hphase
    · rw [leave_live, live_escaped hp] at hlive
      cases hlive
    · exact .inr ⟨v, some ctx, of_leave hp hok⟩

/-- No two blocks that go well have created the same row. -/
theorem created_apart (h : run (step cfg jobs) (init (t₀.store cfg.backend)) as = some s) :
    ∀ i j, i ≠ j → GoesWell (callsOf cfg jobs (t₀.store cfg.backend) as i) (s.phase i) →
      GoesWell (callsOf cfg jobs (t₀.store cfg.backend) as j) (s.phase j) →
      ∀ k ∈ createdRows cfg.backend (callsOf cfg jobs (t₀.store cfg.backend) as i),
        k ∉ createdRows cfg.backend (callsOf cfg jobs (t₀.store cfg.backend) as j) := by
  refine run_history (fun as s => ∀ i j, i ≠ j → GoesWell (callsOf cfg jobs (t₀.store cfg.backend) as i) (s.phase i) →
    GoesWell (callsOf cfg jobs (t₀.store cfg.backend) as j) (s.phase j) →
    ∀ k ∈ createdRows cfg.backend (callsOf cfg jobs (t₀.store cfg.backend) as i),
      k ∉ createdRows cfg.backend (callsOf cfg jobs (t₀.store cfg.backend) as j))
    (fun _ _ _ _ _ k hk => absurd hk List.not_mem_nil) ?_ as h
  intro as s a s' hrun ih hstep
  have hrun' := run_concat hrun hstep
  -- one of the two is the caller, or neither is and nothing has changed for them
  have hidle : ∀ j, j ≠ a.caller →
      callsOf cfg jobs (t₀.store cfg.backend) (as ++ [a]) j = callsOf cfg jobs (t₀.store cfg.backend) as j :=
    fun j hj => callsOf_other hrun hstep hj
  have hcaller : ∀ i j, i = a.caller → j ≠ i →
      GoesWell (callsOf cfg jobs (t₀.store cfg.backend) (as ++ [a]) i) (s'.phase i) →
      GoesWell (callsOf cfg jobs (t₀.store cfg.backend) as j) (s.phase j) →
      ∀ k ∈ createdRows cfg.backend (callsOf cfg jobs (t₀.store cfg.backend) (as ++ [a]) i),
        k ∉ createdRows cfg.backend (callsOf cfg jobs (t₀.store cfg.backend) as j) := by
    intro i j hi hj hwell hwell' k hk hk'
    rcases callsOf_concat hrun hstep i with ⟨hsame, -⟩ | ⟨c, kont, n, calls, tx, fault, r, tx', hawait, -, hcall, hdb, -, hnew⟩
    · rw [hsame] at hwell hk
      rw [← List.append_nil (callsOf cfg jobs (t₀.store cfg.backend) as i)] at hwell
      exact ih i j (Ne.symm hj) (hwell.before hstep hi) hwell' k hk hk'
    · rcases List.mem_append.1 ((createdRows_append cfg.backend _ _) ▸ hnew ▸ hk) with hk | hkey
      · exact ih i j (Ne.symm hj) (GoesWell.before hstep hi (hnew ▸ hwell)) hwell' k hk hk'
      · obtain ⟨x, hx, hcreated⟩ := List.mem_filterMap.1 hkey
        cases List.mem_singleton.1 hx
        have hnone := Sound.not_seen ((call_at hd hrun hawait hcall).creates hcreated).1
        rcases created_here hd hrun hwell' hk' with ⟨tx₁, htx₁, hw₁⟩ | hthere
        · rcases created_here hd hrun' hwell hk with ⟨tx₂, htx₂, hw₂⟩ | hthere
          · have hsound := sound_run hrun'
            rw [← step_openTx_ne hstep (hi ▸ hj)] at htx₁
            exact hsound.exclusive i j tx₂ tx₁ (Ne.symm hj) htx₂ htx₁ k (hsound.writesLocked i tx₂ htx₂ k hw₂)
              (hsound.writesLocked j tx₁ htx₁ k hw₁)
          · exact hthere (hdb ▸ hnone)
        · exact hthere hnone
  intro i j hij hwell hwell' k hk hk'
  by_cases hi : i = a.caller
  · rw [hidle j (hi ▸ Ne.symm hij), step_phase_ne hstep (hi ▸ Ne.symm hij)] at hwell'
    rw [hidle j (hi ▸ Ne.symm hij)] at hk'
    exact hcaller i j hi (Ne.symm hij) hwell hwell' k hk hk'
  · rw [hidle i hi, step_phase_ne hstep hi] at hwell
    rw [hidle i hi] at hk
    by_cases hj : j = a.caller
    · exact hcaller j i hj hij hwell' hwell k hk' hk
    · rw [hidle j hj, step_phase_ne hstep hj] at hwell'
      rw [hidle j hj] at hk'
      exact ih i j hij hwell hwell' k hk hk'

/-- An order that a block has created is committed as it is, once the block has returned `Ok`. -/
theorem created_order_stays (h : run (step cfg jobs) (init (t₀.store cfg.backend)) as = some s) {i : ι} {v : α}
    {escaped : Option Context} (hok : s.phase i = .returned (.ok v) escaped)
    (hcalls : ∀ x ∈ callsOf cfg jobs (t₀.store cfg.backend) as i, x.2.isOk = true) {order r : Order}
    (horder : ⟨.createOrder order, .ok r⟩ ∈ callsOf cfg jobs (t₀.store cfg.backend) as i) :
    s.committed (cfg.backend.orderKey order.id) = some order.row := by
  obtain ⟨before, rest, m, m', tx, -, hm, hlive, hopen, hstep, hdb, hrest, heq⟩ := committed_of_ok h hok
  rw [heq] at hcalls horder
  have hact := (createdOnce_run hd hm i hlive hopen).active hcalls
  have hinserted : Inserted cfg.backend (callsOf cfg jobs (t₀.store cfg.backend) before i) tx :=
    calls_run hd (Inserted cfg.backend) (fun _ _ _ hmem => absurd hmem List.not_mem_nil)
      (fun _ _ _ _ _ _ hx hc => hx.step hc) hm i hlive tx hopen
  have hreg := regular_run hd (regular_init cfg t₀) (run_concat hm hstep)
  refine (committed_stays hd hreg hrest).2 order.id order.row ?_
  rw [hdb, Tx.commit_of_active hact, Tx.sees, overlay_of_some (hinserted hact order r horder)]

theorem created_nodup (h : run (step cfg jobs) (init (t₀.store cfg.backend)) as = some s) {i : ι}
    (hwell : GoesWell (callsOf cfg jobs (t₀.store cfg.backend) as i) (s.phase i)) :
    (createdRows cfg.backend (callsOf cfg jobs (t₀.store cfg.backend) as i)).Nodup := by
  obtain ⟨-, hlive | ⟨v, escaped, hok⟩⟩ := hwell
  · by_cases hp : s.phase i = .created
    · have hnil : callsOf cfg jobs (t₀.store cfg.backend) as i = [] := (hp ▸ history_run h i).exchanges_created
      rw [hnil]
      exact List.nodup_nil
    · obtain ⟨tx, htx⟩ := open_of_live hlive hp
      exact (createdOnce_run hd h i hlive htx).nodup
  · obtain ⟨before, rest, m, m', tx, -, hm, hlive, hopen, -, -, -, heq⟩ := committed_of_ok h hok
    rw [heq]
    exact (createdOnce_run hd hm i hlive hopen).nodup

omit hd in
/-- The tables have only been added to, as far as rows and orders go. -/
structure Appended (cfg : Config) (jobs : ι → Job α) (t₀ : Tables) (as : List (Action ι)) (s : State ι α) : Prop where
  /-- No committed row goes away, and no committed order changes. -/
  stay : ∀ before rest m, as = before ++ rest → run (step cfg jobs) (init (t₀.store cfg.backend)) before = some m →
    (∀ k, m.committed k ≠ none → s.committed k ≠ none) ∧
      ∀ id row, m.committed (cfg.backend.orderKey id) = some row → s.committed (cfg.backend.orderKey id) = some row
  /-- Whatever a block creates was not there at first. -/
  new : ∀ i, ∀ k ∈ createdRows cfg.backend (callsOf cfg jobs (t₀.store cfg.backend) as i), t₀.store cfg.backend k = none
  /-- A block that goes well creates no row twice, -/
  once : ∀ i, GoesWell (callsOf cfg jobs (t₀.store cfg.backend) as i) (s.phase i) →
    (createdRows cfg.backend (callsOf cfg jobs (t₀.store cfg.backend) as i)).Nodup
  /-- and none that another one creates. -/
  apart : ∀ i j, i ≠ j → GoesWell (callsOf cfg jobs (t₀.store cfg.backend) as i) (s.phase i) →
    GoesWell (callsOf cfg jobs (t₀.store cfg.backend) as j) (s.phase j) →
    ∀ k ∈ createdRows cfg.backend (callsOf cfg jobs (t₀.store cfg.backend) as i),
      k ∉ createdRows cfg.backend (callsOf cfg jobs (t₀.store cfg.backend) as j)
  /-- When it has returned `Ok`, all that it has created is there, -/
  rows : ∀ i v escaped, s.phase i = .returned (.ok v) escaped →
    GoesWell (callsOf cfg jobs (t₀.store cfg.backend) as i) (s.phase i) →
    ∀ k ∈ createdRows cfg.backend (callsOf cfg jobs (t₀.store cfg.backend) as i), s.committed k ≠ none
  /-- and its orders are as it has created them. -/
  orders : ∀ i v escaped, s.phase i = .returned (.ok v) escaped →
    GoesWell (callsOf cfg jobs (t₀.store cfg.backend) as i) (s.phase i) → ∀ order r : Order,
    ⟨.createOrder order, .ok r⟩ ∈ callsOf cfg jobs (t₀.store cfg.backend) as i →
      s.committed (cfg.backend.orderKey order.id) = some order.row

/-- **The tables are only added to.** In every run of any blocks, contexts that escape included: committed
rows stay, orders stay as they are, and every row is created at most once by the blocks that go well. -/
theorem rows_created_once (h : run (step cfg jobs) (init (t₀.store cfg.backend)) as = some s) :
    Appended cfg jobs t₀ as s where
  stay before rest m has hm := by
    rw [has, run_append, hm] at h
    exact committed_stays hd (regular_run hd (regular_init cfg t₀) hm) h
  new := created_new hd h
  once _ hwell := created_nodup hd h hwell
  apart := created_apart hd h
  rows _ _ _ hok hwell _ hk := created_stays hd h hok hwell.1 hk
  orders _ _ _ hok hwell _ _ horder := created_order_stays hd h hok hwell.1 horder

end

theorem rows_created_once_rivalry : Appended (Makefile.config .sqlx) (createOrders (Makefile.config .sqlx) rivals)
    stocked rivalry (Option.get _ rivalry_runs) :=
  rows_created_once (Makefile.deployed .sqlx) (Option.some_get rivalry_runs).symm

end State

end TransactionManager
