import TransactionManager.Termination
/-
# Calls that do not meet do not wait

A call locks its inventory row and the row of its order, and no others (`confined_run`). So at the
server it waits only for a call about the same item or with the same id (`waitsFor_meet`), and calls
that do not meet each other go on whatever the others do, as long as the pool has a connection for each
(`createOrder_contention`).
-/

namespace TransactionManager

open RowStore Run WaitFor

/-- The transaction has locked no row but those of the call. -/
def Confined (cfg : Config) (call : CreateOrderCall) (tx : PgTx) : Prop :=
  ∀ k ∈ tx.locks, k = cfg.backend.inventoryKey call.itemId ∨ k = cfg.backend.orderKey call.orderId

section
variable {cfg : Config} {call : CreateOrderCall} {t t' : Tables} {g g' : Progress}

theorem confined_fresh : Confined cfg call .fresh := fun _ hk => absurd hk List.not_mem_nil

theorem Confined.abort {tx : PgTx} (h : Confined cfg call tx) (free : Bool) : Confined cfg call (tx.abort free) := by
  unfold Tx.abort
  split
  · exact confined_fresh
  · exact h

theorem confined_locked : Confined cfg call (call.lockedTx cfg.backend) :=
  fun _ hk => .inl (by simpa [CreateOrderCall.lockedTx] using hk)

theorem confined_updated (q : Int32) : Confined cfg call (call.updatedTx cfg.backend q) :=
  fun _ hk => .inl (by simpa [CreateOrderCall.updatedTx, CreateOrderCall.lockedTx] using hk)

theorem confined_created (q : Int32) : Confined cfg call (call.createdTx cfg.backend q) := by
  intro k hk
  rw [CreateOrderCall.createdTx, Tx.write_locks] at hk
  rcases List.mem_cons.1 hk with rfl | hk
  · exact .inr rfl
  · exact confined_updated q k hk

/-- The next step of a call leaves its transaction with locks on rows of the call only. -/
theorem confined_next (h : g.next cfg call t = some (g', t')) :
    ∀ tx, (g'.phase cfg call).openTx = some tx → Confined cfg call tx := by
  cases g with
  | created =>
    simp only [Progress.next] at h
    split at h
    · cases h; rintro _ ⟨⟩
    · split at h
      · cases h; rintro _ ⟨⟩
      · cases h; rintro _ ⟨⟩; exact confined_fresh
  | finding =>
    simp only [Progress.next] at h
    split at h
    · cases h; rintro _ ⟨⟩; exact confined_fresh.abort _
    · cases h; rintro _ ⟨⟩; exact confined_fresh
    · split at h
      · cases h; rintro _ ⟨⟩; exact confined_locked
      · split at h <;> cases h <;> rintro _ ⟨⟩ <;> exact confined_locked
  | updating q =>
    simp only [Progress.next] at h
    split at h
    · cases h; rintro _ ⟨⟩; exact confined_locked.abort _
    · cases h; rintro _ ⟨⟩; exact confined_updated q
  | creating q =>
    simp only [Progress.next] at h
    split at h
    · cases h; rintro _ ⟨⟩; exact (confined_updated q).abort _
    · cases h; rintro _ ⟨⟩; exact (confined_updated q).abort _
    · cases h; rintro _ ⟨⟩; exact confined_created q
  | committing q =>
    simp only [Progress.next] at h
    split at h <;> cases h <;> rintro _ ⟨⟩
  | rollingBack e tx =>
    cases h
    rintro _ ⟨⟩
  | returned | dropped => cases h

end

section
variable {ι : Type} [DecidableEq ι] [Fintype ι] {cfg : Config} {calls : ι → CreateOrderCall} {t₀ : Tables}
  {s : State ι Order}

/-- In every run a call has locked no rows but its own. -/
theorem confined_run (hd : Deployed cfg.catalog cfg.backend) {as : List (Action ι)}
    (h : run (State.step cfg (createOrders cfg calls)) (.init (t₀.store cfg.backend)) as = some s) (i : ι) :
    ∀ tx, s.openTx i = some tx → Confined cfg (calls i) tx := by
  refine run_history (fun _ s => ∀ tx, s.openTx i = some tx → Confined cfg (calls i) tx) (fun tx htx => by cases htx)
    (fun as s a s' hrun ih hstep => ?_) as h
  by_cases hi : i = a.caller
  · obtain ⟨-, ds, hserved⟩ := served_run hd hrun
    obtain ⟨j, ⟨ev, p', db'⟩, rfl, -, hr, rfl⟩ | ⟨j, rfl, -, rfl⟩ | ⟨j, act, ctx, q, rfl, hp, -, rfl⟩ :=
      State.step_cases hstep
    · obtain rfl : i = j := hi
      rw [hserved.committed] at hr
      obtain ⟨g, g', t', -, rfl, -, -, hnext⟩ := poll_next hd (hserved.stage i) hr
      rw [State.goto_openTx_self]
      exact confined_next hnext
    · obtain rfl : i = j := hi
      obtain ⟨g, hg, -⟩ := hserved.stage i
      rw [State.goto_openTx_self, hg, Progress.phase_cancel]
      rintro tx ⟨⟩
    · -- a call's context never escapes
      obtain ⟨g, hg, -⟩ := hserved.stage j
      rw [hg, Progress.phase_escaped] at hp
      cases hp
  · rw [State.step_openTx_ne hstep hi]
    exact ih

end

namespace Pooled

variable {ι : Type} [DecidableEq ι] [Fintype ι] {cfg : Config} {calls : ι → CreateOrderCall} {capacity : Nat}
  {t₀ : Tables} {s : Pooled ι}

/-- Two calls meet: they are about one item, or have drawn one id. -/
def Meet (calls : ι → CreateOrderCall) (i j : ι) : Prop :=
  (calls i).itemId = (calls j).itemId ∨ (calls i).orderId = (calls j).orderId

/-- A statement waits only for a call that its own meets. -/
theorem waitsFor_meet (hd : Deployed cfg.catalog cfg.backend) {as : List (Act ι)}
    (h : run (step cfg calls) (init (t₀.store cfg.backend) capacity) as = some s) {i j : ι}
    (hsent : s.point i = .sent) (hw : WaitsFor cfg calls s i j) : j ≠ i ∧ Meet calls i j := by
  obtain ⟨t, hknown⟩ := known_run hd h
  obtain ⟨bs, hbs⟩ := pooled_run h
  cases hw with
  | connection _ hi => rw [hi.1] at hsent; cases hsent
  | context hi => rw [hi.1] at hsent; cases hsent
  | statement _ _ hj hw =>
    refine ⟨hj, ?_⟩
    obtain ⟨g, hg, -⟩ := hknown.stage i
    rw [hknown.waits_eq hd _ hg] at hw
    have hlocked : ∀ k tx, s.server.openTx j = some tx → k ∈ tx.locks →
        k = cfg.backend.inventoryKey (calls j).itemId ∨ k = cfg.backend.orderKey (calls j).orderId :=
      fun k tx htx => confined_run hd hbs j tx htx k
    have hrow : ∀ x, (s.server.held j).locked (cfg.backend.inventoryKey x) = true → x = (calls j).itemId := by
      intro x hx
      obtain ⟨tx, htx, hk⟩ := (Option.any_eq_true _ _).1 hx
      rcases hlocked _ tx htx (List.contains_iff_mem.1 hk) with hk | hk
      · exact Backend.inventoryKey_inj.1 hk
      · exact absurd hk (cfg.backend.inventoryKey_ne_orderKey _ _)
    have hid : ∀ id, (s.server.held j).written (cfg.backend.orderKey id) = true → id = (calls j).orderId := by
      intro id hx
      obtain ⟨tx, htx, hk⟩ := (Option.any_eq_true _ _).1 hx
      have hmem := hknown.sound.writesLocked j tx htx _ (Option.isSome_iff_ne_none.1 hk)
      rcases hlocked _ tx htx hmem with hk | hk
      · exact absurd hk.symm (cfg.backend.inventoryKey_ne_orderKey _ _)
      · exact Backend.orderKey_inj.1 hk
    cases g with
    | finding | updating q =>
      simp only [Progress.waits, Bool.and_eq_true] at hw
      exact .inl (hrow _ hw.2)
    | creating q =>
      simp only [Progress.waits, Bool.and_eq_true] at hw
      exact .inr (hid _ hw.2)
    | created | committing | rollingBack | returned | dropped => cases hw

/-- **Calls that do not meet do not wait.** In every reachable state a statement waits only for a call about
the same item or with the same id. So where no two calls meet and the pool has a connection for each of them,
every call that is not over can go on by itself, whatever the others do. -/
theorem createOrder_contention (hd : Deployed cfg.catalog cfg.backend) {as : List (Act ι)}
    (h : run (step cfg calls) (init (t₀.store cfg.backend) capacity) as = some s) :
    (∀ i j, s.point i = .sent → WaitsFor cfg calls s i j → j ≠ i ∧ Meet calls i j) ∧
    ((∀ i j, j ≠ i → ¬ Meet calls i j) → Fintype.card ι ≤ capacity → ∀ i, (s.server.phase i).live = true →
      ∃ a s', a.caller = i ∧ a.own = true ∧ s.step cfg calls a = some s') := by
  refine ⟨fun i j => waitsFor_meet hd h, fun hapart hcap i hlive => ?_⟩
  obtain ⟨t, hknown⟩ := known_run hd h
  have hnot : ¬ Waiting (WaitsFor cfg calls s) i := by
    rintro ⟨j, hw⟩
    by_cases hsent : s.point i = .sent
    · obtain ⟨hj, hmeet⟩ := waitsFor_meet hd h hsent hw
      exact hapart i j hj hmeet
    · cases hw with
      | connection _ hi hfree hj =>
        -- an empty pool has given a connection to every call, `i` among them
        have hconns := hknown.fits.conns
        have hall : (Finset.univ.filter fun i => s.conn i = true) = Finset.univ := by
          refine Finset.eq_univ_of_card _ (Nat.le_antisymm (Finset.card_le_univ _) ?_)
          omega
        have hmem : i ∈ Finset.univ.filter fun i => s.conn i = true := by rw [hall]; exact Finset.mem_univ i
        have hconn : s.conn i = true := (Finset.mem_filter.1 hmem).2
        obtain ⟨hidle, hfresh, -⟩ := hi
        rw [(hknown.fits.stands i).conn, hidle, eq_created hfresh] at hconn
        cases hconn
      | context hi hg => rw [hknown.context hi] at hg; cases hg
      | statement _ hi => exact hsent hi
  obtain ⟨a, s', hcaller, hown, hs'⟩ := exists_act hknown hd (Nat.lt_of_lt_of_le (Fintype.card_pos_iff.2 ⟨i⟩) hcap)
    hlive hnot
  obtain ⟨s'', hs''⟩ := step_faults hown hs'
  exact ⟨a, s'', hcaller, hown, hs''⟩

/-- Two calls for an item each. -/
def shoppers : Bool → CreateOrderCall
  | false => ⟨⟨⟨7⟩, 3⟩, ⟨0⟩, .none⟩
  | true => ⟨⟨⟨8⟩, 3⟩, ⟨1⟩, .none⟩

/-- The first has locked its item, the second has sent its locked read. -/
def shopping : List (Act Bool) :=
  [.acquire false, .begin false, .lock false, .send false, .run false, .acquire true, .begin true, .lock true,
    .send true]

theorem shopping_runs :
    (run (step (Makefile.config .sqlx) shoppers) (init (stocked.store .sqlx) 2) shopping).isSome := by
  decide +kernel

theorem createOrder_contention_shopping : ∃ a s', a.caller = true ∧ a.own = true ∧
    (Option.get _ shopping_runs).step (Makefile.config .sqlx) shoppers a = some s' := by
  refine (createOrder_contention (Makefile.deployed .sqlx) (Option.some_get shopping_runs).symm).2
    (fun i j hij => ?_) (Nat.le_refl _) true rfl
  rintro (h | h)
  · cases i <;> cases j <;> first | exact hij rfl | (revert h; decide)
  · cases i <;> cases j <;> first | exact hij rfl | (revert h; decide)

end Pooled

end TransactionManager
