import TransactionManager.Lib.WaitFor
import TransactionManager.Pool
/-
# `create_order` calls do not deadlock

A call can wait for a connection, for the mutex of its context, for a row that another transaction
has locked, and for an order id that another open transaction has inserted (`WaitsFor`). A call locks
its inventory row before it inserts its order, holds a connection from before its first statement,
and shares its context with nobody, so every wait leads to a call that is further on
(`waitsFor_ranked`). The call that is furthest on can go on.
-/

namespace TransactionManager

open RowStore Run WaitFor

/-- The call, with nothing failing any more. -/
def CreateOrderCall.faultless (call : CreateOrderCall) : CreateOrderCall := { call with faults := .none }

@[simp] theorem faultless_itemId (call : CreateOrderCall) : call.faultless.itemId = call.itemId := rfl
@[simp] theorem phase_faultless (cfg : Config) (call : CreateOrderCall) (g : Progress) :
    g.phase cfg call.faultless = g.phase cfg call := by cases g <;> rfl

variable {ι : Type}

/-- What one call holds of the server. -/
def State.held {α : Type} (s : State ι α) (j : ι) : Others where
  locked k := (s.openTx j).any fun tx => tx.locks.contains k
  written k := (s.openTx j).any fun tx => (tx.writes k).isSome

section
variable [DecidableEq ι] [Fintype ι] {α : Type} {s : State ι α} {i : ι} {k : Key}

theorem State.others_locked (h : (s.others i).locked k = true) : ∃ j, j ≠ i ∧ (s.held j).locked k = true := by
  simpa [others, held] using h

theorem State.others_written (h : (s.others i).written k = true) : ∃ j, j ≠ i ∧ (s.held j).written k = true := by
  simpa [others, held] using h

/-- A call that waits for somebody's lock or insert waits for one call's. -/
theorem Progress.waits_others {s : State ι Order} {cfg : Config} {call : CreateOrderCall} {t : Tables} {g : Progress}
    (hw : g.waits cfg call (s.others i) t = true) : ∃ j, j ≠ i ∧ g.waits cfg call (s.held j) t = true := by
  cases g with
  | finding | updating q =>
    simp only [Progress.waits, Bool.and_eq_true] at hw
    obtain ⟨j, hj, hlocked⟩ := State.others_locked hw.2
    exact ⟨j, hj, by simp only [Progress.waits, hw.1, hlocked, Bool.and_true]⟩
  | creating q =>
    simp only [Progress.waits, Bool.and_eq_true] at hw
    obtain ⟨j, hj, hwritten⟩ := State.others_written hw.2
    exact ⟨j, hj, by simp only [Progress.waits, hw.1, hwritten, Bool.and_true]⟩
  | created | committing | rollingBack | returned | dropped => cases hw

end

namespace Pooled

/-- **The wait-for relation.** `i` cannot go on before `j` has: `j` owns a connection while `i` waits
for one from an empty pool, or `i`'s own mutex is locked, or `j` has locked the row or inserted the
order that `i`'s statement is about. -/
inductive WaitsFor (cfg : Config) (calls : ι → CreateOrderCall) (s : Pooled ι) (i : ι) : ι → Prop where
  | connection (j : ι) (hi : s.WantsConnection cfg calls i) (hfree : s.free = 0) (hj : s.conn j = true) :
    WaitsFor cfg calls s i j
  | context (hi : s.WantsContext i) (hg : s.guarded i = true) : WaitsFor cfg calls s i i
  | statement (j : ι) (hi : s.point i = .sent) (hj : j ≠ i)
    (hw : (s.server.phase i).waits cfg (createOrders cfg (fun i => (calls i).faultless) i) (s.server.held j)
      s.server.committed = true) : WaitsFor cfg calls s i j

/-- How far a call has come: the statements it has behind it, or the end of its transaction. -/
def rank (s : Pooled ι) (i : ι) : Nat :=
  match s.server.phase i with
  | .created => if s.conn i then 1 else 0
  | .awaiting _ _ _ n _ => n + 2
  | _ => 5

section
variable [Fintype ι] {cfg : Config} {calls : ι → CreateOrderCall} {capacity : Nat} {t₀ : Tables} {s : Pooled ι}

/-- What is known of a reachable state: where the calls are, and what they know of the tables. -/
structure Known (cfg : Config) (calls : ι → CreateOrderCall) (capacity : Nat) (s : Pooled ι) (t : Tables) : Prop where
  fits : Fits cfg calls capacity s
  sound : s.server.Sound
  committed : s.server.committed = t.store cfg.backend
  stage : ∀ i, Stage cfg (calls i) t (s.server.phase i)

/-! ## Every wait leads to a call that is further on -/

variable {t : Tables} {i j : ι}

/-- Whoever owns a connection has come further than to `pool.begin()`, and has not returned. -/
theorem Known.conn (h : Known cfg calls capacity s t) (hj : s.conn j = true) :
    0 < s.rank j ∧ (s.server.phase j).live = true := by
  have hconn := (h.fits.stands j).conn
  obtain ⟨g, hg, -⟩ := h.stage j
  rw [hj, hg] at hconn
  cases g with
  | created => exact ⟨by simp [rank, hg, Progress.phase, hj], by rw [hg]; rfl⟩
  | finding | updating | creating => exact ⟨by simp [rank, hg, Progress.phase], by rw [hg]; rfl⟩
  | committing | rollingBack => exact ⟨by simp [rank, hg, Progress.phase], by rw [hg]; rfl⟩
  | returned | dropped =>
    have hc := (h.fits.stands j).connected (by simpa [Progress.phase, Phase.openTx] using hconn)
    rw [hg] at hc
    cases hc.1

/-- An empty pool has given its connections to calls. -/
theorem Known.owner (h : Known cfg calls capacity s t) (hcap : 0 < capacity) (hfree : s.free = 0) :
    ∃ j, s.conn j = true := by
  have hconns := h.fits.conns
  obtain ⟨j, hj⟩ := Finset.card_pos.1 (show 0 < (Finset.univ.filter fun i => s.conn i = true).card by omega)
  exact ⟨j, (Finset.mem_filter.1 hj).2⟩

/-- Whoever has locked an inventory row has its locked read behind it. -/
theorem Known.locked (h : Known cfg calls capacity s t) {x : ItemId}
    (hj : (s.server.held j).locked (cfg.backend.inventoryKey x) = true) :
    2 < s.rank j ∧ (s.server.phase j).live = true := by
  obtain ⟨g, hg, -⟩ := h.stage j
  simp only [State.held, State.openTx, hg] at hj
  cases g with
  | updating | creating => exact ⟨by simp [rank, hg, Progress.phase], by rw [hg]; rfl⟩
  | committing | rollingBack => exact ⟨by simp [rank, hg, Progress.phase], by rw [hg]; rfl⟩
  | finding => simp [Progress.phase, Phase.openTx] at hj
  | created | returned | dropped => simp [Progress.phase, Phase.openTx] at hj

/-- Whoever has inserted an order has only its COMMIT or its ROLLBACK before it. -/
theorem Known.written (h : Known cfg calls capacity s t) {id : OrderId}
    (hj : (s.server.held j).written (cfg.backend.orderKey id) = true) :
    s.rank j = 5 ∧ (s.server.phase j).live = true := by
  obtain ⟨g, hg, -⟩ := h.stage j
  simp only [State.held, State.openTx, hg] at hj
  have hne : cfg.backend.orderKey id ≠ cfg.backend.inventoryKey (calls j).itemId :=
    Ne.symm (cfg.backend.inventoryKey_ne_orderKey _ _)
  cases g with
  | committing | rollingBack => exact ⟨by simp [rank, hg, Progress.phase], by rw [hg]; rfl⟩
  | creating q =>
    simp [Progress.phase, Phase.openTx, CreateOrderCall.updatedTx, put_ne _ hne, CreateOrderCall.lockedTx,
      Tx.lock, Tx.fresh] at hj
  | updating q => simp [Progress.phase, Phase.openTx, CreateOrderCall.lockedTx, Tx.lock, Tx.fresh] at hj
  | finding => simp [Progress.phase, Phase.openTx, Tx.fresh] at hj
  | created | returned | dropped => simp [Progress.phase, Phase.openTx] at hj

/-- Nobody's own mutex is locked when it comes to lock it. -/
theorem Known.context (h : Known cfg calls capacity s t) (hi : s.WantsContext i) : s.guarded i = false := by
  rw [(h.fits.stands i).guarded, hi.1]
  rfl

/-- What a statement waits for, in terms of the machine. -/
theorem Known.waits_eq (h : Known cfg calls capacity s t) (hd : Deployed cfg.catalog cfg.backend) (o : Others)
    {g : Progress} (hg : s.server.phase i = g.phase cfg (calls i)) :
    (s.server.phase i).waits cfg (createOrders cfg (fun i => (calls i).faultless) i) o s.server.committed =
      g.waits cfg (calls i).faultless o t := by
  rw [hg, h.committed, ← phase_faultless]
  exact waits_progress hd o g

/-- **Every wait leads upwards**, and to a call that has not returned. -/
theorem waitsFor_up (h : Known cfg calls capacity s t) (hd : Deployed cfg.catalog cfg.backend)
    (hw : WaitsFor cfg calls s i j) : s.rank i < s.rank j ∧ (s.server.phase j).live = true := by
  cases hw with
  | connection _ hi _ hj =>
    obtain ⟨hidle, hfresh, -⟩ := hi
    have hcreated := eq_created hfresh
    have hno : s.conn i = false := by rw [(h.fits.stands i).conn, hidle, hcreated]; rfl
    have hrank : s.rank i = 0 := by simp [rank, hcreated, hno]
    rw [hrank]
    exact h.conn hj
  | context hi hg =>
    rw [h.context hi] at hg
    cases hg
  | statement _ _ hj hw =>
    obtain ⟨g, hg, hholds⟩ := h.stage i
    rw [h.waits_eq hd _ hg] at hw
    cases g with
    | finding =>
      simp only [Progress.waits, Bool.and_eq_true] at hw
      have hrank : s.rank i = 2 := by simp [rank, hg, Progress.phase]
      rw [hrank]
      exact h.locked hw.2
    | updating q =>
      -- it has locked the row itself
      simp only [Progress.waits, Bool.and_eq_true] at hw
      obtain ⟨tx, htx, hk⟩ := (Option.any_eq_true _ _).1 hw.2
      have hi : s.server.openTx i = some ((calls i).lockedTx cfg.backend) := by rw [State.openTx, hg]; rfl
      exact absurd (List.contains_iff_mem.1 hk)
        (h.sound.exclusive i j _ tx (Ne.symm hj) hi htx _ (by simp [CreateOrderCall.lockedTx]))
    | creating q =>
      simp only [Progress.waits, Bool.and_eq_true] at hw
      have hrank : s.rank i = 4 := by simp [rank, hg, Progress.phase]
      obtain ⟨hj5, hlive⟩ := h.written hw.2
      exact ⟨by omega, hlive⟩
    | created | committing | rollingBack | returned | dropped => cases hw

theorem waitsFor_ranked (h : Known cfg calls capacity s t) (hd : Deployed cfg.catalog cfg.backend) :
    Ranked (WaitsFor cfg calls s) s.rank := fun _ _ hw => (waitsFor_up h hd hw).1

variable [DecidableEq ι]

theorem known_run (hd : Deployed cfg.catalog cfg.backend) {as : List (Act ι)}
    (h : run (step cfg calls) (init (t₀.store cfg.backend) capacity) as = some s) :
    ∃ t, Known cfg calls capacity s t := by
  obtain ⟨bs, hbs⟩ := pooled_run h
  obtain ⟨hsound, ds, hserved⟩ := served_run hd hbs
  exact ⟨_, fits_run h, hsound, hserved.committed, hserved.stage⟩

/-- The server takes a poll of a live call that does not wait. -/
theorem advance_of_live {p : Point} {b : Bool} (hlive : (s.server.phase i).live = true)
    (hw : (s.server.phase i).waits cfg (createOrders cfg calls i) (s.server.others i) s.server.committed = false) :
    ∃ s', s.advance cfg calls (.poll i) p b = some s' := by
  obtain ⟨r, hr⟩ := Phase.poll_live cfg (createOrders cfg calls i) s.server.committed hlive
  simp only [advance, State.step, hw, hr, Bool.false_eq_true, if_false, Option.map_some]
  exact ⟨_, rfl⟩

/-- A call that has sent no statement does not wait for the server. -/
theorem advance_of_quiet {p : Point} {b : Bool} (hlive : (s.server.phase i).live = true)
    (hquiet : (s.server.phase i).awaits = false) : ∃ s', s.advance cfg calls (.poll i) p b = some s' := by
  refine advance_of_live hlive ?_
  cases hphase : s.server.phase i with
  | awaiting => rw [hphase] at hquiet; cases hquiet
  | created | committing | rollingBack | returned | dropped => rfl

/-- A statement that is not waited for can be run. -/
theorem Known.run (h : Known cfg calls capacity s t) (hd : Deployed cfg.catalog cfg.backend) (hp : s.point i = .sent)
    (hnot : ¬ Waiting (WaitsFor cfg calls s) i) :
    ∃ s', s.advance cfg (fun i => (calls i).faultless) (.poll i) .answered (s.guarded i) = some s' := by
  obtain ⟨g, hg, -⟩ := h.stage i
  have haw := (h.fits.stands i).awaits (.inr hp)
  have hlive : (s.server.phase i).live = true := by
    cases hphase : s.server.phase i with
    | created | awaiting | committing | rollingBack => rfl
    | returned | dropped => rw [hphase] at haw; cases haw
  refine advance_of_live hlive ?_
  by_contra hw
  rw [Bool.not_eq_false, h.waits_eq hd _ hg] at hw
  obtain ⟨j, hj, hw⟩ := Progress.waits_others hw
  exact hnot ⟨j, .statement j hp hj (by rw [h.waits_eq hd _ hg, hw])⟩

/-- **Whoever does not wait can go on.** -/
theorem exists_act (h : Known cfg calls capacity s t) (hd : Deployed cfg.catalog cfg.backend) (hcap : 0 < capacity)
    (hlive : (s.server.phase i).live = true) (hnot : ¬ Waiting (WaitsFor cfg calls s) i) :
    ∃ a s', a.caller = i ∧ a.own = true ∧ s.step cfg (fun i => (calls i).faultless) a = some s' := by
  cases hp : s.point i with
  | idle =>
    cases hphase : s.server.phase i with
    | created =>
      have hfresh : (s.server.phase i).fresh = true := by rw [hphase]; rfl
      by_cases hv : (createOrders cfg calls i).valid = true
      · have hwants : s.WantsConnection cfg (fun i => (calls i).faultless) i := ⟨hp, hfresh, hv⟩
        have hfree : 0 < s.free := by
          by_contra hzero
          obtain ⟨j, hj⟩ := h.owner hcap (Nat.eq_zero_of_not_pos hzero)
          exact hnot ⟨j, .connection j hwants (Nat.eq_zero_of_not_pos hzero) hj⟩
        exact ⟨.acquire i, _, rfl, rfl, if_pos ⟨hwants, hfree⟩⟩
      · obtain ⟨s', hs'⟩ := advance_of_quiet hlive (by rw [hphase]; rfl)
        exact ⟨.refuse i, s', rfl, rfl, (if_pos ⟨hp, hfresh, hv⟩).trans hs'⟩
    | awaiting =>
      have hwants : s.WantsContext i := ⟨hp, by rw [hphase]; rfl⟩
      exact ⟨.lock i, _, rfl, rfl, if_pos ⟨hwants, h.context hwants⟩⟩
    | committing | rollingBack =>
      obtain ⟨s', hs'⟩ := advance_of_quiet hlive (by rw [hphase]; rfl)
      exact ⟨.finish i, s', rfl, rfl, (if_pos ⟨hp, by rw [hphase]; rfl⟩).trans hs'⟩
    | returned | dropped =>
      rw [hphase] at hlive
      cases hlive
  | connected =>
    have hcreated := ((h.fits.stands i).connected hp).1
    obtain ⟨s', hs'⟩ := advance_of_quiet hlive (by rw [hcreated]; rfl)
    exact ⟨.begin i, s', rfl, rfl, (if_pos hp).trans hs'⟩
  | locked => exact ⟨.send i, _, rfl, rfl, if_pos hp⟩
  | sent =>
    obtain ⟨s', hs'⟩ := h.run hd hp hnot
    exact ⟨.run i, s', rfl, rfl, (if_pos hp).trans hs'⟩
  | answered => exact ⟨.release i, _, rfl, rfl, if_pos hp⟩

/-- **Nobody waits in a circle.** -/
theorem waitsFor_acyclic (hd : Deployed cfg.catalog cfg.backend) {as : List (Act ι)}
    (h : run (step cfg calls) (init (t₀.store cfg.backend) capacity) as = some s) (i : ι) :
    ¬ Relation.TransGen (WaitsFor cfg calls s) i i := by
  obtain ⟨t, hknown⟩ := known_run hd h
  exact (waitsFor_ranked hknown hd).acyclic i

/-- **No deadlock.** In every reachable state with an unfinished call, an unfinished call can go on by
itself; whoever locks its context finds the mutex free, and whoever waits for a connection has none. -/
theorem createOrder_deadlock_free (hd : Deployed cfg.catalog cfg.backend) (hcap : 0 < capacity) {as : List (Act ι)}
    (h : run (step cfg calls) (init (t₀.store cfg.backend) capacity) as = some s) :
    (∀ i, (s.server.phase i).live = true → ∃ a s', (s.server.phase a.caller).live = true ∧ a.own = true ∧
      s.step cfg (fun i => (calls i).faultless) a = some s') ∧
    (∀ i, s.WantsContext i → s.guarded i = false) ∧
    ∀ i, s.WantsConnection cfg calls i → s.conn i = false := by
  obtain ⟨t, hknown⟩ := known_run hd h
  refine ⟨fun i hlive => ?_, fun i hi => hknown.context hi, fun i hi => ?_⟩
  · obtain ⟨j, hj, hnot⟩ :=
      (waitsFor_ranked hknown hd).exists_not_waiting (fun _ _ hw => (waitsFor_up hknown hd hw).2) hlive
    obtain ⟨a, s', rfl, hown, hs'⟩ := exists_act hknown hd hcap hj hnot
    exact ⟨a, s', hj, hown, hs'⟩
  · obtain ⟨hidle, hfresh, -⟩ := hi
    rw [(hknown.fits.stands i).conn, hidle, eq_created hfresh]
    rfl

end

/-- Two calls that ask 3 of the item each. -/
def patrons : Bool → CreateOrderCall
  | false => ⟨⟨⟨7⟩, 3⟩, ⟨0⟩, .none⟩
  | true => ⟨⟨⟨7⟩, 3⟩, ⟨1⟩, .none⟩

/-- Over a pool of one, the first call has sent its update while the second is at `pool.begin()`. -/
def crowd : List (Act Bool) :=
  [.acquire false, .begin false, .lock false, .send false, .run false, .release false, .lock false, .send false]

theorem crowd_runs : (run (step (Makefile.config .sqlx) patrons) (init (stocked.store .sqlx) 1) crowd).isSome := by
  decide +kernel

theorem createOrder_deadlock_free_crowd :
    (∃ a s', ((Option.get _ crowd_runs).server.phase a.caller).live = true ∧ a.own = true ∧
      (Option.get _ crowd_runs).step (Makefile.config .sqlx) (fun i => (patrons i).faultless) a = some s') ∧
    (Option.get _ crowd_runs).conn true = false := by
  obtain ⟨hgo, -, hconn⟩ := createOrder_deadlock_free (Makefile.deployed .sqlx) (Nat.succ_pos 0)
    (Option.some_get crowd_runs).symm
  exact ⟨hgo true rfl, hconn true ⟨rfl, rfl, rfl⟩⟩

end Pooled

end TransactionManager
