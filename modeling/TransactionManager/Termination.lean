import TransactionManager.Deadlock
import Mathlib.Algebra.Order.BigOperators.Group.Finset
/-
# `create_order` calls come to an end

Every act of a call brings it closer to its end (`left_step`), so no schedule over the pool is longer
than fifteen acts a call, and a schedule that can go on by no call's own act has all calls over and
every connection back in the pool. The wait-for relation shows who can go on, and the measure that it
comes to an end.
-/

namespace TransactionManager

open RowStore Run WaitFor

/-! ## How much a call has before it -/

/-- The acts from here to the end of the call, when it is idle. -/
def Phase.left {α : Type} : Phase α → Nat
  | .created => 15
  | .awaiting _ _ _ n _ => 13 - 4 * n
  | .committing _ _ | .rollingBack _ _ => 1
  | .returned _ _ | .dropped _ => 0

/-- The acts between two polls that are not polls. -/
def Phase.slack {α : Type} : Phase α → Nat
  | .created => 1
  | .awaiting _ _ _ _ _ => 3
  | .committing _ _ | .rollingBack _ _ | .returned _ _ | .dropped _ => 0

/-- The acts from a point of the block on. -/
def Phase.leftAt {α : Type} (p : Phase α) : Point → Nat
  | .idle => p.left
  | .connected | .locked => p.left - 1
  | .sent => p.left - 2
  | .answered => p.left + 1

theorem Phase.left_cancel {α : Type} (p : Phase α) : p.cancel.left = 0 := by cases p <;> rfl

/-- The next step of a call takes it closer to its end by more than the acts it is made of. -/
theorem next_left {cfg : Config} {call : CreateOrderCall} {t t' : Tables} {g g' : Progress}
    (h : g.next cfg call t = some (g', t')) :
    (g'.phase cfg call).left + (g.phase cfg call).slack < (g.phase cfg call).left := by
  cases g with
  | created =>
    simp only [Progress.next] at h
    split at h
    · cases h; simp [Progress.phase, Phase.left, Phase.slack]
    · split at h <;> cases h <;> simp [Progress.phase, Phase.left, Phase.slack]
  | finding =>
    simp only [Progress.next] at h
    split at h
    · cases h; simp [Progress.phase, Phase.left, Phase.slack]
    · cases h; simp [Progress.phase, Phase.left, Phase.slack]
    · split at h
      · cases h; simp [Progress.phase, Phase.left, Phase.slack]
      · split at h <;> cases h <;> simp [Progress.phase, Phase.left, Phase.slack]
  | updating q =>
    simp only [Progress.next] at h
    split at h <;> cases h <;> simp [Progress.phase, Phase.left, Phase.slack]
  | creating q =>
    simp only [Progress.next] at h
    split at h <;> cases h <;> simp [Progress.phase, Phase.left, Phase.slack]
  | committing q =>
    simp only [Progress.next] at h
    split at h <;> cases h <;> simp [Progress.phase, Phase.left, Phase.slack]
  | rollingBack e tx =>
    simp only [Progress.next] at h
    cases h
    simp [Progress.phase, Phase.left, Phase.slack]
  | returned | dropped => cases h

/-- A staged call with its future before its end has an act before it at every point. -/
theorem Stage.left_pos {cfg : Config} {call : CreateOrderCall} {t : Tables} {p : Phase Order}
    (hs : Stage cfg call t p) (hlive : p.live = true) : p.slack < p.left := by
  obtain ⟨g, rfl, -⟩ := hs
  rw [Progress.phase_live] at hlive
  cases g with
  | created | finding | updating | creating => simp [Progress.phase, Phase.left, Phase.slack]
  | committing | rollingBack => simp [Progress.phase, Phase.left, Phase.slack]
  | returned | dropped => cases hlive

namespace Pooled

variable {ι : Type}

/-- The acts that `i` has before it at most. -/
def left (s : Pooled ι) (i : ι) : Nat := (s.server.phase i).leftAt (s.point i)

variable [Fintype ι] [DecidableEq ι] {cfg : Config} {calls : ι → CreateOrderCall} {capacity : Nat} {t t₀ : Tables}
  {s s' : Pooled ι}

omit [Fintype ι] in
theorem left_put (i : ι) (server : State ι Order) (p : Point) (g c : Bool) (free : Nat) :
    (s.put i server p g c free).left i = (server.phase i).leftAt p := by
  simp [left, put]

theorem left_advance {b : Action ι} {p : Point} {g : Bool} {i : ι} (hb : b.caller = i)
    (h : s.advance cfg calls b p g = some s') :
    ∃ server, s.server.step cfg (createOrders cfg calls) b = some server ∧ s'.left i = (server.phase i).leftAt p := by
  subst hb
  obtain ⟨server, hs, rfl⟩ := advance_some h
  exact ⟨server, hs, left_put _ _ _ _ _ _⟩

/-- A poll of the server's takes the call closer to its end. -/
theorem poll_left (hd : Deployed cfg.catalog cfg.backend) (h : Known cfg calls capacity s t) {i : ι}
    {server : State ι Order} (hs : s.server.step cfg (createOrders cfg calls) (.poll i) = some server) :
    (server.phase i).left + (s.server.phase i).slack < (s.server.phase i).left := by
  obtain ⟨⟨ev, p', db'⟩, hr, hp⟩ := poll_some hs
  rw [h.committed] at hr
  obtain ⟨g, g', t', hg, hp', -, -, hnext⟩ := poll_next hd (h.stage i) hr
  rw [hp, hg, show p' = _ from hp']
  exact next_left hnext

/-- **Every act takes its caller closer to its end.** -/
theorem left_step (hd : Deployed cfg.catalog cfg.backend) (h : Known cfg calls capacity s t) {a : Act ι}
    (hstep : s.step cfg calls a = some s') : s'.left a.caller < s.left a.caller := by
  have hadvance : ∀ i p g, s.advance cfg calls (.poll i) p g = some s' → ∃ server : State ι Order,
      (server.phase i).left + (s.server.phase i).slack < (s.server.phase i).left ∧
        s'.left i = (server.phase i).leftAt p := by
    intro i p g ha
    obtain ⟨server, hs, he⟩ := left_advance rfl ha
    exact ⟨server, poll_left hd h hs, he⟩
  have hawaits : ∀ i, (s.server.phase i).awaits = true →
      (s.server.phase i).slack = 3 ∧ 3 < (s.server.phase i).left := by
    intro i hi
    cases hp : s.server.phase i with
    | awaiting =>
      have := (h.stage i).left_pos (by rw [hp]; rfl)
      rw [hp] at this
      exact ⟨rfl, this⟩
    | created | committing | rollingBack | returned | dropped => rw [hp] at hi; cases hi
  cases step_takes hstep with
  | refuse i s' hp hfresh hv ha =>
    obtain ⟨server, hlt, he⟩ := hadvance i _ _ ha
    show s'.left i < s.left i
    rw [he, left, hp]
    simp only [Phase.leftAt]
    omega
  | acquireFails i s' hw hfault ha =>
    obtain ⟨server, hlt, he⟩ := hadvance i _ _ ha
    show s'.left i < s.left i
    rw [he, left, hw.1]
    simp only [Phase.leftAt]
    omega
  | finish i s' hp hend ha =>
    obtain ⟨server, hlt, he⟩ := hadvance i _ _ ha
    show s'.left i < s.left i
    rw [he, left, hp]
    simp only [Phase.leftAt]
    omega
  | begin i s' hp ha =>
    obtain ⟨server, hlt, he⟩ := hadvance i _ _ ha
    have hcreated := ((h.fits.stands i).connected hp).1
    show s'.left i < s.left i
    rw [he, left, hp]
    rw [hcreated] at hlt ⊢
    simp only [Phase.leftAt, Phase.slack] at hlt ⊢
    omega
  | run i s' hp ha =>
    obtain ⟨server, hlt, he⟩ := hadvance i _ _ ha
    obtain ⟨hslack, -⟩ := hawaits i ((h.fits.stands i).awaits (.inr hp))
    show s'.left i < s.left i
    rw [he, left, hp]
    simp only [Phase.leftAt]
    omega
  | acquire i hw hfree =>
    show Pooled.left _ i < s.left i
    rw [left_put, left, hw.1, eq_created hw.2.1]
    simp [Phase.leftAt, Phase.left]
  | lock i hw hg =>
    have := hawaits i hw.2
    show Pooled.left _ i < s.left i
    rw [left_put, left, hw.1]
    simp only [Phase.leftAt]
    omega
  | send i hp =>
    have := hawaits i ((h.fits.stands i).awaits (.inl hp))
    show Pooled.left _ i < s.left i
    rw [left_put, left, hp]
    simp only [Phase.leftAt]
    omega
  | release i hp =>
    show Pooled.left _ i < s.left i
    rw [left_put, left, hp]
    simp only [Phase.leftAt]
    omega
  | cancel i s' ha =>
    obtain ⟨server, hs, he⟩ := left_advance (i := i) rfl ha
    obtain ⟨k, r, hk, -⟩ | ⟨k, hk, hlive, rfl⟩ | ⟨k, act, ctx, q, hk, -⟩ := State.step_cases hs
    · cases hk
    · cases hk
      have hpos := (h.stage i).left_pos hlive
      have hzero : s'.left i = 0 := by rw [he, State.goto_phase_self]; exact (s.server.phase i).left_cancel
      show s'.left i < s.left i
      rw [hzero, left]
      cases hp : s.point i with
      | idle | answered =>
        simp only [Phase.leftAt]
        omega
      | connected =>
        rw [((h.fits.stands i).connected hp).1]
        simp [Phase.leftAt, Phase.left]
      | locked =>
        have := hawaits i ((h.fits.stands i).awaits (.inl hp))
        simp only [Phase.leftAt]
        omega
      | sent =>
        have := hawaits i ((h.fits.stands i).awaits (.inr hp))
        simp only [Phase.leftAt]
        omega
    · cases hk

/-! ## The variant of a run -/

/-- The acts that all calls have before them at most. -/
def leftAll (s : Pooled ι) : Nat := ∑ i, s.left i

omit [DecidableEq ι] in
theorem leftAll_init (db : Db) (capacity : Nat) : leftAll (init db capacity : Pooled ι) = 15 * Fintype.card ι := by
  have hone : ∀ i ∈ (Finset.univ : Finset ι), (init db capacity : Pooled ι).left i = 15 := fun _ _ => rfl
  rw [leftAll, Finset.sum_const_nat hone, Finset.card_univ, Nat.mul_comm]

theorem leftAll_step (hd : Deployed cfg.catalog cfg.backend) (h : Known cfg calls capacity s t) {a : Act ι}
    (hstep : s.step cfg calls a = some s') : s'.leftAll < s.leftAll := by
  refine Finset.sum_lt_sum (fun j _ => ?_) ⟨a.caller, Finset.mem_univ _, left_step hd h hstep⟩
  by_cases hj : j = a.caller
  · rw [hj]
    exact Nat.le_of_lt (left_step hd h hstep)
  · obtain ⟨hphase, hpoint, -⟩ := (step_takes hstep).touches.other hj
    rw [left, left, hphase, hpoint]

/-! ## Where no call can go on by itself -/

/-- What cannot wait with nothing failing cannot wait with something failing. -/
theorem waits_faults {α : Type} {job job' : Job α} {o : Others} {db : Db} {p : Phase α} (hf : job'.faults = .none)
    (h : p.waits cfg job' o db = false) : p.waits cfg job o db = false := by
  cases p with
  | awaiting c k n m tx =>
    simp only [Phase.waits, hf, Faults.none] at h ⊢
    cases job.faults.stmt m with
    | some e => rfl
    | none => exact h
  | created | committing | rollingBack | returned | dropped => rfl

theorem advance_faults {i : ι} {p : Point} {g : Bool}
    (h : s.advance cfg (fun i => (calls i).faultless) (.poll i) p g = some s') :
    ∃ s'', s.advance cfg calls (.poll i) p g = some s'' := by
  obtain ⟨server, hs, -⟩ := advance_some h
  obtain ⟨k, r, hk, hw, hr, -⟩ | ⟨k, hk, -⟩ | ⟨k, act, ctx, q, hk, -⟩ := State.step_cases hs
  · cases hk
    refine advance_of_live ?_ (waits_faults rfl hw)
    cases hp : s.server.phase i with
    | created | awaiting | committing | rollingBack => rfl
    | returned | dropped => rw [hp] at hr; cases hr
  · cases hk
  · cases hk

/-- What a call can do by itself with nothing failing, it can do in any case. -/
theorem step_faults {a : Act ι} (ha : a.own = true) (h : s.step cfg (fun i => (calls i).faultless) a = some s') :
    ∃ s'', s.step cfg calls a = some s'' := by
  cases step_takes h with
  | refuse i s' hp hfresh hv h =>
    obtain ⟨s'', hs''⟩ := advance_faults h
    have hv' : ¬ (createOrders cfg calls i).valid = true := by
      rw [show (createOrders cfg calls i).valid = _ from hv]
      exact Bool.false_ne_true
    exact ⟨s'', (if_pos ⟨hp, hfresh, hv'⟩).trans hs''⟩
  | acquire i hw hfree => exact ⟨_, if_pos ⟨hw, hfree⟩⟩
  | begin i s' hp h =>
    obtain ⟨s'', hs''⟩ := advance_faults h
    exact ⟨s'', (if_pos hp).trans hs''⟩
  | lock i hw hg => exact ⟨_, if_pos ⟨hw, hg⟩⟩
  | send i hp => exact ⟨_, if_pos hp⟩
  | run i s' hp h =>
    obtain ⟨s'', hs''⟩ := advance_faults h
    exact ⟨s'', (if_pos hp).trans hs''⟩
  | release i hp => exact ⟨_, if_pos hp⟩
  | finish i s' hp hend h =>
    obtain ⟨s'', hs''⟩ := advance_faults h
    exact ⟨s'', (if_pos ⟨hp, hend⟩).trans hs''⟩
  | acquireFails | cancel => cases ha

/-- All calls are over, and nobody holds anything any more. -/
structure Finished (capacity : Nat) (s : Pooled ι) : Prop where
  idle : ∀ i, (s.server.phase i).live = false
  released : ∀ i, s.server.openTx i = none ∧ s.conn i = false ∧ s.guarded i = false
  pool : s.free = capacity

/-- Where no call can go on by itself, all calls are over. -/
theorem Known.finished (h : Known cfg calls capacity s t) (hd : Deployed cfg.catalog cfg.backend) (hcap : 0 < capacity)
    (hstuck : ∀ a : Act ι, a.own = true → s.step cfg calls a = none) : Finished capacity s := by
  have hover : ∀ i, (s.server.phase i).live = false := by
    intro i
    by_contra hlive
    obtain ⟨j, hj, hnot⟩ := (waitsFor_ranked h hd).exists_not_waiting (fun _ _ hw => (waitsFor_up h hd hw).2)
      (Bool.not_eq_false _ ▸ hlive)
    obtain ⟨a, s', -, hown, hs'⟩ := exists_act h hd hcap hj hnot
    obtain ⟨s'', hs''⟩ := step_faults hown hs'
    rw [hstuck a hown] at hs''
    cases hs''
  have hconn : ∀ i, s.conn i = false := by
    intro i
    by_contra hc
    have := (h.conn (Bool.not_eq_false _ ▸ hc)).2
    rw [hover i] at this
    cases this
  refine ⟨hover, fun i => ⟨?_, hconn i, ?_⟩, ?_⟩
  · obtain ⟨g, hg, -⟩ := h.stage i
    have := hover i
    rw [hg, Progress.phase_live] at this
    rw [State.openTx, hg]
    cases g with
    | returned | dropped => rfl
    | created | finding | updating | creating | committing | rollingBack => cases this
  · -- a call that is over is idle: it could go on at every other point
    rw [(h.fits.stands i).guarded]
    cases hp : s.point i with
    | idle | connected => rfl
    | answered =>
      have := hstuck (.release i) rfl
      rw [show s.step cfg calls (.release i) = some _ from if_pos hp] at this
      cases this
    | locked | sent =>
      have haw := (h.fits.stands i).awaits (by rw [hp]; simp)
      have := hover i
      cases hphase : s.server.phase i with
      | awaiting => rw [hphase] at this; cases this
      | created | committing | rollingBack | returned | dropped => rw [hphase] at haw; cases haw
  · have hconns := h.fits.conns
    rw [Finset.filter_false_of_mem fun i _ => by rw [hconn i]; exact Bool.false_ne_true, Finset.card_empty] at hconns
    exact hconns

/-- **Termination.** No schedule over the pool is longer than fifteen acts a call; one that can go on by no
call's own act has all calls over and everything released; and every schedule leads there by the calls'
own acts. -/
theorem createOrder_terminates (hd : Deployed cfg.catalog cfg.backend) (hcap : 0 < capacity) {as : List (Act ι)}
    (h : run (step cfg calls) (init (t₀.store cfg.backend) capacity) as = some s) :
    as.length ≤ 15 * Fintype.card ι ∧
    ((∀ a : Act ι, a.own = true → s.step cfg calls a = none) → Finished capacity s) ∧
    ∃ as' s', (∀ a ∈ as', a.own = true) ∧ run (step cfg calls) s as' = some s' ∧ Finished capacity s' := by
  let reached : Pooled ι → Prop := fun s => ∃ as, run (step cfg calls) (init (t₀.store cfg.backend) capacity) as = some s
  have hreached : ∀ s a s', reached s → s.step cfg calls a = some s' → reached s' :=
    fun s a s' ⟨as, has⟩ hs => ⟨as ++ [a], run_concat has hs⟩
  have hvariant : ∀ s a s', reached s → s.step cfg calls a = some s' → s'.leftAll < s.leftAll := by
    rintro s a s' ⟨as, has⟩ hs
    obtain ⟨t, hknown⟩ := known_run hd has
    exact leftAll_step hd hknown hs
  have hfinished : ∀ s, reached s → (∀ a : Act ι, a.own = true → s.step cfg calls a = none) → Finished capacity s := by
    rintro s ⟨as, has⟩ hstuck
    obtain ⟨t, hknown⟩ := known_run hd has
    exact hknown.finished hd hcap hstuck
  refine ⟨?_, hfinished s ⟨as, h⟩, ?_⟩
  · have := run_variant reached leftAll hreached hvariant as ⟨[], rfl⟩ h
    rw [leftAll_init] at this
    omega
  · obtain ⟨as', s', hown, hrun, -, hstuck⟩ :=
      run_settles reached (measure leftAll).wf hreached hvariant (fun a => a.own = true) ⟨as, h⟩
    exact ⟨as', s', hown, hrun, hfinished s' ⟨as ++ as', by rw [run_append, h]; exact hrun⟩ hstuck⟩

theorem createOrder_terminates_crowd : crowd.length ≤ 15 * Fintype.card Bool ∧
    ∃ as' s', (∀ a ∈ as', a.own = true) ∧
      run (step (Makefile.config .sqlx) patrons) (Option.get _ crowd_runs) as' = some s' ∧ Finished 1 s' := by
  obtain ⟨hle, -, hend⟩ := createOrder_terminates (Makefile.deployed .sqlx) (Nat.succ_pos 0)
    (Option.some_get crowd_runs).symm
  exact ⟨hle, hend⟩

end Pooled

end TransactionManager
