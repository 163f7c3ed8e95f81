import TransactionManager.System
import Mathlib.Logic.Relation
/-
# A block with nobody else on the server

`transaction` runs a closure to its end in one go; the system polls the block from one await
point to the next. Here the two meet: `Job.runAlone` is where the polls lead (`steps_runAlone`),
and in the system these polls never wait while no other transaction is open (`run_of_steps`).
`serial` runs jobs one at a time, and is one of the system's runs (`serial_run`).
-/

namespace TransactionManager

open RowStore Run Relation

variable {α : Type}

/-- A job run from its start with nobody else on the server. -/
def Job.runAlone (cfg : Config) (job : Job α) (db : Db) : Phase α × Db :=
  match job.start with
  | .error e => (.returned (.error e) none, db)
  | .ok f => transaction cfg job.faults f db

/-- One poll with nobody else on the server. -/
def Steps (cfg : Config) (job : Job α) (x y : Phase α × Db) : Prop :=
  ∃ ev, x.1.poll cfg job x.2 = some (ev, y.1, y.2)

section
variable (cfg : Config) (job : Job α) (db : Db)

theorem resume_ready (calls : Nat) (tx : PgTx) (r : Except Error α) (n : Nat) :
    resume calls tx (.ready r n) = resume 0 tx (.ready r n) := by
  cases r <;> cases n <;> rfl

/-- A driven closure has ended. -/
theorem drive_ended (f : Closure α) (faults : Faults) (refs : Refs) (calls : Nat) (tx : PgTx) :
    (∃ r n, (f.drive cfg faults db refs calls tx).ended = .ready r n) ∨
      ∃ n, (f.drive cfg faults db refs calls tx).ended = .panicked n := by
  induction f generalizing refs calls tx with
  | ret r => exact .inl ⟨r, refs.clones, rfl⟩
  | panic => exact .inr ⟨refs.lent, rfl⟩
  | call c k ih => exact ih _ refs (calls + 1) _
  | clone k ih | drop k ih | lend k ih | reclaim k ih => exact ih _ calls tx

/-- The polls of a block follow its closure to the end. -/
theorem steps_drive (f : Closure α) (refs : Refs) (calls : Nat) (tx : PgTx) :
    ReflTransGen (Steps cfg job) (resume calls tx (f.poll refs), db)
      (resume 0 (f.drive cfg job.faults db refs calls tx).tx
        (f.drive cfg job.faults db refs calls tx).ended, db) := by
  induction f generalizing refs calls tx with
  | ret r =>
    rw [Closure.poll, resume_ready]
    exact .refl
  | panic => exact .refl
  | call c k ih =>
    have hcall : Steps cfg job (.awaiting c k refs calls tx, db) (resume (calls + 1) _ _, db) := ⟨_, rfl⟩
    exact .head hcall (ih _ refs (calls + 1) _)
  | clone k ih | drop k ih | lend k ih | reclaim k ih => exact ih _ calls tx

/-- `transaction` is where the polls of the block lead. -/
theorem steps_runAlone : ReflTransGen (Steps cfg job) (.created, db) (job.runAlone cfg db) := by
  unfold Job.runAlone
  cases hs : job.start with
  | error e =>
    refine .single ⟨[], ?_⟩
    simp only [Phase.poll, hs]
  | ok f =>
    unfold transaction
    cases hb : job.faults.begin with
    | some e =>
      refine .single ⟨[.begin (some e)], ?_⟩
      simp only [Phase.poll, hs, hb]
    | none =>
      have hbegin : Steps cfg job (.created, db) (resume 0 .fresh (f.poll .given), db) := by
        refine ⟨.begin none :: (f.poll .given).events, ?_⟩
        simp only [Phase.poll, hs, hb]
      have hdrive := ReflTransGen.head hbegin (steps_drive cfg job db f .given 0 .fresh)
      simp only
      split
      · rename_i r he
        rw [he] at hdrive
        exact hdrive.tail ⟨_, rfl⟩
      · rename_i e he
        rw [he] at hdrive
        exact hdrive.tail ⟨_, rfl⟩
      · exact hdrive

/-- A job run alone is over. -/
theorem runAlone_over : (job.runAlone cfg db).1.live = false := by
  unfold Job.runAlone
  cases job.start with
  | error e => rfl
  | ok f =>
    unfold transaction
    cases job.faults.begin with
    | some e => rfl
    | none =>
      simp only
      rcases drive_ended cfg db f job.faults .given 0 .fresh with ⟨r, n, he⟩ | ⟨n, he⟩
      · rw [he]
        cases r <;> cases n <;> rfl
      · rw [he]
        rfl

end

namespace State

variable {ι : Type} [DecidableEq ι] [Fintype ι] (cfg : Config) (jobs : ι → Job α)

theorem others_of_alone {s : State ι α} {i : ι} (h : ∀ j, j ≠ i → s.openTx j = none) (k : Key) :
    (s.others i).locked k = false ∧ (s.others i).written k = false := by
  constructor
  all_goals
    refine decide_eq_false ?_
    rintro ⟨j, hj, hk⟩
    simp [h j hj] at hk

theorem not_waits_of_alone {s : State ι α} {i : ι} (h : ∀ j, j ≠ i → s.openTx j = none) (p : Phase α) :
    p.waits cfg (jobs i) (s.others i) s.committed = false := by
  unfold Phase.waits
  split
  · unfold callWaits Stmt.waits
    split
    · rfl
    · split
      · simp
      · rename_i a _
        cases a <;> simp [Access.waits, others_of_alone h]
  · rfl

/-- With no other transaction open, polls of one block are a schedule. -/
theorem run_of_steps {s : State ι α} {i : ι} (h : ∀ j, j ≠ i → s.openTx j = none) {x : Phase α × Db}
    (hx : ReflTransGen (Steps cfg (jobs i)) (s.phase i, s.committed) x) :
    ∃ n, run (step cfg jobs) s (List.replicate n (.poll i)) = some (s.goto i x.1 x.2) := by
  induction hx with
  | refl => exact ⟨0, by simp⟩
  | @tail y z _ hyz ih =>
    obtain ⟨n, hn⟩ := ih
    obtain ⟨ev, hev⟩ := hyz
    refine ⟨n + 1, ?_⟩
    rw [List.replicate_succ']
    refine run_concat hn ?_
    have hw := not_waits_of_alone cfg jobs (s := s.goto i y.1 y.2) (i := i)
      (fun j hj => by rw [goto_openTx_ne s _ _ hj, h j hj]) y.1
    rw [goto_committed] at hw
    simp [step, hw, hev]

/-- The jobs of `order` run one at a time. -/
def serial (cfg : Config) (jobs : ι → Job α) (s : State ι α) (order : List ι) : State ι α :=
  order.foldl (fun s i => s.goto i ((jobs i).runAlone cfg s.committed).1
    ((jobs i).runAlone cfg s.committed).2) s

omit [Fintype ι] in
theorem serial_concat (s : State ι α) (order : List ι) (i : ι) :
    serial cfg jobs s (order ++ [i]) =
      (serial cfg jobs s order).goto i ((jobs i).runAlone cfg (serial cfg jobs s order).committed).1
        ((jobs i).runAlone cfg (serial cfg jobs s order).committed).2 := by
  simp [serial]

/-- Jobs that leave no transaction open behind them: one at a time is one of the schedules. -/
theorem serial_run (hclosed : ∀ i db, ((jobs i).runAlone cfg db).1.openTx = none) :
    ∀ (order : List ι) (s : State ι α), order.Nodup → (∀ i ∈ order, s.phase i = .created) →
      (∀ i, s.openTx i = none) → ∃ as, run (step cfg jobs) s as = some (serial cfg jobs s order)
  | [], s, _, _, _ => ⟨[], rfl⟩
  | i :: order, s, hn, hc, ho => by
    obtain ⟨hi, hn⟩ := List.nodup_cons.1 hn
    have hsteps := steps_runAlone cfg (jobs i) s.committed
    rw [← hc i List.mem_cons_self] at hsteps
    obtain ⟨n, hrun⟩ := run_of_steps cfg jobs (fun j _ => ho j) hsteps
    obtain ⟨as, has⟩ := serial_run hclosed order
      (s.goto i ((jobs i).runAlone cfg s.committed).1 ((jobs i).runAlone cfg s.committed).2) hn
      (fun j hj => by
        have hji : j ≠ i := by
          rintro rfl
          exact hi hj
        rw [goto_phase_ne s _ _ hji, hc j (List.mem_cons_of_mem i hj)])
      (fun j => by
        by_cases hji : j = i
        · subst hji
          rw [goto_openTx_self, hclosed]
        · rw [goto_openTx_ne s _ _ hji, ho])
    refine ⟨List.replicate n (.poll i) ++ as, ?_⟩
    rw [run_append, hrun]
    exact has

end State

end TransactionManager
