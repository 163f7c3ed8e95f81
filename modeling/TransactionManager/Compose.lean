import TransactionManager.Locking
/-
# One transaction block for several programs, or a block each

A closure can run one program after the other in its transaction (`chain`); a caller can run each in a
transaction block of its own, each with the value the last one returned (`eachInTurn`). Programs
written with `?` pass no error of a repository over (`Strict`), so what the next one sees in the
transaction is what it would see after a commit (`SameView`). The answer is then the same either way;
what differs is what is left behind where a program fails: nothing by the one block, the programs
before the failing one by a block each (`one_block_or_each`).
-/

namespace TransactionManager

open RowStore RustInt Run Decision

variable {α β : Type}

/-! ## Programs that pass no error over -/

namespace Closure

/-- However it goes on, it does not end with `Ok`. -/
def Fails : Closure α → Prop
  | .ret r => ∀ v, r ≠ .ok v
  | .panic => True
  | .call _ k => ∀ r, (k r).Fails
  | .clone k => k.Fails
  | .drop k => k.Fails
  | .lend k => k.Fails
  | .reclaim k => k.Fails

/-- Once a repository has answered with an error, it fails. -/
def Heeds : Closure α → Prop
  | .ret _ => True
  | .panic => True
  | .call _ k => (∀ e, (k (.error e)).Fails) ∧ ∀ v, (k (.ok v)).Heeds
  | .clone k => k.Heeds
  | .drop k => k.Heeds
  | .lend k => k.Heeds
  | .reclaim k => k.Heeds

/-- A program that passes no error over and does not touch the references to the context. -/
structure Strict (f : Closure α) : Prop where
  makes : f.Makes fun _ => True
  heeds : f.Heeds

theorem Fails.bind {f : Closure α} (hf : f.Fails) (g : α → Closure β) : (f.bind g).Fails := by
  induction f with
  | ret r =>
    cases r with
    | ok v => exact absurd rfl (hf v)
    | error e => intro v h; cases h
  | panic => trivial
  | call c k ih => exact fun r => ih r (hf r)
  | clone k ih | drop k ih | lend k ih | reclaim k ih => exact ih hf

theorem Heeds.bind {f : Closure α} {g : α → Closure β} (hf : f.Heeds) (hg : ∀ v, (g v).Heeds) :
    (f.bind g).Heeds := by
  induction f with
  | ret r =>
    cases r with
    | ok v => exact hg v
    | error e => trivial
  | panic => trivial
  | call c k ih => exact ⟨fun e => (hf.1 e).bind g, fun v => ih _ (hf.2 v)⟩
  | clone k ih | drop k ih | lend k ih | reclaim k ih => exact ih hf

theorem strict_ret (r : Except Error α) : (ret r).Strict := ⟨trivial, trivial⟩

theorem strict_await (c : RepoCall) : (await c).Strict where
  makes := makes_await trivial
  heeds := ⟨fun e v h => (by cases h), fun _ => trivial⟩

theorem Strict.bind {f : Closure α} {g : α → Closure β} (hf : f.Strict) (hg : ∀ v, (g v).Strict) :
    (f.bind g).Strict :=
  ⟨hf.makes.bind fun v => (hg v).makes, hf.heeds.bind fun v => (hg v).heeds⟩

end Closure

/-- What `create_order` does in its transaction is written with `?`. -/
theorem createOrderBody_strict (p : BuildProfile) (order : Order) : (createOrderBody p order).Strict := by
  refine (Closure.strict_await _).bind fun found => ?_
  refine Closure.Strict.bind (by cases found <;> exact Closure.strict_ret _) fun inventory => ?_
  refine (Closure.strict_ret _).bind fun amount => ?_
  refine Closure.Strict.bind ?_ fun inventory' => (Closure.strict_await _).bind fun _ => Closure.strict_await _
  unfold decreased
  split
  · exact Closure.strict_ret _
  · exact Closure.strict_ret _
  · exact ⟨trivial, trivial⟩

/-! ## Two transactions with the same view -/

/-- Both are aborted, or both are active and see the same rows. -/
structure SameView (db : Db) (tx : PgTx) (db' : Db) (tx' : PgTx) : Prop where
  aborted : tx.aborted = tx'.aborted
  sees : tx.aborted = false → tx.sees db = tx'.sees db'

section
variable {cfg : Config} {db db' : Db} {tx tx' : PgTx}

theorem SameView.abort (db db' : Db) (tx tx' : PgTx) (free : Bool) :
    SameView db (tx.abort free) db' (tx'.abort free) where
  aborted := by simp only [Tx.abort_aborted]
  sees h := by simp only [Tx.abort_aborted, Bool.true_eq_false] at h

theorem SameView.write (h : SameView db tx db' tx') (k : Key) (row : Row) :
    SameView db (tx.write k row) db' (tx'.write k row) where
  aborted := h.aborted
  sees ha := by rw [Tx.sees_write, Tx.sees_write, h.sees ha]

theorem SameView.lock (h : SameView db tx db' tx') (k : Key) : SameView db (tx.lock k) db' (tx'.lock k) :=
  ⟨h.aborted, h.sees⟩

theorem SameView.commit (h : SameView db tx db' tx') (ha : tx.aborted = false) : tx.commit db = tx'.commit db' := by
  rw [Tx.commit_of_active ha, Tx.commit_of_active (h.aborted ▸ ha), h.sees ha]

theorem SameView.exec (h : SameView db tx db' tx') (ha : tx.aborted = false) (free : Bool) (a : Access) :
    (a.exec free db tx).1 = (a.exec free db' tx').1 ∧
      SameView db (a.exec free db tx).2 db' (a.exec free db' tx').2 := by
  have hs := congrFun (h.sees ha)
  cases a with
  | read key columns forUpdate =>
    simp only [Access.exec, hs key]
    cases tx'.sees db' key with
    | none => exact ⟨rfl, h⟩
    | some row =>
      cases forUpdate with
      | false => exact ⟨rfl, h⟩
      | true => exact ⟨rfl, h.lock key⟩
  | insert key row =>
    simp only [Access.exec, hs key]
    cases tx'.sees db' key with
    | some _ => exact ⟨rfl, .abort db db' tx tx' free⟩
    | none => exact ⟨rfl, h.write key row⟩
  | update key set =>
    simp only [Access.exec, hs key]
    cases tx'.sees db' key with
    | none => exact ⟨rfl, h⟩
    | some row => exact ⟨rfl, h.write key _⟩

/-- A call is answered alike in both. -/
theorem SameView.call (cfg : Config) (h : SameView db tx db' tx') (fault : Option PgError) (c : RepoCall) :
    (callRepo cfg db tx fault c).1 = (callRepo cfg db' tx' fault c).1 ∧
      SameView db (callRepo cfg db tx fault c).2 db' (callRepo cfg db' tx' fault c).2 := by
  cases fault with
  | some e => simpa only [call_fault, true_and] using .abort db db' tx tx' cfg.freeOnAbort
  | none =>
    cases ha : tx.aborted with
    | true => simpa only [call_aborted ha, call_aborted (h.aborted ▸ ha), true_and] using h
    | false =>
      have ha' : tx'.aborted = false := h.aborted ▸ ha
      cases hp : (cfg.backend.method c).stmt.plan cfg.catalog with
      | error e =>
        simp only [callRepo, Stmt.exec, ha, ha', hp, Bool.false_eq_true, if_false, true_and]
        exact .abort db db' tx tx' cfg.freeOnAbort
      | ok a =>
        obtain ⟨hr, hview⟩ := h.exec ha cfg.freeOnAbort a
        rw [call_of_plan hp ha, call_of_plan hp ha', hr]
        exact ⟨rfl, hview⟩

/-- An access that succeeds leaves its transaction as active as it was. -/
theorem Access.exec_aborted {free : Bool} {a : Access} {r : SqlResult} (h : (a.exec free db tx).1 = .ok r) :
    (a.exec free db tx).2.aborted = tx.aborted := by
  cases a with
  | read key columns forUpdate =>
    cases hs : tx.sees db key with
    | none => simp only [exec, hs]
    | some row => cases forUpdate <;> simp [exec, hs]
  | insert key row =>
    cases hs : tx.sees db key with
    | some _ => simp only [exec, hs] at h; cases h
    | none => simp only [exec, hs, Tx.write_aborted]
  | update key set =>
    cases hs : tx.sees db key with
    | none => simp only [exec, hs]
    | some row => simp only [exec, hs, Tx.write_aborted]

/-- A transaction in which a call has been answered with `Ok` is active. -/
theorem active_of_answered {fault : Option PgError} {c : RepoCall} {v : c.Reply} (ha : tx.aborted = false)
    (h : (callRepo cfg db tx fault c).1 = .ok v) : (callRepo cfg db tx fault c).2.aborted = false := by
  cases fault with
  | some e => rw [call_fault] at h; cases h
  | none =>
    cases hp : (cfg.backend.method c).stmt.plan cfg.catalog with
    | error e =>
      simp only [callRepo, Stmt.exec, ha, hp, decode_error, Bool.false_eq_true, if_false] at h
      cases h
    | ok a =>
      rw [call_of_plan hp ha] at h ⊢
      cases hr : (a.exec cfg.freeOnAbort db tx).1 with
      | error e => simp only [hr, decode_error] at h; cases h
      | ok r => exact (Access.exec_aborted hr).trans ha

end

/-! ## The run of a closure -/

/-- The failures that are left after `n` statements. -/
def Faults.after (faults : Faults) (n : Nat) : Faults := { faults with stmt := fun k => faults.stmt (n + k) }

/-- The failures of the statements. -/
def Faults.quiet (faults : Faults) : Faults := { faults with begin := .none, commit := .none }

section
variable {cfg : Config} {db db' : Db} {faults faults' : Faults}

/-- In an `async move` block a program runs as it does without, and the captured context is gone at its end. -/
theorem drive_moved {f : Closure α} (hf : f.Makes fun _ => True) (calls : Nat) (tx : PgTx) :
    f.moved.drive cfg faults db .given calls tx = f.drive cfg faults db ⟨0, 0⟩ calls tx := by
  induction f generalizing calls tx with
  | ret r => rfl
  | panic => rfl
  | call c k ih => simp only [Closure.moved, Closure.drive, ih _ (hf.2 _)]
  | clone k | drop k | lend k | reclaim k => cases hf

/-- While a closure runs, only statements can fail. -/
theorem drive_quiet (f : Closure α) (refs : Refs) (calls : Nat) (tx : PgTx) :
    f.drive cfg faults.quiet db refs calls tx = f.drive cfg faults db refs calls tx := by
  induction f generalizing refs calls tx with
  | ret r => rfl
  | panic => rfl
  | call c k ih =>
    have hstmt : faults.quiet.stmt = faults.stmt := rfl
    simp only [Closure.drive, hstmt, ih]
  | clone k ih | drop k ih | lend k ih | reclaim k ih => exact ih _ calls tx

/-- A program that is run on its own ends with its result, or panics. -/
theorem drive_makes (cfg : Config) (faults : Faults) (db : Db) {f : Closure α} (hf : f.Makes fun _ => True)
    (calls : Nat) (tx : PgTx) :
    (∃ r, (f.drive cfg faults db ⟨0, 0⟩ calls tx).ended = .ready r 0) ∨
      (f.drive cfg faults db ⟨0, 0⟩ calls tx).ended = .panicked 0 := by
  induction f generalizing calls tx with
  | ret r => exact .inl ⟨r, rfl⟩
  | panic => exact .inr rfl
  | call c k ih => exact ih _ (hf.2 _) (calls + 1) _
  | clone k | drop k | lend k | reclaim k => cases hf

/-- With the same view of the rows and the same failures to come, a closure does the same. -/
theorem drive_view (cfg : Config) (f : Closure α) (refs : Refs) {calls calls' : Nat} {tx tx' : PgTx}
    (h : SameView db tx db' tx') (hst : ∀ k, faults.stmt (calls + k) = faults'.stmt (calls' + k)) :
    (f.drive cfg faults db refs calls tx).ended = (f.drive cfg faults' db' refs calls' tx').ended ∧
      (f.drive cfg faults db refs calls tx).exchanges = (f.drive cfg faults' db' refs calls' tx').exchanges ∧
      SameView db (f.drive cfg faults db refs calls tx).tx db' (f.drive cfg faults' db' refs calls' tx').tx := by
  induction f generalizing refs calls calls' tx tx' with
  | ret r => exact ⟨rfl, rfl, h⟩
  | panic => exact ⟨rfl, rfl, h⟩
  | call c k ih =>
    obtain ⟨hr, hview⟩ := h.call cfg (faults.stmt calls) c
    have hfault : faults.stmt calls = faults'.stmt calls' := hst 0
    have hrest : ∀ k, faults.stmt (calls + 1 + k) = faults'.stmt (calls' + 1 + k) := fun k => by
      rw [Nat.add_assoc, Nat.add_assoc]
      exact hst (1 + k)
    rw [hfault] at hr hview
    simp only [Closure.drive, hfault, hr]
    obtain ⟨hended, hexchanges, htx⟩ := ih _ _ hview hrest
    exact ⟨hended, by rw [hexchanges], htx⟩
  | clone k ih | drop k ih | lend k ih | reclaim k ih => exact ih _ h hst

/-- A program that fails does not end with `Ok`. -/
theorem drive_fails {f : Closure α} (hf : f.Fails) (refs : Refs) (calls : Nat) (tx : PgTx) (v : α) (n : Nat) :
    (f.drive cfg faults db refs calls tx).ended ≠ .ready (.ok v) n := by
  induction f generalizing refs calls tx with
  | ret r =>
    intro h
    cases h
    exact hf v rfl
  | panic => rintro ⟨⟩
  | call c k ih => exact ih _ (hf _) refs (calls + 1) _
  | clone k ih | drop k ih | lend k ih | reclaim k ih => exact ih hf _ calls tx

/-- Where a program that passes no error over has ended with `Ok`, its transaction is active. -/
theorem drive_active {f : Closure α} (hf : f.Heeds) {refs : Refs} {calls : Nat} {tx : PgTx} (ha : tx.aborted = false)
    {v : α} {n : Nat} (h : (f.drive cfg faults db refs calls tx).ended = .ready (.ok v) n) :
    (f.drive cfg faults db refs calls tx).tx.aborted = false := by
  induction f generalizing refs calls tx with
  | ret r => exact ha
  | panic => cases h
  | call c k ih =>
    cases hr : (callRepo cfg db tx (faults.stmt calls) c).1 with
    | error e =>
      simp only [Closure.drive, hr] at h
      exact absurd h (drive_fails (hf.1 e) _ _ _ _ _)
    | ok reply =>
      simp only [Closure.drive, hr] at h ⊢
      exact ih _ (hf.2 reply) (active_of_answered ha hr) h
  | clone k ih | drop k ih | lend k ih | reclaim k ih => exact ih hf ha h

/-- `f.await?` has ended with `Ok`: the program goes on in the same transaction. -/
theorem drive_bind_ok {f : Closure α} (g : α → Closure β) (hf : f.Makes fun _ => True) {calls : Nat} {tx : PgTx}
    {v : α} (h : (f.drive cfg faults db ⟨0, 0⟩ calls tx).ended = .ready (.ok v) 0) :
    ((f.bind g).drive cfg faults db ⟨0, 0⟩ calls tx).ended =
        ((g v).drive cfg faults db ⟨0, 0⟩ (calls + (f.drive cfg faults db ⟨0, 0⟩ calls tx).exchanges.length)
          (f.drive cfg faults db ⟨0, 0⟩ calls tx).tx).ended ∧
      ((f.bind g).drive cfg faults db ⟨0, 0⟩ calls tx).tx =
        ((g v).drive cfg faults db ⟨0, 0⟩ (calls + (f.drive cfg faults db ⟨0, 0⟩ calls tx).exchanges.length)
          (f.drive cfg faults db ⟨0, 0⟩ calls tx).tx).tx := by
  induction f generalizing calls tx with
  | ret r =>
    cases h
    exact ⟨rfl, rfl⟩
  | panic => cases h
  | call c k ih =>
    have hrest := ih _ (hf.2 _) h
    rw [Nat.add_assoc, Nat.add_comm 1] at hrest
    exact hrest
  | clone k | drop k | lend k | reclaim k => cases hf

/-- The program ends where `f.await?` has ended otherwise. -/
theorem drive_bind_failed (cfg : Config) (faults : Faults) (db : Db) {f : Closure α} (g : α → Closure β)
    (hf : f.Makes fun _ => True) (calls : Nat) (tx : PgTx) :
    (∀ e, (f.drive cfg faults db ⟨0, 0⟩ calls tx).ended = .ready (.error e) 0 →
        ((f.bind g).drive cfg faults db ⟨0, 0⟩ calls tx).ended = .ready (.error e) 0) ∧
      ((f.drive cfg faults db ⟨0, 0⟩ calls tx).ended = .panicked 0 →
        ((f.bind g).drive cfg faults db ⟨0, 0⟩ calls tx).ended = .panicked 0) := by
  induction f generalizing calls tx with
  | ret r =>
    refine ⟨fun e h => ?_, fun h => ?_⟩
    · cases h
      rfl
    · cases h
  | panic => exact ⟨fun e h => (by cases h), fun _ => rfl⟩
  | call c k ih => exact ih _ (hf.2 _) (calls + 1) _
  | clone k | drop k | lend k | reclaim k => cases hf

end

/-! ## Several programs -/

/-- One program after the other in one transaction, each with the value of the last one. -/
def chain : List (α → Closure α) → α → Closure α
  | [], v => .ret (.ok v)
  | f :: fs, v => (f v).bind (chain fs)

/-- `transaction(f).await?` for one program after the other, each with the value of the last one. -/
def eachInTurn (cfg : Config) : Faults → List (α → Closure α) → α → Db → Phase α × Db
  | _, [], v, db => (.returned (.ok v) none, db)
  | faults, f :: fs, v, db =>
    match transaction cfg faults (f v).moved db with
    | (.returned (.ok w) none, db') =>
      eachInTurn cfg (faults.after ((f v).moved.drive cfg faults db .given 0 .fresh).exchanges.length) fs w db'
    | ended => ended

/-- The end of a block that has let go of its context, when the server does not fail at it. -/
def settled (ended : Polled α) (tx : PgTx) (db : Db) : Phase α × Db :=
  match ended with
  | .ready (.ok v) _ => (.returned (.ok v) none, tx.commit db)
  | .ready (.error e) _ => (.returned (.error e) none, db)
  | .pending _ _ _ | .panicked _ => (.dropped none, db)

/-- One block for the programs, started on the rows `first`, next to a block each on `db`: the same
answer; with `Ok` the same rows; otherwise the one block leaves the rows as they were at first, the
blocks in turn what the programs before the failing one have made of them. -/
structure OneOrEach (cfg : Config) (faults : Faults) (fs : List (α → Closure α)) (v : α) (first db : Db)
    (one : Phase α × Db) : Prop where
  answer : one.1 = (eachInTurn cfg faults fs v db).1
  rows : ∀ w, one.1 = .returned (.ok w) none → one.2 = (eachInTurn cfg faults fs v db).2
  undone : (∀ w, one.1 ≠ .returned (.ok w) none) → one.2 = first
  kept : (∀ w, one.1 ≠ .returned (.ok w) none) → ∃ before f after w, fs = before ++ f :: after ∧
    eachInTurn cfg faults before v db = (.returned (.ok w) none, (eachInTurn cfg faults fs v db).2)

section
variable {cfg : Config} {db : Db} {faults : Faults}

theorem transaction_settled (cfg : Config) (db : Db) {f : Closure α} (hf : f.Makes fun _ => True)
    (hbegin : faults.begin = none) (hcommit : faults.commit = none) : transaction cfg faults f.moved db =
      settled (f.drive cfg faults db ⟨0, 0⟩ 0 .fresh).ended (f.drive cfg faults db ⟨0, 0⟩ 0 .fresh).tx db := by
  unfold transaction
  simp only [hbegin, drive_moved hf]
  rcases drive_makes cfg faults db hf 0 .fresh with ⟨r, hr⟩ | hr
  · rw [hr]
    cases r with
    | ok v => simp only [hcommit, DbContext.commit]; rfl
    | error e => simp only [settled, DbContext.rollback_rows]
  · rw [hr]
    rfl

/-- The first program fails: so do both ways, and nothing has been committed. -/
theorem oneOrEach_failed {f : α → Closure α} {fs : List (α → Closure α)} {v : α} {first : Db} {ended : Phase α}
    (htx : transaction cfg faults (f v).moved db = (ended, db)) (hne : ∀ w, ended ≠ .returned (.ok w) none) :
    OneOrEach cfg faults (f :: fs) v first db (ended, first) := by
  have heach : eachInTurn cfg faults (f :: fs) v db = (ended, db) := by
    unfold eachInTurn
    rw [htx]
    split
    · rename_i w db' h
      cases h
      exact absurd rfl (hne w)
    · rfl
  refine ⟨by rw [heach], fun w h => absurd h (hne w), fun _ => rfl, fun _ => ⟨[], f, fs, v, rfl, ?_⟩⟩
  rw [heach]
  rfl

/-- The first program is answered with `Ok`: both ways go on with the rest. -/
theorem OneOrEach.cons {f : α → Closure α} {fs : List (α → Closure α)} {v w : α} {first db' : Db}
    {one : Phase α × Db} (htx : transaction cfg faults (f v).moved db = (.returned (.ok w) none, db'))
    (h : OneOrEach cfg (faults.after ((f v).moved.drive cfg faults db .given 0 .fresh).exchanges.length) fs w first db'
      one) : OneOrEach cfg faults (f :: fs) v first db one := by
  have heach : ∀ rest, eachInTurn cfg faults (f :: rest) v db =
      eachInTurn cfg (faults.after ((f v).moved.drive cfg faults db .given 0 .fresh).exchanges.length) rest w db' :=
    fun rest => by
      conv => lhs; unfold eachInTurn
      rw [htx]
  refine ⟨by rw [heach, h.answer], fun u hu => by rw [heach, h.rows u hu], h.undone, fun hne => ?_⟩
  obtain ⟨before, g, after, u, hfs, hbefore⟩ := h.kept hne
  refine ⟨f :: before, g, after, u, by rw [hfs]; rfl, ?_⟩
  rw [heach, heach, hbefore]

/-- The programs in a transaction that sees the rows `db'`, next to a block each on these rows. -/
theorem chain_oneOrEach {fs : List (α → Closure α)} (hfs : ∀ f ∈ fs, ∀ v, (f v).Strict) {faults' : Faults}
    (hbegin : faults'.begin = none) (hcommit : faults'.commit = none) {db' : Db} {tx : PgTx} {calls : Nat}
    (h : SameView db tx db' .fresh) (hst : ∀ k, faults.stmt (calls + k) = faults'.stmt k) (v : α) :
    OneOrEach cfg faults' fs v db db' (settled ((chain fs v).drive cfg faults db ⟨0, 0⟩ calls tx).ended
      ((chain fs v).drive cfg faults db ⟨0, 0⟩ calls tx).tx db) := by
  induction fs generalizing v db' tx calls faults' with
  | nil => exact ⟨rfl, fun _ _ => h.commit h.aborted, fun hne => absurd rfl (hne v), fun hne => absurd rfl (hne v)⟩
  | cons f fs ih =>
    obtain ⟨hmakes, hheeds⟩ := hfs f List.mem_cons_self v
    have hst' : ∀ k, faults.stmt (calls + k) = faults'.stmt (0 + k) := fun k => by rw [Nat.zero_add, hst]
    obtain ⟨hended, hcalls, hview⟩ := drive_view cfg (f v) ⟨0, 0⟩ h hst'
    have htx := transaction_settled cfg db' hmakes hbegin hcommit
    obtain ⟨herror, hpanic⟩ := drive_bind_failed cfg faults db (chain fs) hmakes calls tx
    rcases drive_makes cfg faults db hmakes calls tx with ⟨r, hr⟩ | hr
    · cases r with
      | ok w =>
        -- the two transactions are active here, so what one sees the other commits
        have hactive := drive_active hheeds h.aborted hr
        have hnext : SameView db ((f v).drive cfg faults db ⟨0, 0⟩ calls tx).tx
            (((f v).drive cfg faults' db' ⟨0, 0⟩ 0 .fresh).tx.commit db') .fresh := by
          refine ⟨hactive, fun ha => ?_⟩
          rw [hview.sees ha, Tx.sees_fresh, Tx.commit_of_active (hview.aborted ▸ ha)]
        rw [← hended, hr] at htx
        have hrest : ∀ n k, faults.stmt (calls + n + k) = (faults'.after n).stmt k := fun n k => by
          rw [Nat.add_assoc, hst]
          rfl
        obtain ⟨hone, honeTx⟩ := drive_bind_ok (chain fs) hmakes hr
        refine OneOrEach.cons htx ?_
        rw [drive_moved hmakes, ← hcalls]
        simp only [chain, hone, honeTx]
        refine ih (fun g hg => hfs g (List.mem_cons_of_mem f hg)) ?_ ?_ hnext (hrest _) w
        · exact hbegin
        · exact hcommit
      | error e =>
        rw [← hended, hr] at htx
        simp only [chain, herror e hr]
        exact oneOrEach_failed htx fun w hw => by cases hw
    · rw [← hended, hr] at htx
      simp only [chain, hpanic hr]
      exact oneOrEach_failed htx fun w hw => by cases hw

theorem chain_makes {ok : RepoCall → Prop} {fs : List (α → Closure α)} (hfs : ∀ f ∈ fs, ∀ v, (f v).Makes ok)
    (v : α) : (chain fs v).Makes ok := by
  induction fs generalizing v with
  | nil => trivial
  | cons f fs ih =>
    exact (hfs f List.mem_cons_self v).bind fun w => ih (fun g hg => hfs g (List.mem_cons_of_mem f hg)) w

/-- Programs written with `?` in one transaction block, next to a block each: whatever statements fail,
the same answer, with `Ok` the same rows, and otherwise nothing is left of the one block. -/
theorem one_block_or_each (cfg : Config) (faults : Faults) (hbegin : faults.begin = none)
    (hcommit : faults.commit = none) (fs : List (α → Closure α)) (hfs : ∀ f ∈ fs, ∀ v, (f v).Strict) (v : α)
    (db : Db) : OneOrEach cfg faults fs v db db (transaction cfg faults (chain fs v).moved db) := by
  rw [transaction_settled cfg db (chain_makes (fun f hf w => (hfs f hf w).makes) v) hbegin hcommit]
  exact chain_oneOrEach hfs hbegin hcommit ⟨rfl, fun _ => rfl⟩ (fun k => by rw [Nat.zero_add]) v

end

/-! ## Batches next to one another -/

/-- Programs that a caller runs in one transaction block. -/
structure Batch (α : Type) where
  programs : List (α → Closure α)
  first : α
  faults : Faults

namespace Batch

def job (b : Batch α) : Job α := ⟨.ok (chain b.programs b.first).moved, b.faults⟩

/-- A block for each program, whose BEGIN and COMMIT do not fail, and all of it taken back where a program
fails, or BEGIN or COMMIT of the one block do. -/
def allOrNothing (cfg : Config) (b : Batch α) (db : Db) : Phase α × Db :=
  match b.faults.begin with
  | some e => (.returned (.error (cfg.backend.driverError e)) none, db)
  | none =>
    match eachInTurn cfg b.faults.quiet b.programs b.first db with
    | (.returned (.ok v) none, db') =>
      match b.faults.commit with
      | some e => (.returned (.error (cfg.backend.driverError e)) none, db)
      | none => (.returned (.ok v) none, db')
    | (ended, _) => (ended, db)

/-- The programs are written with `?` and lock what they read. -/
structure Locking (items : ItemId → Prop) (b : Batch α) : Prop where
  strict : ∀ f ∈ b.programs, ∀ v, (f v).Strict
  locking : ∀ f ∈ b.programs, ∀ v, (f v).Makes (·.locking items)

variable {cfg : Config} {items : ItemId → Prop} {b : Batch α}

theorem Locking.runAlone (h : b.Locking items) (db : Db) : b.job.runAlone cfg db = b.allOrNothing cfg db := by
  have hmakes := chain_makes (fun f hf w => (h.strict f hf w).makes) b.first
  have hbegin : b.faults.quiet.begin = none := rfl
  have hcommit : b.faults.quiet.commit = none := rfl
  have hquiet := transaction_settled cfg db hmakes hbegin hcommit
  have hone := one_block_or_each cfg b.faults.quiet rfl rfl b.programs h.strict b.first db
  have halone : b.job.runAlone cfg db = transaction cfg b.faults (chain b.programs b.first).moved db := rfl
  rw [drive_quiet] at hquiet
  rw [halone]
  unfold transaction allOrNothing
  cases b.faults.begin with
  | some e => rfl
  | none =>
    simp only [drive_moved hmakes]
    rcases drive_makes cfg b.faults db hmakes 0 .fresh with ⟨r, hr⟩ | hr
    · rw [hr] at hquiet
      cases r with
      | ok v =>
        have heach : eachInTurn cfg b.faults.quiet b.programs b.first db = (.returned (.ok v) none, _) :=
          Prod.ext (by rw [← hone.answer, hquiet]; rfl) (hone.rows v (by rw [hquiet]; rfl)).symm
        rw [hr, heach, hquiet]
        cases b.faults.commit <;> rfl
      | error e =>
        have heach : eachInTurn cfg b.faults.quiet b.programs b.first db = (.returned (.error e) none, _) :=
          Prod.ext (by rw [← hone.answer, hquiet]; rfl) rfl
        rw [hr, heach]
        cases b.faults.rollback <;> rfl
    · rw [hr] at hquiet
      have heach : eachInTurn cfg b.faults.quiet b.programs b.first db = (.dropped none, _) :=
        Prod.ext (by rw [← hone.answer, hquiet]; rfl) rfl
      rw [hr, heach]
      rfl

theorem Locking.keepsTo (h : b.Locking items) : b.job.KeepsTo (·.locking items) := by
  intro f hf
  cases hf
  exact (chain_makes h.locking b.first).moved

end Batch

theorem one_piece : (1 : UInt32) ≠ 0 := by decide

theorem two_pieces : (2 : UInt32) ≠ 0 := by decide

/-- Two orders for one item, with `create_order`'s program for each. -/
def basket (id : Uuid) : Batch Order where
  programs := [fun _ => createOrderBody .dev ⟨⟨id⟩, ⟨7⟩, ⟨2, two_pieces⟩⟩,
    fun order => createOrderBody .dev ⟨⟨BitVec.add order.id.uuid 1⟩, ⟨7⟩, ⟨1, one_piece⟩⟩]
  first := ⟨⟨id⟩, ⟨7⟩, ⟨2, two_pieces⟩⟩
  faults := .none

theorem basket_strict (id : Uuid) : ∀ f ∈ (basket id).programs, ∀ v, (f v).Strict := by
  intro f hf v
  simp only [basket, List.mem_cons, List.not_mem_nil, or_false] at hf
  rcases hf with rfl | rfl
  · exact createOrderBody_strict _ _
  · exact createOrderBody_strict _ _

/-- The second order finds too little left of the stock: nothing remains of the first. -/
theorem one_block_or_each_basket : OneOrEach (Makefile.config .seaOrm) .none (basket 4).programs (basket 4).first
    ((stocked.setStock ⟨7⟩ 2).store .seaOrm) ((stocked.setStock ⟨7⟩ 2).store .seaOrm)
    (transaction (Makefile.config .seaOrm) .none (chain (basket 4).programs (basket 4).first).moved
      ((stocked.setStock ⟨7⟩ 2).store .seaOrm)) :=
  one_block_or_each _ _ rfl rfl _ (basket_strict 4) _ _

namespace State

variable {ι : Type} [DecidableEq ι] [Fintype ι]

/-- **Batches of programs are all or nothing, next to each other.** In every run of transaction blocks of
several programs each, however far it has come: the blocks that have returned did so, and left the
rows, as if in some order the programs of each had been run alone, a block for each program, and all
of it taken back where one of them fails or the one block cannot begin or commit. -/
theorem batches_serializable {cfg : Config} {batches : ι → Batch α} {items : ItemId → Prop} {db : Db}
    {as : List (Action ι)} {s : State ι α} (hd : Deployed cfg.catalog cfg.backend)
    (hb : ∀ i, (batches i).Locking items) (h : run (step cfg fun i => (batches i).job) (init db) as = some s) :
    ∃ order : List ι, order.Nodup ∧ (∀ i, i ∈ order ↔ ∃ r, s.phase i = .returned r none) ∧
      Parties.after (fun i d => (batches i).allOrNothing cfg d) db order = s.committed ∧
      ∀ i ∈ order, ∃ before rest, order = before ++ i :: rest ∧
        ((batches i).allOrNothing cfg
          (Parties.after (fun i d => (batches i).allOrNothing cfg d) db before)).1 = s.phase i := by
  obtain ⟨ds, hds, -⟩ := ordered_run hd (fun i => (hb i).keepsTo) h
  obtain ⟨hstore, hplace⟩ := hds.alone
  have halone : (fun i d => (batches i).job.runAlone cfg d) = fun i d => (batches i).allOrNothing cfg d :=
    funext fun i => funext (hb i).runAlone
  rw [halone] at hstore hplace
  refine ⟨_, hds.placed.nodup.filter _, hds.mem_returned, hstore, fun i hi => ?_⟩
  obtain ⟨before, rest, horder, hphase⟩ := hplace i hi
  exact ⟨before, rest, horder, by rw [← (hb i).runAlone, hphase]⟩

end State

/-- Two baskets at once, for an item of which there is enough for one. -/
def baskets : Bool → Batch Order
  | false => basket 0
  | true => basket 2

def shoppers : List (Action Bool) :=
  .poll false :: .poll true :: (List.replicate 7 (.poll false) ++ List.replicate 5 (.poll true))

theorem shoppers_run : (run (State.step (Makefile.config .sqlx) fun i => (baskets i).job)
    (.init (stocked.store .sqlx)) shoppers).isSome := by decide +kernel

theorem basket_locking (id : Uuid) : (basket id).Locking fun _ => True where
  strict := basket_strict id
  locking f hf v := by
    simp only [basket, List.mem_cons, List.not_mem_nil, or_false] at hf
    rcases hf with rfl | rfl
    · exact createOrderBody_makes _ _
    · exact createOrderBody_makes _ _

theorem batches_serializable_shoppers : ∃ order : List Bool, order.Nodup ∧
    (∀ i, i ∈ order ↔ ∃ r, (Option.get _ shoppers_run).phase i = .returned r none) ∧
    Parties.after (fun i d => (baskets i).allOrNothing (Makefile.config .sqlx) d) (stocked.store .sqlx) order =
      (Option.get _ shoppers_run).committed := by
  have hb : ∀ i, (baskets i).Locking fun _ => True := fun i => by
    cases i
    · exact basket_locking 0
    · exact basket_locking 2
  obtain ⟨order, hn, hmem, hdb, -⟩ := State.batches_serializable (Makefile.deployed .sqlx) hb
    (Option.some_get shoppers_run).symm
  exact ⟨order, hn, hmem, hdb⟩

end TransactionManager
