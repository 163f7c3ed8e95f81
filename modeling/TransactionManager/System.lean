import TransactionManager.Lib.Run
import TransactionManager.UseCase
import Mathlib.Data.Fintype.Basic
/-
# Concurrent transaction blocks on one server

`ι` callers, each running its own `Job`. One action polls one caller's future past its
current await point, drops a future (`cancel`), or lets the holder of a context that has
outlived its block use it (`holder`). A poll is refused while the statement it
waits for has to wait for another transaction's lock or pending row.
-/

namespace TransactionManager

open RowStore Run

@[ext] structure State (ι α : Type) where
  committed : Db
  phase : ι → Phase α

/-- What the holder of an escaped clone can do: call repositories with it, clone it, drop
it, or `Arc::try_unwrap` it and consume the context. -/
inductive HolderAct where
  | call (c : RepoCall) (fault : Option PgError)
  | clone
  | drop
  | commit (fault : Option PgError)
  | rollback (fault : Option PgError)

inductive Action (ι : Type) where
  | poll (i : ι)
  | cancel (i : ι)
  | holder (i : ι) (act : HolderAct)

def Action.caller {ι : Type} : Action ι → ι
  | .poll i => i
  | .cancel i => i
  | .holder i _ => i

/-- The escaped context and the committed rows after a holder's act. `try_unwrap` on a
context with other clones gives the clone back, and dropping the last one rolls back. -/
def Context.act (cfg : Config) (o : Others) (db : Db) (ctx : Context) :
    HolderAct → Option (Option Context × Db)
  | .call c fault =>
    if callWaits cfg o db ctx.tx fault c then none
    else some (some { ctx with tx := (callRepo cfg db ctx.tx fault c).2 }, db)
  | .clone => some (some { ctx with clones := ctx.clones + 1 }, db)
  | .drop =>
    if ctx.clones ≤ 1 then some (none, db) else some (some { ctx with clones := ctx.clones - 1 }, db)
  | .commit fault =>
    if ctx.clones = 1 then some (none, (DbContext.commit cfg fault ctx.tx db).2) else some (some ctx, db)
  | .rollback fault =>
    if ctx.clones = 1 then some (none, (DbContext.rollback cfg fault ctx.tx db).2) else some (some ctx, db)

section Phases
variable {α : Type}

/-- The future exists and has not completed. -/
def Phase.live : Phase α → Bool
  | .returned _ _ => false
  | .dropped _ => false
  | _ => true

/-- The await point is a statement that has to wait. -/
def Phase.waits (cfg : Config) (job : Job α) (o : Others) (db : Db) : Phase α → Bool
  | .awaiting c _ _ calls tx => callWaits cfg o db tx (job.faults.stmt calls) c
  | _ => false

/-- A live future can be polled. -/
theorem Phase.poll_live {p : Phase α} (cfg : Config) (job : Job α) (db : Db) (h : p.live = true) :
    ∃ r, p.poll cfg job db = some r := by
  cases p with
  | created =>
    simp only [poll]
    cases job.start with
    | error e => exact ⟨_, rfl⟩
    | ok f => cases job.faults.begin <;> exact ⟨_, rfl⟩
  | awaiting | committing | rollingBack => exact ⟨_, rfl⟩
  | returned | dropped => cases h

/-- Of a block that is cut short either nothing is left open, or its own transaction. -/
theorem openTx_left (tx : PgTx) (n : Nat) : (Phase.dropped (Context.left tx n) : Phase α).openTx = some tx ∨
    (Phase.dropped (Context.left tx n) : Phase α).openTx = none := by
  cases n with
  | zero => exact .inr rfl
  | succ n => exact .inl rfl

theorem openTx_cancel (p : Phase α) : p.cancel.openTx = p.openTx ∨ p.cancel.openTx = none := by
  cases p with
  | awaiting c k refs calls tx => exact openTx_left tx refs.lent
  | created | committing | rollingBack | returned | dropped => exact .inr rfl

@[simp] theorem cancel_live (p : Phase α) : p.cancel.live = false := by cases p <;> rfl

theorem openTx_escaped {p : Phase α} {ctx : Context} (h : p.escaped = some ctx) : p.openTx = some ctx.tx := by
  cases p with
  | returned r escaped => cases h; rfl
  | dropped escaped => cases h; rfl
  | created | awaiting | committing | rollingBack => cases h

/-- A context outlives its block only. -/
theorem live_escaped {p : Phase α} {ctx : Context} (h : p.escaped = some ctx) : p.live = false := by
  cases p with
  | returned | dropped => rfl
  | created | awaiting | committing | rollingBack => cases h

@[simp] theorem leave_live (p : Phase α) (escaped : Option Context) : (p.leave escaped).live = p.live := by
  cases p <;> rfl

theorem cancel_ne_returned (p : Phase α) (r : Except Error α) (escaped : Option Context) :
    p.cancel ≠ .returned r escaped := by cases p <;> rintro ⟨⟩

theorem of_leave {p : Phase α} {ctx : Context} {escaped escaped' : Option Context} {r : Except Error α}
    (h : p.escaped = some ctx) (hp : p.leave escaped = .returned r escaped') : p = .returned r (some ctx) := by
  cases p with
  | returned r' => cases h; cases hp; rfl
  | created | awaiting | committing | rollingBack | dropped => cases hp

theorem openTx_leave {p : Phase α} {ctx : Context} (h : p.escaped = some ctx) (escaped : Option Context) :
    (p.leave escaped).openTx = escaped.map Context.tx := by
  cases p with
  | returned | dropped => rfl
  | created | awaiting | committing | rollingBack => cases h

theorem openTx_resume (calls : Nat) (tx : PgTx) (p : Polled α) :
    (resume calls tx p).openTx = some tx ∨ (resume calls tx p).openTx = none := by
  match p with
  | .pending c k n => exact .inl rfl
  | .ready (.ok v) 0 => exact .inl rfl
  | .ready (.ok v) (n + 1) => exact .inl rfl
  | .ready (.error e) 0 => exact .inl rfl
  | .ready (.error e) (n + 1) => exact .inl rfl
  | .panicked n => exact openTx_left tx n

theorem resume_ne_created (calls : Nat) (tx : PgTx) (p : Polled α) : resume calls tx p ≠ .created := by
  match p with
  | .pending c k n => rintro ⟨⟩
  | .ready (.ok v) 0 => rintro ⟨⟩
  | .ready (.ok v) (n + 1) => rintro ⟨⟩
  | .ready (.error e) 0 => rintro ⟨⟩
  | .ready (.error e) (n + 1) => rintro ⟨⟩
  | .panicked n => rintro ⟨⟩

/-- What runs between two await points never returns `Ok`: that is left to the COMMIT. -/
theorem resume_ne_ok (calls : Nat) (tx : PgTx) (p : Polled α) (v : α) (escaped : Option Context) :
    resume calls tx p ≠ .returned (.ok v) escaped := by
  match p with
  | .pending c k n => rintro ⟨⟩
  | .ready (.ok v) 0 => rintro ⟨⟩
  | .ready (.ok v) (n + 1) => rintro ⟨⟩
  | .ready (.error e) 0 => rintro ⟨⟩
  | .ready (.error e) (n + 1) => rintro ⟨⟩
  | .panicked n => rintro ⟨⟩

/-! ## Every block comes down to its end -/

/-- One poll later, or a cancellation. -/
inductive Phase.After : Phase α → Phase α → Prop where
  | poll {cfg : Config} {job : Job α} {p p' : Phase α} {db db' : Db} {ev : List (Event α)}
    (h : p.poll cfg job db = some (ev, p', db')) : After p' p
  | cancel {p : Phase α} (h : p.live = true) : After p.cancel p

theorem acc_over {p : Phase α} (h : p.live = false) : Acc Phase.After p := by
  refine ⟨_, fun p' hp' => ?_⟩
  cases p with
  | returned | dropped =>
    cases hp' with
    | poll hp => cases hp
    | cancel hl => cases hl
  | created | awaiting | committing | rollingBack => cases h

theorem acc_committing (v : α) (tx : PgTx) : Acc Phase.After (.committing v tx) := by
  refine ⟨_, fun p' hp' => ?_⟩
  cases hp' with
  | poll hp => cases hp; exact acc_over rfl
  | cancel => exact acc_over rfl

theorem acc_rollingBack (e : Error) (tx : PgTx) : Acc Phase.After (.rollingBack e tx : Phase α) := by
  refine ⟨_, fun p' hp' => ?_⟩
  cases hp' with
  | poll hp => cases hp; exact acc_over rfl
  | cancel => exact acc_over rfl

/-- The induction is on the closure: whatever a call answers, what is left of it is smaller. -/
theorem acc_resume (f : Closure α) (refs : Refs) (calls : Nat) (tx : PgTx) :
    Acc Phase.After (resume calls tx (f.poll refs)) := by
  induction f generalizing refs calls tx with
  | ret r =>
    rw [Closure.poll]
    match r, refs.clones with
    | .ok v, 0 => exact acc_committing v tx
    | .error e, 0 => exact acc_rollingBack e tx
    | .ok _, _ + 1 | .error _, _ + 1 => exact acc_over rfl
  | panic => exact acc_over rfl
  | call c k ih =>
    refine ⟨_, fun p' hp' => ?_⟩
    cases hp' with
    | poll hp => cases hp; exact ih _ _ _ _
    | cancel => exact acc_over rfl
  | clone k ih | drop k ih | lend k ih | reclaim k ih => exact ih _ _ _

theorem after_wf : WellFounded (Phase.After : Phase α → Phase α → Prop) := by
  refine ⟨fun p => ?_⟩
  cases p with
  | created =>
    refine ⟨_, fun p' hp' => ?_⟩
    cases hp' with
    | poll hp =>
      simp only [Phase.poll] at hp
      split at hp
      · cases hp; exact acc_over rfl
      · split at hp
        · cases hp; exact acc_over rfl
        · cases hp; exact acc_resume _ _ _ _
    | cancel => exact acc_over rfl
  | awaiting c k refs calls tx => exact acc_resume (.call c k) refs calls tx
  | committing v tx => exact acc_committing v tx
  | rollingBack e tx => exact acc_rollingBack e tx
  | returned | dropped => exact acc_over rfl

end Phases

namespace State

variable {ι α : Type}

/-- Every caller's future built, none of them polled. -/
def init (db : Db) : State ι α := ⟨db, fun _ => .created⟩

def openTx (s : State ι α) (i : ι) : Option PgTx := (s.phase i).openTx

/-- Row locks exclude each other, written rows are locked, locked rows are there. -/
def Sound (s : State ι α) : Prop := RowStore.Sound s.committed s.openTx

theorem sound_init (db : Db) : (init db : State ι α).Sound := RowStore.Sound.empty db fun _ => rfl

variable [DecidableEq ι]

/-- `i` in phase `p`, the committed rows `db`, everyone else as before. -/
def goto (s : State ι α) (i : ι) (p : Phase α) (db : Db) : State ι α := ⟨db, Function.update s.phase i p⟩

@[simp] theorem goto_committed (s : State ι α) (i : ι) (p : Phase α) (db : Db) : (s.goto i p db).committed = db := rfl
@[simp] theorem goto_phase_self (s : State ι α) (i : ι) (p : Phase α) (db : Db) : (s.goto i p db).phase i = p := by
  simp [goto]
theorem goto_phase_ne (s : State ι α) {i j : ι} (p : Phase α) (db : Db) (h : j ≠ i) :
    (s.goto i p db).phase j = s.phase j := by simp [goto, Function.update_of_ne h]
@[simp] theorem goto_openTx_self (s : State ι α) (i : ι) (p : Phase α) (db : Db) :
    (s.goto i p db).openTx i = p.openTx := by simp [openTx]
theorem goto_openTx_ne (s : State ι α) {i j : ι} (p : Phase α) (db : Db) (h : j ≠ i) :
    (s.goto i p db).openTx j = s.openTx j := by simp [openTx, goto_phase_ne s p db h]

@[simp] theorem goto_goto (s : State ι α) (i : ι) (p p' : Phase α) (db db' : Db) :
    (s.goto i p db).goto i p' db' = s.goto i p' db' := by simp [goto]
@[simp] theorem goto_self (s : State ι α) (i : ι) : s.goto i (s.phase i) s.committed = s := by simp [goto]

variable [Fintype ι]

def others (s : State ι α) (i : ι) : Others where
  locked k := decide (∃ j, j ≠ i ∧ (s.openTx j).any (fun tx => decide (k ∈ tx.locks)) = true)
  written k := decide (∃ j, j ≠ i ∧ (s.openTx j).any (fun tx => (tx.writes k).isSome) = true)

def step (cfg : Config) (jobs : ι → Job α) (s : State ι α) : Action ι → Option (State ι α)
  | .poll i =>
    if (s.phase i).waits cfg (jobs i) (s.others i) s.committed then none
    else ((s.phase i).poll cfg (jobs i) s.committed).map fun r => s.goto i r.2.1 r.2.2
  | .cancel i => if (s.phase i).live then some (s.goto i (s.phase i).cancel s.committed) else none
  | .holder i act =>
    match (s.phase i).escaped with
    | some ctx =>
      (ctx.act cfg (s.others i) s.committed act).map fun q => s.goto i ((s.phase i).leave q.1) q.2
    | none => none

/-- What `i`'s block shows during an action. -/
def events (cfg : Config) (jobs : ι → Job α) (i : ι) (s : State ι α) : Action ι → List (Event α)
  | .poll j => if j = i then (((s.phase i).poll cfg (jobs i) s.committed).map (·.1)).getD [] else []
  | .cancel j => if j = i then [.cancelled (s.phase i).lent] else []
  | .holder _ _ => []

/-- What `i`'s block shows during a schedule. -/
def trace (cfg : Config) (jobs : ι → Job α) (i : ι) : State ι α → List (Action ι) → List (Event α)
  | _, [] => []
  | s, a :: as =>
    match s.step cfg jobs a with
    | none => []
    | some s' => s.events cfg jobs i a ++ s'.trace cfg jobs i as

theorem trace_concat {cfg : Config} {jobs : ι → Job α} {i : ι} {a : Action ι} {s' : State ι α} :
    ∀ {as : List (Action ι)} {s m : State ι α}, run (step cfg jobs) s as = some m → m.step cfg jobs a = some s' →
      trace cfg jobs i s (as ++ [a]) = trace cfg jobs i s as ++ m.events cfg jobs i a
  | [], s, m, h, ha => by
    simp only [run_nil, Option.some.injEq] at h
    subst h
    simp [trace, ha]
  | b :: as, s, m, h, ha => by
    obtain ⟨s₁, hb, hr⟩ := run_cons_some h
    simp only [List.cons_append, trace, hb, trace_concat hr ha, List.append_assoc]

/-- A longer schedule shows no less. -/
theorem trace_monotone (cfg : Config) (jobs : ι → Job α) (i : ι) (a : Action ι) :
    ∀ (as : List (Action ι)) (s : State ι α), trace cfg jobs i s as <+: trace cfg jobs i s (as ++ [a])
  | [], s => List.nil_prefix
  | b :: as, s => by
    simp only [List.cons_append, trace]
    split
    · exact List.nil_prefix
    · rename_i s' _
      exact (List.prefix_append_right_inj _).2 (trace_monotone cfg jobs i a as s')

theorem trace_grows (cfg : Config) (jobs : ι → Job α) (i : ι) (as bs : List (Action ι)) (s : State ι α) :
    trace cfg jobs i s as <+: trace cfg jobs i s (as ++ bs) := by
  induction bs using List.reverseRecOn with
  | nil => rw [List.append_nil]
  | append_singleton bs b ih =>
    rw [← List.append_assoc]
    exact ih.trans (trace_monotone cfg jobs i b (as ++ bs) s)

/-! ## What one action can do -/

/-- Every action is a poll that does not wait, a cancellation of a live future, or the act of
the holder of an escaped context. -/
theorem step_cases {cfg : Config} {jobs : ι → Job α} {s s' : State ι α} {a : Action ι}
    (h : s.step cfg jobs a = some s') :
    (∃ i r, a = .poll i ∧ (s.phase i).waits cfg (jobs i) (s.others i) s.committed = false ∧
      (s.phase i).poll cfg (jobs i) s.committed = some r ∧ s' = s.goto i r.2.1 r.2.2) ∨
    (∃ i, a = .cancel i ∧ (s.phase i).live = true ∧ s' = s.goto i (s.phase i).cancel s.committed) ∨
    (∃ i act ctx q, a = .holder i act ∧ (s.phase i).escaped = some ctx ∧
      ctx.act cfg (s.others i) s.committed act = some q ∧ s' = s.goto i ((s.phase i).leave q.1) q.2) := by
  cases a with
  | poll i =>
    simp only [step] at h
    split at h
    · cases h
    · rename_i hw
      obtain ⟨r, hr, rfl⟩ := Option.map_eq_some_iff.1 h
      exact .inl ⟨i, r, rfl, by simpa using hw, hr, rfl⟩
  | cancel i =>
    simp only [step] at h
    split at h
    · rename_i hl
      cases h
      exact .inr (.inl ⟨i, rfl, hl, rfl⟩)
    · cases h
  | holder i act =>
    simp only [step] at h
    split at h
    · rename_i ctx hp
      obtain ⟨q, hq, rfl⟩ := Option.map_eq_some_iff.1 h
      exact .inr (.inr ⟨i, act, ctx, q, rfl, hp, hq, rfl⟩)
    · cases h

/-- An action moves nobody but its caller. -/
theorem step_phase_ne {cfg : Config} {jobs : ι → Job α} {s s' : State ι α} {a : Action ι}
    (h : s.step cfg jobs a = some s') {j : ι} (hj : j ≠ a.caller) : s'.phase j = s.phase j := by
  obtain ⟨i, r, rfl, -, -, rfl⟩ | ⟨i, rfl, -, rfl⟩ | ⟨i, act, ctx, q, rfl, -, -, rfl⟩ := step_cases h
  all_goals exact goto_phase_ne s _ _ hj

omit [Fintype ι] in
/-- An action of another caller shows nothing of `i`. -/
theorem events_ne {cfg : Config} {jobs : ι → Job α} {i : ι} {s : State ι α} {a : Action ι} (h : i ≠ a.caller) :
    s.events cfg jobs i a = [] := by
  cases a with
  | poll j => exact if_neg (Ne.symm h)
  | cancel j => exact if_neg (Ne.symm h)
  | holder j act => rfl

omit [Fintype ι] in
theorem events_poll {cfg : Config} {jobs : ι → Job α} {i : ι} {s : State ι α} {r : List (Event α) × Phase α × Db}
    (h : (s.phase i).poll cfg (jobs i) s.committed = some r) : s.events cfg jobs i (.poll i) = r.1 := by
  simp [events, h]

omit [Fintype ι] in
theorem events_cancel (i : ι) (s : State ι α) :
    s.events cfg jobs i (.cancel i) = [.cancelled (s.phase i).lent] := if_pos rfl

/-! ## Locks -/

theorem freeFor_of_others {s : State ι α} {i : ι} {k : Key} (h : (s.others i).locked k = false) :
    FreeFor s.openTx i k := by
  intro j tx hj htx hk
  have := of_decide_eq_false h
  exact this ⟨j, hj, by simp [htx, hk]⟩

theorem unwrittenFor_of_others {s : State ι α} {i : ι} {k : Key} (h : (s.others i).written k = false) :
    UnwrittenFor s.openTx i k := by
  intro j tx hj htx
  have := of_decide_eq_false h
  by_contra hw
  exact this ⟨j, hj, by simp [htx, Option.isSome_iff_ne_none, hw]⟩

/-! ## What one action does to the server -/

/-- The transaction of the action's caller and the committed rows after an action: nothing has
changed, the transaction is over, it has begun, it has run one statement that did not have to
wait, or it has been committed. -/
inductive TxStep (cfg : Config) (s : State ι α) (i : ι) : Option PgTx → Db → Prop where
  | keep : TxStep cfg s i (s.openTx i) s.committed
  | close : TxStep cfg s i none s.committed
  | begin : TxStep cfg s i (some .fresh) s.committed
  | call (tx : PgTx) (fault : Option PgError) (c : RepoCall) (htx : s.openTx i = some tx)
      (hw : callWaits cfg (s.others i) s.committed tx fault c = false) :
      TxStep cfg s i (some (callRepo cfg s.committed tx fault c).2) s.committed
  | commit (tx : PgTx) (htx : s.openTx i = some tx) : TxStep cfg s i none (tx.commit s.committed)

section
variable {cfg : Config} {jobs : ι → Job α} {s s' : State ι α}

theorem TxStep.committing {i : ι} {tx : PgTx} (htx : s.openTx i = some tx) (fault : Option PgError) :
    TxStep cfg s i none (DbContext.commit cfg fault tx s.committed).2 := by
  cases fault with
  | some e => exact .close
  | none => exact .commit tx htx

theorem TxStep.rollingBack (i : ι) (tx : PgTx) (fault : Option PgError) :
    TxStep cfg s i none (DbContext.rollback cfg fault tx s.committed).2 := by
  cases fault <;> exact .close

theorem tx_poll {i : ι} {ev : List (Event α)} {p' : Phase α} {db' : Db}
    (hw : (s.phase i).waits cfg (jobs i) (s.others i) s.committed = false)
    (hr : (s.phase i).poll cfg (jobs i) s.committed = some (ev, p', db')) :
    TxStep cfg s i p'.openTx db' := by
  cases hp : s.phase i with
  | created =>
    simp only [hp, Phase.poll] at hr
    cases hs : (jobs i).start with
    | error e => simp only [hs] at hr; cases hr; exact .close
    | ok f =>
      simp only [hs] at hr
      cases hb : (jobs i).faults.begin with
      | some e => simp only [hb] at hr; cases hr; exact .close
      | none =>
        simp only [hb] at hr
        cases hr
        rcases openTx_resume 0 Tx.fresh (f.poll .given) with ho | ho
        · rw [ho]; exact .begin
        · rw [ho]; exact .close
  | awaiting c k n calls tx =>
    simp only [hp, Phase.poll, Option.some.injEq, Prod.mk.injEq] at hr
    obtain ⟨-, rfl, rfl⟩ := hr
    simp only [hp, Phase.waits] at hw
    rcases openTx_resume (calls + 1) (callRepo cfg s.committed tx ((jobs i).faults.stmt calls) c).2
      ((k (callRepo cfg s.committed tx ((jobs i).faults.stmt calls) c).1).poll n) with ho | ho
    · rw [ho]; exact .call tx _ c (by simp [openTx, hp, Phase.openTx]) hw
    · rw [ho]; exact .close
  | committing v tx =>
    simp only [hp, Phase.poll, Option.some.injEq, Prod.mk.injEq] at hr
    obtain ⟨-, rfl, rfl⟩ := hr
    exact .committing (by simp [openTx, hp, Phase.openTx]) _
  | rollingBack e tx =>
    simp only [hp, Phase.poll, Option.some.injEq, Prod.mk.injEq] at hr
    obtain ⟨-, rfl, rfl⟩ := hr
    exact .rollingBack i tx _
  | returned r ctx => simp only [hp, Phase.poll] at hr; cases hr
  | dropped => simp only [hp, Phase.poll] at hr; cases hr

theorem tx_holder {i : ι} {ctx : Context} {act : HolderAct} {q : Option Context × Db}
    (hp : (s.phase i).escaped = some ctx) (hq : ctx.act cfg (s.others i) s.committed act = some q) :
    TxStep cfg s i ((s.phase i).leave q.1).openTx q.2 := by
  rw [openTx_leave hp]
  have htx : s.openTx i = some ctx.tx := openTx_escaped hp
  have hkeep : TxStep cfg s i (some ctx.tx) s.committed := htx ▸ .keep
  cases act with
  | call c fault =>
    simp only [Context.act] at hq
    split at hq
    · cases hq
    · rename_i hw
      cases hq
      exact .call ctx.tx fault c htx (by simpa using hw)
  | clone => cases hq; exact hkeep
  | drop =>
    simp only [Context.act] at hq
    split at hq
    · cases hq; exact .close
    · cases hq; exact hkeep
  | commit fault =>
    simp only [Context.act] at hq
    split at hq
    · cases hq; exact .committing htx fault
    · cases hq; exact hkeep
  | rollback fault =>
    simp only [Context.act] at hq
    split at hq
    · cases hq; exact .rollingBack i ctx.tx fault
    · cases hq; exact hkeep

/-- Every action is a `TxStep` of its caller. -/
theorem step_tx {a : Action ι} (h : s.step cfg jobs a = some s') :
    TxStep cfg s a.caller (s'.openTx a.caller) s'.committed := by
  obtain ⟨i, ⟨ev, p', db'⟩, rfl, hw, hr, rfl⟩ | ⟨i, rfl, -, rfl⟩ | ⟨i, act, ctx, q, rfl, hp, hq, rfl⟩ :=
    step_cases h
  · simpa [Action.caller] using tx_poll hw hr
  · simp only [Action.caller, goto_openTx_self, goto_committed]
    rcases openTx_cancel (s.phase i) with ho | ho
    · rw [ho]; exact .keep
    · rw [ho]; exact .close
  · simpa [Action.caller] using tx_holder hp hq

theorem step_openTx_ne {a : Action ι} (h : s.step cfg jobs a = some s') {j : ι} (hj : j ≠ a.caller) :
    s'.openTx j = s.openTx j := by
  simp only [openTx, step_phase_ne h hj]

theorem sound_step {a : Action ι} (hs : s.Sound) (h : s.step cfg jobs a = some s') : s'.Sound := by
  have hother := fun j (hj : j ≠ a.caller) => step_openTx_ne h hj
  have hstep := step_tx h
  unfold Sound
  generalize ho : s'.openTx a.caller = o, s'.committed = db at hstep
  cases hstep with
  | keep =>
    refine hs.replace a.caller hother fun t ht => ?_
    rw [ho] at ht
    exact ⟨hs.writesLocked _ t ht, hs.locksSeen _ t ht, fun k hk => .inl ⟨t, ht, hk⟩⟩
  | close => exact hs.close a.caller hother ho
  | begin => exact hs.begin a.caller hother ho
  | call tx fault c htx hw =>
    exact hs.move a.caller hother htx ho (Stmt.exec_move _ _ _ _ (fun _ => freeFor_of_others)
      (fun _ => unwrittenFor_of_others) hw)
  | commit tx htx => exact hs.commit a.caller hother ho

/-- An action changes no committed row that another open transaction has locked. -/
theorem step_frame {a : Action ι} (hs : s.Sound) (h : s.step cfg jobs a = some s') {j : ι}
    (hj : j ≠ a.caller) {tx : PgTx} (htx : s.openTx j = some tx) {k : Key} (hk : k ∈ tx.locks) :
    s'.committed k = s.committed k := by
  have hstep := step_tx h
  generalize s'.openTx a.caller = o, s'.committed = db at hstep
  cases hstep with
  | commit ti hti => exact hs.commit_frame (Ne.symm hj) hti htx hk
  | keep | close | begin | call => rfl

/-- In every reachable state row locks exclude each other, written rows are locked, and
locked rows are there. -/
theorem sound_run {db : Db} {as : List (Action ι)} (h : run (step cfg jobs) (init db) as = some s) : s.Sound :=
  run_inv _ (fun _ _ _ hs hst => sound_step hs hst) as (sound_init db) h

end

end State

end TransactionManager
