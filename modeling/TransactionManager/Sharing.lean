import TransactionManager.Footprint
import TransactionManager.Serial
/-
# Callers that do not meet

A caller is nothing to callers that never look at a row it may write: its actions can be left out of any
run (`run_erased`). The sqlx and the SeaORM container work on schemas of their own in one database
(`application_container.rs`), so each stack runs as if it had the server to itself
(`stacks_do_not_meet`).
-/

namespace TransactionManager

open RowStore RustInt Run

variable {α : Type}

/-! ## One action on two databases that agree where it looks -/

section
variable {cfg : Config} {job : Job α} {K : Key → Prop} {db db' : Db}
  (hK : ∀ c a, (cfg.backend.method c).stmt.plan cfg.catalog = .ok a → K a.key) (hdb : ∀ k, K k → db' k = db k)
include hdb

theorem DbContext.commit_agree (cfg : Config) (fault : Option PgError) (tx : PgTx) :
    (DbContext.commit cfg fault tx db').1 = (DbContext.commit cfg fault tx db).1 ∧
      ∀ k, K k → (DbContext.commit cfg fault tx db').2 k = (DbContext.commit cfg fault tx db).2 k := by
  cases fault with
  | some e => exact ⟨rfl, hdb⟩
  | none => exact ⟨rfl, fun k hk => commit_congr (hdb k hk)⟩

theorem DbContext.rollback_agree (cfg : Config) (fault : Option PgError) (tx : PgTx) :
    ∀ k, K k → (DbContext.rollback cfg fault tx db').2 k = (DbContext.rollback cfg fault tx db).2 k := by
  simpa only [DbContext.rollback_rows] using hdb

include hK

theorem callRepo_agree (tx : PgTx) (fault : Option PgError) (c : RepoCall) :
    callRepo cfg db tx fault c = callRepo cfg db' tx fault c :=
  callRepo_congr fun a hp => sees_congr (hdb _ (hK c a hp))

theorem callWaits_agree {o o' : Others} {tx : PgTx} {fault : Option PgError} {c : RepoCall}
    (hl : ∀ k, o'.locked k = true → o.locked k = true) (hw : ∀ k, o'.written k = true → o.written k = true)
    (h : callWaits cfg o db tx fault c = false) : callWaits cfg o' db' tx fault c = false :=
  Stmt.waits_congr (fun a hp => sees_congr (hdb _ (hK c a hp))) hl hw h

theorem Phase.poll_agree {p p' : Phase α} {d : Db} {ev : List (Event α)} (h : p.poll cfg job db = some (ev, p', d)) :
    ∃ d', p.poll cfg job db' = some (ev, p', d') ∧ ∀ k, K k → d' k = d k := by
  cases p with
  | created =>
    obtain ⟨rfl, h'⟩ := poll_created h db'
    exact ⟨db', h', hdb⟩
  | awaiting c k n calls tx =>
    obtain ⟨rfl, h'⟩ := poll_awaiting (callRepo_agree hK hdb tx (job.faults.stmt calls) c) h
    exact ⟨db', h', hdb⟩
  | committing v tx =>
    obtain ⟨hr, hrows⟩ := DbContext.commit_agree hdb cfg job.faults.commit tx
    cases h
    refine ⟨_, ?_, hrows⟩
    simp only [Phase.poll, hr]
  | rollingBack e tx =>
    cases h
    exact ⟨_, rfl, DbContext.rollback_agree hdb cfg _ _⟩
  | returned | dropped => cases h

theorem Phase.waits_agree {o o' : Others} {p : Phase α} (hl : ∀ k, o'.locked k = true → o.locked k = true)
    (hw : ∀ k, o'.written k = true → o.written k = true) (h : p.waits cfg job o db = false) :
    p.waits cfg job o' db' = false := by
  cases p with
  | awaiting c k n calls tx => exact callWaits_agree hK hdb hl hw h
  | created | committing | rollingBack | returned | dropped => rfl

theorem Context.act_agree {o o' : Others} {ctx : Context} {act : HolderAct} {q : Option Context × Db}
    (hl : ∀ k, o'.locked k = true → o.locked k = true) (hw : ∀ k, o'.written k = true → o.written k = true)
    (h : ctx.act cfg o db act = some q) :
    ∃ d', ctx.act cfg o' db' act = some (q.1, d') ∧ ∀ k, K k → d' k = q.2 k := by
  cases act with
  | call c fault =>
    simp only [Context.act] at h ⊢
    split at h
    · cases h
    · rename_i hwaits
      cases h
      rw [callWaits_agree hK hdb hl hw (by simpa using hwaits), ← callRepo_agree hK hdb]
      exact ⟨db', rfl, hdb⟩
  | clone => cases h; exact ⟨db', rfl, hdb⟩
  | drop =>
    simp only [Context.act] at h ⊢
    split at h
    all_goals
      rename_i hn
      cases h
      simp only [hn, if_true, if_false]
      exact ⟨db', rfl, hdb⟩
  | commit fault =>
    simp only [Context.act] at h ⊢
    split at h
    · rename_i hn
      cases h
      simp only [hn, if_true]
      exact ⟨_, rfl, (DbContext.commit_agree hdb cfg fault ctx.tx).2⟩
    · rename_i hn
      cases h
      simp only [hn, if_false]
      exact ⟨db', rfl, hdb⟩
  | rollback fault =>
    simp only [Context.act] at h ⊢
    split at h
    · rename_i hn
      cases h
      simp only [hn, if_true]
      exact ⟨_, rfl, DbContext.rollback_agree hdb cfg fault ctx.tx⟩
    · rename_i hn
      cases h
      simp only [hn, if_false]
      exact ⟨db', rfl, hdb⟩

end

/-! ## Leaving callers out -/

namespace State

variable {ι : Type} [DecidableEq ι] [Fintype ι]

/-- Callers that need not be of one stack: an action runs under the configuration of its caller. -/
def stepEach (cfgs : ι → Config) (jobs : ι → Job α) (s : State ι α) (a : Action ι) : Option (State ι α) :=
  s.step (cfgs a.caller) jobs a

/-- `t` is `s` with the callers of `mine` alone, as far as the rows of `K` go. -/
structure Erased (mine : ι → Bool) (K : Key → Prop) (s t : State ι α) : Prop where
  committed : ∀ k, K k → t.committed k = s.committed k
  phase : ∀ i, mine i = true → t.phase i = s.phase i
  absent : ∀ i, mine i = false → t.phase i = .created

variable {mine : ι → Bool} {K : Key → Prop} {s s' t : State ι α} {cfgs : ι → Config} {jobs : ι → Job α}

/-- With callers left out, the others find no more locks and pending rows than before. -/
theorem Erased.others (h : Erased mine K s t) (j : ι) (k : Key) :
    ((t.others j).locked k = true → (s.others j).locked k = true) ∧
      ((t.others j).written k = true → (s.others j).written k = true) := by
  have hopen : ∀ l, (t.openTx l).isSome = true → t.openTx l = s.openTx l := by
    intro l hl
    cases hm : mine l with
    | true => simp only [openTx, h.phase l hm]
    | false => simp [openTx, h.absent l hm, Phase.openTx] at hl
  constructor
  all_goals
    intro hk
    obtain ⟨l, hlj, hl⟩ := of_decide_eq_true hk
    refine decide_eq_true ⟨l, hlj, ?_⟩
    rw [← hopen l ?_]
    · exact hl
    · cases ht : t.openTx l with
      | none => simp [ht] at hl
      | some tx => rfl

omit [Fintype ι] in
theorem Erased.goto (h : Erased mine K s t) {j : ι} (hj : mine j = true) (p : Phase α) {db db' : Db}
    (hdb : ∀ k, K k → db' k = db k) : Erased mine K (s.goto j p db) (t.goto j p db') where
  committed := hdb
  phase i hi := by
    by_cases e : i = j
    · subst e; simp
    · rw [goto_phase_ne _ _ _ e, goto_phase_ne _ _ _ e, h.phase i hi]
  absent i hi := by
    have e : i ≠ j := by
      rintro rfl
      rw [hj] at hi
      cases hi
    rw [goto_phase_ne _ _ _ e, h.absent i hi]

/-- What a caller does with the others around, it does as well without them. -/
theorem Erased.follow (h : Erased mine K s t) {a : Action ι} (ha : mine a.caller = true)
    (hK : ∀ c b, ((cfgs a.caller).backend.method c).stmt.plan (cfgs a.caller).catalog = .ok b → K b.key)
    (hstep : s.stepEach cfgs jobs a = some s') : ∃ t', t.stepEach cfgs jobs a = some t' ∧ Erased mine K s' t' := by
  have hphase := h.phase a.caller ha
  have hl := fun j k => (h.others j k).1
  have hw := fun j k => (h.others j k).2
  unfold stepEach at hstep ⊢
  obtain ⟨j, ⟨ev, p', d⟩, rfl, hwaits, hr, rfl⟩ | ⟨j, rfl, hlive, rfl⟩ | ⟨j, act, ctx, q, rfl, hp, hq, rfl⟩ :=
    step_cases hstep
  all_goals simp only [Action.caller] at hphase ha hK ⊢
  · obtain ⟨d', hr', hd'⟩ := Phase.poll_agree hK h.committed hr
    refine ⟨t.goto j p' d', ?_, h.goto ha p' hd'⟩
    have hwaits' := Phase.waits_agree hK h.committed (hl j) (hw j) hwaits
    simp only [step, hphase, hwaits', hr', Bool.false_eq_true, if_false, Option.map_some]
  · refine ⟨t.goto j (s.phase j).cancel t.committed, ?_, h.goto ha _ h.committed⟩
    simp only [step, hphase, hlive, if_true]
  · obtain ⟨d', hq', hd'⟩ := Context.act_agree hK h.committed (hl j) (hw j) hq
    refine ⟨t.goto j ((s.phase j).leave q.1) d', ?_, h.goto ha _ hd'⟩
    simp only [step, hphase, hp, hq', Option.map_some]

/-- What a caller does that has written none of the rows is nothing to the others. -/
theorem Erased.skip (h : Erased mine K s t) {a : Action ι} (ha : mine a.caller = false)
    (hwrites : ∀ tx, s.openTx a.caller = some tx → ∀ k, K k → tx.writes k = none)
    (hstep : s.stepEach cfgs jobs a = some s') : Erased mine K s' t where
  committed k hk := by
    have htx := step_tx hstep
    generalize s'.openTx a.caller = o, s'.committed = d at htx ⊢
    cases htx with
    | keep | close | begin | call => exact h.committed k hk
    | commit tx htx => rw [Tx.commit_of_not_written (hwrites tx htx k hk), h.committed k hk]
  phase i hi := by
    have e : i ≠ a.caller := by
      rintro rfl
      rw [ha] at hi
      cases hi
    rw [step_phase_ne hstep e, h.phase i hi]
  absent := h.absent

/-- **Erasure.** If the callers of `mine` look at rows of `K` only, and in no reachable state (`I`) has
anyone else written one of these, then the actions of the others can be left out of every run. -/
theorem run_erased (mine : ι → Bool) (K : Key → Prop) (I : State ι α → Prop) {db db' : Db} (h0 : I (init db))
    (hI : ∀ s a s', I s → s.stepEach cfgs jobs a = some s' → I s')
    (hmine : ∀ i, mine i = true → ∀ c b, ((cfgs i).backend.method c).stmt.plan (cfgs i).catalog = .ok b → K b.key)
    (hothers : ∀ s i, I s → mine i = false → ∀ tx, s.openTx i = some tx → ∀ k, K k → tx.writes k = none)
    (hdb : ∀ k, K k → db' k = db k) {as : List (Action ι)} (h : run (stepEach cfgs jobs) (init db) as = some s) :
    ∃ t, run (stepEach cfgs jobs) (init db') (as.filter fun a => mine a.caller) = some t ∧ Erased mine K s t := by
  have hinit : I (init db) ∧ Erased mine K (init db) (init db' : State ι α) := ⟨h0, hdb, fun _ _ => rfl, fun _ _ => rfl⟩
  obtain ⟨t, ht, -, herased⟩ := run_erase (fun s t => I s ∧ Erased mine K s t) (fun a => !mine a.caller)
    (fun _ => True) hinit (fun _ _ h => h)
    (fun as s t a s' hrun _ ha ⟨hs, ht⟩ hstep => ⟨hI s a s' hs hstep,
      ht.skip (by simpa using ha) (hothers s a.caller hs (by simpa using ha)) hstep⟩)
    (fun s t a s' ha ⟨hs, ht⟩ hstep => by
      have hm : mine a.caller = true := by simpa using ha
      obtain ⟨t', ht', herased⟩ := ht.follow hm (hmine _ hm) hstep
      exact ⟨t', ht', hI s a s' hs hstep, herased⟩)
    as trivial h
  exact ⟨t, by simpa using ht, herased⟩

end State

/-! ## The two stacks -/

/-- The same server and build, seen by a stack. -/
def Config.on (cfg : Config) (b : Backend) : Config := { cfg with backend := b }

namespace State

variable {ι : Type} [DecidableEq ι] [Fintype ι] {cfg : Config} {stack : ι → Backend} {jobs : ι → Job α}
  {s s' : State ι α}

/-- Nobody has written a row outside the tables of its stack. -/
def AtHome (stack : ι → Backend) (s : State ι α) : Prop :=
  ∀ i tx, s.openTx i = some tx → ∀ k, ¬ (stack i).owns k → tx.writes k = none

theorem atHome_step (hs : s.AtHome stack) {a : Action ι}
    (hstep : s.stepEach (fun i => cfg.on (stack i)) jobs a = some s') : s'.AtHome stack := by
  intro i tx htx k hk
  by_cases hi : i = a.caller
  · subst hi
    have hmoved := step_tx hstep
    rw [htx] at hmoved
    generalize ho : some tx = o, s'.committed = d at hmoved
    cases hmoved with
    | keep => exact hs a.caller tx ho.symm k hk
    | close | commit => cases ho
    | begin => cases ho; rfl
    | call tx₀ fault c htx₀ =>
      cases ho
      refine callRepo_writes (hs a.caller tx₀ htx₀ k hk) fun b hb ht => hk ?_
      rw [← Access.target_eq ht]
      exact (stack a.caller).plan_owns hb
  · rw [step_openTx_ne hstep hi] at htx
    exact hs i tx htx k hk

/-- No commit touches a row outside the tables of its caller's stack. -/
theorem AtHome.committed (hs : s.AtHome stack) {a : Action ι}
    (hstep : s.stepEach (fun i => cfg.on (stack i)) jobs a = some s') {k : Key} (hk : ¬ (stack a.caller).owns k) :
    s'.committed k = s.committed k := by
  have hmoved := step_tx hstep
  generalize s'.openTx a.caller = o, s'.committed = d at hmoved
  cases hmoved with
  | keep | close | begin | call => rfl
  | commit tx htx => exact Tx.commit_of_not_written (hs a.caller tx htx k hk)

/-- **The two stacks do not meet.** In every run of blocks of both stacks on one server, the blocks of one
stack do what they do in the run of these blocks alone, on any database with the same rows in the tables
of that stack; and rows of no stack stay. -/
theorem stacks_do_not_meet {db : Db} {as : List (Action ι)} (b : Backend) (db' : Db) (hdb : ∀ k, b.owns k → db' k = db k)
    (h : run (stepEach (fun i => cfg.on (stack i)) jobs) (init db) as = some s) :
    (∃ t, run (step (cfg.on b) jobs) (init db') (as.filter fun a => decide (stack a.caller = b)) = some t ∧
      (∀ i, stack i = b → t.phase i = s.phase i) ∧ ∀ k, b.owns k → t.committed k = s.committed k) ∧
    ∀ k, (∀ b : Backend, ¬ b.owns k) → s.committed k = db k := by
  have hstart : (init db : State ι α).AtHome stack := fun i tx htx => by cases htx
  constructor
  · obtain ⟨t, ht, herased⟩ := run_erased (fun i => decide (stack i = b)) b.owns (AtHome stack) hstart
      (fun s a s' hs hstep => atHome_step hs hstep)
      (fun i hi c x hx => by
        obtain rfl := of_decide_eq_true hi
        exact (stack i).plan_owns hx)
      (fun s i hs hi tx htx k hk => hs i tx htx k (Backend.not_owns (Ne.symm (of_decide_eq_false hi)) hk)) hdb h
    refine ⟨t, ?_, fun i hi => herased.phase i (decide_eq_true hi), herased.committed⟩
    rw [← ht]
    refine run_congr _ _ fun a ha s => ?_
    obtain rfl : stack a.caller = b := of_decide_eq_true (List.mem_filter.1 ha).2
    rfl
  · intro k hk
    refine (run_inv (fun s : State ι α => s.AtHome stack ∧ s.committed k = db k) ?_ as ⟨hstart, rfl⟩ h).2
    rintro s a s' ⟨hs, hrow⟩ hstep
    exact ⟨atHome_step hs hstep, (hs.committed hstep (hk _)).trans hrow⟩

/-- A call of each stack for the same item. -/
def neighbours (b : Bool) : CreateOrderCall := ⟨⟨⟨7⟩, if b then 3 else 2⟩, ⟨1⟩, .none⟩

def neighbourStack (b : Bool) : Backend := if b then .seaOrm else .sqlx

/-- A stock of 5 in both schemas. -/
def bothStocked : Db := { stocked with elsewhere := stocked.store .seaOrm : Tables }.store .sqlx

/-- Step by step in turns, both to their ends. -/
def inTurns : List (Action Bool) := (List.replicate 5 [.poll false, .poll true]).flatten

theorem inTurns_runs : (run (stepEach (fun i => (Makefile.config .sqlx).on (neighbourStack i))
    fun i => createOrder .dev (neighbours i)) (init bothStocked) inTurns).isSome := by decide +kernel

/-- Both are served, each from the stock of its schema. -/
theorem stacks_do_not_meet_neighbours : ∃ t,
    run (step (Makefile.config .seaOrm) fun i => createOrder .dev (neighbours i)) (init (stocked.store .seaOrm))
      (inTurns.filter fun a => decide (neighbourStack a.caller = .seaOrm)) = some t ∧
    t.phase true = (Option.get _ inTurns_runs).phase true := by
  obtain ⟨⟨t, ht, hphase, -⟩, -⟩ := stacks_do_not_meet .seaOrm (stocked.store .seaOrm)
    (fun k hk => by
      have hne : ¬ k.1 = Backend.sqlx.inventoryTable ∧ ¬ k.1 = Backend.sqlx.ordersTable :=
        not_or.1 (Backend.not_owns (by decide) hk)
      simp only [bothStocked, Tables.store, hne.1, hne.2, if_false]) (Option.some_get inTurns_runs).symm
  exact ⟨t, ht, hphase true rfl⟩

end State

end TransactionManager
