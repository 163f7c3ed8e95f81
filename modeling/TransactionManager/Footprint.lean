import TransactionManager.Block
/-
# What a call touches

A statement reads and writes one row (`Access.key`), of the table it names. So a call answers alike on
two databases that agree on that row (`callRepo_congr`), and waits no longer where fewer locks are around.
`Closure.KeepsTo` are the closures that make only calls of a kind and let go of the context: what their
blocks do in every run, whatever they are answered, is of that kind (`keepsTo_step`).
-/

namespace TransactionManager

open RowStore Run

/-! ## Statements -/

/-- The row an access is about. -/
def Access.key : Access → Key
  | .read key _ _ => key
  | .insert key _ => key
  | .update key _ => key

/-- The row an access may write. -/
def Access.target : Access → Option Key
  | .read _ _ _ => none
  | .insert key _ => some key
  | .update key _ => some key

def Stmt.table : Stmt → QName
  | .select table _ _ _ _ => table
  | .insert table _ => table
  | .update table _ _ _ => table

theorem Access.target_eq {a : Access} {k : Key} (h : a.target = some k) : a.key = k := by
  cases a with
  | read => cases h
  | insert | update => exact Option.some.inj h

section
variable {cat : Catalog} {st : Stmt} {a : Access}

/-- A statement is about a row of its table, and a SELECT writes nothing. -/
theorem Stmt.plan_ok (h : st.plan cat = .ok a) :
    a.key.1 = st.table ∧ ∀ table columns key param forUpdate, st = .select table columns key param forUpdate →
      a.target = none := by
  cases st with
  | select table columns key param forUpdate =>
    simp only [plan, bind, Except.bind] at h
    split at h
    · cases h
    · split at h
      · cases h
      · split at h <;> cases h
        exact ⟨rfl, fun _ _ _ _ _ _ => rfl⟩
  | insert table values =>
    simp only [plan, bind, Except.bind] at h
    split at h
    · cases h
    · split at h
      · cases h
      · split at h <;> cases h
        exact ⟨rfl, fun _ _ _ _ _ he => by cases he⟩
  | update table set key param =>
    simp only [plan, bind, Except.bind] at h
    split at h
    · cases h
    · split at h
      · cases h
      · split at h <;> cases h
        exact ⟨rfl, fun _ _ _ _ _ he => by cases he⟩

variable {db db' : Db} {tx : PgTx} {free : Bool} {fault : Option PgError}

theorem Access.exec_congr (h : tx.sees db a.key = tx.sees db' a.key) : a.exec free db tx = a.exec free db' tx := by
  cases a with
  | read | insert | update =>
    simp only [key] at h
    simp only [exec, h]

theorem Stmt.exec_congr (h : ∀ a, st.plan cat = .ok a → tx.sees db a.key = tx.sees db' a.key) :
    st.exec cat free db tx fault = st.exec cat free db' tx fault := by
  unfold exec
  cases fault with
  | some e => rfl
  | none =>
    simp only
    cases hp : st.plan cat with
    | error e => rfl
    | ok a => simp only [Access.exec_congr (h a hp)]

/-- Where the row it is about is the same, and locked and pending no more than before, a statement
does not wait either. -/
theorem Stmt.waits_congr {o o' : Others} (h : ∀ a, st.plan cat = .ok a → tx.sees db a.key = tx.sees db' a.key)
    (hl : ∀ k, o'.locked k = true → o.locked k = true) (hw : ∀ k, o'.written k = true → o.written k = true)
    (hwaits : st.waits cat o db tx fault = false) : st.waits cat o' db' tx fault = false := by
  have hwaits' := Stmt.waits_mono cat fault st hl hw hwaits
  unfold waits at hwaits' ⊢
  cases fault with
  | some e => rfl
  | none =>
    cases hp : st.plan cat with
    | error e => simp
    | ok a =>
      simp only [hp] at hwaits' ⊢
      have hsees := h a hp
      cases a with
      | read | insert | update =>
        simp only [Access.key] at hsees
        simpa only [Access.waits, ← hsees] using hwaits'

/-- A row that a statement may not write, and that was not written before, is not written after it. -/
theorem Stmt.exec_writes {k : Key} (hw : tx.writes k = none) (h : ∀ a, st.plan cat = .ok a → a.target ≠ some k) :
    (st.exec cat free db tx fault).2.writes k = none := by
  have habort : (tx.abort free).writes k = none := by
    unfold Tx.abort
    split
    · rfl
    · exact hw
  unfold exec
  cases fault with
  | some e => exact habort
  | none =>
    simp only
    split
    · exact hw
    · cases hp : st.plan cat with
      | error e => exact habort
      | ok a =>
        have hne := h a hp
        cases a with
        | read key columns forUpdate =>
          simp only [Access.exec]
          cases tx.sees db key with
          | none => exact hw
          | some row => cases forUpdate <;> exact hw
        | insert key row =>
          simp only [Access.exec]
          cases tx.sees db key with
          | some _ => exact habort
          | none => exact (put_ne row fun e => hne (congrArg some e.symm)).trans hw
        | update key set =>
          simp only [Access.exec]
          cases tx.sees db key with
          | none => exact hw
          | some row => exact (put_ne _ fun e => hne (congrArg some e.symm)).trans hw

end

/-! ## Calls -/

/-- The call's row in a stack's tables. -/
def RepoCall.key (b : Backend) : RepoCall → Key
  | .findByItemIdForUpdate itemId | .findByItemId itemId => b.inventoryKey itemId
  | .createInventory inventory | .updateInventory inventory => b.inventoryKey inventory.itemId
  | .findOrderById id => b.orderKey id
  | .createOrder order => b.orderKey order.id

/-- The call only reads. -/
def RepoCall.reads : RepoCall → Bool
  | .findByItemIdForUpdate _ | .findByItemId _ | .findOrderById _ => true
  | .createInventory _ | .updateInventory _ | .createOrder _ => false

/-- The two tables of a stack. -/
def Backend.owns (b : Backend) (k : Key) : Prop := k.1 = b.inventoryTable ∨ k.1 = b.ordersTable

instance (b : Backend) (k : Key) : Decidable (b.owns k) := inferInstanceAs (Decidable (_ ∨ _))

theorem Backend.not_owns {b b' : Backend} (h : b ≠ b') {k : Key} (hk : b.owns k) : ¬ b'.owns k := by
  rintro hk'
  unfold owns at hk hk'
  cases b <;> cases b'
  · exact h rfl
  · rcases hk with hk | hk <;> rw [hk] at hk' <;> revert hk' <;> decide
  · rcases hk with hk | hk <;> rw [hk] at hk' <;> revert hk' <;> decide
  · exact h rfl

/-- Every call is about a row of its stack. -/
theorem Backend.plan_owns (b : Backend) {cat : Catalog} {c : RepoCall} {a : Access}
    (h : (b.method c).stmt.plan cat = .ok a) : b.owns a.key := by
  rw [owns, (Stmt.plan_ok h).1]
  cases b <;> cases c <;> first | exact .inl rfl | exact .inr rfl

/-- A call that only reads writes no row. -/
theorem Backend.plan_reads (b : Backend) {cat : Catalog} {c : RepoCall} {a : Access} (hc : c.reads = true)
    (h : (b.method c).stmt.plan cat = .ok a) : a.target = none := by
  cases c with
  | findByItemIdForUpdate itemId =>
    rw [stmt_findByItemIdForUpdate] at h
    exact (Stmt.plan_ok h).2 _ _ _ _ _ rfl
  | findByItemId itemId =>
    rw [stmt_findByItemId] at h
    exact (Stmt.plan_ok h).2 _ _ _ _ _ rfl
  | findOrderById id =>
    rw [stmt_findOrderById] at h
    exact (Stmt.plan_ok h).2 _ _ _ _ _ rfl
  | createInventory | updateInventory | createOrder => cases hc

/-- On the deployed tables a call is about its row. -/
theorem Deployed.plan_key {cat : Catalog} {b : Backend} (hd : Deployed cat b) {c : RepoCall} {a : Access}
    (h : (b.method c).stmt.plan cat = .ok a) : a.key = c.key b := by
  cases c with
  | findByItemIdForUpdate itemId =>
    rw [stmt_findByItemIdForUpdate, plan_selectInventory hd.inventory] at h
    cases h; rfl
  | findByItemId itemId =>
    rw [stmt_findByItemId, plan_selectInventory hd.inventory] at h
    cases h; rfl
  | createInventory inventory =>
    rw [stmt_createInventory, plan_insertInventory hd.inventory] at h
    cases h; rfl
  | updateInventory inventory =>
    rw [stmt_updateInventory, plan_updateInventory hd.inventory] at h
    cases h; rfl
  | findOrderById id =>
    rw [stmt_findOrderById, plan_selectOrder hd.orders] at h
    cases h; rfl
  | createOrder order =>
    rw [stmt_createOrder, plan_insertOrder hd.orders] at h
    cases h; rfl

section
variable {cfg : Config} {db db' : Db} {tx : PgTx} {fault : Option PgError} {c : RepoCall}

theorem callRepo_congr (h : ∀ a, (cfg.backend.method c).stmt.plan cfg.catalog = .ok a →
    tx.sees db a.key = tx.sees db' a.key) : callRepo cfg db tx fault c = callRepo cfg db' tx fault c := by
  simp only [callRepo, Stmt.exec_congr h]

theorem callRepo_writes {k : Key} (hw : tx.writes k = none)
    (h : ∀ a, (cfg.backend.method c).stmt.plan cfg.catalog = .ok a → a.target ≠ some k) :
    (callRepo cfg db tx fault c).2.writes k = none := Stmt.exec_writes hw h

/-- Whoever sees the same committed row sees the same row. -/
theorem sees_congr {k : Key} (h : db' k = db k) : tx.sees db k = tx.sees db' k := by
  simp only [Tx.sees, overlay, h]

theorem commit_congr {k : Key} (h : db' k = db k) : tx.commit db' k = tx.commit db k := by
  unfold Tx.commit
  split
  · exact h
  · exact (sees_congr h).symm

/-- Whether a rollback succeeds or not, the rows stay. -/
theorem DbContext.rollback_rows (cfg : Config) (fault : Option PgError) (tx : PgTx) (db : Db) :
    (DbContext.rollback cfg fault tx db).2 = db := by cases fault <;> rfl

end

/-- The first poll of a block neither reads nor changes a row. -/
theorem poll_created {α : Type} {cfg : Config} {job : Job α} {db db₁ : Db} {p : Phase α} {ev : List (Event α)}
    (h : Phase.created.poll cfg job db = some (ev, p, db₁)) (db' : Db) :
    db₁ = db ∧ Phase.created.poll cfg job db' = some (ev, p, db') := by
  simp only [Phase.poll] at h ⊢
  cases hs : job.start with
  | error e => simp only [hs] at h ⊢; cases h; exact ⟨rfl, rfl⟩
  | ok f =>
    cases hb : job.faults.begin with
    | some e => simp only [hs, hb] at h ⊢; cases h; exact ⟨rfl, rfl⟩
    | none => simp only [hs, hb] at h ⊢; cases h; exact ⟨rfl, rfl⟩

/-- A poll at a call that is answered alike goes on alike. -/
theorem poll_awaiting {α : Type} {cfg : Config} {job : Job α} {db db' db₁ : Db} {p : Phase α} {ev : List (Event α)}
    {c : RepoCall} {k : Except Error c.Reply → Closure α} {n : Refs} {calls : Nat} {tx : PgTx}
    (hcall : callRepo cfg db tx (job.faults.stmt calls) c = callRepo cfg db' tx (job.faults.stmt calls) c)
    (h : (Phase.awaiting c k n calls tx).poll cfg job db = some (ev, p, db₁)) :
    db₁ = db ∧ (Phase.awaiting c k n calls tx).poll cfg job db' = some (ev, p, db') := by
  simp only [Phase.poll, hcall] at h ⊢
  cases h
  exact ⟨rfl, rfl⟩

/-! ## Closures that keep to calls of a kind -/

variable {α : Type}

/-- The closure, with the given references to the context, makes only calls that are `ok`, has let go of
the context when it ends, and has none of it lent where it can be cut short: at a call or in a panic. -/
def Closure.KeepsTo (ok : RepoCall → Prop) : Closure α → Refs → Prop
  | .ret _, refs => refs.clones = 0
  | .panic, refs => refs.lent = 0
  | .call c k, refs => refs.lent = 0 ∧ ok c ∧ ∀ r, (k r).KeepsTo ok refs
  | .clone k, refs => k.KeepsTo ok refs.clone
  | .drop k, refs => k.KeepsTo ok refs.drop
  | .lend k, refs => k.KeepsTo ok refs.lend
  | .reclaim k, refs => k.KeepsTo ok refs.reclaim

/-- A block that keeps to such calls from where it is. -/
def Phase.KeepsTo (ok : RepoCall → Prop) : Phase α → Prop
  | .awaiting c k refs _ _ => refs.lent = 0 ∧ ok c ∧ ∀ r, (k r).KeepsTo ok refs
  | .returned _ escaped => escaped = none
  | .dropped escaped => escaped = none
  | _ => True

/-- The closure at a point from where it keeps to such calls. -/
def Polled.KeepsTo (ok : RepoCall → Prop) : Polled α → Prop
  | .pending c k refs => refs.lent = 0 ∧ ok c ∧ ∀ r, (k r).KeepsTo ok refs
  | .ready _ clones => clones = 0
  | .panicked lent => lent = 0

/-- The code before the block fails, or its closure keeps to such calls. -/
def Job.KeepsTo (ok : RepoCall → Prop) (job : Job α) : Prop := ∀ f, job.start = .ok f → f.KeepsTo ok .given

/-- A program of such calls that does not touch the references to the context. -/
def Closure.Makes (ok : RepoCall → Prop) : Closure α → Prop
  | .ret _ => True
  | .panic => True
  | .call c k => ok c ∧ ∀ r, (k r).Makes ok
  | .clone _ => False
  | .drop _ => False
  | .lend _ => False
  | .reclaim _ => False

section
variable {ok : RepoCall → Prop}

theorem Closure.makes_await {c : RepoCall} (h : ok c) : (Closure.await c).Makes ok := ⟨h, fun _ => trivial⟩

theorem Closure.Makes.bind {β : Type} {f : Closure α} {g : α → Closure β} (hf : f.Makes ok)
    (hg : ∀ v, (g v).Makes ok) : (f.bind g).Makes ok := by
  induction f with
  | ret r =>
    cases r with
    | ok v => exact hg v
    | error e => trivial
  | panic => trivial
  | call c k ih => exact ⟨hf.1, fun r => ih r (hf.2 r)⟩
  | clone k | drop k | lend k | reclaim k => cases hf

/-- In an `async move` block it lets go of the context. -/
theorem Closure.Makes.moved {f : Closure α} (hf : f.Makes ok) : f.moved.KeepsTo ok .given := by
  induction f with
  | ret r => rfl
  | panic => rfl
  | call c k ih => exact ⟨rfl, hf.1, fun r => ih r (hf.2 r)⟩
  | clone k | drop k | lend k | reclaim k => cases hf

theorem Closure.KeepsTo.poll {f : Closure α} {refs : Refs} (h : f.KeepsTo ok refs) : (f.poll refs).KeepsTo ok := by
  induction f generalizing refs with
  | ret | panic | call => exact h
  | clone k ih | drop k ih | lend k ih | reclaim k ih => exact ih h

theorem Polled.KeepsTo.resume {p : Polled α} (h : p.KeepsTo ok) (calls : Nat) (tx : PgTx) :
    (resume calls tx p).KeepsTo ok := by
  cases p with
  | pending c k refs => exact h
  | ready r n =>
    obtain rfl : n = 0 := h
    cases r <;> trivial
  | panicked n =>
    obtain rfl : n = 0 := h
    rfl

theorem Phase.KeepsTo.poll {cfg : Config} {job : Job α} {p p' : Phase α} {db db' : Db} {ev : List (Event α)}
    (hj : job.KeepsTo ok) (h : p.KeepsTo ok) (hp : p.poll cfg job db = some (ev, p', db')) : p'.KeepsTo ok := by
  cases p with
  | created =>
    simp only [Phase.poll] at hp
    split at hp
    · cases hp; rfl
    · split at hp
      · cases hp; rfl
      · rename_i f hs _ _
        cases hp
        exact (hj f hs).poll.resume 0 _
  | awaiting c k n calls tx =>
    cases hp
    exact (h.2.2 _).poll.resume _ _
  | committing v tx => cases hp; rfl
  | rollingBack e tx => cases hp; rfl
  | returned | dropped => cases hp

theorem Phase.KeepsTo.cancel {p : Phase α} (h : p.KeepsTo ok) : p.cancel.KeepsTo ok := by
  cases p with
  | awaiting c k refs calls tx =>
    rw [Phase.cancel, show refs.lent = 0 from h.1]
    rfl
  | created | committing | rollingBack | returned | dropped => rfl

theorem Phase.KeepsTo.openTx_cancel {p : Phase α} (h : p.KeepsTo ok) : p.cancel.openTx = none := by
  have hc := h.cancel
  cases p with
  | awaiting c k refs calls tx =>
    rw [Phase.cancel] at hc ⊢
    rw [show Context.left tx refs.lent = none from hc]
    rfl
  | created | committing | rollingBack | returned | dropped => rfl

theorem Closure.KeepsTo.answered {f : Closure α} {refs : Refs} {xs : List Exchange} {p : Polled α}
    (h : f.KeepsTo ok refs) (ha : Answered f refs xs p) : p.KeepsTo ok := by
  induction ha with
  | start => exact h.poll
  | next ha r ih => exact (ih.2.2 r).poll

theorem Polled.KeepsTo.released {p : Polled α} (h : p.KeepsTo ok) : Released p.events := by
  intro e he
  cases p with
  | pending => cases he
  | ready | panicked => cases List.mem_singleton.1 he; exact h

/-- However far it has come, and however it has ended: nothing of its context is left outside of it. -/
theorem History.keepsTo {cfg : Config} {job : Job α} {evs : List (Event α)} {p : Phase α}
    (h : History cfg job evs p) (hj : job.KeepsTo ok) : p.KeepsTo ok ∧ Released evs := by
  have hopened : ∀ xs : List Exchange, Released (opened xs : List (Event α)) := fun xs e he => by
    rcases List.mem_cons.1 he with rfl | he
    · rfl
    · obtain ⟨x, -, rfl⟩ := List.mem_map.1 he
      rfl
  have hended : ∀ f xs q, job.start = .ok f → Answered f .given xs q → q.KeepsTo ok := fun f xs q hs ha =>
    (hj f hs).answered ha
  have happend : ∀ {es es' : List (Event α)}, Released es → Released es' → Released (es ++ es') :=
    fun h h' e he => (List.mem_append.1 he).elim (h e) (h' e)
  induction h with
  | created => exact ⟨trivial, fun e he => by cases he⟩
  | refused e hs => exact ⟨rfl, fun e he => by cases he⟩
  | notBegun f e hs hb => exact ⟨rfl, fun e he => by cases List.mem_singleton.1 he; rfl⟩
  | polled f xs q tx hs ha => exact ⟨(hended f xs q hs ha).resume _ _, happend (hopened xs) (hended f xs q hs ha).released⟩
  | committed f xs v hs ha => exact ⟨rfl, happend (hopened xs) fun e he => by
      simp only [List.mem_cons, List.not_mem_nil, or_false] at he
      rcases he with rfl | rfl <;> rfl⟩
  | rolledBack f xs e hs ha => exact ⟨rfl, happend (hopened xs) fun e he => by
      simp only [List.mem_cons, List.not_mem_nil, or_false] at he
      rcases he with rfl | rfl <;> rfl⟩
  | escaped f xs r n ctx hs ha => exact absurd (hended f xs _ hs ha) (Nat.succ_ne_zero n)
  | panicked f xs n ctx hs ha hleft =>
    obtain rfl : n = 0 := hended f xs _ hs ha
    exact ⟨hleft rfl, happend (hopened xs) fun e he => by cases List.mem_singleton.1 he; rfl⟩
  | cancelled evs p ctx h hl hleft ih =>
    have hlent : p.lent = 0 := by
      have hp := ih.1
      cases p with
      | awaiting => exact hp.1
      | created | committing | rollingBack | returned | dropped => rfl
    exact ⟨hleft hlent, happend ih.2 fun e he => by cases List.mem_singleton.1 he; exact hlent⟩

/-- Nothing of its context outlives it. -/
theorem Phase.KeepsTo.escaped {p : Phase α} (h : p.KeepsTo ok) : p.escaped = none := by
  cases p with
  | returned | dropped => exact h
  | created | awaiting | committing | rollingBack => rfl

variable {ι : Type} [DecidableEq ι] [Fintype ι] {cfg : Config} {jobs : ι → Job α} {s s' : State ι α}

theorem State.keepsTo_step {i : ι} (hj : (jobs i).KeepsTo ok) (h : (s.phase i).KeepsTo ok) {a : Action ι}
    (hstep : s.step cfg jobs a = some s') : (s'.phase i).KeepsTo ok := by
  by_cases hi : i = a.caller
  · obtain ⟨j, ⟨ev, p', db'⟩, rfl, -, hr, rfl⟩ | ⟨j, rfl, -, rfl⟩ | ⟨j, act, ctx, q, rfl, hp, -, rfl⟩ :=
      State.step_cases hstep
    · obtain rfl : i = j := hi
      rw [State.goto_phase_self]
      exact h.poll hj hr
    · obtain rfl : i = j := hi
      rw [State.goto_phase_self]
      exact h.cancel
    · obtain rfl : i = j := hi
      rw [h.escaped] at hp
      cases hp
  · rw [State.step_phase_ne hstep hi]
    exact h

end

end TransactionManager
