import TransactionManager.Serial
import Mathlib.Algebra.BigOperators.Group.Finset.Piecewise
/-
# `create_order` over a connection pool, await point by await point

A poll of `System` is one whole step of a block. Here it is taken apart into what the block waits
for: a connection at `pool.begin()`, the mutex of its own context at `db_context.lock()`, and the
server's answer to the statement it has sent.

| here | there |
| --- | --- |
| `Act.acquire`, `.begin`     | `pool.begin().await?` (`sqlx_impl/src/transaction_manager.rs:121`), `db.begin().await?` (`sea_orm_impl/src/transaction_manager.rs:32`) |
| `Act.lock`, `.send`, `.run` | `db_context.lock().await` and the `.await?` of the statement in each repository method |
| `Act.release`               | the answer decoded, the method over by `Ok` or by `?`, its guard dropped |
| `Act.finish`                | `context.commit().await?`, `context.rollback().await` |
| `Act.refuse`                | `Order::try_from(command)?` (`use_case/src/order_management.rs:38`) |

A connection goes back to the pool when its transaction ends, whichever way it ends, and when BEGIN
fails; the rollback of a dropped future is one with the drop, as in `System`. What the server does, and
where a call is with its closure, is `System`'s `State`: every act is a step of it or leaves it alone
(`pooled_run`).
-/

namespace TransactionManager

open RowStore Run

/-- Where a call is between two await points of its block. -/
inductive Point where
  | idle
  | connected
  | locked
  | sent
  | answered
deriving DecidableEq

/-- A repository method is under way, and its guard with it. -/
def Point.guards : Point → Bool
  | .locked | .sent | .answered => true
  | .idle | .connected => false

section
variable {α : Type}

/-- The next thing the block does is a repository call. -/
def Phase.awaits : Phase α → Bool
  | .awaiting _ _ _ _ _ => true
  | _ => false

/-- The next thing the block does is COMMIT or ROLLBACK. -/
def Phase.ending : Phase α → Bool
  | .committing _ _ | .rollingBack _ _ => true
  | _ => false

def Phase.fresh : Phase α → Bool
  | .created => true
  | _ => false

/-- The code before the block does not fail. -/
def Job.valid (job : Job α) : Bool := job.start.isOk

end

/-- The server with its calls, and for each call its point, whether the mutex of its context is
locked, and whether it owns a connection. `free` connections are in the pool. -/
structure Pooled (ι : Type) where
  server : State ι Order
  point : ι → Point
  guarded : ι → Bool
  conn : ι → Bool
  free : Nat

inductive Act (ι : Type) where
  | refuse (i : ι)
  | acquire (i : ι)
  | acquireFails (i : ι)
  | begin (i : ι)
  | lock (i : ι)
  | send (i : ι)
  | run (i : ι)
  | release (i : ι)
  | finish (i : ι)
  | cancel (i : ι)

def Act.caller {ι : Type} : Act ι → ι
  | .refuse i | .acquire i | .acquireFails i | .begin i | .lock i => i
  | .send i | .run i | .release i | .finish i | .cancel i => i

/-- Not a cancellation, and not a pool that gives up. -/
def Act.own {ι : Type} : Act ι → Bool
  | .acquireFails _ | .cancel _ => false
  | _ => true

namespace Pooled

variable {ι : Type}

/-- Every call's future built, and all connections in the pool. -/
def init (db : Db) (capacity : Nat) : Pooled ι where
  server := .init db
  point _ := .idle
  guarded _ := false
  conn _ := false
  free := capacity

/-- The call is at `pool.begin()`, waiting for a connection. -/
def WantsConnection (cfg : Config) (calls : ι → CreateOrderCall) (s : Pooled ι) (i : ι) : Prop :=
  s.point i = .idle ∧ (s.server.phase i).fresh ∧ (createOrders cfg calls i).valid

/-- The call is at `db_context.lock()`. -/
def WantsContext (s : Pooled ι) (i : ι) : Prop := s.point i = .idle ∧ (s.server.phase i).awaits

instance (cfg : Config) (calls : ι → CreateOrderCall) (s : Pooled ι) (i : ι) :
    Decidable (s.WantsConnection cfg calls i) := inferInstanceAs (Decidable (_ ∧ _))

instance (s : Pooled ι) (i : ι) : Decidable (s.WantsContext i) := inferInstanceAs (Decidable (_ ∧ _))

variable [DecidableEq ι]

/-- `i` at point `p`, with or without its mutex locked and a connection, and the server and the pool
as given. -/
def put (s : Pooled ι) (i : ι) (server : State ι Order) (p : Point) (g c : Bool) (free : Nat) : Pooled ι where
  server := server
  point := Function.update s.point i p
  guarded := Function.update s.guarded i g
  conn := Function.update s.conn i c
  free := free

variable [Fintype ι]

/-- A step of the server for `i`. The connection stays with an open transaction and goes back to the
pool without one. -/
def advance (cfg : Config) (calls : ι → CreateOrderCall) (s : Pooled ι) (b : Action ι) (p : Point) (g : Bool) :
    Option (Pooled ι) :=
  (s.server.step cfg (createOrders cfg calls) b).map fun server =>
    let c := (server.openTx b.caller).isSome
    s.put b.caller server p g c (if s.conn b.caller && !c then s.free + 1 else s.free)

def step (cfg : Config) (calls : ι → CreateOrderCall) (s : Pooled ι) : Act ι → Option (Pooled ι)
  | .refuse i =>
    if s.point i = .idle ∧ (s.server.phase i).fresh ∧ ¬ (createOrders cfg calls i).valid then
      s.advance cfg calls (.poll i) .idle (s.guarded i)
    else none
  | .acquire i =>
    if s.WantsConnection cfg calls i ∧ 0 < s.free then
      some (s.put i s.server .connected (s.guarded i) true (s.free - 1))
    else none
  | .acquireFails i =>
    if s.WantsConnection cfg calls i ∧ (calls i).faults.begin.isSome then
      s.advance cfg calls (.poll i) .idle (s.guarded i)
    else none
  | .begin i =>
    if s.point i = .connected then s.advance cfg calls (.poll i) .idle (s.guarded i) else none
  | .lock i =>
    if s.WantsContext i ∧ s.guarded i = false then some (s.put i s.server .locked true (s.conn i) s.free)
    else none
  | .send i => if s.point i = .locked then some (s.put i s.server .sent (s.guarded i) (s.conn i) s.free) else none
  | .run i =>
    if s.point i = .sent then s.advance cfg calls (.poll i) .answered (s.guarded i) else none
  | .release i => if s.point i = .answered then some (s.put i s.server .idle false (s.conn i) s.free) else none
  | .finish i =>
    if s.point i = .idle ∧ (s.server.phase i).ending then s.advance cfg calls (.poll i) .idle (s.guarded i)
    else none
  | .cancel i => s.advance cfg calls (.cancel i) .idle false

/-! ## What one act does -/

section
variable {cfg : Config} {calls : ι → CreateOrderCall} {s s' : Pooled ι}

theorem advance_some {b : Action ι} {p : Point} {g : Bool} (h : s.advance cfg calls b p g = some s') :
    ∃ server, s.server.step cfg (createOrders cfg calls) b = some server ∧
      s' = s.put b.caller server p g (server.openTx b.caller).isSome
        (if s.conn b.caller && !(server.openTx b.caller).isSome then s.free + 1 else s.free) := by
  obtain ⟨server, hs, he⟩ := Option.map_eq_some_iff.1 h
  exact ⟨server, hs, he.symm⟩

/-- **One act.** It touches nobody but its caller, and the server as a step of it or not at all. -/
inductive Touches (cfg : Config) (calls : ι → CreateOrderCall) (s : Pooled ι) (i : ι) : Pooled ι → Prop where
  | still (p : Point) (g c : Bool) (free : Nat) : Touches cfg calls s i (s.put i s.server p g c free)
  | served (b : Action ι) (server : State ι Order) (p : Point) (g c : Bool) (free : Nat) (hb : b.caller = i)
    (hs : s.server.step cfg (createOrders cfg calls) b = some server) :
    Touches cfg calls s i (s.put i server p g c free)

theorem touches_advance {b : Action ι} {p : Point} {g : Bool} (h : s.advance cfg calls b p g = some s') :
    Touches cfg calls s b.caller s' := by
  obtain ⟨server, hs, rfl⟩ := advance_some h
  exact .served b server p g _ _ rfl hs

/-- Every act, with what it rests on. -/
inductive Takes (cfg : Config) (calls : ι → CreateOrderCall) (s : Pooled ι) : Act ι → Pooled ι → Prop where
  | refuse (i : ι) (s' : Pooled ι) (hp : s.point i = .idle) (hfresh : (s.server.phase i).fresh = true)
    (hv : (createOrders cfg calls i).valid = false)
    (h : s.advance cfg calls (.poll i) .idle (s.guarded i) = some s') : Takes cfg calls s (.refuse i) s'
  | acquire (i : ι) (hw : s.WantsConnection cfg calls i) (hfree : 0 < s.free) :
    Takes cfg calls s (.acquire i) (s.put i s.server .connected (s.guarded i) true (s.free - 1))
  | acquireFails (i : ι) (s' : Pooled ι) (hw : s.WantsConnection cfg calls i)
    (hfault : (calls i).faults.begin.isSome = true)
    (h : s.advance cfg calls (.poll i) .idle (s.guarded i) = some s') : Takes cfg calls s (.acquireFails i) s'
  | begin (i : ι) (s' : Pooled ι) (hp : s.point i = .connected)
    (h : s.advance cfg calls (.poll i) .idle (s.guarded i) = some s') : Takes cfg calls s (.begin i) s'
  | lock (i : ι) (hw : s.WantsContext i) (hg : s.guarded i = false) :
    Takes cfg calls s (.lock i) (s.put i s.server .locked true (s.conn i) s.free)
  | send (i : ι) (hp : s.point i = .locked) :
    Takes cfg calls s (.send i) (s.put i s.server .sent (s.guarded i) (s.conn i) s.free)
  | run (i : ι) (s' : Pooled ι) (hp : s.point i = .sent)
    (h : s.advance cfg calls (.poll i) .answered (s.guarded i) = some s') : Takes cfg calls s (.run i) s'
  | release (i : ι) (hp : s.point i = .answered) :
    Takes cfg calls s (.release i) (s.put i s.server .idle false (s.conn i) s.free)
  | finish (i : ι) (s' : Pooled ι) (hp : s.point i = .idle) (hend : (s.server.phase i).ending = true)
    (h : s.advance cfg calls (.poll i) .idle (s.guarded i) = some s') : Takes cfg calls s (.finish i) s'
  | cancel (i : ι) (s' : Pooled ι) (h : s.advance cfg calls (.cancel i) .idle false = some s') :
    Takes cfg calls s (.cancel i) s'

theorem step_takes {a : Act ι} (h : s.step cfg calls a = some s') : Takes cfg calls s a s' := by
  cases a with
  | refuse i =>
    obtain ⟨⟨hp, hfresh, hv⟩, h⟩ := Option.ite_none_right_eq_some.1 h
    exact .refuse i s' hp hfresh (by simpa using hv) h
  | acquire i =>
    obtain ⟨⟨hw, hfree⟩, h⟩ := Option.ite_none_right_eq_some.1 h
    cases h
    exact .acquire i hw hfree
  | acquireFails i =>
    obtain ⟨⟨hw, hfault⟩, h⟩ := Option.ite_none_right_eq_some.1 h
    exact .acquireFails i s' hw hfault h
  | begin i =>
    obtain ⟨hp, h⟩ := Option.ite_none_right_eq_some.1 h
    exact .begin i s' hp h
  | lock i =>
    obtain ⟨⟨hw, hg⟩, h⟩ := Option.ite_none_right_eq_some.1 h
    cases h
    exact .lock i hw hg
  | send i =>
    obtain ⟨hp, h⟩ := Option.ite_none_right_eq_some.1 h
    cases h
    exact .send i hp
  | run i =>
    obtain ⟨hp, h⟩ := Option.ite_none_right_eq_some.1 h
    exact .run i s' hp h
  | release i =>
    obtain ⟨hp, h⟩ := Option.ite_none_right_eq_some.1 h
    cases h
    exact .release i hp
  | finish i =>
    obtain ⟨⟨hp, hend⟩, h⟩ := Option.ite_none_right_eq_some.1 h
    exact .finish i s' hp hend h
  | cancel i => exact .cancel i s' h

theorem Takes.touches {a : Act ι} (h : Takes cfg calls s a s') : Touches cfg calls s a.caller s' := by
  cases h with
  | refuse i s' _ _ _ h | acquireFails i s' _ _ h | finish i s' _ _ h => exact touches_advance h
  | begin i s' _ h | run i s' _ h => exact touches_advance h
  | cancel i s' h => exact touches_advance h
  | acquire | lock | send | release => exact .still _ _ _ _

/-- **Refinement.** A run over the pool is a run of the server. -/
theorem pooled_run {db : Db} {capacity : Nat} {as : List (Act ι)}
    (h : run (step cfg calls) (init db capacity) as = some s) :
    ∃ bs, run (State.step cfg (createOrders cfg calls)) (.init db) bs = some s.server := by
  refine run_inv (fun s : Pooled ι => ∃ bs,
    run (State.step cfg (createOrders cfg calls)) (.init db) bs = some s.server)
    (fun s a s' hs hst => ?_) as ⟨[], rfl⟩ h
  obtain ⟨bs, hbs⟩ := hs
  cases (step_takes hst).touches with
  | still => exact ⟨bs, hbs⟩
  | served b server _ _ _ _ _ hb => exact ⟨bs ++ [b], run_concat hbs hb⟩

end

/-! ## Where a call can be -/

/-- A call in phase `p` is at point `pt`, its mutex locked or not, with or without a connection. -/
structure At (valid : Bool) (p : Phase Order) (pt : Point) (guarded conn : Bool) : Prop where
  guarded : guarded = pt.guards
  conn : conn = (pt == .connected || p.openTx.isSome)
  connected : pt = .connected → p = .created ∧ valid = true
  awaits : pt = .locked ∨ pt = .sent → p.awaits = true
  answered : pt = .answered → p ≠ .created

/-- The call with index `i` is where it can be. -/
def Stands (cfg : Config) (calls : ι → CreateOrderCall) (s : Pooled ι) (i : ι) : Prop :=
  At (createOrders cfg calls i).valid (s.server.phase i) (s.point i) (s.guarded i) (s.conn i)

theorem At.idle (valid : Bool) (p : Phase Order) : At valid p .idle false p.openTx.isSome where
  guarded := rfl
  conn := rfl
  connected h := by cases h
  awaits h := by simp at h
  answered h := by cases h

theorem At.answered_of_ne {valid : Bool} {p : Phase Order} (h : p ≠ .created) :
    At valid p .answered true p.openTx.isSome where
  guarded := rfl
  conn := rfl
  connected h := by cases h
  awaits h := by simp at h
  answered _ := h

/-- A call that has sent, or is about to send, something to the server has an open transaction. -/
theorem openTx_of_awaits {α : Type} {p : Phase α} (h : p.awaits = true) : p.openTx.isSome = true := by
  cases p with
  | awaiting => rfl
  | created | committing | rollingBack | returned | dropped => cases h

theorem openTx_of_ending {α : Type} {p : Phase α} (h : p.ending = true) : p.openTx.isSome = true := by
  cases p with
  | committing | rollingBack => rfl
  | created | awaiting | returned | dropped => cases h

theorem eq_created {α : Type} {p : Phase α} (h : p.fresh = true) : p = .created := by
  cases p with
  | created => rfl
  | awaiting | committing | rollingBack | returned | dropped => cases h

section
variable {cfg : Config} {calls : ι → CreateOrderCall} {s s' : Pooled ι}

/-- A poll of the server's, seen from the block. -/
theorem poll_some {i : ι} {server : State ι Order}
    (h : s.server.step cfg (createOrders cfg calls) (.poll i) = some server) :
    ∃ r, (s.server.phase i).poll cfg (createOrders cfg calls i) s.server.committed = some r ∧
      server.phase i = r.2.1 := by
  obtain ⟨j, r, hj, -, hr, rfl⟩ | ⟨j, hj, -⟩ | ⟨j, act, ctx, q, hj, -⟩ := State.step_cases h
  · cases hj
    exact ⟨r, hr, by simp⟩
  · cases hj
  · cases hj

/-- A call that does not get to its BEGIN, or whose BEGIN fails, opens no transaction. -/
theorem openTx_of_failed {i : ι} {server : State ι Order} (hp : (s.server.phase i).fresh = true)
    (hf : (createOrders cfg calls i).valid = false ∨ (calls i).faults.begin.isSome = true)
    (h : s.server.step cfg (createOrders cfg calls) (.poll i) = some server) : server.openTx i = none := by
  obtain ⟨r, hr, hphase⟩ := poll_some h
  rw [eq_created hp] at hr
  rw [State.openTx, hphase]
  cases hs : (createOrders cfg calls i).start with
  | error e =>
    simp only [Phase.poll, hs] at hr
    cases hr
    rfl
  | ok f =>
    have hb : (calls i).faults.begin.isSome = true :=
      hf.resolve_left (by simp [Job.valid, hs, Except.isOk, Except.toBool])
    obtain ⟨e, he⟩ := Option.isSome_iff_exists.1 hb
    have hbegin : (createOrders cfg calls i).faults.begin = some e := he
    simp only [Phase.poll, hs, hbegin] at hr
    cases hr
    rfl

/-- An answered statement leaves the call past its creation. -/
theorem phase_of_answered {i : ι} {server : State ι Order} (hp : (s.server.phase i).awaits = true)
    (h : s.server.step cfg (createOrders cfg calls) (.poll i) = some server) : server.phase i ≠ .created := by
  obtain ⟨r, hr, hphase⟩ := poll_some h
  rw [hphase]
  cases hs : s.server.phase i with
  | awaiting c k n m tx =>
    simp only [hs, Phase.poll, Option.some.injEq] at hr
    subst hr
    exact resume_ne_created _ _ _
  | created | committing | rollingBack | returned | dropped => simp [hs, Phase.awaits] at hp

omit [Fintype ι] in
theorem stands_put (i : ι) (server : State ι Order) (p : Point) (g c : Bool) (free : Nat) :
    Stands cfg calls (s.put i server p g c free) i ↔
      At (createOrders cfg calls i).valid (server.phase i) p g c := by
  simp [Stands, put]

/-- A step of the server leaves its caller where it can be, and gives a connection back once. -/
theorem caller_advance {b : Action ι} {p : Point} {g : Bool} {i : ι} (hb : b.caller = i)
    (h : s.advance cfg calls b p g = some s')
    (hat : ∀ server, s.server.step cfg (createOrders cfg calls) b = some server →
      At (createOrders cfg calls i).valid (server.phase i) p g (server.phase i).openTx.isSome)
    (hconn : s.conn i = true ∨ ∀ server, s.server.step cfg (createOrders cfg calls) b = some server →
      server.openTx i = none) :
    Stands cfg calls s' i ∧ s'.free + (s'.conn i).toNat = s.free + (s.conn i).toNat := by
  subst hb
  obtain ⟨server, hs, rfl⟩ := advance_some h
  refine ⟨(stands_put _ _ _ _ _ _).2 (hat server hs), ?_⟩
  simp only [put, Function.update_self]
  rcases hconn with hc | hnone
  · cases (server.openTx b.caller).isSome <;> simp [hc]
  · cases hc : s.conn b.caller <;> simp [hnone server hs]

/-- A step of the server that leaves the call idle. -/
theorem caller_idle {b : Action ι} {g : Bool} {i : ι} (hb : b.caller = i) (hg : g = false)
    (h : s.advance cfg calls b .idle g = some s')
    (hconn : s.conn i = true ∨ ∀ server, s.server.step cfg (createOrders cfg calls) b = some server →
      server.openTx i = none) :
    Stands cfg calls s' i ∧ s'.free + (s'.conn i).toNat = s.free + (s.conn i).toNat := by
  subst hg
  exact caller_advance hb h (fun server _ => .idle _ _) hconn

/-- **The step lemma**, for the caller of an act. -/
theorem caller_step {a : Act ι} {i : ι} (ha : a.caller = i) (hi : Stands cfg calls s i)
    (h : s.step cfg calls a = some s') :
    Stands cfg calls s' i ∧ s'.free + (s'.conn i).toNat = s.free + (s.conn i).toNat := by
  have hguard : ∀ p, s.point i = p → s.guarded i = p.guards := fun p hp => by rw [hi.guarded, hp]
  have hopen : (s.server.phase i).openTx.isSome = true → s.conn i = true := fun ho => by
    rw [hi.conn, ho, Bool.or_true]
  cases step_takes h with
  | refuse j s' hp hfresh hv h =>
    obtain rfl : j = i := ha
    exact caller_idle rfl (hguard _ hp) h (.inr fun server hs => openTx_of_failed hfresh (.inl hv) hs)
  | acquire j hw hfree =>
    obtain rfl : j = i := ha
    obtain ⟨hp, hfresh, hv⟩ := hw
    have hcreated := eq_created hfresh
    have hconn : s.conn j = false := by rw [hi.conn, hp, hcreated]; rfl
    have hg : s.guarded j = false := hguard _ hp
    refine ⟨(stands_put _ _ _ _ _ _).2 ⟨hg, rfl, fun _ => ⟨hcreated, hv⟩, by simp, by simp⟩, ?_⟩
    simp only [put, Function.update_self, hconn, Bool.toNat_true, Bool.toNat_false]
    omega
  | acquireFails j s' hw hfault h =>
    obtain rfl : j = i := ha
    obtain ⟨hp, hfresh, -⟩ := hw
    exact caller_idle rfl (hguard _ hp) h (.inr fun server hs => openTx_of_failed hfresh (.inr hfault) hs)
  | begin j s' hp h =>
    obtain rfl : j = i := ha
    exact caller_idle rfl (hguard _ hp) h (.inl (by rw [hi.conn, hp]; rfl))
  | lock j hw hg =>
    obtain rfl : j = i := ha
    have htx := openTx_of_awaits hw.2
    refine ⟨(stands_put _ _ _ _ _ _).2 ⟨rfl, ?_, by simp, fun _ => hw.2, by simp⟩, by simp [put]⟩
    rw [hopen htx, htx, Bool.or_true]
  | send j hp =>
    obtain rfl : j = i := ha
    have haw := hi.awaits (.inl hp)
    have htx := openTx_of_awaits haw
    have hg : s.guarded j = true := hguard _ hp
    refine ⟨(stands_put _ _ _ _ _ _).2 ⟨hg, ?_, by simp, fun _ => haw, by simp⟩, by simp [put]⟩
    rw [hopen htx, htx, Bool.or_true]
  | run j s' hp h =>
    obtain rfl : j = i := ha
    have haw := hi.awaits (.inr hp)
    have hg : s.guarded j = true := hguard _ hp
    refine caller_advance rfl h (fun server hs => ?_) (.inl (hopen (openTx_of_awaits haw)))
    rw [hg]
    exact .answered_of_ne (phase_of_answered haw hs)
  | release j hp =>
    obtain rfl : j = i := ha
    refine ⟨(stands_put _ _ _ _ _ _).2 ?_, by simp [put]⟩
    have hconn : s.conn j = (s.server.phase j).openTx.isSome := by rw [hi.conn, hp]; rfl
    rw [hconn]
    exact .idle _ _
  | finish j s' hp hend h =>
    obtain rfl : j = i := ha
    exact caller_idle rfl (hguard _ hp) h (.inl (hopen (openTx_of_ending hend)))
  | cancel j s' h =>
    obtain rfl : j = i := ha
    refine caller_idle rfl rfl h ?_
    cases htx : (s.server.phase j).openTx with
    | some tx => exact .inl (hopen (by rw [htx]; rfl))
    | none =>
      refine .inr fun server hs => ?_
      obtain ⟨k, r, hk, -⟩ | ⟨k, hk, -, rfl⟩ | ⟨k, act, ctx, q, hk, -⟩ := State.step_cases hs
      · cases hk
      · cases hk
        rw [State.goto_openTx_self]
        exact (openTx_cancel _).elim (fun ho => ho.trans htx) id
      · cases hk

/-! ## The invariant of every run -/

/-- One flag changes, and the number of flags set with it. -/
theorem card_flags {f f' : ι → Bool} {i : ι} (h : ∀ j, j ≠ i → f' j = f j) :
    (Finset.univ.filter fun j => f' j = true).card + (f i).toNat =
      (Finset.univ.filter fun j => f j = true).card + (f' i).toNat := by
  have hsum : ∀ f : ι → Bool, (Finset.univ.filter fun j => f j = true).card =
      (f i).toNat + ∑ j ∈ Finset.univ.erase i, (f j).toNat := by
    intro f
    rw [Finset.card_filter, Finset.add_sum_erase _ (fun j => (f j).toNat) (Finset.mem_univ i)]
    exact Finset.sum_congr rfl fun j _ => by cases f j <;> rfl
  have hrest : ∑ j ∈ Finset.univ.erase i, (f' j).toNat = ∑ j ∈ Finset.univ.erase i, (f j).toNat :=
    Finset.sum_congr rfl fun j hj => by rw [h j (Finset.ne_of_mem_erase hj)]
  rw [hsum f, hsum f', hrest]
  omega

/-- Every call is where it can be, and every connection is in the pool or owned by one call. -/
structure Fits (cfg : Config) (calls : ι → CreateOrderCall) (capacity : Nat) (s : Pooled ι) : Prop where
  stands : ∀ i, Stands cfg calls s i
  conns : s.free + (Finset.univ.filter fun i => s.conn i = true).card = capacity

omit [DecidableEq ι] in
theorem fits_init (cfg : Config) (calls : ι → CreateOrderCall) (db : Db) (capacity : Nat) :
    Fits cfg calls capacity (init db capacity) where
  stands _ := .idle _ _
  conns := by simp [init]

/-- An act moves nobody but its caller. -/
theorem Touches.other {i j : ι} (h : Touches cfg calls s i s') (hj : j ≠ i) :
    s'.server.phase j = s.server.phase j ∧ s'.point j = s.point j ∧ s'.guarded j = s.guarded j ∧
      s'.conn j = s.conn j := by
  cases h with
  | still => simp [put, Function.update_of_ne hj]
  | served b server p g c free hb hs =>
    subst hb
    simp [put, Function.update_of_ne hj, State.step_phase_ne hs hj]

theorem fits_step {capacity : Nat} {a : Act ι} (hs : Fits cfg calls capacity s) (h : s.step cfg calls a = some s') :
    Fits cfg calls capacity s' := by
  have htouches := (step_takes h).touches
  obtain ⟨hcaller, hfree⟩ := caller_step rfl (hs.stands a.caller) h
  constructor
  · intro j
    by_cases hj : j = a.caller
    · rw [hj]
      exact hcaller
    · obtain ⟨hphase, hpoint, hguarded, hconn⟩ := htouches.other hj
      have hstands := hs.stands j
      unfold Stands at hstands ⊢
      rw [hphase, hpoint, hguarded, hconn]
      exact hstands
  · have hcard := card_flags fun j hj => (htouches.other (j := j) hj).2.2.2
    have hconns := hs.conns
    omega

theorem fits_run {db : Db} {capacity : Nat} {as : List (Act ι)}
    (h : run (step cfg calls) (init db capacity) as = some s) : Fits cfg calls capacity s :=
  run_inv _ (fun _ _ _ hs hst => fits_step hs hst) as (fits_init cfg calls db capacity) h

end

end Pooled

end TransactionManager
