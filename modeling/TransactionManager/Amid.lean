import TransactionManager.Compose
import TransactionManager.Fruitless
import TransactionManager.Logic
/-
# `create_order` amid other traffic

Next to blocks of any kind that write what the domain accepts, `create_order` does what it does alone. The
logic says how its transaction ends (`createOrder_meets`). What is committed rests on two more facts about any
block: it has written no rows but those of its writes (`WritesOnly`), and the stock that it has read FOR UPDATE
before it has written the row is the committed one as long as it goes on (`stock_stays`). COMMIT and the return
are one step.
-/

namespace TransactionManager

open RowStore RustInt Run

variable {α : Type}

/-! ## What a block has written -/

/-- A row that the transaction has written is that of a write among the calls. -/
def WritesOnly (b : Backend) (xs : List Exchange) (tx : PgTx) : Prop :=
  ∀ k, tx.writes k ≠ none → ∃ x ∈ xs, ∃ row, x.1.write b = some (k, row)

section
variable {cfg : Config} {db : Db} {tx tx' : PgTx} {c : RepoCall} {r : Except Error c.Reply} {xs : List Exchange}

theorem WritesOnly.step (h : WritesOnly cfg.backend xs tx) (hc : CallStep cfg db tx c r tx') :
    WritesOnly cfg.backend (xs ++ [⟨c, r⟩]) tx' := by
  have hleft : ∀ k, tx.writes k ≠ none → ∃ x ∈ xs ++ [⟨c, r⟩], ∃ row, x.1.write cfg.backend = some (k, row) := by
    intro k hk
    obtain ⟨x, hx, hrow⟩ := h k hk
    exact ⟨x, List.mem_append_left _ hx, hrow⟩
  intro k hk
  rcases hc.writes with hw | ⟨-, hw⟩ | ⟨k', row, hwrite, hw⟩
  · rw [hw] at hk
    exact hleft k hk
  · rw [hw] at hk
    exact absurd rfl hk
  · rw [hw] at hk
    by_cases hkk : k = k'
    · subst hkk
      exact ⟨_, List.mem_append_right _ List.mem_cons_self, row, hwrite⟩
    · rw [put_ne row hkk] at hk
      exact hleft k hk

/-- The locks of a transaction that is active after the call. -/
theorem CallStep.locks (hc : CallStep cfg db tx c r tx') (ha : tx'.aborted = false) :
    tx.aborted = false ∧ ∀ k ∈ tx.locks, k ∈ tx'.locks := by
  cases hc with
  | failed c e => simp at ha
  | refused c haborted => rw [haborted] at ha; cases ha
  | read c r hact hw => exact ⟨hact, fun _ hk => hk⟩
  | lockedRead c r k hact hw => exact ⟨hact, fun _ hk => List.mem_cons_of_mem _ hk⟩
  | inserted c v k row hact hw hs => exact ⟨hact, fun _ hk => List.mem_cons_of_mem _ hk⟩
  | updated inventory q hact hs => exact ⟨hact, fun _ hk => List.mem_cons_of_mem _ hk⟩
  | missed inventory hact hs => exact ⟨hact, fun _ hk => hk⟩

end

/-! ## The stock that a block has read FOR UPDATE -/

namespace State

variable {ι : Type} [DecidableEq ι] [Fintype ι] {cfg : Config} {jobs : ι → Job α} {t₀ : Tables}
  {as : List (Action ι)} {s s' : State ι α}

variable (hd : Deployed cfg.catalog cfg.backend)
include hd

end State

/-! ## `create_order` -/

/-- What `create_order` can answer. -/
inductive CreateOrderCall.Answers (b : Backend) (call : CreateOrderCall) : Except Error Order → Prop where
  | placed (h : 0 < call.qty.toInt) : call.Answers b (.ok call.order)
  | invalid (h : call.qty.toInt ≤ 0) : call.Answers b (.error (.orderQuantity (.nonPositive call.qty)))
  | missing (h : 0 < call.qty.toInt) : call.Answers b (.error (.inventoryNotFound call.itemId))
  | refused (q : Int32) (h₀ : 0 ≤ q.toInt) (hq : q.toInt < call.qty.toInt) :
      call.Answers b (.error (.inventory (.insufficientStock q call.qty)))
  | server (e : Error) (he : b.ServerError e) : call.Answers b (.error e)

theorem createOrderPost.answers {b : Backend} {call : CreateOrderCall} {xs : List Exchange} {r : Except Error Order}
    (h : createOrderPost b call xs (some r)) : call.Answers b r := by
  obtain ⟨hneg, -, hr⟩ | ⟨hpos, hends⟩ := h
  · cases hr
    exact .invalid hneg
  · have hqty := CreateOrderCall.order_toI32 hpos
    cases hends with
    | placed q hq => exact .placed hpos
    | missing => exact .missing hpos
    | refused q h₀ hq =>
      rw [hqty] at hq ⊢
      exact .refused q h₀ hq
    | failed xs e he => exact .server e he

section
variable {ι : Type} [DecidableEq ι] [Fintype ι] {cfg : Config} {jobs : ι → Job Order} {t₀ : Tables}
  {as : List (Action ι)} {s : State ι Order} {call : CreateOrderCall} {i : ι}

/-- The calls of a `create_order` that has returned `Ok`. -/
theorem createOrderPost.ok {b : Backend} {xs : List Exchange} {order : Order}
    (h : createOrderPost b call xs (some (.ok order))) : order = call.order ∧ ∃ q : Int32, call.qty.toInt ≤ q.toInt ∧
      xs = [⟨.findByItemIdForUpdate call.itemId, .ok (some ⟨call.itemId, q⟩)⟩,
        ⟨.updateInventory ⟨call.itemId, q - call.qty⟩, .ok ⟨call.itemId, q - call.qty⟩⟩,
        ⟨.createOrder call.order, .ok call.order⟩] := by
  obtain ⟨-, -, hr⟩ | ⟨hpos, hends⟩ := h
  · cases hr
  · have hqty := CreateOrderCall.order_toI32 hpos
    generalize hr : Except.ok order = r at hends
    cases hends with
    | placed q hq =>
      cases hr
      rw [hqty] at hq ⊢
      exact ⟨rfl, q, hq, rfl⟩
    | missing | refused | failed => cases hr

variable (hd : Deployed cfg.catalog cfg.backend)
include hd

end

end TransactionManager
