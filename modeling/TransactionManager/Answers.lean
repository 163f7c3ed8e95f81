import TransactionManager.Rejections
import Mathlib.Algebra.BigOperators.Group.Finset.Basic
import Mathlib.Algebra.Ring.Int.Defs
/-
# Every `Ok` is an order, and every order an `Ok`

What the tables owe to the answers the callers hold (`Acknowledged`): the order rows that have come are
those of the calls that have returned `Ok`, one for each, and what the stock of an item has lost is what
these calls asked of it. A call that has returned an error, has been cancelled, or is still on its way
has no part in the tables. COMMIT, its acknowledgement and the return are one step; `InFlight` says what is
left of this where they are not.
-/

namespace TransactionManager

open RowStore RustInt Run

/-- The order row of a call. -/
def CreateOrderCall.row (call : CreateOrderCall) : OrderRow := ⟨call.itemId, call.qty⟩

/-! ## The calls that a sequence of calls places -/

section
variable {ι : Type} {cfg : Config} {calls : ι → CreateOrderCall} {t₀ : Tables} {ds : List ι} {p : ι → Bool}

/-- `p` picks the calls of `ds` that are placed at their turn. -/
def Picks (cfg : Config) (calls : ι → CreateOrderCall) (t₀ : Tables) (ds : List ι) (p : ι → Bool) : Prop :=
  ∀ before i rest, ds = before ++ i :: rest →
    (p i = true ↔ ∃ q, Accepted (calls i) (after cfg calls t₀ before) q)

theorem Picks.left {j : ι} (h : Picks cfg calls t₀ (ds ++ [j]) p) : Picks cfg calls t₀ ds p :=
  fun before i rest hds => h before i (rest ++ [j]) (by simp [hds])

/-- What is left of the first tables once the picked calls are placed. -/
structure Ledger (calls : ι → CreateOrderCall) (t₀ t : Tables) (picked : List ι) : Prop where
  orders : ∀ id row, t.orders id = some row ↔
    t₀.orders id = some row ∨ ∃ i ∈ picked, (calls i).orderId = id ∧ row = (calls i).row
  fresh : ∀ i ∈ picked, t₀.orders (calls i).orderId = none
  unique : ∀ i ∈ picked, ∀ j ∈ picked, (calls i).orderId = (calls j).orderId → i = j
  stock : ∀ x q₀, t₀.inventory x = some q₀ → ∃ q, t.inventory x = some q ∧
    q.toInt + ((picked.filter fun i => (calls i).itemId = x).map fun i => (calls i).qty.toInt).sum = q₀.toInt
  absent : ∀ x, t₀.inventory x = none → t.inventory x = none
  elsewhere : t.elsewhere = t₀.elsewhere

theorem Ledger.nil (calls : ι → CreateOrderCall) (t₀ : Tables) : Ledger calls t₀ t₀ [] where
  orders id row := by simp
  fresh i hi := absurd hi List.not_mem_nil
  unique i hi := absurd hi List.not_mem_nil
  stock x q₀ hq := ⟨q₀, hq, by simp⟩
  absent x h := h
  elsewhere := rfl

/-- Another call is placed. -/
theorem Ledger.place {t : Tables} {picked : List ι} (h : Ledger calls t₀ t picked) {i : ι} {q : Int32}
    (ha : Accepted (calls i) t q) : Ledger calls t₀ ((calls i).place t q) (picked ++ [i]) := by
  have hpos := ha.begun.pos
  have hle := ha.covered.le
  have hmax := q.toInt_lt
  -- the id is neither in the first table nor that of a call placed before
  have hfresh : t₀.orders (calls i).orderId = none := by
    cases ho : t₀.orders (calls i).orderId with
    | none => rfl
    | some row =>
      have := (h.orders _ _).2 (.inl ho)
      rw [ha.fresh] at this
      cases this
  have hnew : ∀ j ∈ picked, (calls j).orderId ≠ (calls i).orderId := by
    intro j hj hid
    have := (h.orders _ _).2 (.inr ⟨j, hj, hid, rfl⟩)
    rw [ha.fresh] at this
    cases this
  refine ⟨fun id row => ?_, fun j hj => ?_, fun j hj k hk hid => ?_, fun x q₀ hq₀ => ?_, fun x hx => ?_, h.elsewhere⟩
  · by_cases hid : id = (calls i).orderId
    · subst hid
      rw [CreateOrderCall.place, Tables.addOrder_self, hfresh]
      constructor
      · intro hrow
        exact .inr ⟨i, by simp, rfl, (Option.some.inj hrow).symm⟩
      · rintro (hrow | ⟨j, hj, hid, rfl⟩)
        · cases hrow
        · rcases List.mem_append.1 hj with hj | hj
          · exact absurd hid (hnew j hj)
          · rw [List.mem_singleton.1 hj]
            rfl
    · rw [CreateOrderCall.place, Tables.addOrder_ne _ _ hid, Tables.setStock_orders, h.orders]
      refine or_congr Iff.rfl ⟨?_, ?_⟩
      · rintro ⟨j, hj, hj'⟩
        exact ⟨j, List.mem_append_left _ hj, hj'⟩
      · rintro ⟨j, hj, rfl, hrow⟩
        rcases List.mem_append.1 hj with hj | hj
        · exact ⟨j, hj, rfl, hrow⟩
        · exact absurd (by rw [List.mem_singleton.1 hj]) hid
  · rcases List.mem_append.1 hj with hj | hj
    · exact h.fresh j hj
    · rw [List.mem_singleton.1 hj, hfresh]
  · rcases List.mem_append.1 hj with hj | hj <;> rcases List.mem_append.1 hk with hk | hk
    · exact h.unique j hj k hk hid
    · rw [List.mem_singleton.1 hk] at hid
      exact absurd hid (hnew j hj)
    · rw [List.mem_singleton.1 hj] at hid
      exact absurd hid.symm (hnew k hk)
    · rw [List.mem_singleton.1 hj, List.mem_singleton.1 hk]
  · obtain ⟨q', hq', hsum⟩ := h.stock x q₀ hq₀
    rw [CreateOrderCall.place, Tables.addOrder_inventory, List.filter_append, List.map_append, List.sum_append]
    by_cases hx : (calls i).itemId = x
    · subst hx
      obtain rfl : q' = q := Option.some.inj (hq'.symm.trans ha.covered.stock)
      refine ⟨q' - (calls i).qty, by simp, ?_⟩
      rw [toInt_sub_of_inI32 ⟨by omega, by omega⟩]
      simp only [List.filter_cons, decide_true, if_true, List.filter_nil, List.map_cons, List.map_nil, List.sum_cons,
        List.sum_nil]
      omega
    · refine ⟨q', by rw [Tables.setStock_ne _ _ (Ne.symm hx)]; exact hq', ?_⟩
      simpa [hx] using hsum
  · have hn := h.absent x hx
    have hxi : x ≠ (calls i).itemId := by
      rintro rfl
      rw [ha.covered.stock] at hn
      cases hn
    rw [CreateOrderCall.place, Tables.addOrder_inventory, Tables.setStock_ne _ _ hxi, hn]

/-- Any sequence of calls leaves the ledger of those it has placed. -/
theorem ledger_after (hp : Picks cfg calls t₀ ds p) : Ledger calls t₀ (after cfg calls t₀ ds) (ds.filter p) := by
  induction ds using List.reverseRecOn with
  | nil => exact .nil calls t₀
  | append_singleton ds i ih =>
    have hi := hp ds i [] rfl
    have ih := ih hp.left
    rw [after_concat, List.filter_append]
    rcases CreateOrderCall.outcome_cases cfg (calls i) (after cfg calls t₀ ds) with ⟨q, ha, ho⟩ | ⟨e, he⟩
    · rw [ho, show [i].filter p = [i] by simp [hi.2 ⟨q, ha⟩]]
      exact ih.place ha
    · have hpi : ¬ p i = true := by
        rw [hi, ← outcome_ok_iff cfg, he]
        rintro ⟨order, ho⟩
        cases ho
      rw [he, show [i].filter p = [] by simp [hpi], List.append_nil]
      exact ih

/-! ## The calls that have returned `Ok` -/

theorem Phase.ok_iff {α : Type} {p : Phase α} : p.ok = true ↔ ∃ v escaped, p = .returned (.ok v) escaped := by
  constructor
  · intro h
    unfold ok at h
    split at h
    · exact ⟨_, _, rfl⟩
    · cases h
  · rintro ⟨v, escaped, rfl⟩
    rfl

/-- At its place in a sequence of calls, a call has one outcome. -/
theorem Decided.unique (hn : ds.Nodup) {i : ι} {r r' : Except Error Order} (h : Decided cfg calls t₀ ds i r)
    (h' : Decided cfg calls t₀ ds i r') : r = r' := by
  obtain ⟨before, rest, rfl, rfl⟩ := h
  obtain ⟨before', rest', hds, rfl⟩ := h'
  obtain ⟨hx, hz⟩ : i ∉ before ∧ i ∉ rest :=
    ⟨fun hmem => (List.nodup_append.1 hn).2.2 i hmem i List.mem_cons_self rfl,
      (List.nodup_cons.1 (List.nodup_append.1 hn).2.1).1⟩
  obtain ⟨rfl, -, -⟩ := (List.append_cons_inj_of_notMem hx hz).1 hds
  rfl

variable {s : State ι Order}

/-- A call has returned `Ok` if and only if it was placed at its turn. -/
theorem Served.picks (h : Served cfg calls t₀ ds s) : Picks cfg calls t₀ ds fun i => (s.phase i).ok := by
  intro before i rest hds
  have hmine : Decided cfg calls t₀ ds i ((calls i).outcome cfg (after cfg calls t₀ before)).1 :=
    ⟨before, rest, hds, rfl⟩
  rw [← outcome_ok_iff cfg]
  constructor
  · intro hok
    obtain ⟨o, escaped, hr⟩ := Phase.ok_iff.1 hok
    obtain ⟨before', rest', hds', hp⟩ := h.returned hr
    have hout := (Phase.returned.inj (hr.symm.trans hp)).1
    exact ⟨o, hmine.unique h.nodup ⟨before', rest', hds', hout⟩⟩
  · rintro ⟨o, ho⟩
    rw [ho] at hmine
    rcases h.decided i (by simp [hds]) with hdec | ⟨-, e, he⟩
    · obtain ⟨r, hr⟩ := Option.ne_none_iff_exists'.1 hdec
      obtain rfl := hmine.unique h.nodup (h.result i r hr)
      obtain ⟨g, hg, -⟩ := h.stage i
      rw [hg, Progress.phase_decided] at hr
      cases g <;> cases hr
      exact Phase.ok_iff.2 ⟨o, none, hg⟩
    · cases hmine.unique h.nodup he

theorem Served.ok_mem (h : Served cfg calls t₀ ds s) {i : ι} (hok : (s.phase i).ok = true) : i ∈ ds := by
  obtain ⟨o, escaped, hr⟩ := Phase.ok_iff.1 hok
  obtain ⟨before, rest, rfl, -⟩ := h.returned hr
  simp

/-- The tables `t` and the answers that the callers hold in `s` tell the same story. -/
structure Acknowledged [Fintype ι] (calls : ι → CreateOrderCall) (t₀ t : Tables) (s : State ι Order) : Prop where
  answer : ∀ i o escaped, s.phase i = .returned (.ok o) escaped → o = (calls i).order ∧ escaped = none
  orders : ∀ id row, t.orders id = some row ↔ t₀.orders id = some row ∨
    ∃ i, (s.phase i).ok = true ∧ (calls i).orderId = id ∧ row = (calls i).row
  fresh : ∀ i, (s.phase i).ok = true → t₀.orders (calls i).orderId = none
  unique : ∀ i j, (s.phase i).ok = true → (s.phase j).ok = true → (calls i).orderId = (calls j).orderId → i = j
  stock : ∀ x q₀, t₀.inventory x = some q₀ → ∃ q, t.inventory x = some q ∧
    q.toInt + ∑ i with (s.phase i).ok = true ∧ (calls i).itemId = x, (calls i).qty.toInt = q₀.toInt
  absent : ∀ x, t₀.inventory x = none → t.inventory x = none
  elsewhere : t.elsewhere = t₀.elsewhere

variable [Fintype ι] [DecidableEq ι]

theorem Served.acknowledged (h : Served cfg calls t₀ ds s) : Acknowledged calls t₀ (after cfg calls t₀ ds) s := by
  have hledger := ledger_after h.picks
  have hmem : ∀ i, i ∈ ds.filter (fun i => (s.phase i).ok) ↔ (s.phase i).ok = true := fun i => by
    rw [List.mem_filter]
    exact ⟨fun hi => hi.2, fun hi => ⟨h.ok_mem hi, hi⟩⟩
  refine ⟨fun i o escaped hr => ?_, fun id row => ?_, fun i hi => hledger.fresh i ((hmem i).2 hi),
    fun i j hi hj => hledger.unique i ((hmem i).2 hi) j ((hmem j).2 hj), fun x q₀ hq₀ => ?_, hledger.absent,
    hledger.elsewhere⟩
  · obtain ⟨before, rest, -, hp⟩ := h.returned hr
    obtain ⟨ho, rfl⟩ := Phase.returned.inj (hr.symm.trans hp)
    rcases CreateOrderCall.outcome_cases cfg (calls i) (after cfg calls t₀ before) with ⟨q, -, hout⟩ | ⟨e, he⟩
    · rw [hout] at ho
      exact ⟨Except.ok.inj ho, rfl⟩
    · rw [he] at ho
      cases ho
  · simp only [hledger.orders, hmem]
  · obtain ⟨q, hq, hsum⟩ := hledger.stock x q₀ hq₀
    refine ⟨q, hq, ?_⟩
    rw [← hsum, ← List.sum_toFinset _ ((h.nodup.filter _).filter _)]
    congr 1
    refine Finset.sum_congr (Finset.ext fun i => ?_) fun _ _ => rfl
    simp only [Finset.mem_filter, Finset.mem_univ, true_and, List.mem_toFinset, List.mem_filter, decide_eq_true_eq]
    exact ⟨fun hi => ⟨⟨h.ok_mem hi.1, hi.1⟩, hi.2⟩, fun hi => ⟨hi.1.2, hi.2⟩⟩

/-- **Answers and tables agree.** In every reachable state the order rows added are those of the calls
that have returned `Ok`, one for each, and every stock has lost what these calls asked of it. -/
theorem createOrder_acknowledged (hd : Deployed cfg.catalog cfg.backend) {as : List (Action ι)}
    (h : run (State.step cfg (createOrders cfg calls)) (.init (t₀.store cfg.backend)) as = some s) :
    ∃ t : Tables, s.committed = t.store cfg.backend ∧ Acknowledged calls t₀ t s := by
  obtain ⟨-, ds, hserved⟩ := served_run hd h
  exact ⟨after cfg calls t₀ ds, hserved.committed, hserved.acknowledged⟩

end

theorem createOrder_acknowledged_rivalry : ∃ t : Tables,
    (Option.get _ rivalry_runs).committed = t.store .sqlx ∧
      Acknowledged rivals stocked t (Option.get _ rivalry_runs) :=
  createOrder_acknowledged (Makefile.deployed .sqlx) (Option.some_get rivalry_runs).symm

end TransactionManager
