import TransactionManager.AllOrNothing
import Mathlib.Data.Fintype.Card
/-
# No oversell and no spurious rejection

A call is refused for stock while it holds the row lock of its item, over the committed stock
(`refused_locked`), and from then on the stock only goes down (`after_stock_le`): no order that has
been rejected for stock could be served from what is left. So equal calls for one item are served as
often as the stock holds their quantity, on every schedule (`Alike.placed_iff`).
-/

namespace TransactionManager

open RowStore RustInt Run

/-! ## What a refusal for stock says of the tables -/

section
variable {cfg : Config} {call : CreateOrderCall} {t t' : Tables} {available requested : Int32}

theorem driverError_ne_inventory (b : Backend) (pg : PgError) (e : InventoryError) :
    b.driverError pg ≠ .inventory e := by
  cases b <;> rintro ⟨⟩

/-- An error of the driver is not a refusal by the aggregate. -/
theorem driverError_not_refused {b : Backend} {pg : PgError} {e : InventoryError}
    (h : some (.error (b.driverError pg) : Except Error Order) = some (.error (.inventory e))) : False :=
  driverError_ne_inventory b pg e (Except.error.inj (Option.some.inj h))

theorem settle_ne_inventory (q : Int32) (e : InventoryError) : (call.settle cfg t q).1 ≠ .error (.inventory e) := by
  unfold CreateOrderCall.settle
  split
  all_goals simp [driverError_ne_inventory]

/-- A refusal for stock names the stock, which is below the quantity of the command. -/
theorem outcome_insufficient
    (h : (call.outcome cfg t).1 = .error (.inventory (.insufficientStock available requested))) :
    t.inventory call.itemId = some available ∧ requested = call.qty ∧ available.toInt < requested.toInt := by
  unfold CreateOrderCall.outcome at h
  split at h
  · cases h
  · split at h
    · exact absurd (Except.error.inj h) (driverError_ne_inventory _ _ _)
    · exact absurd (Except.error.inj h) (driverError_ne_inventory _ _ _)
    · cases h
    · rename_i q _ _ hq
      split at h
      · cases h
      · split at h
        · rename_i hlt
          cases h
          exact ⟨hq, rfl, hlt⟩
        · exact absurd h (settle_ne_inventory q _)

variable (cfg) in
/-- No call raises a stock. -/
theorem outcome_stock_le {x : ItemId} {q : Int32} (h : t.inventory x = some q) :
    ∃ q', (call.outcome cfg t).2.inventory x = some q' ∧ q'.toInt ≤ q.toInt := by
  rcases CreateOrderCall.outcome_cases cfg call t with ⟨q₀, ha, ho⟩ | ⟨e, he⟩
  · rw [ho]
    have hpos := ha.begun.pos
    have hle := ha.covered.le
    have hmax := q₀.toInt_lt
    by_cases hx : x = call.itemId
    · subst hx
      obtain rfl : q = q₀ := Option.some.inj (h.symm.trans ha.covered.stock)
      refine ⟨q - call.qty, by simp [CreateOrderCall.place], ?_⟩
      rw [toInt_sub_of_inI32 ⟨by omega, by omega⟩]
      omega
    · refine ⟨q, ?_, Int.le_refl _⟩
      rw [CreateOrderCall.place, Tables.addOrder_inventory, Tables.setStock_ne _ _ hx, h]
  · rw [he]
    exact ⟨q, h, Int.le_refl _⟩

variable (cfg) in
theorem after_stock_le {ι : Type} {calls : ι → CreateOrderCall} {x : ItemId} {q : Int32} (ds : List ι)
    (h : t.inventory x = some q) : ∃ q', (after cfg calls t ds).inventory x = some q' ∧ q'.toInt ≤ q.toInt := by
  induction ds using List.reverseRecOn with
  | nil => exact ⟨q, h, Int.le_refl _⟩
  | append_singleton ds i ih =>
    obtain ⟨q₁, h₁, hle₁⟩ := ih
    obtain ⟨q₂, h₂, hle₂⟩ := outcome_stock_le cfg h₁
    rw [after_concat]
    exact ⟨q₂, h₂, Int.le_trans hle₂ hle₁⟩

/-- The step that refuses a call for stock leaves it with the lock of the row it has read. -/
theorem next_insufficient {g g' : Progress} (h : g.next cfg call t = some (g', t')) (hg : g.decided = none)
    (hg' : g'.decided = some (.error (.inventory (.insufficientStock available requested)))) :
    g' = .rollingBack (.inventory (.insufficientStock available requested)) (call.lockedTx cfg.backend) ∧ t' = t ∧
      t.inventory call.itemId = some available := by
  cases g with
  | created =>
    simp only [Progress.next] at h
    split at h
    · cases h; cases hg'
    · split at h
      · cases h
        exact (driverError_not_refused hg').elim
      · cases h; cases hg'
  | finding =>
    simp only [Progress.next] at h
    split at h
    · cases h
      exact (driverError_not_refused hg').elim
    · cases h; cases hg'
    · rename_i q _ hq
      split at h
      · cases h; cases hg'
      · split at h
        · cases h
          cases hg'
          exact ⟨rfl, rfl, hq⟩
        · cases h; cases hg'
  | updating q =>
    simp only [Progress.next] at h
    split at h
    · cases h
      exact (driverError_not_refused hg').elim
    · cases h; cases hg'
  | creating q =>
    simp only [Progress.next] at h
    split at h
    · cases h
      exact (driverError_not_refused hg').elim
    · cases h
      exact (driverError_not_refused hg').elim
    · cases h; cases hg'
  | committing q =>
    simp only [Progress.next] at h
    split at h
    · cases h
      exact (driverError_not_refused hg').elim
    · cases h; cases hg'
  | rollingBack e tx => cases hg
  | returned r => cases hg
  | dropped => cases h

end

/-! ## In a run -/

section
variable {ι : Type} [DecidableEq ι] [Fintype ι] {cfg : Config} {calls : ι → CreateOrderCall} {t₀ : Tables}
  {as : List (Action ι)} {s s' : State ι Order} {i : ι} {available requested : Int32}

/-- At some point of the schedule the call `i` held the row lock of its item, and this was the
committed stock. -/
def ReadLocked (cfg : Config) (calls : ι → CreateOrderCall) (t₀ : Tables) (as : List (Action ι)) (i : ι)
    (available : Int32) : Prop :=
  ∃ before rest s tx, as = before ++ rest ∧
    run (State.step cfg (createOrders cfg calls)) (.init (t₀.store cfg.backend)) before = some s ∧
    s.openTx i = some tx ∧ cfg.backend.inventoryKey (calls i).itemId ∈ tx.locks ∧
    s.committed (cfg.backend.inventoryKey (calls i).itemId) = some (inventoryRow (calls i).itemId available)

theorem ReadLocked.append (h : ReadLocked cfg calls t₀ as i available) (a : Action ι) :
    ReadLocked cfg calls t₀ (as ++ [a]) i available := by
  obtain ⟨before, rest, s, tx, rfl, h⟩ := h
  exact ⟨before, rest ++ [a], s, tx, by simp, h⟩

variable (hd : Deployed cfg.catalog cfg.backend)
include hd

/-- Whoever has been refused for stock has read that stock under the row lock. -/
theorem refused_locked
    (hrun : run (State.step cfg (createOrders cfg calls)) (.init (t₀.store cfg.backend)) as = some s)
    (i : ι) (available requested : Int32)
    (h : (s.phase i).decided = some (.error (.inventory (.insufficientStock available requested)))) :
    ReadLocked cfg calls t₀ as i available := by
  revert i available requested
  refine run_history (fun as s => ∀ i available requested,
    (s.phase i).decided = some (.error (.inventory (.insufficientStock available requested))) →
      ReadLocked cfg calls t₀ as i available) (fun i _ _ h => by cases h) ?_ as hrun
  intro as s a s' hrun ih hstep i available requested h
  -- refused before, or in this step
  by_cases hbefore : (s.phase i).decided = some (.error (.inventory (.insufficientStock available requested)))
  · exact (ih i available requested hbefore).append a
  have hrun' := run_concat hrun hstep
  obtain ⟨-, ds, hserved⟩ := served_run hd hrun
  by_cases hi : i ≠ a.caller
  · rw [State.step_phase_ne hstep hi] at h
    exact absurd h hbefore
  obtain ⟨j, ⟨ev, p', db'⟩, rfl, -, hr, rfl⟩ | ⟨j, rfl, -, rfl⟩ | ⟨j, act, ctx, q, rfl, hp, -, rfl⟩ :=
    State.step_cases hstep
  · obtain rfl : i = j := not_not.1 hi
    rw [hserved.committed] at hr
    obtain ⟨g, g', t', hg, rfl, rfl, hholds, hnext⟩ := poll_next hd (hserved.stage i) hr
    rw [State.goto_phase_self, Progress.phase_decided] at h
    rw [hg, Progress.phase_decided] at hbefore
    cases (polls_next hholds hnext).1 with
    | on _ hgn' => rw [hgn'] at h; cases h
    | ends _ hgn' => rw [← hgn', h] at hbefore; exact absurd rfl hbefore
    | decides hgn =>
      obtain ⟨rfl, rfl, hstock⟩ := next_insufficient hnext hgn h
      refine ⟨as ++ [.poll i], [], _, (calls i).lockedTx cfg.backend, by simp, hrun', ?_, ?_, ?_⟩
      · rw [State.goto_openTx_self]
        rfl
      · simp [CreateOrderCall.lockedTx]
      · simp only [State.goto_committed, Tables.store_inventoryKey, hstock, Option.map_some]
  · obtain rfl : i = j := not_not.1 hi
    obtain ⟨g, hg, -⟩ := hserved.stage i
    rw [State.goto_phase_self, hg, Progress.phase_cancel] at h
    cases h
  · -- a call's context never escapes
    obtain ⟨g, hg, -⟩ := hserved.stage j
    rw [hg, Progress.phase_escaped] at hp
    cases hp

/-- What makes a refusal for stock a right one: it names the quantity of the command and a stock
below it, which was committed while the call held the row lock; and from then on no committed stock
covers the command. -/
structure Justified (cfg : Config) (calls : ι → CreateOrderCall) (t₀ : Tables) (as : List (Action ι))
    (s : State ι Order) (i : ι) (available requested : Int32) : Prop where
  asked : requested = (calls i).qty
  short : available.toInt < requested.toInt
  locked : ReadLocked cfg calls t₀ as i available
  later : ∀ as' s', run (State.step cfg (createOrders cfg calls)) s as' = some s' →
    ∃ q, s'.committed (cfg.backend.inventoryKey (calls i).itemId) = some (inventoryRow (calls i).itemId q) ∧
      q.toInt < requested.toInt

/-- Every refusal for stock is a right one. -/
theorem refused_justified
    (hrun : run (State.step cfg (createOrders cfg calls)) (.init (t₀.store cfg.backend)) as = some s)
    (h : (s.phase i).decided = some (.error (.inventory (.insufficientStock available requested)))) :
    Justified cfg calls t₀ as s i available requested := by
  obtain ⟨hs, ds, hserved⟩ := served_run hd hrun
  obtain ⟨before, rest, rfl, hout⟩ := hserved.result i _ h
  obtain ⟨hstock, hreq, hlt⟩ := outcome_insufficient hout.symm
  refine ⟨hreq, hlt, refused_locked hd hrun i available requested h, ?_⟩
  intro as' s' hrun'
  obtain ⟨-, es, hserved'⟩ := served_later hd hs hserved hrun'
  obtain ⟨q, hq, hle⟩ := after_stock_le cfg (i :: rest ++ es) hstock
  refine ⟨q, ?_, by omega⟩
  rw [hserved'.committed, List.append_assoc, after_append, Tables.store_inventoryKey, hq]
  rfl

end

/-! ## Equal calls for one item -/

/-- How many orders for `q` a stock of `stock` serves. -/
def servings (stock q : Int32) : Nat := stock.toInt.toNat / q.toInt.toNat

/-- With `m` orders for `q` taken out of a stock, and no more than it serves, there is enough for
another one if and only if `m` has not reached the servings. -/
theorem covers_iff {stock q : Int32} (hq : 0 < q.toInt) (m : Nat) :
    q.toInt ≤ stock.toInt - q.toInt * (min m (servings stock q) : Nat) ↔ m < servings stock q := by
  have hq' : (q.toInt.toNat : Int) = q.toInt := Int.toNat_of_nonneg (Int.le_of_lt hq)
  have hpos : 0 < q.toInt.toNat := by omega
  constructor
  · intro hle
    by_contra hm
    have hlt := Nat.lt_mul_div_succ stock.toInt.toNat hpos
    rw [Nat.min_eq_right (Nat.not_lt.1 hm)] at hle
    have hlt' : (stock.toInt.toNat : Int) < q.toInt * (servings stock q + 1) := by
      rw [← hq']
      exact_mod_cast hlt
    have hstock := Int.self_le_toNat stock.toInt
    rw [Int.mul_add, Int.mul_one] at hlt'
    omega
  · intro hm
    have hle := (Nat.le_div_iff_mul_le hpos).1 (Nat.succ_le_of_lt hm)
    have hle' : q.toInt * (m + 1) ≤ (stock.toInt.toNat : Int) := by
      rw [← hq', Int.mul_comm]
      exact_mod_cast hle
    rw [Nat.min_eq_left (Nat.le_of_lt hm)]
    rw [Int.mul_add, Int.mul_one] at hle'
    have hnonneg : 0 ≤ q.toInt * (m : Int) := Int.mul_nonneg (Int.le_of_lt hq) (Int.natCast_nonneg m)
    omega

/-- Fault-free calls for `q` of the item `x`, under ids of their own that are not in use. -/
structure Alike {ι : Type} (calls : ι → CreateOrderCall) (t₀ : Tables) (x : ItemId) (q : Int32) : Prop where
  item : ∀ i, (calls i).itemId = x
  qty : ∀ i, (calls i).qty = q
  faults : ∀ i, (calls i).faults = .none
  ids : Function.Injective fun i => (calls i).orderId
  unused : ∀ i, t₀.orders (calls i).orderId = none

section
variable {ι : Type} {cfg : Config} {calls : ι → CreateOrderCall} {t₀ : Tables} {x : ItemId} {q stock : Int32}

variable (cfg) in
/-- One of the calls is placed if and only if the stock covers it. -/
theorem Alike.outcome_iff (h : Alike calls t₀ x q) (hq : 0 < q.toInt) {t : Tables} {left : Int32} {i : ι}
    (hleft : t.inventory x = some left) (hfresh : t.orders (calls i).orderId = none) :
    (∃ order, ((calls i).outcome cfg t).1 = .ok order) ↔ q.toInt ≤ left.toInt := by
  rw [outcome_ok_iff, accepted_iff_servable (h.faults i)]
  have hitem : (calls i).command.itemId = x := h.item i
  have hqty : (calls i).command.quantity = q := h.qty i
  constructor
  · rintro ⟨-, ⟨q', hq', hle⟩, -⟩
    rw [hitem, hleft] at hq'
    cases hq'
    rwa [hqty] at hle
  · intro hle
    exact ⟨by rwa [hqty], ⟨left, by rw [hitem, hleft], by rwa [hqty]⟩, hfresh⟩

variable (cfg) in
/-- After some of the calls the stock is lower by as many orders as it serves of them, and the ids of
the others are still unused. -/
theorem Alike.stock_left (h : Alike calls t₀ x q) (hq : 0 < q.toInt) (hstock : t₀.inventory x = some stock)
    {ds : List ι} (hn : ds.Nodup) :
    (∃ left, (after cfg calls t₀ ds).inventory x = some left ∧
      left.toInt = stock.toInt - q.toInt * (min ds.length (servings stock q) : Nat)) ∧
    ∀ i ∉ ds, (after cfg calls t₀ ds).orders (calls i).orderId = none := by
  induction ds using List.reverseRecOn with
  | nil => exact ⟨⟨stock, hstock, by simp⟩, fun i _ => h.unused i⟩
  | append_singleton ds i ih =>
    rw [← List.concat_eq_append, List.nodup_concat] at hn
    obtain ⟨hi, hn⟩ := hn
    obtain ⟨⟨left, hleft, hsum⟩, hunused⟩ := ih hn
    have hiff := h.outcome_iff cfg hq hleft (hunused i hi)
    rw [hsum, covers_iff hq] at hiff
    rw [after_concat, List.length_append, List.length_singleton]
    rcases CreateOrderCall.outcome_cases cfg (calls i) (after cfg calls t₀ ds) with ⟨q₁, ha, ho⟩ | ⟨e, he⟩
    · have hlt := hiff.1 ⟨_, congrArg Prod.fst ho⟩
      have hitem := h.item i
      have hqty := h.qty i
      have hcov := ha.covered
      obtain rfl : q₁ = left := by
        have hs := hcov.stock
        rw [hitem, hleft] at hs
        exact (Option.some.inj hs).symm
      have hle := hcov.le
      have hmax := q₁.toInt_lt
      rw [ho]
      refine ⟨⟨q₁ - q, ?_, ?_⟩, fun j hj => ?_⟩
      · rw [CreateOrderCall.place, Tables.addOrder_inventory, hitem, Tables.setStock_self, hqty]
      · rw [hqty] at hle
        rw [toInt_sub_of_inI32 ⟨by omega, by omega⟩, hsum,
          show min (ds.length + 1) (servings stock q) = min ds.length (servings stock q) + 1 by omega,
          Int.natCast_add, Int.natCast_one, Int.mul_add, Int.mul_one]
        omega
      · have hji : j ≠ i := fun hji => hj (by simp [hji])
        rw [CreateOrderCall.place, Tables.addOrder_ne _ _ fun hid => hji (h.ids hid), Tables.setStock_orders]
        exact hunused j fun hmem => hj (List.mem_append_left _ hmem)
    · have hge : ¬ ds.length < servings stock q := by
        rw [← hiff, he]
        rintro ⟨order, ho⟩
        cases ho
      rw [he, show min (ds.length + 1) (servings stock q) = min ds.length (servings stock q) by omega]
      exact ⟨⟨left, hleft, hsum⟩, fun j hj => hunused j fun hmem => hj (List.mem_append_left _ hmem)⟩

variable (cfg) in
/-- Which of the calls are placed: those that come before the servings are used up. -/
theorem Alike.placed_iff (h : Alike calls t₀ x q) (hq : 0 < q.toInt) (hstock : t₀.inventory x = some stock)
    {before rest : List ι} {i : ι} (hn : (before ++ i :: rest).Nodup) :
    (∃ order, ((calls i).outcome cfg (after cfg calls t₀ before)).1 = .ok order) ↔
      before.length < servings stock q := by
  have hi : i ∉ before := fun hmem => (List.nodup_append.1 hn).2.2 i hmem i List.mem_cons_self rfl
  obtain ⟨⟨left, hleft, hsum⟩, hunused⟩ := h.stock_left cfg hq hstock (List.nodup_append.1 hn).1
  rw [h.outcome_iff cfg hq hleft (hunused i hi), hsum, covers_iff hq]

end

/-- The first `k` elements of a list, counted. -/
theorem countP_of_place {ι : Type} {p : ι → Bool} {k : Nat} {ds : List ι}
    (h : ∀ before i rest, ds = before ++ i :: rest → (p i = true ↔ before.length < k)) :
    ds.countP p = min ds.length k := by
  induction ds using List.reverseRecOn with
  | nil => simp
  | append_singleton ds i ih =>
    have hlast := h ds i [] rfl
    have ih := ih fun before j rest hds => h before j (rest ++ [i]) (by simp [hds])
    rw [List.countP_append, List.countP_singleton, ih, List.length_append, List.length_singleton]
    by_cases hk : ds.length < k
    · rw [if_pos (hlast.2 hk)]
      omega
    · rw [if_neg fun hp => hk (hlast.1 hp)]
      omega

/-- The block has returned `Ok`. -/
def Phase.ok {α : Type} : Phase α → Bool
  | .returned (.ok _) _ => true
  | _ => false

section
variable {ι : Type} [DecidableEq ι] [Fintype ι] {cfg : Config} {calls : ι → CreateOrderCall} {t₀ : Tables}
  {as : List (Action ι)} {s : State ι Order} {x : ItemId} {q stock : Int32}

theorem alike_ok_card (hd : Deployed cfg.catalog cfg.backend) (h : Alike calls t₀ x q) (hq : 0 < q.toInt)
    (hstock : t₀.inventory x = some stock)
    (hrun : run (State.step cfg (createOrders cfg calls)) (.init (t₀.store cfg.backend)) as = some s)
    (hdone : ∀ i, ∃ r escaped, s.phase i = .returned r escaped) :
    (Finset.univ.filter fun i => (s.phase i).ok).card = min (Fintype.card ι) (servings stock q) := by
  obtain ⟨-, ds, hserved⟩ := served_run hd hrun
  have hn := hserved.nodup
  have hall : ds.toFinset = Finset.univ := by
    refine Finset.eq_univ_of_forall fun i => ?_
    obtain ⟨r, escaped, hr⟩ := hdone i
    obtain ⟨before, rest, hds, -⟩ := hserved.returned hr
    simp [hds]
  have hcard : Fintype.card ι = ds.length := by
    rw [← List.toFinset_card_of_nodup hn, hall, Finset.card_univ]
  rw [← hall, hcard, List.Nodup.card_eq_countP hn]
  refine countP_of_place fun before i rest hds => ?_
  obtain ⟨r, escaped, hr⟩ := hdone i
  obtain ⟨before', rest', hds', hp⟩ := hserved.returned hr
  subst hds
  obtain ⟨hx, hz⟩ : i ∉ before ∧ i ∉ rest :=
    ⟨fun hmem => (List.nodup_append.1 hn).2.2 i hmem i List.mem_cons_self rfl,
      (List.nodup_cons.1 (List.nodup_append.1 hn).2.1).1⟩
  obtain ⟨rfl, -, -⟩ := (List.append_cons_inj_of_notMem hx hz).1 hds'
  rw [← h.placed_iff cfg hq hstock hn, hp]
  cases ((calls i).outcome cfg (after cfg calls t₀ before)).1 with
  | ok order => simp [Phase.ok]
  | error e => simp [Phase.ok]

/-- **No oversell and no spurious rejection.** In every run, whoever returns a refusal for stock has
been refused justly; and equal calls for one item that have all returned have been served as often as
the stock serves their quantity. -/
theorem createOrder_no_oversell (hd : Deployed cfg.catalog cfg.backend) :
    (∀ as (s : State ι Order) i available requested escaped,
      run (State.step cfg (createOrders cfg calls)) (.init (t₀.store cfg.backend)) as = some s →
      s.phase i = .returned (.error (.inventory (.insufficientStock available requested))) escaped →
        Justified cfg calls t₀ as s i available requested) ∧
    ∀ x q stock, Alike calls t₀ x q → 0 < q.toInt → t₀.inventory x = some stock →
      ∀ as (s : State ι Order),
        run (State.step cfg (createOrders cfg calls)) (.init (t₀.store cfg.backend)) as = some s →
        (∀ i, ∃ r escaped, s.phase i = .returned r escaped) →
          (Finset.univ.filter fun i => (s.phase i).ok).card = min (Fintype.card ι) (servings stock q) := by
  constructor
  · intro as s i available requested escaped hrun hr
    obtain ⟨-, ds, hserved⟩ := served_run hd hrun
    obtain ⟨before, rest, -, hp⟩ := hserved.returned hr
    obtain ⟨-, rfl⟩ := Phase.returned.inj (hr.symm.trans hp)
    refine refused_justified hd hrun ?_
    rw [hr]
    rfl
  · intro x q stock halike hq hstock as s hrun hdone
    exact alike_ok_card hd halike hq hstock hrun hdone

end

theorem createOrder_no_oversell_rivalry :
    Justified (Makefile.config .sqlx) rivals stocked rivalry (Option.get _ rivalry_runs) 0 2 3 ∧
      (Finset.univ.filter fun i => ((Option.get _ rivalry_runs).phase i).ok).card = min 2 (servings 5 3) := by
  obtain ⟨hjust, hcount⟩ := @createOrder_no_oversell (Fin 2) _ _ _ rivals stocked (Makefile.deployed .sqlx)
  refine ⟨hjust rivalry _ 0 2 3 none (Option.some_get rivalry_runs).symm rfl, ?_⟩
  have halike : Alike rivals stocked ⟨7⟩ 3 :=
    ⟨fun _ => rfl, fun _ => rfl, fun _ => rfl, by decide, fun _ => rfl⟩
  refine hcount ⟨7⟩ 3 5 halike (by decide) rfl rivalry _ (Option.some_get rivalry_runs).symm fun i => ?_
  match i with
  | 0 => exact ⟨_, _, rfl⟩
  | 1 => exact ⟨_, _, rfl⟩

end TransactionManager
