import TransactionManager.Durability
/-
# Reading one's own inventory writes

A sequence of repository calls in one transaction (`callAll`). What a write has acknowledged is
read back as long as the row was there to be written: the SeaORM repository reports an update that
found no row, the sqlx repository answers `Ok` all the same, and then there is nothing to read.
-/

namespace TransactionManager

open RowStore RustInt

/-- Calls one after the other in a transaction, each with its injected failure, over the same
committed rows. -/
def callAll (cfg : Config) (db : Db) (tx : PgTx) : List (Option PgError × RepoCall) → List Exchange × PgTx
  | [] => ([], tx)
  | (fault, c) :: cs =>
    let r := callRepo cfg db tx fault c
    let rest := callAll cfg db r.2 cs
    (⟨c, r.1⟩ :: rest.1, rest.2)

theorem callAll_concat (cfg : Config) (db : Db) (fault : Option PgError) (c : RepoCall) :
    ∀ (cs : List (Option PgError × RepoCall)) (tx : PgTx),
      callAll cfg db tx (cs ++ [(fault, c)]) =
        ((callAll cfg db tx cs).1 ++ [⟨c, (callRepo cfg db (callAll cfg db tx cs).2 fault c).1⟩],
          (callRepo cfg db (callAll cfg db tx cs).2 fault c).2)
  | [], tx => rfl
  | (_, _) :: cs, tx => by simp only [List.cons_append, callAll, callAll_concat cfg db fault c cs]

/-- What `find_by_item_id`, or `find_by_item_id_for_update`, answers. -/
def lookup (cfg : Config) (db : Db) (tx : PgTx) (itemId : ItemId) : Bool → Except Error (Option Inventory)
  | true => (callRepo cfg db tx none (.findByItemIdForUpdate itemId)).1
  | false => (callRepo cfg db tx none (.findByItemId itemId)).1

/-- An inventory made by `Inventory::new`. -/
def Inventory.Built (inventory : Inventory) : Prop := ∃ x q, Inventory.new x q = .ok inventory

/-- The call writes inventories made by `Inventory::new`, if any. -/
def RepoCall.Built : RepoCall → Prop
  | .createInventory inventory | .updateInventory inventory => inventory.Built
  | _ => True

/-- What has been acknowledged for an item is what the finders answer with. -/
def ReadsBack (cfg : Config) (db : Db) (xs : List Exchange) (tx : PgTx) : Prop :=
  tx.aborted = false → ∀ x q,
    acknowledged cfg.backend xs (cfg.backend.inventoryKey x) = some (inventoryRow x q) →
      ∀ forUpdate, lookup cfg db tx x forUpdate = .ok (some ⟨x, q⟩)

/-- At every point of a sequence of calls: acknowledged inventory writes are read back, and an
acknowledged write changes the reads of no other item. -/
structure Readable (cfg : Config) (db : Db) (cs : List (Option PgError × RepoCall)) : Prop where
  back : ∀ before after, cs = before ++ after →
    ReadsBack cfg db (callAll cfg db .fresh before).1 (callAll cfg db .fresh before).2
  others : ∀ before fault c after v x row, cs = before ++ (fault, c) :: after →
    (callRepo cfg db (callAll cfg db .fresh before).2 fault c).1 = .ok v →
    c.write cfg.backend = some (cfg.backend.inventoryKey x, row) → ∀ y, y ≠ x → ∀ forUpdate,
      lookup cfg db (callRepo cfg db (callAll cfg db .fresh before).2 fault c).2 y forUpdate =
        lookup cfg db (callAll cfg db .fresh before).2 y forUpdate

/-- Every update that is executed on the active transaction finds a row. -/
def UpdatesFind (cfg : Config) (db : Db) (cs : List (Option PgError × RepoCall)) : Prop :=
  ∀ before inventory after, cs = before ++ (none, .updateInventory inventory) :: after →
    (callAll cfg db .fresh before).2.aborted = false →
      (callAll cfg db .fresh before).2.sees db (cfg.backend.inventoryKey inventory.itemId) ≠ none

/-! ## Acknowledged rows come from the calls -/

theorem acknowledged_mem {b : Backend} {xs : List Exchange} {k : Key} {row : Row}
    (h : acknowledged b xs k = some row) : ∃ x ∈ xs, x.1.write b = some (k, row) := by
  induction xs using List.reverseRecOn with
  | nil => cases h
  | append_singleton xs x ih =>
    rw [acknowledged_concat] at h
    have hold : acknowledged b xs k = some row → ∃ y ∈ xs ++ [x], y.1.write b = some (k, row) := by
      intro hk
      obtain ⟨y, hy, hyw⟩ := ih hk
      exact ⟨y, List.mem_append_left _ hy, hyw⟩
    obtain ⟨c, r⟩ := x
    cases r with
    | error e => exact hold h
    | ok v =>
      cases hw : c.write b with
      | none => exact hold (by rwa [acknowledge_read _ _ _ _ hw] at h)
      | some p =>
        obtain ⟨k', row'⟩ := p
        rw [acknowledge_write _ _ _ v hw] at h
        by_cases hk : k = k'
        · subst hk
          rw [put_self] at h
          cases h
          exact ⟨⟨c, .ok v⟩, by simp, hw⟩
        · exact hold (by rwa [put_ne _ hk] at h)

/-- The stock in a row written by a call with well-built inventories is not negative. -/
theorem RepoCall.Built.nonneg {b : Backend} {c : RepoCall} (h : c.Built) {x : ItemId} {q : Int32}
    (hw : c.write b = some (b.inventoryKey x, inventoryRow x q)) : 0 ≤ q.toInt := by
  cases c with
  | createInventory inventory | updateInventory inventory =>
    obtain ⟨y, p, hnew⟩ := h
    obtain ⟨rfl, hp⟩ := Inventory.new_ok hnew
    simp only [RepoCall.write, Option.some.injEq, Prod.mk.injEq, inventoryRow, List.cons.injEq, Value.integer.injEq,
      and_true] at hw
    rw [← hw.2.2]
    exact hp
  | createOrder order =>
    simp only [RepoCall.write, Option.some.injEq, Prod.mk.injEq] at hw
    exact absurd hw.1.symm (b.inventoryKey_ne_orderKey _ _)
  | findByItemIdForUpdate | findByItemId | findOrderById => cases hw

section
variable {cfg : Config} (hd : Deployed cfg.catalog cfg.backend) {db : Db} {tx tx' : PgTx}
include hd

/-! ## What the finders answer -/

theorem lookup_some (ha : tx.aborted = false) {x : ItemId} {q : Int32}
    (hs : tx.sees db (cfg.backend.inventoryKey x) = some (inventoryRow x q)) (forUpdate : Bool) :
    lookup cfg db tx x forUpdate = foundInventory x q := by
  cases forUpdate with
  | true => rw [lookup, call_findForUpdate_some hd.inventory ha hs]
  | false => rw [lookup, call_find_some hd.inventory ha hs]

theorem lookup_none (ha : tx.aborted = false) {x : ItemId}
    (hs : tx.sees db (cfg.backend.inventoryKey x) = none) (forUpdate : Bool) :
    lookup cfg db tx x forUpdate = .ok none := by
  cases forUpdate with
  | true => rw [lookup, call_findForUpdate_none hd.inventory ha hs]
  | false => rw [lookup, call_find_none hd.inventory ha hs]

/-- The answer for an item depends on the row the transaction sees under its key, and nothing else. -/
theorem lookup_congr (ht : Tables.Typed cfg.backend (tx.sees db)) (ha : tx.aborted = false)
    (ha' : tx'.aborted = false) {y : ItemId}
    (hs : tx'.sees db (cfg.backend.inventoryKey y) = tx.sees db (cfg.backend.inventoryKey y)) (forUpdate : Bool) :
    lookup cfg db tx' y forUpdate = lookup cfg db tx y forUpdate := by
  cases hv : tx.sees db (cfg.backend.inventoryKey y) with
  | none => rw [lookup_none hd ha hv, lookup_none hd ha' (hs.trans hv)]
  | some row =>
    obtain ⟨q, rfl⟩ := ht.1 y row hv
    rw [lookup_some hd ha hv, lookup_some hd ha' (hs.trans hv)]

/-- An acknowledged write changes the reads of no other item. -/
theorem CallStep.lookup_ne {c : RepoCall} {r : Except Error c.Reply} (h : CallStep cfg db tx c r tx')
    (ht : Tables.Typed cfg.backend (tx.sees db)) {v : c.Reply} (hr : r = .ok v) {x : ItemId} {row : Row}
    (hw : c.write cfg.backend = some (cfg.backend.inventoryKey x, row)) {y : ItemId} (hy : y ≠ x) (forUpdate : Bool) :
    lookup cfg db tx' y forUpdate = lookup cfg db tx y forUpdate := by
  have hput : ∀ row', tx.aborted = false →
      lookup cfg db (tx.write (cfg.backend.inventoryKey x) row') y forUpdate = lookup cfg db tx y forUpdate := by
    intro row' ha
    have haw : (tx.write (cfg.backend.inventoryKey x) row').aborted = false := ha
    refine lookup_congr hd ht ha haw ?_ forUpdate
    rw [Tx.sees_write, put_ne _ fun e => hy (Backend.inventoryKey_inj.1 e)]
  cases h with
  | failed c e => cases hr
  | refused c ha => cases hr
  | read c r ha hn => rfl
  | lockedRead c r k ha hn => rw [hn] at hw; cases hw
  | inserted c v k row' ha hk hs =>
    rw [hk] at hw
    cases hw
    exact hput _ ha
  | updated inventory q ha hs =>
    cases Backend.inventoryKey_inj.1 (Prod.mk.inj (Option.some.inj hw)).1
    exact hput _ ha
  | missed inventory ha hs => rfl

/-! ## Sequences -/

/-- What holds of no calls and a fresh transaction and is kept by every call of `cs` holds at every
point of `cs`, where all rows are typed too. -/
theorem callAll_inv (hdb : Tables.Typed cfg.backend db) {cs : List (Option PgError × RepoCall)}
    (I : List Exchange → PgTx → Prop) (h0 : I [] .fresh)
    (hcall : ∀ before fault c after, cs = before ++ (fault, c) :: after →
      I (callAll cfg db .fresh before).1 (callAll cfg db .fresh before).2 →
      CallStep cfg db (callAll cfg db .fresh before).2 c (callRepo cfg db (callAll cfg db .fresh before).2 fault c).1
        (callRepo cfg db (callAll cfg db .fresh before).2 fault c).2 →
      I (callAll cfg db .fresh (before ++ [(fault, c)])).1 (callAll cfg db .fresh (before ++ [(fault, c)])).2)
    (before : List (Option PgError × RepoCall)) : ∀ after, cs = before ++ after →
      I (callAll cfg db .fresh before).1 (callAll cfg db .fresh before).2 ∧
        Tables.Typed cfg.backend (callAll cfg db .fresh before).2.writes := by
  induction before using List.reverseRecOn with
  | nil => exact fun _ _ => ⟨h0, Tables.typed_none _⟩
  | append_singleton before p ih =>
    obtain ⟨fault, c⟩ := p
    intro after hcs
    rw [List.append_assoc] at hcs
    obtain ⟨hI, ht⟩ := ih _ hcs
    have hstep := call_step hd (hdb.overlay ht) fault c
    refine ⟨hcall before fault c after hcs hI hstep, ?_⟩
    rw [callAll_concat]
    exact hstep.typed ht

/-- The rows seen at every point of a sequence are typed. -/
theorem callAll_typed (hdb : Tables.Typed cfg.backend db) (cs : List (Option PgError × RepoCall)) :
    Tables.Typed cfg.backend ((callAll cfg db .fresh cs).2.sees db) :=
  hdb.overlay (callAll_inv hd hdb (fun _ _ => True) trivial
    (fun _ _ _ _ _ _ _ => trivial) cs [] (List.append_nil cs).symm).2

omit hd in
theorem callAll_calls (cs : List (Option PgError × RepoCall)) (tx : PgTx) :
    ∀ x ∈ (callAll cfg db tx cs).1, ∃ fault, (fault, x.1) ∈ cs := by
  induction cs generalizing tx with
  | nil => intro x hx; cases hx
  | cons p cs ih =>
    obtain ⟨fault, c⟩ := p
    intro x hx
    rcases List.mem_cons.1 hx with rfl | hx
    · exact ⟨fault, List.mem_cons_self⟩
    · obtain ⟨fault', hmem⟩ := ih _ x hx
      exact ⟨fault', List.mem_cons_of_mem _ hmem⟩

/-- While no update has missed, everything acknowledged is pending. -/
theorem owed_callAll (hdb : Tables.Typed cfg.backend db) {cs : List (Option PgError × RepoCall)}
    (hfind : cfg.backend = .seaOrm ∨ UpdatesFind cfg db cs) {before after : List (Option PgError × RepoCall)}
    (hcs : cs = before ++ after) :
    Owed cfg.backend (fun _ => False) (callAll cfg db .fresh before).1 (callAll cfg db .fresh before).2 := by
  refine (callAll_inv hd hdb (Owed cfg.backend fun _ => False) (.fresh _ fun _ => id) ?_ before after hcs).1
  intro before fault c after hcs hI hstep
  rw [callAll_concat]
  refine hI.step hstep fun ha k => ⟨False.elim, ?_⟩
  rintro (⟨hf, -⟩ | ⟨inventory, hx, rfl, hs⟩)
  · exact hf
  · obtain rfl : c = .updateInventory inventory := congrArg Sigma.fst hx
    have hr := eq_of_heq (Sigma.mk.inj hx).2
    cases fault with
    | some e => rw [call_fault] at hr; cases hr
    | none =>
      rcases hfind with hb | hfind
      · rw [call_update_none hd.inventory ha hs, hb] at hr
        cases hr
      · exact hfind before inventory after hcs ha hs

/-- **Acknowledged inventory writes are readable** if and only if the backend is SeaORM, whose
update reports that no row matched, or every update executed finds a row. -/
theorem readable_iff (hdb : Tables.Typed cfg.backend db) {cs : List (Option PgError × RepoCall)}
    (hbuilt : ∀ p ∈ cs, p.2.Built) :
    Readable cfg db cs ↔ cfg.backend = .seaOrm ∨ UpdatesFind cfg db cs := by
  constructor
  · intro hreadable
    cases hb : cfg.backend with
    | seaOrm => exact .inl rfl
    | sqlx =>
      right
      intro before inventory after hcs ha hs
      -- right after the missed update its inventory counts as acknowledged, and is not there
      have hcall := call_update_none hd.inventory ha hs
      have hback := hreadable.back (before ++ [(none, .updateInventory inventory)]) after (by simp [hcs])
      rw [callAll_concat, hcall] at hback
      have hack : acknowledged cfg.backend
          ((callAll cfg db .fresh before).1 ++ [⟨.updateInventory inventory, cfg.backend.missedUpdate inventory⟩])
          (cfg.backend.inventoryKey inventory.itemId) =
            some (inventoryRow inventory.itemId inventory.quantity) := by
        rw [acknowledged_concat, hb]
        exact put_self _ _ _
      have hfound := hback ha _ _ hack false
      rw [lookup_none hd ha hs] at hfound
      cases hfound
  · intro hfind
    constructor
    · intro before after hcs ha x q hack forUpdate
      obtain ⟨y, hy, hw⟩ := acknowledged_mem hack
      obtain ⟨fault, hmem⟩ := callAll_calls before .fresh y hy
      have hq := (hbuilt _ (by rw [hcs]; exact List.mem_append_left _ hmem)).nonneg hw
      have hp := (owed_callAll hd hdb hfind hcs).pending ha _ _ hack id
      rw [lookup_some hd ha (by rw [Tx.sees, overlay_of_some hp]), foundInventory_of_nonneg hq]
    · intro before fault c after v x row hcs hok hw y hy forUpdate
      have ht := callAll_typed hd hdb before
      exact (call_step hd ht fault c).lookup_ne hd ht hok hw hy forUpdate

end

/-- A fresh transaction creates a row and updates it. -/
def prudent : List (Option PgError × RepoCall) :=
  [(none, .createInventory ⟨⟨7⟩, 5⟩), (none, .updateInventory ⟨⟨7⟩, 4⟩)]

theorem readable_iff_prudent : Readable (Makefile.config .sqlx) (fun _ => none) prudent ↔
    Backend.sqlx = .seaOrm ∨ UpdatesFind (Makefile.config .sqlx) (fun _ => none) prudent :=
  readable_iff (Makefile.deployed .sqlx) (Tables.typed_none _) (by
    intro p hp
    simp only [prudent, List.mem_cons, List.not_mem_nil, or_false] at hp
    rcases hp with rfl | rfl
    · exact ⟨⟨7⟩, 5, rfl⟩
    · exact ⟨⟨7⟩, 4, rfl⟩)

/-- The sqlx repository acknowledges an update of an item without a row, and does not find it. -/
theorem update_unreadable : Inventory.new ⟨7⟩ 5 = .ok ⟨⟨7⟩, 5⟩ ∧
    callRepo (Makefile.config .sqlx) (fun _ => none) .fresh none (.updateInventory ⟨⟨7⟩, 5⟩) =
      (.ok ⟨⟨7⟩, 5⟩, .fresh) ∧
    lookup (Makefile.config .sqlx) (fun _ => none) .fresh ⟨7⟩ false = .ok none ∧
    ¬ Readable (Makefile.config .sqlx) (fun _ => none) [(none, .updateInventory ⟨⟨7⟩, 5⟩)] := by
  refine ⟨rfl, rfl, rfl, fun h => ?_⟩
  have hback := h.back [(none, .updateInventory ⟨⟨7⟩, 5⟩)] [] rfl rfl ⟨7⟩ 5 rfl false
  cases hback

end TransactionManager
