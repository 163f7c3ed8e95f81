import Mathlib.Data.Option.Basic
import Mathlib.Logic.Function.Basic
/-
# A row store with transactions and row locks

Rows `V` under keys `K`. A transaction keeps the row versions it has written and the keys
whose row locks it holds; it reads its own versions over the committed ones (`Tx.sees`) and
a commit lays them over the committed rows (`Tx.commit`). `Tx.Move` lists what one statement
can do to its transaction, and `Sound` what therefore holds of all open transactions: locks
exclude each other, so a commit never changes a row that another transaction has locked
(`Sound.commit_frame`).
-/

namespace RowStore

variable {K V ι : Type}

/-- Rows by key. -/
abbrev Store (K V : Type) := K → Option V

/-- The rows of `top` over those of `base`. -/
def overlay (base top : Store K V) : Store K V := fun k => (top k).or (base k)

theorem overlay_of_none {base top : Store K V} {k : K} (h : top k = none) : overlay base top k = base k := by
  simp [overlay, h]

theorem overlay_of_some {base top : Store K V} {k : K} {v : V} (h : top k = some v) :
    overlay base top k = some v := by
  simp [overlay, h]

/-- A row that is there stays there under every overlay. -/
theorem overlay_ne_none {base top : Store K V} {k : K} (h : base k ≠ none) : overlay base top k ≠ none := by
  unfold overlay
  cases top k <;> simp [h]

/-- One row inserted or replaced. -/
def put [DecidableEq K] (s : Store K V) (k : K) (v : V) : Store K V := Function.update s k (some v)

section
variable [DecidableEq K]

@[simp] theorem put_self (s : Store K V) (k : K) (v : V) : put s k v k = some v := by simp [put]

theorem put_ne {s : Store K V} {k j : K} (v : V) (h : j ≠ k) : put s k v j = s j := by
  simp [put, Function.update_of_ne h]

theorem overlay_put (base top : Store K V) (k : K) (v : V) :
    overlay base (put top k v) = put (overlay base top) k v := by
  funext j
  by_cases h : j = k
  · subst h; simp [overlay]
  · simp [overlay, put_ne v h]

end

/-- An open transaction. `aborted` is the failed state after a statement error: the
transaction is still open, and only waits to be ended. -/
structure Tx (K V : Type) where
  writes : Store K V
  locks : List K
  aborted : Bool

namespace Tx

/-- A transaction that has just begun. -/
def fresh : Tx K V := ⟨fun _ => none, [], false⟩

/-- What a statement of the transaction sees: its own versions over the committed rows. -/
def sees (t : Tx K V) (db : Store K V) : Store K V := overlay db t.writes

def lock (t : Tx K V) (k : K) : Tx K V := { t with locks := k :: t.locks }

/-- A row version written, and the row locked with it. -/
def write [DecidableEq K] (t : Tx K V) (k : K) (v : V) : Tx K V :=
  { t with writes := put t.writes k v, locks := k :: t.locks }

/-- A statement failed. With `free` the server gives up versions and locks at once, without
it they stay until the transaction is ended; nothing else depends on which. -/
def abort (free : Bool) (t : Tx K V) : Tx K V :=
  if free then { fresh with aborted := true } else { t with aborted := true }

/-- The committed rows after COMMIT; on an aborted transaction COMMIT is a rollback. -/
def commit (t : Tx K V) (db : Store K V) : Store K V := if t.aborted then db else t.sees db

@[simp] theorem fresh_locks : (fresh : Tx K V).locks = [] := rfl
@[simp] theorem fresh_aborted : (fresh : Tx K V).aborted = false := rfl
@[simp] theorem sees_fresh (db : Store K V) : (fresh : Tx K V).sees db = db := rfl
@[simp] theorem lock_locks (t : Tx K V) (k : K) : (t.lock k).locks = k :: t.locks := rfl
@[simp] theorem lock_aborted (t : Tx K V) (k : K) : (t.lock k).aborted = t.aborted := rfl
@[simp] theorem sees_lock (t : Tx K V) (k : K) (db : Store K V) : (t.lock k).sees db = t.sees db := rfl
@[simp] theorem abort_aborted (free : Bool) (t : Tx K V) : (t.abort free).aborted = true := by
  unfold abort; split <;> rfl

section
variable [DecidableEq K]

@[simp] theorem write_writes (t : Tx K V) (k : K) (v : V) : (t.write k v).writes = put t.writes k v := rfl
@[simp] theorem write_locks (t : Tx K V) (k : K) (v : V) : (t.write k v).locks = k :: t.locks := rfl
@[simp] theorem write_aborted (t : Tx K V) (k : K) (v : V) : (t.write k v).aborted = t.aborted := rfl
@[simp] theorem sees_write (t : Tx K V) (k : K) (v : V) (db : Store K V) :
    (t.write k v).sees db = put (t.sees db) k v := overlay_put db t.writes k v

end

theorem commit_of_active {t : Tx K V} (h : t.aborted = false) (db : Store K V) : t.commit db = t.sees db := by
  simp [commit, h]

theorem commit_of_aborted {t : Tx K V} (h : t.aborted = true) (db : Store K V) : t.commit db = db := by
  simp [commit, h]

/-- A commit keeps every row that was there. -/
theorem commit_ne_none {t : Tx K V} {db : Store K V} {k : K} (h : db k ≠ none) : t.commit db k ≠ none := by
  unfold commit
  split
  · exact h
  · exact overlay_ne_none h

/-- A commit changes no row outside the written ones. -/
theorem commit_of_not_written {t : Tx K V} {db : Store K V} {k : K} (h : t.writes k = none) :
    t.commit db k = db k := by
  unfold commit
  split
  · rfl
  · exact overlay_of_none h

/-- Every written row is locked. -/
def WritesLocked (t : Tx K V) : Prop := ∀ k, t.writes k ≠ none → k ∈ t.locks

/-- Every locked row is there: the transaction sees it. -/
def LocksSeen (t : Tx K V) (db : Store K V) : Prop := ∀ k ∈ t.locks, t.sees db k ≠ none

/-- What one statement can do to its transaction, when `free` are the rows nobody else has
locked and `unwritten` those nobody else has written: nothing, fail, lock a row it sees,
write a new version of such a row, or insert a row where it sees none. -/
inductive Move [DecidableEq K] (free unwritten : K → Prop) (db : Store K V) (t : Tx K V) : Tx K V → Prop where
  | same : Move free unwritten db t t
  | aborted (now : Bool) : Move free unwritten db t (t.abort now)
  | locked (k : K) (hs : t.sees db k ≠ none) (hf : free k) : Move free unwritten db t (t.lock k)
  | updated (k : K) (v : V) (hs : t.sees db k ≠ none) (hf : free k) : Move free unwritten db t (t.write k v)
  | inserted (k : K) (v : V) (hs : t.sees db k = none) (hf : unwritten k) :
    Move free unwritten db t (t.write k v)

theorem writesLocked_fresh : (fresh : Tx K V).WritesLocked := fun _ h => absurd rfl h

theorem locksSeen_fresh (db : Store K V) : (fresh : Tx K V).LocksSeen db := by
  intro k hk
  simp at hk

theorem WritesLocked.write [DecidableEq K] {t : Tx K V} (h : t.WritesLocked) (k : K) (v : V) :
    (t.write k v).WritesLocked := by
  intro j hj
  by_cases e : j = k
  · subst e; simp
  · simp only [write_writes, put_ne v e] at hj
    exact List.mem_cons_of_mem k (h j hj)

theorem LocksSeen.write [DecidableEq K] {t : Tx K V} {db : Store K V} (h : t.LocksSeen db) (k : K) (v : V) :
    (t.write k v).LocksSeen db := by
  intro j hj
  rw [sees_write]
  by_cases e : j = k
  · subst e; simp
  · rw [put_ne v e]
    exact h j ((List.mem_cons.1 hj).resolve_left e)

theorem LocksSeen.mono {t : Tx K V} {db db' : Store K V} (h : t.LocksSeen db)
    (hdb : ∀ k, db k ≠ none → db' k ≠ none) : t.LocksSeen db' := by
  intro k hk
  have hs := h k hk
  unfold sees overlay at hs ⊢
  cases hw : t.writes k with
  | some v => simp
  | none => rw [hw] at hs; simpa using hdb k (by simpa using hs)

variable [DecidableEq K] {free unwritten : K → Prop} {db : Store K V} {t t' : Tx K V}

theorem Move.writesLocked (h : t.Move free unwritten db t') (hw : t.WritesLocked) : t'.WritesLocked := by
  cases h with
  | same => exact hw
  | aborted now =>
    unfold abort
    split
    · exact writesLocked_fresh
    · exact hw
  | locked k => exact fun j hj => List.mem_cons_of_mem k (hw j hj)
  | updated k v => exact hw.write k v
  | inserted k v => exact hw.write k v

theorem Move.locksSeen (h : t.Move free unwritten db t') (hl : t.LocksSeen db) : t'.LocksSeen db := by
  cases h with
  | same => exact hl
  | aborted now =>
    unfold abort
    split
    · exact locksSeen_fresh db
    · exact hl
  | locked k hs =>
    intro j hj
    rcases List.mem_cons.1 hj with rfl | hj
    · exact hs
    · exact hl j hj
  | updated k v => exact hl.write k v
  | inserted k v => exact hl.write k v

/-- A lock taken by a statement is on a free row, or on a row that was not there and that
nobody else has written. -/
theorem Move.locks (h : t.Move free unwritten db t') : ∀ k ∈ t'.locks,
    k ∈ t.locks ∨ free k ∨ (t.sees db k = none ∧ unwritten k) := by
  intro j hj
  cases h with
  | same => exact .inl hj
  | aborted now =>
    unfold abort at hj
    split at hj
    · simp at hj
    · exact .inl hj
  | locked k hs hf =>
    rcases List.mem_cons.1 hj with rfl | hj
    · exact .inr (.inl hf)
    · exact .inl hj
  | updated k v hs hf =>
    rcases List.mem_cons.1 hj with rfl | hj
    · exact .inr (.inl hf)
    · exact .inl hj
  | inserted k v hs hf =>
    rcases List.mem_cons.1 hj with rfl | hj
    · exact .inr (.inr ⟨hs, hf⟩)
    · exact .inl hj

end Tx

/-! ## The server: several open transactions -/

/-- The rows nobody but `i` has locked. -/
def FreeFor (tx : ι → Option (Tx K V)) (i : ι) (k : K) : Prop :=
  ∀ j t, j ≠ i → tx j = some t → k ∉ t.locks

/-- The rows nobody but `i` has written. -/
def UnwrittenFor (tx : ι → Option (Tx K V)) (i : ι) (k : K) : Prop :=
  ∀ j t, j ≠ i → tx j = some t → t.writes k = none

/-- What holds of the open transactions `tx` over the committed rows `db` at all times:
row locks exclude each other, written rows are locked and locked rows are there. -/
structure Sound (db : Store K V) (tx : ι → Option (Tx K V)) : Prop where
  exclusive : ∀ i j ti tj, i ≠ j → tx i = some ti → tx j = some tj → ∀ k ∈ ti.locks, k ∉ tj.locks
  writesLocked : ∀ i t, tx i = some t → t.WritesLocked
  locksSeen : ∀ i t, tx i = some t → t.LocksSeen db

namespace Sound

variable {db : Store K V} {tx tx' : ι → Option (Tx K V)}

theorem empty (db : Store K V) (h : ∀ i, tx i = none) : Sound db tx where
  exclusive i _ _ _ _ hi := by rw [h i] at hi; cases hi
  writesLocked i _ hi := by rw [h i] at hi; cases hi
  locksSeen i _ hi := by rw [h i] at hi; cases hi

/-- `i`'s transaction is replaced, the others stay: enough that the new one is sound in
itself and that its locks were `i`'s before or are nobody's. -/
theorem replace (h : Sound db tx) (i : ι) (hother : ∀ j, j ≠ i → tx' j = tx j)
    (hnew : ∀ t', tx' i = some t' → t'.WritesLocked ∧ t'.LocksSeen db ∧ ∀ k ∈ t'.locks,
      (∃ t, tx i = some t ∧ k ∈ t.locks) ∨ FreeFor tx i k) : Sound db tx' where
  exclusive := by
    have key : ∀ t' tj j, j ≠ i → tx' i = some t' → tx j = some tj → ∀ k ∈ t'.locks, k ∉ tj.locks := by
      intro t' tj j hj ht' htj k hk
      rcases (hnew t' ht').2.2 k hk with ⟨t, ht, hkt⟩ | hfree
      · exact h.exclusive i j t tj (Ne.symm hj) ht htj k hkt
      · exact hfree j tj hj htj
    intro a b ta tb hab hta htb k hka hkb
    by_cases ha : a = i
    · subst ha
      rw [hother b (Ne.symm hab)] at htb
      exact key ta tb b (Ne.symm hab) hta htb k hka hkb
    · by_cases hb : b = i
      · subst hb
        rw [hother a ha] at hta
        exact key tb ta a ha htb hta k hkb hka
      · rw [hother a ha] at hta
        rw [hother b hb] at htb
        exact h.exclusive a b ta tb hab hta htb k hka hkb
  writesLocked j t ht := by
    by_cases e : j = i
    · subst e; exact (hnew t ht).1
    · rw [hother j e] at ht; exact h.writesLocked j t ht
  locksSeen j t ht := by
    by_cases e : j = i
    · subst e; exact (hnew t ht).2.1
    · rw [hother j e] at ht; exact h.locksSeen j t ht

theorem begin (h : Sound db tx) (i : ι) (hother : ∀ j, j ≠ i → tx' j = tx j)
    (hi : tx' i = some .fresh) : Sound db tx' :=
  h.replace i hother fun t' ht' => by
    rw [hi] at ht'
    cases ht'
    exact ⟨Tx.writesLocked_fresh, Tx.locksSeen_fresh db, fun k hk => by simp at hk⟩

/-- The transaction is over without a commit. -/
theorem close (h : Sound db tx) (i : ι) (hother : ∀ j, j ≠ i → tx' j = tx j) (hi : tx' i = none) :
    Sound db tx' :=
  h.replace i hother fun t' ht' => by rw [hi] at ht'; cases ht'

/-- A row that is not there is locked by nobody who has not written it. -/
theorem free_of_unwritten (h : Sound db tx) {i : ι} {k : K} (hk : db k = none) (hu : UnwrittenFor tx i k) :
    FreeFor tx i k := by
  intro j t hj ht hmem
  refine h.locksSeen j t ht k hmem ?_
  rw [Tx.sees, overlay_of_none (hu j t hj ht), hk]

theorem not_seen {t : Tx K V} {k : K} (h : t.sees db k = none) : db k = none := by
  by_contra hd
  exact overlay_ne_none hd h

theorem move [DecidableEq K] (h : Sound db tx) (i : ι) (hother : ∀ j, j ≠ i → tx' j = tx j)
    {t t' : Tx K V} (ht : tx i = some t) (hi : tx' i = some t')
    (hm : t.Move (FreeFor tx i) (UnwrittenFor tx i) db t') : Sound db tx' :=
  h.replace i hother fun u hu => by
    rw [hi] at hu
    cases hu
    refine ⟨hm.writesLocked (h.writesLocked i t ht), hm.locksSeen (h.locksSeen i t ht), fun k hk => ?_⟩
    rcases hm.locks k hk with hk | hf | ⟨hs, hu⟩
    · exact .inl ⟨t, ht, hk⟩
    · exact .inr hf
    · exact .inr (h.free_of_unwritten (not_seen hs) hu)

/-- COMMIT: the committed rows grow, the transaction is over. -/
theorem commit (h : Sound db tx) (i : ι) (hother : ∀ j, j ≠ i → tx' j = tx j) (hi : tx' i = none)
    {t : Tx K V} : Sound (t.commit db) tx' where
  exclusive := (h.close i hother hi).exclusive
  writesLocked := (h.close i hother hi).writesLocked
  locksSeen j t' ht' :=
    ((h.close i hother hi).locksSeen j t' ht').mono fun _ hk => Tx.commit_ne_none hk

/-- A commit of `i` leaves every row alone that another open transaction has locked. -/
theorem commit_frame (h : Sound db tx) {i j : ι} {ti tj : Tx K V} (hij : i ≠ j) (hi : tx i = some ti)
    (hj : tx j = some tj) {k : K} (hk : k ∈ tj.locks) : ti.commit db k = db k := by
  apply Tx.commit_of_not_written
  by_contra hw
  exact h.exclusive i j ti tj hij hi hj k (h.writesLocked i ti hi k hw) hk

end Sound

end RowStore
