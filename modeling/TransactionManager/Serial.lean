import TransactionManager.Alone
import TransactionManager.Progress
/-
# Concurrent `create_order` calls are serializable

`Served` is the invariant of every run: the committed tables are what the calls decided so
far make of the first tables, in the order in which they were decided, each with its
`outcome` at its turn, and every other call is at some `Stage` of its own.
-/

namespace TransactionManager

open RowStore Run Relation

variable {ι : Type}

/-- One job for each call. -/
def createOrders (cfg : Config) (calls : ι → CreateOrderCall) (i : ι) : Job Order :=
  createOrder cfg.profile (calls i)

/-- The tables after the calls of `ds`, one after the other. -/
def after (cfg : Config) (calls : ι → CreateOrderCall) (t : Tables) (ds : List ι) : Tables :=
  ds.foldl (fun t i => ((calls i).outcome cfg t).2) t

theorem after_concat (cfg : Config) (calls : ι → CreateOrderCall) (t : Tables) (ds : List ι) (i : ι) :
    after cfg calls t (ds ++ [i]) = ((calls i).outcome cfg (after cfg calls t ds)).2 := by simp [after]

theorem after_append (cfg : Config) (calls : ι → CreateOrderCall) (t : Tables) (ds es : List ι) :
    after cfg calls t (ds ++ es) = after cfg calls (after cfg calls t ds) es := List.foldl_append

/-- `i`, at its place in `ds`, has the outcome `r`. -/
def Decided (cfg : Config) (calls : ι → CreateOrderCall) (t₀ : Tables) (ds : List ι) (i : ι)
    (r : Except Error Order) : Prop :=
  ∃ before rest, ds = before ++ i :: rest ∧ r = ((calls i).outcome cfg (after cfg calls t₀ before)).1

/-- The calls `ds` have been decided, in this order. Only a refused one can still be cancelled,
before its rollback. -/
structure Served (cfg : Config) (calls : ι → CreateOrderCall) (t₀ : Tables) (ds : List ι)
    (s : State ι Order) : Prop where
  committed : s.committed = (after cfg calls t₀ ds).store cfg.backend
  stage : ∀ i, Stage cfg (calls i) (after cfg calls t₀ ds) (s.phase i)
  nodup : ds.Nodup
  decided : ∀ i ∈ ds, (s.phase i).decided ≠ none ∨
    (s.phase i = .dropped none ∧ ∃ e, Decided cfg calls t₀ ds i (.error e))
  result : ∀ i r, (s.phase i).decided = some r → Decided cfg calls t₀ ds i r

section
variable {cfg : Config} {calls : ι → CreateOrderCall} {t₀ : Tables} {ds : List ι} {s s' : State ι Order}

theorem Decided.append {i : ι} {r : Except Error Order} (h : Decided cfg calls t₀ ds i r) (j : ι) :
    Decided cfg calls t₀ (ds ++ [j]) i r := by
  obtain ⟨before, rest, rfl, hr⟩ := h
  exact ⟨before, rest ++ [j], by simp, hr⟩

theorem served_init (cfg : Config) (calls : ι → CreateOrderCall) (t₀ : Tables) :
    Served cfg calls t₀ [] (.init (t₀.store cfg.backend)) where
  committed := rfl
  stage _ := ⟨.created, rfl, trivial⟩
  nodup := .nil
  decided _ h := absurd h List.not_mem_nil
  result _ _ h := by cases h

/-- Whoever has returned has been decided at its place in `ds`, and returned that. -/
theorem Served.returned (h : Served cfg calls t₀ ds s) {i : ι} {r : Except Error Order} {escaped : Option Context}
    (hr : s.phase i = .returned r escaped) : ∃ before rest, ds = before ++ i :: rest ∧
      s.phase i = .returned ((calls i).outcome cfg (after cfg calls t₀ before)).1 none := by
  obtain ⟨g, hg, -⟩ := h.stage i
  rw [hr] at hg
  obtain rfl : escaped = none := by cases g <;> cases hg; rfl
  obtain ⟨before, rest, hds, rfl⟩ := h.result i r (by rw [hr]; rfl)
  exact ⟨before, rest, hds, hr⟩

variable [DecidableEq ι]

/-- `i` moves on and no call is decided. -/
theorem Served.keep (h : Served cfg calls t₀ ds s) {i : ι} {p : Phase Order}
    (hs : Stage cfg (calls i) (after cfg calls t₀ ds) p)
    (hd : i ∈ ds → p.decided ≠ none ∨ (p = .dropped none ∧ ∃ e, Decided cfg calls t₀ ds i (.error e)))
    (hr : ∀ r, p.decided = some r → (s.phase i).decided = some r) :
    Served cfg calls t₀ ds (s.goto i p ((after cfg calls t₀ ds).store cfg.backend)) where
  committed := rfl
  stage j := by
    by_cases hj : j = i
    · subst hj; simpa using hs
    · rw [State.goto_phase_ne s _ _ hj]; exact h.stage j
  nodup := h.nodup
  decided j hj := by
    by_cases e : j = i
    · subst e; simpa using hd hj
    · rw [State.goto_phase_ne s _ _ e]; exact h.decided j hj
  result j r hj := by
    by_cases e : j = i
    · subst e; exact h.result j r (hr r (by simpa using hj))
    · rw [State.goto_phase_ne s _ _ e] at hj; exact h.result j r hj

/-- `i` is decided now: it is the last of the calls served so far. -/
theorem Served.decide (h : Served cfg calls t₀ ds s) {i : ι} {p : Phase Order} (hi : i ∉ ds)
    (hp : p.decided = some ((calls i).outcome cfg (after cfg calls t₀ ds)).1)
    (hs : Stage cfg (calls i) (after cfg calls t₀ (ds ++ [i])) p)
    (hother : ∀ j, j ≠ i → Stage cfg (calls j) (after cfg calls t₀ (ds ++ [i])) (s.phase j)) :
    Served cfg calls t₀ (ds ++ [i]) (s.goto i p ((after cfg calls t₀ (ds ++ [i])).store cfg.backend)) where
  committed := rfl
  stage j := by
    by_cases hj : j = i
    · subst hj; simpa using hs
    · rw [State.goto_phase_ne s _ _ hj]; exact hother j hj
  nodup := by
    rw [← List.concat_eq_append]
    exact h.nodup.concat hi
  decided j hj := by
    by_cases e : j = i
    · subst e; simp [hp]
    · rw [State.goto_phase_ne s _ _ e]
      exact (h.decided j (by simpa [e] using hj)).imp id fun ⟨hp, e, he⟩ => ⟨hp, e, he.append i⟩
  result j r hj := by
    by_cases e : j = i
    · subst e
      simp only [State.goto_phase_self, hp, Option.some.injEq] at hj
      exact ⟨ds, [], rfl, hj.symm⟩
    · rw [State.goto_phase_ne s _ _ e] at hj
      exact (h.result j r hj).append i

variable [Fintype ι] (hd : Deployed cfg.catalog cfg.backend)
include hd

/-- A step decides nobody, or its caller. -/
theorem served_step (hs : s.Sound) (h : Served cfg calls t₀ ds s) {a : Action ι}
    (hstep : s.step cfg (createOrders cfg calls) a = some s') :
    ∃ es, Served cfg calls t₀ (ds ++ es) s' := by
  obtain ⟨i, ⟨ev, p', db'⟩, rfl, -, hr, rfl⟩ | ⟨i, rfl, hl, rfl⟩ | ⟨i, act, ctx, q, rfl, hp, -, rfl⟩ :=
    State.step_cases hstep
  · rw [h.committed] at hr
    obtain ⟨g, g', t', hg, rfl, rfl, hpolls, hg'⟩ := poll_stage hd (h.stage i) hr
    have hdec : (s.phase i).decided = g.decided := by rw [hg, Progress.phase_decided]
    have hst : ∀ t, t' = t → Stage cfg (calls i) t (g'.phase cfg (calls i)) := fun t ht => ⟨g', rfl, ht ▸ hg'⟩
    cases hpolls with
    | on hgn hgn' hl ht =>
      subst ht
      refine ⟨[], ?_⟩
      rw [List.append_nil]
      refine h.keep (hst _ rfl) (fun hi => ?_) fun r hr => by simp [hgn'] at hr
      rcases h.decided i hi with hc | ⟨hc, -⟩
      · exact absurd (hdec.trans hgn) hc
      · rw [hc] at hr; cases hr
    | decides hgn hgn' ht =>
      have hi : i ∉ ds := by
        intro hi
        rcases h.decided i hi with hc | ⟨hc, -⟩
        · exact hc (hdec.trans hgn)
        · rw [hc] at hr; cases hr
      rw [← after_concat] at ht
      subst ht
      refine ⟨[i], h.decide hi (by rw [Progress.phase_decided, hgn']) (hst _ rfl) fun j hj => ?_⟩
      obtain ⟨g, hg, hknown⟩ := h.stage j
      exact ⟨g, hg, hknown.step hs hstep hj hg h.committed rfl⟩
    | ends hgn hgn' ht =>
      have hends : (g'.phase cfg (calls i)).decided = (s.phase i).decided := by
        rw [Progress.phase_decided, hgn', hdec]
      subst ht
      refine ⟨[], ?_⟩
      rw [List.append_nil]
      refine h.keep (hst _ rfl) (fun _ => .inl ?_) fun r hr => by rwa [hends] at hr
      rwa [hends, hdec]
  · obtain ⟨g, hg, -⟩ := h.stage i
    refine ⟨[], ?_⟩
    rw [List.append_nil, h.committed, show (s.phase i).cancel = .dropped none by rw [hg, Progress.phase_cancel]]
    refine h.keep ⟨.dropped, rfl, trivial⟩ (fun hi => .inr ⟨rfl, ?_⟩) fun r hr => by cases hr
    rcases h.decided i hi with hc | ⟨hc, -⟩
    · -- decided and still live: it is about to roll back
      rw [hg, Progress.phase_live] at hl
      rw [hg, Progress.phase_decided] at hc
      cases g with
      | rollingBack e tx => exact ⟨e, h.result i _ (by rw [hg]; rfl)⟩
      | returned | dropped => cases hl
      | created | finding | updating | creating | committing => exact absurd rfl hc
    · rw [hc] at hl; cases hl
  · -- a call's context never escapes
    obtain ⟨g, hg, -⟩ := h.stage i
    rw [hg, Progress.phase_escaped] at hp
    cases hp

/-- What has been decided stays: later calls come after it. -/
theorem served_later (hs : s.Sound) (h : Served cfg calls t₀ ds s) {as : List (Action ι)}
    (hrun : run (State.step cfg (createOrders cfg calls)) s as = some s') :
    s'.Sound ∧ ∃ es, Served cfg calls t₀ (ds ++ es) s' := by
  refine run_inv (fun s => s.Sound ∧ ∃ es, Served cfg calls t₀ (ds ++ es) s) ?_ as ?_ hrun
  · rintro s a s' ⟨hs, es, hserved⟩ hstep
    obtain ⟨fs, hserved'⟩ := served_step hd hs hserved hstep
    exact ⟨State.sound_step hs hstep, es ++ fs, List.append_assoc ds es fs ▸ hserved'⟩
  · exact ⟨hs, [], (List.append_nil ds).symm ▸ h⟩

/-- **The invariant of every run.** -/
theorem served_run {as : List (Action ι)}
    (h : run (State.step cfg (createOrders cfg calls)) (.init (t₀.store cfg.backend)) as = some s) :
    s.Sound ∧ ∃ ds, Served cfg calls t₀ ds s :=
  served_later hd (State.sound_init _) (served_init cfg calls t₀) h

omit [Fintype ι]

/-- **`create_order` run alone** is `outcome`. -/
theorem runAlone_createOrder (call : CreateOrderCall) (t : Tables) :
    (createOrder cfg.profile call).runAlone cfg (t.store cfg.backend) =
      (.returned (call.outcome cfg t).1 none, (call.outcome cfg t).2.store cfg.backend) := by
  -- undecided over the first tables, or decided with the outcome over those after it
  have key : ∀ x, ReflTransGen (Steps cfg (createOrder cfg.profile call)) (.created, t.store cfg.backend) x →
      ∃ (g : Progress) (t' : Tables), x = (g.phase cfg call, t'.store cfg.backend) ∧ g.Holds call t' ∧
        ((g.decided = none ∧ g.live = true ∧ t' = t) ∨
          (g.decided = some (call.outcome cfg t).1 ∧ t' = (call.outcome cfg t).2)) := by
    intro x hx
    induction hx with
    | refl => exact ⟨.created, t, rfl, trivial, .inl ⟨rfl, rfl, rfl⟩⟩
    | @tail y z _ hyz ih =>
      obtain ⟨ev, hev⟩ := hyz
      obtain ⟨g, t', rfl, hg, ih⟩ := ih
      obtain ⟨g₁, g', t'', hg₁, hp', hdb, hpolls, hg'⟩ := poll_stage hd ⟨g, rfl, hg⟩ hev
      have hdec : g₁.decided = g.decided := by
        rw [← Progress.phase_decided cfg call, ← hg₁, Progress.phase_decided]
      refine ⟨g', t'', Prod.ext hp' hdb, hg', ?_⟩
      rcases ih with ⟨hn, -, rfl⟩ | ⟨hs, rfl⟩
      · cases hpolls with
        | on _ hgn' hl ht => exact .inl ⟨hgn', hl, ht⟩
        | decides _ hgn' ht => exact .inr ⟨hgn', ht⟩
        | ends hgn => exact absurd (hdec.trans hn) hgn
      · cases hpolls with
        | on hgn => rw [hdec, hs] at hgn; cases hgn
        | decides hgn => rw [hdec, hs] at hgn; cases hgn
        | ends _ hgn' ht => exact .inr ⟨hgn'.trans (hdec.trans hs), ht⟩
  have hover := runAlone_over cfg (createOrder cfg.profile call) (t.store cfg.backend)
  obtain ⟨g, t', hx, -, hcase⟩ := key _ (steps_runAlone cfg _ _)
  rw [hx, Progress.phase_live] at hover
  rw [hx]
  rcases hcase with ⟨-, hl, -⟩ | ⟨hs, rfl⟩
  · rw [hover] at hl; cases hl
  · cases g with
    | returned r =>
      simp only [Progress.decided, Option.some.injEq] at hs
      rw [hs]
      rfl
    | dropped => cases hs
    | created | finding | updating | creating | committing | rollingBack => cases hover

/-- One call after the other: the tables are `after`, and each call has its outcome at its turn. -/
theorem serial_createOrders (calls : ι → CreateOrderCall) (t₀ : Tables) {ds : List ι} (hn : ds.Nodup) :
    let s := State.serial cfg (createOrders cfg calls) (.init (t₀.store cfg.backend)) ds
    s.committed = (after cfg calls t₀ ds).store cfg.backend ∧
      ∀ before i rest, ds = before ++ i :: rest →
        s.phase i = .returned ((calls i).outcome cfg (after cfg calls t₀ before)).1 none := by
  induction ds using List.reverseRecOn with
  | nil => exact ⟨rfl, fun before i rest h => by simp at h⟩
  | append_singleton ds j ih =>
    rw [← List.concat_eq_append, List.nodup_concat] at hn
    obtain ⟨hdb, hph⟩ := ih hn.2
    have halone : (createOrders cfg calls j).runAlone cfg ((after cfg calls t₀ ds).store cfg.backend) = _ :=
      runAlone_createOrder hd (calls j) _
    simp only [State.serial_concat, hdb, halone, after_concat]
    refine ⟨rfl, fun before i rest h => ?_⟩
    rcases List.eq_nil_or_concat rest with rfl | ⟨rest, k, rfl⟩
    · obtain ⟨rfl, hji⟩ := List.append_inj' h rfl
      cases hji
      simp
    · rw [List.concat_eq_append, ← List.cons_append, ← List.append_assoc] at h
      obtain ⟨rfl, -⟩ := List.append_inj' h rfl
      rw [State.goto_phase_ne _ _ _ fun e => hn.1 (by simp [← e])]
      exact hph before i rest rfl

variable [Fintype ι]

/-- **Serializability.** Every complete schedule of concurrent `create_order` calls ends in
the state that some sequential order of the same calls, with the same failures, ends in. -/
theorem createOrder_serializable {as : List (Action ι)}
    (h : run (State.step cfg (createOrders cfg calls)) (.init (t₀.store cfg.backend)) as = some s)
    (hdone : ∀ i, ∃ r escaped, s.phase i = .returned r escaped) :
    ∃ order : List ι, order.Nodup ∧ (∀ i, i ∈ order) ∧
      State.serial cfg (createOrders cfg calls) (.init (t₀.store cfg.backend)) order = s := by
  obtain ⟨-, ds, hserved⟩ := served_run hd h
  -- everyone has returned, so everyone has been decided at its place in `ds`
  have hplace : ∀ i, ∃ before rest, ds = before ++ i :: rest ∧
      s.phase i = .returned ((calls i).outcome cfg (after cfg calls t₀ before)).1 none := by
    intro i
    obtain ⟨r, escaped, hr⟩ := hdone i
    exact hserved.returned hr
  obtain ⟨hdb, hph⟩ := serial_createOrders hd calls t₀ hserved.nodup
  refine ⟨ds, hserved.nodup, fun i => ?_, ?_⟩
  · obtain ⟨before, rest, hds, -⟩ := hplace i
    simp [hds]
  · have hcommitted := hdb.trans hserved.committed.symm
    have hphases : (State.serial cfg (createOrders cfg calls) (.init (t₀.store cfg.backend)) ds).phase =
        s.phase := by
      funext i
      obtain ⟨before, rest, hds, hi⟩ := hplace i
      rw [hi]
      exact hph before i rest hds
    exact State.ext hcommitted hphases

end

/-- One item with a stock of 5. -/
def stocked : Tables where
  inventory x := if x = ⟨7⟩ then some 5 else none
  orders _ := none
  elsewhere _ := none

/-- Two calls that ask 3 of the item each. -/
def rivals (i : Fin 2) : CreateOrderCall := ⟨⟨⟨7⟩, 3⟩, ⟨BitVec.ofNat 128 i⟩, .none⟩

/-- Both begin, the second is served and the first finds too little left. -/
def rivalry : List (Action (Fin 2)) :=
  [.poll 0, .poll 1, .poll 1, .poll 1, .poll 1, .poll 1, .poll 0, .poll 0]

theorem rivalry_runs : (run (State.step (Makefile.config .sqlx) (createOrders (Makefile.config .sqlx) rivals))
    (.init (stocked.store .sqlx)) rivalry).isSome := by decide +kernel

theorem createOrder_serializable_rivals : ∃ order : List (Fin 2), order.Nodup ∧ (∀ i, i ∈ order) ∧
    State.serial (Makefile.config .sqlx) (createOrders (Makefile.config .sqlx) rivals)
      (.init (stocked.store .sqlx)) order = Option.get _ rivalry_runs :=
  createOrder_serializable (Makefile.deployed .sqlx) (Option.some_get rivalry_runs).symm fun i =>
    match i with
    | 0 => ⟨_, _, rfl⟩
    | 1 => ⟨_, _, rfl⟩

end TransactionManager
