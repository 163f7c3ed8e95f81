import TransactionManager.Lib.Run
import Mathlib.Data.List.Nodup
import Mathlib.Logic.Function.Basic
/-
# A resource behind a mutex, reached over a connection

Tasks `ι` share a mutex. Each locks it, sends one request over the connection it guards, receives the
answer, decodes it and unlocks; at any of these points it may be dropped, which unlocks the mutex too.
The server answers the requests in the order in which they were sent. The connection knows which
answers belong to tasks that are gone: they are read off it (`Action.drain`) before the next request is
sent. It does not know the other tasks, and hands an answer to whoever asks for one.

`Safe` says that the mutex keeps the tasks apart, and `Linear` that the answers and the resource are
those of whole tasks, one after the other, in the order in which they locked the mutex.
-/

namespace Guarded

open Run

/-- What a task asks of the resource, in an environment `ω` that is the server's own, and what it makes
of the answer. `none` is a request that has to wait. -/
structure Protocol (ι ω σ β ρ : Type) where
  exec : ι → ω → σ → Option (β × σ)
  decode : ι → β → ρ

inductive Point (β ρ : Type) where
  | waiting
  | locked
  | sent
  | received (answer : β)
  | decoded (result : ρ)
  | done (result : ρ)
  | dropped

namespace Point

variable {β ρ : Type}

def holds : Point β ρ → Bool
  | locked | sent | received _ | decoded _ => true
  | waiting | done _ | dropped => false

def finished : Point β ρ → Bool
  | done _ | dropped => true
  | _ => false

def isDropped : Point β ρ → Bool
  | dropped => true
  | _ => false

theorem eq_dropped {p : Point β ρ} (h : p.isDropped = true) : p = .dropped := by
  cases p <;> first | rfl | cases h

end Point

/-- The resource, who has locked the mutex, and what is on the connection: requests on their way to the
server and answers on their way back. `refs` counts the references to the mutex, which the tasks borrow. -/
structure State (ι σ β ρ : Type) where
  resource : σ
  holder : Option ι
  requests : List ι
  answers : List (ι × β)
  point : ι → Point β ρ
  refs : Nat

inductive Action (ι ω : Type) where
  | lock (i : ι)
  | send (i : ι)
  | serve (env : ω)
  | receive (i : ι)
  | drain (i : ι)
  | decode (i : ι)
  | unlock (i : ι)
  | drop (i : ι)

section
variable {ι ω : Type}

/-- Who locked the mutex, in this order. -/
def acquired : List (Action ι ω) → List ι :=
  List.filterMap fun a => match a with
    | .lock i => some i
    | _ => none

/-- Whose requests were sent, in this order. -/
def sends : List (Action ι ω) → List ι :=
  List.filterMap fun a => match a with
    | .send i => some i
    | _ => none

/-- The environments in which requests were served. -/
def serves : List (Action ι ω) → List ω :=
  List.filterMap fun a => match a with
    | .serve env => some env
    | _ => none

theorem acquired_append (as bs : List (Action ι ω)) : acquired (as ++ bs) = acquired as ++ acquired bs :=
  List.filterMap_append

theorem sends_append (as bs : List (Action ι ω)) : sends (as ++ bs) = sends as ++ sends bs := List.filterMap_append

theorem serves_append (as bs : List (Action ι ω)) : serves (as ++ bs) = serves as ++ serves bs :=
  List.filterMap_append

end

namespace State

variable {ι ω σ β ρ : Type}

/-- Nobody has locked the mutex yet. -/
def init (resource : σ) (refs : Nat) : State ι σ β ρ where
  resource := resource
  holder := none
  requests := []
  answers := []
  point _ := .waiting
  refs := refs

/-- What is in flight, the oldest first. -/
def inFlight (s : State ι σ β ρ) : List ι := s.answers.map Prod.fst ++ s.requests

/-- Something in flight belongs to a task that was dropped. -/
def abandoned (s : State ι σ β ρ) : Bool := s.inFlight.any fun i => (s.point i).isDropped

variable [DecidableEq ι]

def goto (s : State ι σ β ρ) (i : ι) (p : Point β ρ) : State ι σ β ρ :=
  { s with point := Function.update s.point i p }

def step (P : Protocol ι ω σ β ρ) (s : State ι σ β ρ) : Action ι ω → Option (State ι σ β ρ)
  | .lock i =>
    match s.point i, s.holder with
    | .waiting, none => some { s.goto i .locked with holder := some i }
    | _, _ => none
  | .send i =>
    match s.point i with
    | .locked => if s.abandoned then none else some { s.goto i .sent with requests := s.requests ++ [i] }
    | _ => none
  | .serve env =>
    match s.requests with
    | i :: rest => (P.exec i env s.resource).map fun r =>
      { s with resource := r.2, requests := rest, answers := s.answers ++ [(i, r.1)] }
    | [] => none
  | .receive i =>
    match s.point i, s.answers with
    | .sent, (_, b) :: rest => some { s.goto i (.received b) with answers := rest }
    | _, _ => none
  | .drain i =>
    match s.point i, s.answers with
    | .locked, (j, _) :: rest => if (s.point j).isDropped then some { s with answers := rest } else none
    | _, _ => none
  | .decode i =>
    match s.point i with
    | .received b => some (s.goto i (.decoded (P.decode i b)))
    | _ => none
  | .unlock i =>
    match s.point i with
    | .decoded r => some { s.goto i (.done r) with holder := none }
    | _ => none
  | .drop i =>
    if (s.point i).finished then none
    else some { s.goto i .dropped with holder := if s.holder = some i then none else s.holder }

@[simp] theorem goto_point_self (s : State ι σ β ρ) (i : ι) (p : Point β ρ) : (s.goto i p).point i = p := by
  simp [goto]
theorem goto_point_ne (s : State ι σ β ρ) {i j : ι} (p : Point β ρ) (h : j ≠ i) :
    (s.goto i p).point j = s.point j := by simp [goto, Function.update_of_ne h]

/-- After a change of `i`'s point every point is the new one or as before. -/
theorem point_goto {s : State ι σ β ρ} {i j : ι} {p q : Point β ρ} (h : (s.goto i p).point j = q) :
    (j = i ∧ p = q) ∨ s.point j = q := by
  by_cases hji : j = i
  · rw [hji, goto_point_self] at h
    exact .inl ⟨hji, h⟩
  · rw [goto_point_ne s p hji] at h
    exact .inr h

/-- **One action**, with what it rests on. -/
inductive Moves (P : Protocol ι ω σ β ρ) (s : State ι σ β ρ) : Action ι ω → State ι σ β ρ → Prop where
  | lock (i : ι) (hp : s.point i = .waiting) (hfree : s.holder = none) :
    Moves P s (.lock i) { s.goto i .locked with holder := some i }
  | send (i : ι) (hp : s.point i = .locked) (ha : s.abandoned = false) :
    Moves P s (.send i) { s.goto i .sent with requests := s.requests ++ [i] }
  | serve (env : ω) (i : ι) (rest : List ι) (b : β) (resource : σ) (hr : s.requests = i :: rest)
    (hexec : P.exec i env s.resource = some (b, resource)) :
    Moves P s (.serve env) { s with resource := resource, requests := rest, answers := s.answers ++ [(i, b)] }
  | receive (i j : ι) (b : β) (rest : List (ι × β)) (hp : s.point i = .sent) (ha : s.answers = (j, b) :: rest) :
    Moves P s (.receive i) { s.goto i (.received b) with answers := rest }
  | drain (i j : ι) (b : β) (rest : List (ι × β)) (hp : s.point i = .locked) (ha : s.answers = (j, b) :: rest)
    (hj : s.point j = .dropped) : Moves P s (.drain i) { s with answers := rest }
  | decode (i : ι) (b : β) (hp : s.point i = .received b) :
    Moves P s (.decode i) (s.goto i (.decoded (P.decode i b)))
  | unlock (i : ι) (r : ρ) (hp : s.point i = .decoded r) :
    Moves P s (.unlock i) { s.goto i (.done r) with holder := none }
  | drop (i : ι) (hp : (s.point i).finished = false) :
    Moves P s (.drop i) { s.goto i .dropped with holder := if s.holder = some i then none else s.holder }

theorem step_moves {P : Protocol ι ω σ β ρ} {s s' : State ι σ β ρ} {a : Action ι ω} (h : s.step P a = some s') :
    Moves P s a s' := by
  cases a with
  | lock i =>
    simp only [step] at h
    split at h
    · rename_i hp hfree
      cases h
      exact .lock i hp hfree
    · cases h
  | send i =>
    simp only [step] at h
    split at h
    · rename_i hp
      split at h
      · cases h
      · rename_i ha
        cases h
        exact .send i hp (by simpa using ha)
    · cases h
  | serve env =>
    simp only [step] at h
    split at h
    · rename_i i rest hr
      obtain ⟨⟨b, resource⟩, hexec, rfl⟩ := Option.map_eq_some_iff.1 h
      exact .serve env i rest b resource hr hexec
    · cases h
  | receive i =>
    simp only [step] at h
    split at h
    · rename_i j b rest hp ha
      cases h
      exact .receive i j b rest hp ha
    · cases h
  | drain i =>
    simp only [step] at h
    split at h
    · rename_i j b rest hp ha
      split at h
      · rename_i hj
        cases h
        exact .drain i j b rest hp ha (Point.eq_dropped hj)
      · cases h
    · cases h
  | decode i =>
    simp only [step] at h
    split at h
    · rename_i b hp
      cases h
      exact .decode i b hp
    · cases h
  | unlock i =>
    simp only [step] at h
    split at h
    · rename_i r hp
      cases h
      exact .unlock i r hp
    · cases h
  | drop i =>
    simp only [step] at h
    split at h
    · cases h
    · rename_i hp
      cases h
      exact .drop i (by simpa using hp)

theorem Moves.step {P : Protocol ι ω σ β ρ} {s s' : State ι σ β ρ} {a : Action ι ω} (h : Moves P s a s') :
    s.step P a = some s' := by
  cases h with
  | lock i hp hfree => simp only [State.step, hp, hfree]
  | send i hp ha => simp only [State.step, hp, ha, Bool.false_eq_true, if_false]
  | serve env i rest b resource hr hexec => simp only [State.step, hr, hexec, Option.map_some]
  | receive i j b rest hp ha => simp only [State.step, hp, ha]
  | drain i j b rest hp ha hj => simp only [State.step, hp, ha, hj, Point.isDropped, if_true]
  | decode i b hp => simp only [State.step, hp]
  | unlock i r hp => simp only [State.step, hp]
  | drop i hp => simp only [State.step, hp, Bool.false_eq_true, if_false]

/-! ## The mutex keeps the tasks apart -/

/-- Whoever is between locking and unlocking has the mutex, and nothing is in flight but the request
of the one who waits for its answer, or of one that was dropped. -/
structure Safe (s : State ι σ β ρ) : Prop where
  holder : ∀ i, s.holder = some i ↔ (s.point i).holds = true
  flight : s.inFlight = [] ∨ ∃ i, s.inFlight = [i] ∧ (s.point i = .sent ∨ s.point i = .dropped)
  sent : ∀ i, s.point i = .sent → s.inFlight = [i]

section
variable {P : Protocol ι ω σ β ρ} {s s' : State ι σ β ρ}

omit [DecidableEq ι] in
theorem safe_init (resource : σ) (refs : Nat) : Safe (init resource refs : State ι σ β ρ) where
  holder _ := by simp [init, Point.holds]
  flight := .inl rfl
  sent _ h := by cases h

omit [DecidableEq ι] in
/-- Two that hold the mutex are one. -/
theorem Safe.eq_of_holds (h : Safe s) {i j : ι} (hi : (s.point i).holds = true) (hj : (s.point j).holds = true) :
    j = i := by
  have hij := ((h.holder j).2 hj).symm.trans ((h.holder i).2 hi)
  exact Option.some.inj hij

omit [DecidableEq ι] in
/-- Before a request is sent nothing is in flight. -/
theorem Safe.flight_of_send (h : Safe s) {i : ι} (hp : s.point i = .locked) (ha : s.abandoned = false) :
    s.inFlight = [] := by
  rcases h.flight with hnil | ⟨j, hj, hsent | hdropped⟩
  · exact hnil
  · obtain rfl := h.eq_of_holds (i := i) (j := j) (by rw [hp]; rfl) (by rw [hsent]; rfl)
    rw [hp] at hsent
    cases hsent
  · rw [abandoned, hj] at ha
    simp [hdropped, Point.isDropped] at ha

/-- The caller's point changes between two that hold the mutex alike. -/
theorem Safe.holder_goto (h : Safe s) {i : ι} {p : Point β ρ} (hp : p.holds = (s.point i).holds) :
    ∀ j, s.holder = some j ↔ ((s.goto i p).point j).holds = true := by
  intro j
  by_cases hj : j = i
  · rw [hj, goto_point_self, hp]
    exact h.holder i
  · rw [goto_point_ne s p hj]
    exact h.holder j

omit [DecidableEq ι] in
/-- An answer on the connection is all that is in flight. -/
theorem Safe.flight_of_answer (h : Safe s) {j : ι} {b : β} {rest : List (ι × β)} (ha : s.answers = (j, b) :: rest) :
    s.inFlight = [j] ∧ rest.map Prod.fst ++ s.requests = [] := by
  have hflight : s.inFlight = j :: (rest.map Prod.fst ++ s.requests) := by simp [inFlight, ha]
  rcases h.flight with hnil | ⟨k, hk, -⟩
  · rw [hflight] at hnil
    cases hnil
  · rw [hflight, List.cons.injEq] at hk
    obtain ⟨rfl, hrest⟩ := hk
    exact ⟨by rw [hflight, hrest], hrest⟩

/-- A task that has nothing in flight goes on, or one is dropped. -/
theorem Safe.flight_goto (h : Safe s) {i : ι} {p : Point β ρ}
    (hp : p = .dropped ∨ s.point i ≠ .sent ∧ s.point i ≠ .dropped) :
    s.inFlight = [] ∨ ∃ k, s.inFlight = [k] ∧ ((s.goto i p).point k = .sent ∨ (s.goto i p).point k = .dropped) := by
  rcases h.flight with hnil | ⟨k, hk, hpoint⟩
  · exact .inl hnil
  · refine .inr ⟨k, hk, ?_⟩
    by_cases hki : k = i
    · rw [hki, goto_point_self]
      rw [hki] at hpoint
      rcases hp with hdropped | ⟨hsent, hdropped⟩
      · exact .inr hdropped
      · exact absurd hpoint (by simp [hsent, hdropped])
    · rwa [goto_point_ne s p hki]

theorem Safe.sent_goto (h : Safe s) {i : ι} {p : Point β ρ} (hp : p ≠ .sent) :
    ∀ j, (s.goto i p).point j = .sent → s.inFlight = [j] :=
  fun j hj => h.sent j ((point_goto hj).resolve_left fun hc => hp hc.2)

/-- The mutex is unlocked, and the task that had it, if any did, is at a point without it. -/
theorem Safe.holder_release (h : Safe s) {i : ι} {p : Point β ρ} (hi : (s.point i).holds = true)
    (hp : p.holds = false) : ∀ j, none = some j ↔ ((s.goto i p).point j).holds = true := by
  intro j
  by_cases hji : j = i
  · simp [hji, hp]
  · rw [goto_point_ne s p hji]
    constructor
    · intro hc
      cases hc
    · intro hj
      exact absurd (h.eq_of_holds hi hj) hji

/-- **The step lemma** of `Safe`. -/
theorem safe_step {a : Action ι ω} (h : Safe s) (hstep : s.step P a = some s') : Safe s' := by
  cases step_moves hstep with
  | lock i hp hfree =>
    refine ⟨fun j => ?_, h.flight_goto (.inr ⟨by simp [hp], by simp [hp]⟩), h.sent_goto (by simp)⟩
    by_cases hji : j = i
    · simp [hji, Point.holds]
    · have hj := h.holder j
      rw [hfree] at hj
      simpa [goto_point_ne s _ hji, Ne.symm hji] using hj
  | send i hp ha =>
    have hnil := h.flight_of_send hp ha
    have hone : { s.goto i .sent with requests := s.requests ++ [i] }.inFlight = [i] := by
      have : s.inFlight ++ [i] = [i] := by rw [hnil, List.nil_append]
      simpa [inFlight, goto] using this
    refine ⟨h.holder_goto (by rw [hp]; rfl), .inr ⟨i, hone, .inl (goto_point_self s i _)⟩, fun j hj => ?_⟩
    by_cases hji : j = i
    · rw [hji, hone]
    · simp only [goto_point_ne s _ hji] at hj
      rw [h.sent j hj] at hnil
      cases hnil
  | serve env i rest b resource hr hexec =>
    have hsame : { s with resource := resource, requests := rest, answers := s.answers ++ [(i, b)] }.inFlight =
        s.inFlight := by simp [inFlight, hr]
    exact ⟨h.holder, hsame ▸ h.flight, fun j hj => hsame ▸ h.sent j hj⟩
  | receive i j b rest hp ha =>
    obtain ⟨-, hnil⟩ := h.flight_of_answer ha
    refine ⟨h.holder_goto (by rw [hp]; rfl), .inl hnil, fun k hk => ?_⟩
    by_cases hki : k = i
    · simp [hki] at hk
    · simp only [goto_point_ne s _ hki] at hk
      exact absurd (h.eq_of_holds (by rw [hp]; rfl) (by rw [hk]; rfl)) hki
  | drain i j b rest hp ha hj =>
    obtain ⟨hone, hnil⟩ := h.flight_of_answer ha
    refine ⟨h.holder, .inl hnil, fun k hk => ?_⟩
    have hk' : s.point k = .sent := hk
    have hkj := h.sent k hk'
    rw [hone, List.cons.injEq] at hkj
    rw [← hkj.1, hj] at hk'
    cases hk'
  | decode i b hp =>
    exact ⟨h.holder_goto (by rw [hp]; rfl), h.flight_goto (.inr ⟨by simp [hp], by simp [hp]⟩), h.sent_goto (by simp)⟩
  | unlock i r hp =>
    exact ⟨h.holder_release (by rw [hp]; rfl) rfl, h.flight_goto (.inr ⟨by simp [hp], by simp [hp]⟩),
      h.sent_goto (by simp)⟩
  | drop i hp =>
    refine ⟨?_, h.flight_goto (.inl rfl), h.sent_goto (by simp)⟩
    cases hi : (s.point i).holds with
    | true =>
      simp only [if_pos ((h.holder i).2 hi)]
      exact h.holder_release hi rfl
    | false =>
      simp only [if_neg (mt (h.holder i).1 (by simp [hi]))]
      exact h.holder_goto hi.symm

omit [DecidableEq ι] in
/-- **One at a time.** -/
theorem Safe.single (h : Safe s) : s.inFlight.length ≤ 1 := by
  rcases h.flight with hnil | ⟨i, hi, -⟩
  · simp [hnil]
  · simp [hi]

/-! ## Nobody is stuck -/

omit [DecidableEq ι] in
/-- What is in flight is on its way to the server or on its way back. -/
theorem Safe.request_or_answer (h : Safe s) {j : ι} (hj : s.inFlight = [j]) :
    s.requests = [j] ∨ ∃ b, s.answers = [(j, b)] := by
  cases ha : s.answers with
  | nil => exact .inl (by simpa [inFlight, ha] using hj)
  | cons e rest =>
    obtain ⟨k, b⟩ := e
    obtain ⟨hone, hnil⟩ := h.flight_of_answer ha
    rw [hj, List.cons.injEq] at hone
    have hrest : rest = [] := by simpa using (List.append_eq_nil_iff.1 hnil).1
    exact .inr ⟨b, by rw [hone.1, hrest]⟩

/-- **Progress.** While a task is unfinished an action other than a drop is enabled, in an environment
in which the server does not let the requests wait. -/
theorem Safe.exists_step (h : Safe s) {env : ω} (henv : ∀ i, (P.exec i env s.resource).isSome = true) {i : ι}
    (hi : (s.point i).finished = false) :
    ∃ a s', (∀ j, a ≠ .drop j) ∧ (∀ e, a = .serve e → e = env) ∧ s.step P a = some s' := by
  have hserve : ∀ j, s.requests = [j] → ∃ a s', (∀ j, a ≠ .drop j) ∧ (∀ e, a = .serve e → e = env) ∧
      s.step P a = some s' := by
    intro j hr
    obtain ⟨⟨b, resource⟩, hexec⟩ := Option.isSome_iff_exists.1 (henv j)
    exact ⟨.serve env, _, by simp, by simp, (Moves.serve env j [] b resource hr hexec).step⟩
  cases hholder : s.holder with
  | none =>
    have hwaiting : s.point i = .waiting := by
      have hno := h.holder i
      rw [hholder] at hno
      cases hp : s.point i with
      | waiting => rfl
      | done | dropped => simp [hp, Point.finished] at hi
      | locked | sent | received | decoded => simp [hp, Point.holds] at hno
    exact ⟨.lock i, _, by simp, by simp, (Moves.lock i hwaiting hholder).step⟩
  | some k =>
    have hk := (h.holder k).1 hholder
    cases hp : s.point k with
    | waiting | done | dropped => simp [hp, Point.holds] at hk
    | locked =>
      cases ha : s.abandoned with
      | false => exact ⟨.send k, _, by simp, by simp, (Moves.send k hp ha).step⟩
      | true =>
        -- what a dropped task has left is answered, and read off the connection
        obtain ⟨j, hj, hdropped⟩ := List.any_eq_true.1 ha
        have hone : s.inFlight = [j] := by
          rcases h.flight with hnil | ⟨j', hj', -⟩
          · simp [hnil] at hj
          · rw [hj', List.mem_singleton] at hj
            rw [hj', hj]
        rcases h.request_or_answer hone with hr | ⟨b, hb⟩
        · exact hserve j hr
        · exact ⟨.drain k, _, by simp, by simp, (Moves.drain k j b [] hp hb (Point.eq_dropped hdropped)).step⟩
    | sent =>
      rcases h.request_or_answer (h.sent k hp) with hr | ⟨b, hb⟩
      · exact hserve k hr
      · exact ⟨.receive k, _, by simp, by simp, (Moves.receive k k b [] hp hb).step⟩
    | received b => exact ⟨.decode k, _, by simp, by simp, (Moves.decode k b hp).step⟩
    | decoded r => exact ⟨.unlock k, _, by simp, by simp, (Moves.unlock k r hp).step⟩

omit [DecidableEq ι] in
/-- When every task is finished the mutex is free. -/
theorem Safe.free (h : Safe s) (hdone : ∀ i, (s.point i).finished = true) : s.holder = none := by
  cases hholder : s.holder with
  | none => rfl
  | some i =>
    have hi := (h.holder i).1 hholder
    have hf := hdone i
    cases hp : s.point i with
    | waiting | locked | sent | received | decoded => simp [hp, Point.finished] at hf
    | done | dropped => simp [hp, Point.holds] at hi

/-- The tasks borrow the mutex: none of them keeps a reference to it. -/
theorem refs_step {a : Action ι ω} (hstep : s.step P a = some s') : s'.refs = s.refs := by
  cases step_moves hstep <;> rfl

theorem refs_run {resource : σ} {refs : Nat} {as : List (Action ι ω)}
    (h : run (step P) (init resource refs) as = some s) : s.refs = refs :=
  run_inv (fun s : State ι σ β ρ => s.refs = refs) (fun _ _ _ hs hst => (refs_step hst).trans hs) as rfl h

/-! ## One task after the other -/

/-- Requests are sent in the order in which the mutex is locked. -/
structure Ordered (as : List (Action ι ω)) (s : State ι σ β ρ) : Prop where
  nodup : (acquired as).Nodup
  began : ∀ i ∈ acquired as, s.point i ≠ .waiting
  sublist : (sends as).Sublist (acquired as)
  last : ∀ i, s.holder = some i → ∃ before, acquired as = before ++ [i] ∧
    (s.point i = .locked → (sends as).Sublist before)

omit [DecidableEq ι] in
theorem ordered_init (resource : σ) (refs : Nat) :
    Ordered ([] : List (Action ι ω)) (init resource refs : State ι σ β ρ) where
  nodup := .nil
  began _ h := absurd h List.not_mem_nil
  sublist := .slnil
  last _ h := by cases h

omit [DecidableEq ι] in
/-- An action that neither locks nor sends. -/
theorem Ordered.keep {as : List (Action ι ω)} {a : Action ι ω} (h : Ordered as s) (hacq : acquired [a] = [])
    (hsends : sends [a] = []) (hbegan : ∀ j, s.point j ≠ .waiting → s'.point j ≠ .waiting)
    (hlast : ∀ j, s'.holder = some j → s.holder = some j ∧ (s'.point j = .locked → s.point j = .locked)) :
    Ordered (as ++ [a]) s' := by
  have ha : acquired (as ++ [a]) = acquired as := by rw [acquired_append, hacq, List.append_nil]
  have hs : sends (as ++ [a]) = sends as := by rw [sends_append, hsends, List.append_nil]
  refine ⟨ha ▸ h.nodup, fun j hj => hbegan j (h.began j (ha ▸ hj)), ?_, fun j hj => ?_⟩
  · rw [ha, hs]
    exact h.sublist
  · obtain ⟨hholder, hlocked⟩ := hlast j hj
    obtain ⟨before, hacq, hsub⟩ := h.last j hholder
    exact ⟨before, by rw [ha, hacq], fun hp => hs ▸ hsub (hlocked hp)⟩

theorem began_goto {i j : ι} {p : Point β ρ} (hp : p ≠ .waiting) (hj : s.point j ≠ .waiting) :
    (s.goto i p).point j ≠ .waiting := fun h => (point_goto h).elim (fun hc => hp hc.2) hj

theorem locked_goto {i j : ι} {p : Point β ρ} (hp : p ≠ .locked) (hj : (s.goto i p).point j = .locked) :
    s.point j = .locked := (point_goto hj).resolve_left fun hc => hp hc.2

/-- **The step lemma** of `Ordered`. -/
theorem ordered_step {as : List (Action ι ω)} {a : Action ι ω} (hsafe : Safe s) (h : Ordered as s)
    (hstep : s.step P a = some s') : Ordered (as ++ [a]) s' := by
  cases step_moves hstep with
  | lock i hp hfree =>
    have hacq : acquired (as ++ [(.lock i : Action ι ω)]) = acquired as ++ [i] := acquired_append _ _
    have hsends : sends (as ++ [(.lock i : Action ι ω)]) = sends as := by rw [sends_append]; exact List.append_nil _
    have hnew : i ∉ acquired as := fun hi => h.began i hi hp
    refine ⟨?_, fun j hj => ?_, ?_, fun j hj => ?_⟩
    · rw [hacq, ← List.concat_eq_append]
      exact h.nodup.concat hnew
    · rw [hacq, List.mem_append, List.mem_singleton] at hj
      rcases hj with hj | rfl
      · exact began_goto (by simp) (h.began j hj)
      · simp
    · rw [hacq, hsends]
      exact h.sublist.trans (List.sublist_append_left _ _)
    · obtain rfl : i = j := Option.some.inj hj
      exact ⟨acquired as, hacq, fun _ => hsends ▸ h.sublist⟩
  | send i hp ha =>
    have hacq : acquired (as ++ [(.send i : Action ι ω)]) = acquired as := by
      rw [acquired_append]; exact List.append_nil _
    have hsends : sends (as ++ [(.send i : Action ι ω)]) = sends as ++ [i] := sends_append _ _
    have hholder : s.holder = some i := (hsafe.holder i).2 (by rw [hp]; rfl)
    obtain ⟨before, hbefore, hsub⟩ := h.last i hholder
    refine ⟨hacq ▸ h.nodup, fun j hj => began_goto (by simp) (h.began j (hacq ▸ hj)), ?_, fun j hj => ?_⟩
    · rw [hacq, hsends, hbefore]
      exact (hsub hp).append (List.Sublist.refl [i])
    · obtain rfl : i = j := Option.some.inj (hholder.symm.trans hj)
      exact ⟨before, by rw [hacq, hbefore], fun hc => by simp at hc⟩
  | serve env i rest b resource hr hexec =>
    exact h.keep rfl rfl (fun _ hj => hj) fun _ hj => ⟨hj, id⟩
  | drain i j b rest hp ha hj => exact h.keep rfl rfl (fun _ hj => hj) fun _ hj => ⟨hj, id⟩
  | receive i j b rest hp ha =>
    exact h.keep rfl rfl (fun _ => began_goto (by simp)) fun _ hj => ⟨hj, locked_goto (by simp)⟩
  | decode i b hp =>
    exact h.keep rfl rfl (fun _ => began_goto (by simp)) fun _ hj => ⟨hj, locked_goto (by simp)⟩
  | unlock i r hp => exact h.keep rfl rfl (fun _ => began_goto (by simp)) fun _ hj => by cases hj
  | drop i hp =>
    refine h.keep rfl rfl (fun _ => began_goto (by simp)) fun j hj => ⟨?_, locked_goto (by simp)⟩
    simp only at hj
    split at hj
    · cases hj
    · exact hj

end

end State

variable {ι ω σ β ρ : Type}

/-- A whole task, in the environment in which it is served: what it makes of the resource. -/
def Protocol.whole (P : Protocol ι ω σ β ρ) (x : σ) (e : ι × ω) : Option σ := (P.exec e.1 e.2 x).map Prod.snd

/-- `b` is the answer of `i` at its place in `ran`, whole tasks one after the other. -/
def Answered (P : Protocol ι ω σ β ρ) (x : σ) (ran : List (ι × ω)) (i : ι) (b : β) : Prop :=
  ∃ before env rest y y', ran = before ++ (i, env) :: rest ∧ run P.whole x before = some y ∧
    P.exec i env y = some (b, y')

theorem Answered.append {P : Protocol ι ω σ β ρ} {x : σ} {ran : List (ι × ω)} {i : ι} {b : β}
    (h : Answered P x ran i b) (e : ι × ω) : Answered P x (ran ++ [e]) i b := by
  obtain ⟨before, env, rest, y, y', rfl, hy, hexec⟩ := h
  exact ⟨before, env, rest ++ [e], y, y', by simp, hy, hexec⟩

namespace State

/-- The requests served so far are whole tasks in the order in which they were sent; the resource is
what they have made of it, and the answers are theirs. -/
structure Linear (P : Protocol ι ω σ β ρ) (x : σ) (as : List (Action ι ω)) (s : State ι σ β ρ) (ran : List (ι × ω)) :
    Prop where
  resource : run P.whole x ran = some s.resource
  served : ran.map Prod.fst ++ s.requests = sends as
  envs : ran.map Prod.snd = serves as
  answers : ∀ e ∈ s.answers, Answered P x ran e.1 e.2
  received : ∀ i b, s.point i = .received b → Answered P x ran i b
  decoded : ∀ i r, s.point i = .decoded r ∨ s.point i = .done r → ∃ b, Answered P x ran i b ∧ r = P.decode i b

theorem linear_init (P : Protocol ι ω σ β ρ) (x : σ) (refs : Nat) : Linear P x [] (init x refs) [] where
  resource := rfl
  served := rfl
  envs := rfl
  answers _ h := absurd h List.not_mem_nil
  received _ _ h := by cases h
  decoded _ _ h := by rcases h with h | h <;> cases h

section
variable [DecidableEq ι] {P : Protocol ι ω σ β ρ} {x : σ} {s s' : State ι σ β ρ} {as : List (Action ι ω)}
  {ran : List (ι × ω)}

omit [DecidableEq ι] in
/-- An action that serves nobody, and after which whoever has an answer or a result has its own. -/
theorem Linear.keep {a : Action ι ω} (h : Linear P x as s ran) (hresource : s'.resource = s.resource)
    (hserved : s'.requests = s.requests ++ sends [a]) (henvs : serves [a] = [])
    (hanswers : ∀ e ∈ s'.answers, e ∈ s.answers)
    (hreceived : ∀ i b, s'.point i = .received b → s.point i = .received b ∨ (i, b) ∈ s.answers)
    (hdecoded : ∀ i r, s'.point i = .decoded r ∨ s'.point i = .done r →
      (s.point i = .decoded r ∨ s.point i = .done r) ∨ ∃ b, s.point i = .received b ∧ r = P.decode i b) :
    Linear P x (as ++ [a]) s' ran where
  resource := by rw [hresource, h.resource]
  served := by rw [hserved, ← List.append_assoc, h.served, sends_append]
  envs := by rw [serves_append, henvs, List.append_nil, h.envs]
  answers e he := h.answers e (hanswers e he)
  received i b hi := by
    rcases hreceived i b hi with hp | ha
    · exact h.received i b hp
    · exact h.answers _ ha
  decoded i r hi := by
    rcases hdecoded i r hi with hp | ⟨b, hp, hr⟩
    · exact h.decoded i r hp
    · exact ⟨b, h.received i b hp, hr⟩

/-- An action that gives its caller neither an answer nor a result. -/
theorem Linear.move {a : Action ι ω} {i : ι} {p : Point β ρ} (h : Linear P x as s ran)
    (hpoint : s'.point = (s.goto i p).point) (hp : (∀ b, p ≠ .received b) ∧ ∀ r, p ≠ .decoded r ∧ p ≠ .done r)
    (hresource : s'.resource = s.resource)
    (hserved : s'.requests = s.requests ++ sends [a]) (henvs : serves [a] = [])
    (hanswers : s'.answers = s.answers) : Linear P x (as ++ [a]) s' ran := by
  refine h.keep hresource hserved henvs (fun e he => hanswers ▸ he) (fun j b hj => .inl ?_) fun j r hj => .inl ?_
  · rw [hpoint] at hj
    exact (point_goto hj).resolve_left fun hc => hp.1 b hc.2
  · rw [hpoint] at hj
    exact hj.imp (fun hj => (point_goto hj).resolve_left fun hc => (hp.2 r).1 hc.2)
      fun hj => (point_goto hj).resolve_left fun hc => (hp.2 r).2 hc.2

/-- **The step lemma** of `Linear`. -/
theorem linear_step {a : Action ι ω} (hsafe : Safe s) (h : Linear P x as s ran) (hstep : s.step P a = some s') :
    ∃ ran', Linear P x (as ++ [a]) s' ran' := by
  cases step_moves hstep with
  | serve env i rest b resource hr hexec =>
    have hown : Answered P x (ran ++ [(i, env)]) i b := ⟨ran, env, [], _, _, rfl, h.resource, hexec⟩
    refine ⟨ran ++ [(i, env)], ?_, ?_, ?_, fun e he => ?_, fun j b hj => ?_, fun j r hj => ?_⟩
    · exact run_concat h.resource (by simp only [Protocol.whole, hexec, Option.map_some])
    · rw [sends_append, ← h.served, hr]
      simp [sends]
    · rw [serves_append, ← h.envs]
      simp [serves]
    · rcases List.mem_append.1 he with he | he
      · exact (h.answers e he).append _
      · rw [List.mem_singleton.1 he]
        exact hown
    · exact (h.received j b hj).append _
    · obtain ⟨b, hb, rfl⟩ := h.decoded j r hj
      exact ⟨b, hb.append _, rfl⟩
  | lock i hp hfree =>
    exact ⟨ran, h.move (i := i) (p := .locked) rfl (by simp) rfl (List.append_nil _).symm rfl rfl⟩
  | send i hp ha => exact ⟨ran, h.move (i := i) (p := .sent) rfl (by simp) rfl rfl rfl rfl⟩
  | drop i hp =>
    exact ⟨ran, h.move (i := i) (p := .dropped) rfl (by simp) rfl (List.append_nil _).symm rfl rfl⟩
  | receive i j b rest hp ha =>
    -- what is in flight is `i`'s, so the answer is
    obtain rfl : j = i := by
      have hone := (hsafe.flight_of_answer ha).1
      rw [hsafe.sent i hp, List.cons.injEq] at hone
      exact hone.1.symm
    refine ⟨ran, h.keep rfl (List.append_nil _).symm rfl (fun e he => ha ▸ List.mem_cons_of_mem _ he) ?_ ?_⟩
    · intro k b' hk
      rcases point_goto hk with ⟨rfl, hb⟩ | hk
      · cases hb
        exact .inr (ha ▸ List.mem_cons_self)
      · exact .inl hk
    · intro k r hk
      exact .inl (hk.imp (fun hk => (point_goto hk).resolve_left (by simp))
        fun hk => (point_goto hk).resolve_left (by simp))
  | drain i j b rest hp ha hj =>
    exact ⟨ran, h.keep rfl (List.append_nil _).symm rfl (fun e he => ha ▸ List.mem_cons_of_mem _ he)
      (fun _ _ hk => .inl hk) fun _ _ hk => .inl hk⟩
  | decode i b hp =>
    refine ⟨ran, h.keep rfl (List.append_nil _).symm rfl (fun e he => he) ?_ ?_⟩
    · intro k b' hk
      exact .inl ((point_goto hk).resolve_left (by simp))
    · intro k r hk
      rcases hk with hk | hk
      · rcases point_goto hk with ⟨rfl, hr⟩ | hk
        · exact .inr ⟨b, hp, (Point.decoded.inj hr).symm⟩
        · exact .inl (.inl hk)
      · exact .inl (.inr ((point_goto hk).resolve_left (by simp)))
  | unlock i r hp =>
    refine ⟨ran, h.keep rfl (List.append_nil _).symm rfl (fun e he => he) ?_ ?_⟩
    · intro k b hk
      exact .inl ((point_goto hk).resolve_left (by simp))
    · intro k r' hk
      rcases hk with hk | hk
      · exact .inl (.inl ((point_goto hk).resolve_left (by simp)))
      · rcases point_goto hk with ⟨rfl, hr⟩ | hk
        · exact .inl (.inl (Point.done.inj hr ▸ hp))
        · exact .inl (.inr hk)

/-- **Linearization.** After every run the resource, the answers and the results are those of whole
tasks one after the other, in the order in which they locked the mutex. -/
theorem linear_run {refs : Nat} (h : run (step P) (init x refs) as = some s) :
    Safe s ∧ Ordered as s ∧ ∃ ran, Linear P x as s ran := by
  refine run_history (fun as s => Safe s ∧ Ordered as s ∧ ∃ ran, Linear P x as s ran)
    ⟨safe_init x refs, ordered_init x refs, [], linear_init P x refs⟩ (fun as s a s' _ hs hst => ?_) as h
  obtain ⟨hsafe, hordered, ran, hlinear⟩ := hs
  exact ⟨safe_step hsafe hst, ordered_step hsafe hordered hst, linear_step hsafe hlinear hst⟩

end

end State

end Guarded
