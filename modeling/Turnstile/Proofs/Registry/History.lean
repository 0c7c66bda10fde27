/-
The history of a run, and what one client sees of it.

`Timed.history` lists the calls of a run, each with the state that it met
and the outcome it had. Everything said about one client is a view of that
list: its requests and the sweeps in their order, with instants and answers
(`touches`), how often its bucket was refilled (`refillCount`) and how often
it was admitted (`allowedCount`).

`visits` is what is left of `touches` without the answers. It is read off
the calls alone (`touches_visits`), so it says what a client contributes to
a run, before anybody decides.

Chain (registry): Registry/Timed.lean below; the run lemmas of this folder
go by induction on the calls and use `history_cons` only.
-/
import Mathlib
import Turnstile.Registry.Timed
import Turnstile.Registry.View

namespace Turnstile.Registry

/-- A call in its place. -/
structure Step where
  before : Timed
  call : Call
  outcome : Outcome
deriving DecidableEq

-- ============================================================ histories

/-- The calls of a run with the states that they met and their
outcomes. -/
def Timed.history (state : Timed) : List Call → List Step
  | [] => []
  | call :: rest =>
      ⟨state, call, (state.perform call).1⟩
        :: (state.perform call).2.history rest

variable {state : Timed} {client : String}

theorem history_cons (state : Timed) (call : Call) (rest : List Call) :
    state.history (call :: rest)
      = ⟨state, call, (state.perform call).1⟩
        :: (state.perform call).2.history rest := rfl

theorem run_cons (state : Timed) (call : Call) (rest : List Call) :
    (state.run (call :: rest)).2 = ((state.perform call).2.run rest).2 := rfl

theorem history_outcome (state : Timed) (calls : List Call) :
    (state.history calls).map Step.outcome = (state.run calls).1 := by
  induction calls generalizing state with
  | nil => rfl
  | cons call rest ih =>
      rw [history_cons, List.map_cons, ih]
      rfl

theorem run_append (state : Timed) (calls rest : List Call) :
    (state.run (calls ++ rest)).2 = ((state.run calls).2.run rest).2 := by
  induction calls generalizing state with
  | nil => rfl
  | cons call calls ih => exact ih (state.perform call).2

theorem history_append (state : Timed) (calls rest : List Call) :
    state.history (calls ++ rest)
      = state.history calls ++ (state.run calls).2.history rest := by
  induction calls generalizing state with
  | nil => rfl
  | cons call calls ih =>
      rw [List.cons_append, history_cons, history_cons, ih]
      rfl

/-- What every call preserves, every run preserves. -/
theorem run_induction {motive : Timed → Prop}
    (hstep : ∀ state call, motive state → motive (state.perform call).2)
    (calls : List Call) (hstate : motive state) :
    motive (state.run calls).2 := by
  induction calls generalizing state with
  | nil => exact hstate
  | cons call rest ih => exact ih (hstep state call hstate)

-- ========================================================= clock, quota

theorem now_le_perform (state : Timed) (call : Call) :
    state.now ≤ (state.perform call).2.now := by
  cases call with
  | request other => exact Nat.le_refl _
  | sweep => exact Nat.le_refl _
  | wait nanos => exact Nat.le_add_right ..

theorem now_le_run (state : Timed) (calls : List Call) :
    state.now ≤ (state.run calls).2.now :=
  run_induction (motive := fun later => state.now ≤ later.now)
    (fun later call hle => hle.trans (now_le_perform later call)) calls
    (Nat.le_refl _)

theorem quota_perform (state : Timed) (call : Call) :
    (state.perform call).2.registry.quota = state.registry.quota := by
  cases call <;> rfl

-- ======================================================== one client's view

/-- One request of the client, with its answer, or one sweep. -/
inductive Touch where
  | asked (now : ℕ) (answer : Admission)
  | swept (now : ℕ)
deriving DecidableEq

/-- The same without the answer. -/
inductive Visit where
  | asks (now : ℕ)
  | sweeps (now : ℕ)
deriving DecidableEq

def Touch.visit : Touch → Visit
  | .asked now _ => .asks now
  | .swept now => .sweeps now

def Touch.instant : Touch → ℕ
  | .asked now _ => now
  | .swept now => now

def Touch.isAllowed : Touch → Bool
  | .asked _ answer => answer.isAllowed
  | .swept _ => false

namespace Step

/-- What the step is to the client. -/
def touch? (client : String) (step : Step) : Option Touch :=
  match step.call, step.outcome with
  | .request other, .answered admission =>
      if other = client then some (.asked step.before.now admission) else none
  | .sweep, _ => some (.swept step.before.now)
  | _, _ => none

/-- The step refills a bucket of the client: it is its own request, or a
sweep that finds the client tracked. -/
def refills (client : String) (step : Step) : Bool :=
  match step.call with
  | .request other => other = client
  | .sweep => step.before.registry.contains client
  | .wait _ => false

end Step

/-- A call is a request of the client or of somebody else, a sweep, or a
wait: the cases of every lemma about one client's view. -/
@[elab_as_elim]
theorem Call.cases_for (client : String) {motive : Call → Prop} (call : Call)
    (own : motive (.request client))
    (other : ∀ other, other ≠ client → motive (.request other))
    (sweep : motive .sweep) (wait : ∀ nanos, motive (.wait nanos)) :
    motive call := by
  cases call with
  | request asking =>
      by_cases hown : asking = client
      · subst hown
        exact own
      · exact other asking hown
  | sweep => exact sweep
  | wait nanos => exact wait nanos

/-- The requests of the client, with their answers, and all sweeps. -/
def touches (client : String) (steps : List Step) : List Touch :=
  steps.filterMap (Step.touch? client)

def refillCount (client : String) (steps : List Step) : ℕ :=
  steps.countP (Step.refills client)

def allowedCount (client : String) (steps : List Step) : ℕ :=
  (touches client steps).countP Touch.isAllowed

/-- The requests of the client, and all sweeps, in a run from the instant
`now`. -/
def visits (client : String) (now : ℕ) : List Call → List Visit
  | [] => []
  | .request other :: rest =>
      if other = client then .asks now :: visits client now rest
      else visits client now rest
  | .sweep :: rest => .sweeps now :: visits client now rest
  | .wait nanos :: rest => visits client (now + nanos) rest

-- ==================================================== call by call

section
variable (rest : List Call)

theorem touches_cons (call : Call) :
    touches client (state.history (call :: rest))
      = touches client (state.history [call])
        ++ touches client ((state.perform call).2.history rest) := by
  rw [show call :: rest = [call] ++ rest from rfl, history_append]
  exact List.filterMap_append

theorem refillCount_cons (call : Call) :
    refillCount client (state.history (call :: rest))
      = refillCount client (state.history [call])
        + refillCount client ((state.perform call).2.history rest) := by
  rw [show call :: rest = [call] ++ rest from rfl, history_append]
  exact List.countP_append

theorem allowedCount_cons (call : Call) :
    allowedCount client (state.history (call :: rest))
      = allowedCount client (state.history [call])
        + allowedCount client ((state.perform call).2.history rest) := by
  unfold allowedCount
  rw [touches_cons, List.countP_append]

theorem touches_own :
    touches client (state.history (.request client :: rest))
      = .asked state.now (state.registry.request state.now client).1
        :: touches client ((state.perform (.request client)).2.history rest) := by
  simp [touches, history_cons, Step.touch?, Timed.perform]

theorem touches_other {other : String} (hother : other ≠ client) :
    touches client (state.history (.request other :: rest))
      = touches client ((state.perform (.request other)).2.history rest) := by
  simp [touches, history_cons, Step.touch?, Timed.perform, hother]

theorem touches_sweep :
    touches client (state.history (.sweep :: rest))
      = .swept state.now
        :: touches client ((state.perform .sweep).2.history rest) := rfl

theorem refillCount_own :
    refillCount client (state.history (.request client :: rest))
      = refillCount client ((state.perform (.request client)).2.history rest)
        + 1 := by
  simp [refillCount, history_cons, Step.refills]

theorem refillCount_other {other : String} (hother : other ≠ client) :
    refillCount client (state.history (.request other :: rest))
      = refillCount client
          ((state.perform (.request other)).2.history rest) := by
  simp [refillCount, history_cons, Step.refills, hother]

theorem refillCount_sweep :
    refillCount client (state.history (.sweep :: rest))
      = refillCount client ((state.perform .sweep).2.history rest)
        + if state.registry.contains client then 1 else 0 := by
  rw [refillCount, history_cons, List.countP_cons]
  rfl

theorem refillCount_wait (nanos : ℕ) :
    refillCount client (state.history (.wait nanos :: rest))
      = refillCount client
          ((state.perform (.wait nanos)).2.history rest) := by
  simp [refillCount, history_cons, Step.refills]

theorem visits_own (now : ℕ) :
    visits client now (.request client :: rest)
      = .asks now :: visits client now rest := by
  simp [visits]

theorem visits_other {other : String} (hother : other ≠ client) (now : ℕ) :
    visits client now (.request other :: rest) = visits client now rest := by
  simp [visits, hother]

end

-- ==================================================== the list of touches

/-- The instants of the touches never go back. -/
theorem touches_ordered (client : String) (calls : List Call) :
    ∀ state : Timed, (state.now
      :: (touches client (state.history calls)).map Touch.instant).IsChain
        (· ≤ ·) := by
  induction calls with
  | nil =>
      intro state
      exact .singleton _
  | cons call rest ih =>
      intro state
      have hrest := ih (state.perform call).2
      have hlater := now_le_perform state call
      cases call using Call.cases_for client with
      | own =>
          rw [touches_own]
          exact List.isChain_cons_cons.mpr ⟨le_rfl, hrest⟩
      | other other hother =>
          rw [touches_other rest hother]
          exact hrest
      | sweep => exact List.isChain_cons_cons.mpr ⟨le_rfl, hrest⟩
      | wait nanos => exact hrest.imp_head hlater.trans

/-- Every request in the view is one of the run. -/
theorem touches_split {late : List Touch} {now : ℕ} {answer : Admission}
    (calls : List Call) :
    ∀ {state : Timed} {early : List Touch},
      touches client (state.history calls) = early ++ .asked now answer :: late →
      ∃ before after, calls = before ++ .request client :: after
        ∧ touches client (state.history before) = early
        ∧ (state.run before).2.now = now
        ∧ ((state.run before).2.registry.request now client).1 = answer := by
  induction calls with
  | nil =>
      intro state early htouches
      cases early <;> cases htouches
  | cons call rest ih =>
      intro state early htouches
      have hrest : ∀ {early : List Touch},
          touches client ((state.perform call).2.history rest)
            = early ++ .asked now answer :: late →
          ∃ before after, call :: rest = before ++ .request client :: after
            ∧ touches client (state.history before)
              = touches client (state.history [call]) ++ early
            ∧ (state.run before).2.now = now
            ∧ ((state.run before).2.registry.request now client).1 = answer := by
        intro early hearly
        obtain ⟨before, after, rfl, rfl, hnow, hanswer⟩ := ih hearly
        exact ⟨call :: before, after, rfl, touches_cons before call, hnow, hanswer⟩
      cases call using Call.cases_for client with
      | own =>
          rw [touches_own] at htouches
          cases early with
          | nil =>
              -- the request is this very call
              injection htouches with hfirst hlate
              injection hfirst with hnow hanswer
              subst hnow
              exact ⟨[], rest, rfl, rfl, rfl, hanswer⟩
          | cons touch early =>
              injection htouches with hfirst hlate
              have hmore := hrest hlate
              rw [touches_own] at hmore
              rw [← hfirst]
              exact hmore
      | other other hother =>
          rw [touches_other rest hother] at htouches
          have hmore := hrest htouches
          rw [touches_other _ hother] at hmore
          exact hmore
      | sweep =>
          cases early with
          | nil => cases htouches
          | cons touch early =>
              injection htouches with hfirst hlate
              rw [← hfirst]
              exact hrest hlate
      | wait nanos => exact hrest htouches

/-- Every refill is at a touch. -/
theorem refillCount_le_length (client : String) (calls : List Call) :
    ∀ state : Timed, refillCount client (state.history calls)
      ≤ (touches client (state.history calls)).length := by
  induction calls with
  | nil =>
      intro state
      exact Nat.le_refl _
  | cons call rest ih =>
      intro state
      have hrest := ih (state.perform call).2
      cases call using Call.cases_for client with
      | own =>
          rw [touches_own, refillCount_own]
          exact Nat.succ_le_succ hrest
      | other other hother =>
          rw [touches_other rest hother, refillCount_other rest hother]
          exact hrest
      | sweep =>
          rw [touches_sweep, refillCount_sweep, List.length_cons]
          split <;> omega
      | wait nanos =>
          rw [refillCount_wait]
          exact hrest

/-- What a client contributes to a run is read off the calls. -/
theorem touches_visits (client : String) (calls : List Call) :
    ∀ state : Timed, (touches client (state.history calls)).map Touch.visit
      = visits client state.now calls := by
  induction calls with
  | nil =>
      intro state
      rfl
  | cons call rest ih =>
      intro state
      have hrest := ih (state.perform call).2
      cases call using Call.cases_for client with
      | own =>
          rw [touches_own, visits_own]
          exact congrArg (List.cons _) hrest
      | other other hother =>
          rw [touches_other rest hother, visits_other rest hother]
          exact hrest
      | sweep => exact congrArg (List.cons _) hrest
      | wait nanos => exact hrest

end Turnstile.Registry
