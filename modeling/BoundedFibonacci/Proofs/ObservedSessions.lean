import BoundedFibonacci.Proofs.ErrorDomain

namespace BoundedFibonacci

variable {w : Width} {σ τ : Type}

namespace Observer

theorem feed_append (obs : Observer w σ) (s : σ) (steps more : List (Step w)) :
    obs.feed s (steps ++ more) = obs.feed (obs.feed s steps) more := List.foldl_append

theorem feed_chain (a : Observer w σ) (b : Observer w τ) (s : σ × τ) (steps : List (Step w)) :
    (a.chain b).feed s steps = (a.feed s.1 steps, b.feed s.2 steps) := by
  induction steps generalizing s with
  | nil => rfl
  | cons step steps ih =>
    rw [feed_cons, ih]
    rfl

end Observer

namespace Settings

theorem computeWith_result_eq (c : Settings) (obs : Observer w σ) (s : σ) (n : Int64) :
    (c.computeWith obs s n).result = (c.compute w n).result := by
  by_cases h : c.Admits n
  · rw [compute, c.computeWith_result obs s h, c.computeWith_result .silent () h]
  · rw [c.computeWith_eq_of_not_admits obs s h]

theorem delivered_of_overflow (c : Settings) {n : Int64} {i : ℕ} {v : Width}
    (h : (c.compute w n).result = .error (.overflow i v)) :
    (c.delivered w n).map Step.reading =
      (List.range' 2 (w.lastExact - 1)).map fun i => (i, (Nat.fib (i - 1) : ℤ), (Nat.fib i : ℤ)) := by
  obtain ⟨-, _, hrefused⟩ | ⟨hn, hc, hlt, -⟩ := (c.computeWith_outcome .silent () n).error_cases h
  · cases hrefused
  · have hlast : c.overflow.lastPlace w n.toInt.toNat = w.lastExact := by
      rw [hc]
      exact min_eq_right hlt.le
    rw [c.delivered_reading w hn, hlast, hc]
    rfl

end Settings

inductive Audience where
  | nobody
  | first
  | second
  | both
  deriving DecidableEq

namespace Audience

def hasFirst : Audience → Bool
  | .first | .both => true
  | .nobody | .second => false

def hasSecond : Audience → Bool
  | .second | .both => true
  | .nobody | .first => false

end Audience

structure Call where
  settings : Settings
  index : Int64
  audience : Audience

namespace Call

def run (call : Call) (a : Observer w σ) (b : Observer w τ) (s : σ × τ) : Run w (σ × τ) :=
  match call.audience with
  | .nobody =>
    let r := call.settings.compute w call.index
    ⟨r.result, s, r.log⟩
  | .first =>
    let r := call.settings.computeWith a s.1 call.index
    ⟨r.result, (r.state, s.2), r.log⟩
  | .second =>
    let r := call.settings.computeWith b s.2 call.index
    ⟨r.result, (s.1, r.state), r.log⟩
  | .both => call.settings.computeWith (a.chain b) s call.index

def answer (w : Width) (call : Call) : Except Error (Word w) := (call.settings.compute w call.index).result

def steps (w : Width) (call : Call) : List (Step w) := call.settings.delivered w call.index

theorem run_result (call : Call) (a : Observer w σ) (b : Observer w τ) (s : σ × τ) :
    (call.run a b s).result = call.answer w := by
  unfold run answer
  cases call.audience with
  | nobody => rfl
  | first => exact Settings.computeWith_result_eq _ _ _ _
  | second => exact Settings.computeWith_result_eq _ _ _ _
  | both => exact Settings.computeWith_result_eq _ _ _ _

def shown (w : Width) (follows : Audience → Bool) (call : Call) : List (Step w) :=
  if follows call.audience then call.steps w else []

theorem run_state (call : Call) (a : Observer w σ) (b : Observer w τ) (s : σ × τ) :
    (call.run a b s).state =
      (a.feed s.1 (call.shown w Audience.hasFirst), b.feed s.2 (call.shown w Audience.hasSecond)) := by
  unfold run shown steps
  cases call.audience with
  | nobody => rfl
  | first => simp [Settings.computeWith_state_eq_feed, Audience.hasFirst, Audience.hasSecond]
  | second => simp [Settings.computeWith_state_eq_feed, Audience.hasFirst, Audience.hasSecond]
  | both => simp [Settings.computeWith_state_eq_feed, Observer.feed_chain, Audience.hasFirst, Audience.hasSecond]

end Call

def session (a : Observer w σ) (b : Observer w τ) : List Call → σ × τ → List (Except Error (Word w)) × σ × τ
  | [], s => ([], s)
  | call :: calls, s =>
    let r := call.run a b s
    let rest := session a b calls r.state
    (r.result :: rest.1, rest.2)

def shownSteps (w : Width) (follows : Audience → Bool) (calls : List Call) : List (Step w) :=
  (calls.filter fun call => follows call.audience).flatMap (Call.steps w)

theorem shownSteps_cons (follows : Audience → Bool) (call : Call) (calls : List Call) :
    shownSteps w follows (call :: calls) = call.shown w follows ++ shownSteps w follows calls := by
  unfold shownSteps Call.shown
  cases hc : follows call.audience <;> simp [hc]

theorem session_results (a : Observer w σ) (b : Observer w τ) (calls : List Call) (s : σ × τ) :
    (session a b calls s).1 = calls.map (Call.answer w) := by
  induction calls generalizing s with
  | nil => rfl
  | cons call calls ih => rw [session, ih, call.run_result, List.map_cons]

-- The induction is on the calls, with the states free: each call hands its own states to the calls after it.
theorem session_state (a : Observer w σ) (b : Observer w τ) (calls : List Call) (s : σ × τ) :
    (session a b calls s).2 =
      (a.feed s.1 (shownSteps w Audience.hasFirst calls), b.feed s.2 (shownSteps w Audience.hasSecond calls)) := by
  induction calls generalizing s with
  | nil => rfl
  | cons call calls ih =>
    rw [session, ih, call.run_state, shownSteps_cons, shownSteps_cons, Observer.feed_append, Observer.feed_append]

inductive Nest (w : Width) : Type → Type 1
  | single {σ : Type} (obs : Observer w σ) : Nest w σ
  | chain {σ τ : Type} (first : Nest w σ) (second : Nest w τ) : Nest w (σ × τ)

structure Watcher (w : Width) where
  State : Type
  observer : Observer w State
  state : State

namespace Watcher

def after (steps : List (Step w)) (x : Watcher w) : Watcher w :=
  { x with state := x.observer.feed x.state steps }

def events (step : Step w) (x : Watcher w) : List Event := (x.observer.onStep x.state step).2

end Watcher

namespace Nest

def observer {σ : Type} : Nest w σ → Observer w σ
  | .single obs => obs
  | .chain first second => first.observer.chain second.observer

def watchers {σ : Type} : Nest w σ → σ → List (Watcher w)
  | .single obs, s => [⟨_, obs, s⟩]
  | .chain first second, s => first.watchers s.1 ++ second.watchers s.2

theorem watchers_feed (nest : Nest w σ) (s : σ) (steps : List (Step w)) :
    nest.watchers (nest.observer.feed s steps) = (nest.watchers s).map (Watcher.after steps) := by
  induction nest with
  | single obs => rfl
  | chain first second ihfirst ihsecond =>
    rw [observer, Observer.feed_chain, watchers, watchers, ihfirst, ihsecond, List.map_append]

theorem events_onStep (nest : Nest w σ) (s : σ) (step : Step w) :
    (nest.observer.onStep s step).2 = (nest.watchers s).flatMap (Watcher.events step) := by
  induction nest with
  | single obs => simp [observer, watchers, Watcher.events]
  | chain first second ihfirst ihsecond =>
    rw [watchers, List.flatMap_append, ← ihfirst, ← ihsecond]
    rfl

theorem watchers_onStep (nest : Nest w σ) (s : σ) (step : Step w) :
    nest.watchers (nest.observer.onStep s step).1 = (nest.watchers s).map (Watcher.after [step]) :=
  nest.watchers_feed s [step]

variable {m : Nest w σ} {n : Nest w τ} {s : σ} {t : τ}

theorem transcript_congr (c : Settings) (h : m.watchers s = n.watchers t) (steps : List (Step w)) :
    c.transcript m.observer s steps = c.transcript n.observer t steps := by
  -- Each step leaves the two nestings with the same watchers, in whatever pairs their states are held.
  induction steps generalizing s t with
  | nil => rfl
  | cons step steps ih =>
    have hnext : m.watchers (m.observer.onStep s step).1 = n.watchers (n.observer.onStep t step).1 := by
      rw [watchers_onStep, watchers_onStep, h]
    rw [Settings.transcript, Settings.transcript, events_onStep, events_onStep, h, ih hnext]

theorem computeWith_congr (c : Settings) (h : m.watchers s = n.watchers t) (i : Int64) :
    (c.computeWith m.observer s i).result = (c.computeWith n.observer t i).result ∧
    (c.computeWith m.observer s i).log = (c.computeWith n.observer t i).log ∧
    m.watchers (c.computeWith m.observer s i).state = n.watchers (c.computeWith n.observer t i).state := by
  refine ⟨?_, ?_, ?_⟩
  · rw [c.computeWith_result_eq, c.computeWith_result_eq]
  · by_cases ha : c.Admits i
    · rw [c.computeWith_log _ _ ha, c.computeWith_log _ _ ha, transcript_congr c h]
    · rw [c.computeWith_eq_of_not_admits _ _ ha, c.computeWith_eq_of_not_admits _ _ ha]
  · rw [c.computeWith_state_eq_feed, c.computeWith_state_eq_feed, watchers_feed, watchers_feed, h]

end Nest

theorem session_exact (a : Observer w σ) (b : Observer w τ) (calls : List Call) (s : σ) (t : τ) :
    (session a b calls (s, t)).1 = calls.map (fun call => (call.settings.compute w call.index).result) ∧
    (session a b calls (s, t)).2 =
      (a.feed s (shownSteps w Audience.hasFirst calls), b.feed t (shownSteps w Audience.hasSecond calls)) ∧
    (∀ kept kept' : Array (Step w),
      (session Observer.recorder Observer.recorder calls (kept, kept')).2 =
        (kept ++ (shownSteps w Audience.hasFirst calls).toArray,
          kept' ++ (shownSteps w Audience.hasSecond calls).toArray)) ∧
    (∀ call ∈ calls, ∀ i v, (call.settings.compute w call.index).result = .error (.overflow i v) →
      (call.steps w).map Step.reading =
        (List.range' 2 (w.lastExact - 1)).map fun i => (i, (Nat.fib (i - 1) : ℤ), (Nat.fib i : ℤ))) ∧
    (∀ (ρ υ : Type) (m : Nest w ρ) (n : Nest w υ) (r : ρ) (u : υ),
      m.watchers (session m.observer n.observer calls (r, u)).2.1 =
          (m.watchers r).map (Watcher.after (shownSteps w Audience.hasFirst calls)) ∧
        n.watchers (session m.observer n.observer calls (r, u)).2.2 =
          (n.watchers u).map (Watcher.after (shownSteps w Audience.hasSecond calls))) ∧
    (∀ (ρ υ : Type) (m : Nest w ρ) (n : Nest w υ) (r : ρ) (u : υ), m.watchers r = n.watchers u →
      ∀ (c : Settings) (i : Int64),
        (c.computeWith m.observer r i).result = (c.computeWith n.observer u i).result ∧
        (c.computeWith m.observer r i).log = (c.computeWith n.observer u i).log ∧
        m.watchers (c.computeWith m.observer r i).state = n.watchers (c.computeWith n.observer u i).state) := by
  refine ⟨session_results a b calls (s, t), session_state a b calls (s, t), ?_, ?_, ?_, ?_⟩
  · intro kept kept'
    rw [session_state, Observer.feed_recorder, Observer.feed_recorder]
  · intro call _ i v hover
    exact call.settings.delivered_of_overflow hover
  · intro ρ υ m n r u
    rw [session_state]
    exact ⟨m.watchers_feed r _, n.watchers_feed u _⟩
  · intro ρ υ m n r u h c i
    exact Nest.computeWith_congr c h i

def fourCalls : List Call :=
  [⟨{}, 14, .both⟩, ⟨{ overflow := .saturating }, 5, .first⟩, ⟨{}, -1, .both⟩, ⟨{ maxIndex := some 6 }, 6, .second⟩]

theorem session_fourCalls :
    (session (w := .u8) Observer.counter Observer.counter fourCalls (7, 0)).1 =
        [.error (.overflow 14 .u8), .ok (.ofInt .u8 5), .error (.negativeIndex (-1)), .ok (.ofInt .u8 8)] ∧
      (session (w := .u8) Observer.counter Observer.counter fourCalls (7, 0)).2 = (7 + 12 + 4, 12 + 5) ∧
      ((Call.mk {} 14 .both).steps .u8).map Step.reading =
        (List.range' 2 12).map fun i => (i, (Nat.fib (i - 1) : ℤ), (Nat.fib i : ℤ)) := by
  obtain ⟨hresults, hstates, -, hfailed, -⟩ :=
    session_exact (w := .u8) Observer.counter Observer.counter fourCalls 7 0
  have hlast : Width.lastExact .u8 = 13 := by decide +kernel
  refine ⟨hresults.trans rfl, hstates.trans (by decide +kernel), ?_⟩
  have hsteps := hfailed ⟨{}, 14, .both⟩ (by simp [fourCalls]) 14 .u8 rfl
  rwa [hlast] at hsteps

end BoundedFibonacci
