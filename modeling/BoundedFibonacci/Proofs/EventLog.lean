import BoundedFibonacci.Proofs.DeliveredSteps

namespace BoundedFibonacci

variable {w : Width} {σ : Type}

structure LogLine where
  level : Level
  target : String
  message : String
  fields : List (String × String)
  deriving DecidableEq

def Event.line (e : Event) : LogLine := ⟨e.level, e.target, e.message, e.fields⟩

namespace LogLine

def started (n : Int64) (w : Width) (policy : OverflowPolicy) : LogLine :=
  ⟨.debug, "fib_core::compute::computer", "computing fibonacci",
    [("index", toString n.toInt), ("width", w.name), ("overflow", Choice.word policy)]⟩

def stepLevel : Priority → Level
  | .low => .trace
  | .normal => .debug
  | .high => .info

def ofStep (priority : Priority) (step : Step w) : LogLine :=
  ⟨stepLevel priority, "fibcalc::step", "fibonacci step",
    [("index", toString step.index), ("prev", toString step.prev.toInt), ("curr", toString step.curr.toInt)]⟩

def overflowed (index place : ℕ) (w : Width) : LogLine :=
  ⟨.warn, "fib_core::compute::computer", "fibonacci value overflowed",
    [("index", toString index), ("step", toString place), ("width", w.name)]⟩

def saturated (index place : ℕ) : LogLine :=
  ⟨.debug, "fib_core::compute::computer", "saturated, stopping early",
    [("index", toString index), ("step", toString place)]⟩

end LogLine

namespace Observer

def Quiet (obs : Observer w σ) : Prop := ∀ s step, (obs.onStep s step).2 = []

end Observer

namespace Settings

def Saturates (c : Settings) (w : Width) (n : Int64) : Prop :=
  c.overflow = .saturating ∧ c.Admits n ∧ ∃ i : ℕ, 2 ≤ i ∧ i ≤ n.toInt ∧ w.greatest ≤ Nat.fib i

/-- The lines that close a log, for a computation that ended with the given result. No two of the cases meet. -/
inductive Closing (c : Settings) (n : Int64) (result : Except Error (Word w)) : List LogLine → Prop
  | overflowed (place : ℕ) (hresult : result = .error (.overflow n.toInt.toNat w)) (hopen : ¬ c.Saturates w n)
      (hplace : IsLeast {i : ℕ | w.greatest < Nat.fib i} place) :
      Closing c n result [.overflowed n.toInt.toNat place w]
  | saturated (place : ℕ) (hresult : ∀ i v, result ≠ .error (.overflow i v)) (hfull : c.Saturates w n)
      (hplace : IsLeast {i : ℕ | 2 ≤ i ∧ i ≤ n.toInt ∧ w.greatest ≤ Nat.fib i} place) :
      Closing c n result [.saturated n.toInt.toNat place]
  | silent (hresult : ∀ i v, result ≠ .error (.overflow i v)) (hopen : ¬ c.Saturates w n) : Closing c n result []

theorem computeWith_of_not_admits (c : Settings) (w : Width) {n : Int64} (h : ¬ c.Admits n) :
    ∃ r : Except Error (Word w), (∀ i v, r ≠ .error (.overflow i v)) ∧
      ∀ (t : Trace) (σ : Type) (obs : Observer w σ) (s : σ),
        ({ c with trace := t } : Settings).computeWith obs s n = ⟨r, s, [.started n.toInt w c.overflow]⟩ := by
  rcases c.not_admits_cases h with hn | ⟨hn, bound, hb, hlt⟩
  · refine ⟨c.negative.answer w n, ?_, fun t σ obs s => computeWith_of_negative { c with trace := t } obs s hn⟩
    intro i v
    unfold NegativePolicy.answer
    cases c.negative with
    | reject => simp [Error.negativeIndex]
    | passThrough => cases Word.ofIndex? w n <;> simp [Error.notRepresentable]
  · refine ⟨.error (.exceedsMaxIndex n.toInt bound), by simp [Error.exceedsMaxIndex], ?_⟩
    intro t σ obs s
    exact computeWith_of_exceeds { c with trace := t } obs s hn hb hlt

theorem computeWith_eq_of_not_admits (c : Settings) (obs : Observer w σ) (s : σ) {n : Int64} (h : ¬ c.Admits n) :
    c.computeWith obs s n = ⟨(c.compute w n).result, s, [.started n.toInt w c.overflow]⟩ := by
  obtain ⟨r, -, hrun⟩ := c.computeWith_of_not_admits w h
  have hobs : c.computeWith obs s n = _ := hrun c.trace σ obs s
  have hsilent : c.compute w n = _ := hrun c.trace Unit .silent ()
  rw [hobs, hsilent]

theorem computeWith_log (c : Settings) (obs : Observer w σ) (s : σ) {n : Int64} (h : c.Admits n) :
    (c.computeWith obs s n).log =
      .started n.toInt w c.overflow :: (c.transcript obs s (c.delivered w n) ++
        (c.overflow.ending w n.toInt.toNat).events n.toInt.toNat w) := by
  rw [c.computeWith_eq_replay obs s h, c.courseTo_eq, c.delivered_of_admits w h]
  simp [replay]

theorem transcript_of_quiet (c : Settings) {obs : Observer w σ} (hq : obs.Quiet) (s : σ) (steps : List (Step w)) :
    (c.transcript obs s steps).map Event.line =
      if c.trace.enabled then steps.map (.ofStep c.trace.priority) else [] := by
  induction steps generalizing s with
  | nil => simp
  | cons step steps ih =>
    rw [transcript, List.map_append, ih, hq, stepEvents]
    cases hc : c.trace.enabled with
    | false => simp
    | true =>
      simp only [if_true, Observer.events_tracer, List.nil_append, List.map_cons, List.map_nil, List.cons_append,
        List.cons.injEq, and_true]
      cases c.trace.priority <;> rfl

-- The filter also drops step events that an observer writes itself, and drops the same ones on both sides.
theorem transcript_untraced (c : Settings) (t : Trace) (obs : Observer w σ) (s : σ) (steps : List (Step w)) :
    (({ c with trace := t } : Settings).transcript obs s steps).filter (·.target ≠ Event.stepTarget) =
      (c.transcript obs s steps).filter (·.target ≠ Event.stepTarget) := by
  induction steps generalizing s with
  | nil => rfl
  | cons step steps ih =>
    have hstep : ∀ c : Settings, (c.stepEvents (obs.onStep s step).2 step).filter (·.target ≠ Event.stepTarget) =
        (obs.onStep s step).2.filter (·.target ≠ Event.stepTarget) := by
      intro c
      unfold stepEvents
      split <;> simp [Event.target]
    rw [transcript, transcript, List.filter_append, List.filter_append, ih, hstep, hstep]

theorem closing_ending (c : Settings) (w : Width) {n : Int64} (h : c.Admits n) (last : Word w) :
    c.Closing n ((c.overflow.ending w n.toInt.toNat).result n.toInt.toNat last)
      (((c.overflow.ending w n.toInt.toNat).events n.toInt.toNat w).map Event.line) := by
  have hn := h.1
  cases hc : c.overflow with
  | error =>
    have hopen : ¬ c.Saturates w n := by simp [Saturates, hc]
    by_cases hfit : n.toInt.toNat ≤ w.lastExact
    · rw [OverflowPolicy.ending, if_pos hfit]
      exact .silent (by simp) hopen
    · rw [OverflowPolicy.ending, if_neg hfit]
      exact .overflowed _ rfl hopen w.lastExact_succ_isLeast
  | wrapping => exact .silent (by simp [OverflowPolicy.ending]) (by simp [Saturates, hc])
  | saturating =>
    by_cases hlt : n.toInt.toNat < w.firstFull
    · rw [OverflowPolicy.ending, if_pos hlt]
      refine .silent (by simp) ?_
      rintro ⟨-, -, i, -, hi, hfull⟩
      have hle := (w.greatest_le_fib_iff i).mp hfull
      omega
    · have hfull := (w.greatest_le_fib_iff w.firstFull).mpr le_rfl
      have htwo : 2 ≤ w.firstFull := w.one_lt_firstFull
      rw [OverflowPolicy.ending, if_neg hlt]
      refine .saturated _ (by simp) ⟨hc, h, w.firstFull, htwo, by omega, hfull⟩ ⟨⟨htwo, by omega, hfull⟩, ?_⟩
      rintro i ⟨-, -, hi⟩
      exact (w.greatest_le_fib_iff i).mp hi

theorem computeWith_log_of_quiet (c : Settings) {obs : Observer w σ} (hq : obs.Quiet) (s : σ) (n : Int64) :
    ∃ closing, c.Closing n (c.computeWith obs s n).result closing ∧
      (c.computeWith obs s n).log.map Event.line =
        .started n w c.overflow ::
          ((if c.trace.enabled then (c.delivered w n).map (.ofStep c.trace.priority) else []) ++ closing) := by
  by_cases h : c.Admits n
  · refine ⟨((c.overflow.ending w n.toInt.toNat).events n.toInt.toNat w).map Event.line, ?_, ?_⟩
    · rw [c.computeWith_result obs s h]
      exact c.closing_ending w h _
    · rw [c.computeWith_log obs s h, List.map_cons, List.map_append, c.transcript_of_quiet hq]
      rfl
  · obtain ⟨r, hr, hrun⟩ := c.computeWith_of_not_admits w h
    have hc : c.computeWith obs s n = _ := hrun c.trace σ obs s
    refine ⟨[], ?_, ?_⟩
    · rw [hc]
      apply Closing.silent hr
      rintro ⟨-, hadmits, -⟩
      exact h hadmits
    · rw [hc, c.delivered_of_not_admits w h]
      simp only [List.map_nil, ite_self, List.append_nil]
      rfl

theorem computeWith_retraced (c : Settings) (t : Trace) (obs : Observer w σ) (s : σ) (n : Int64) :
    (({ c with trace := t } : Settings).computeWith obs s n).result = (c.computeWith obs s n).result ∧
    (({ c with trace := t } : Settings).computeWith obs s n).state = (c.computeWith obs s n).state ∧
    (({ c with trace := t } : Settings).computeWith obs s n).log.filter (·.target ≠ Event.stepTarget) =
      (c.computeWith obs s n).log.filter (·.target ≠ Event.stepTarget) := by
  by_cases h : c.Admits n
  · have ht : ({ c with trace := t } : Settings).Admits n := h
    refine ⟨?_, ?_, ?_⟩
    · rw [computeWith_result _ obs s ht, computeWith_result _ obs s h]
    · rw [computeWith_state _ obs s ht, computeWith_state _ obs s h]
    · have hsteps : ({ c with trace := t } : Settings).delivered w n = c.delivered w n := by
        rw [delivered_of_admits _ w ht, delivered_of_admits _ w h]
      rw [computeWith_log _ obs s ht, computeWith_log _ obs s h, hsteps]
      simp only [List.filter_cons, List.filter_append, transcript_untraced]
  · obtain ⟨r, -, hrun⟩ := c.computeWith_of_not_admits w h
    have hc : c.computeWith obs s n = _ := hrun c.trace σ obs s
    rw [hrun t σ obs s, hc]
    exact ⟨rfl, rfl, rfl⟩

theorem computeWith_log_exact (c : Settings) (obs : Observer w σ) (s : σ) (n : Int64) :
    (c.computeWith obs s n).state = obs.feed s (c.delivered w n) ∧
    (obs.Quiet → ∃ closing, c.Closing n (c.computeWith obs s n).result closing ∧
      (c.computeWith obs s n).log.map Event.line =
        .started n w c.overflow ::
          ((if c.trace.enabled then (c.delivered w n).map (.ofStep c.trace.priority) else []) ++ closing)) ∧
    ∀ t : Trace,
      (({ c with trace := t } : Settings).computeWith obs s n).result = (c.computeWith obs s n).result ∧
      (({ c with trace := t } : Settings).computeWith obs s n).state = (c.computeWith obs s n).state ∧
      ({ c with trace := t } : Settings).delivered w n = c.delivered w n ∧
      (({ c with trace := t } : Settings).computeWith obs s n).log.filter (·.target ≠ Event.stepTarget) =
        (c.computeWith obs s n).log.filter (·.target ≠ Event.stepTarget) := by
  refine ⟨c.computeWith_state_eq_feed obs s n, fun hq => c.computeWith_log_of_quiet hq s n, ?_⟩
  intro t
  obtain ⟨hresult, hstate, hlog⟩ := c.computeWith_retraced t obs s n
  obtain ⟨-, hkept, -⟩ := c.computeWith_retraced t (Observer.recorder (w := w)) #[] n
  exact ⟨hresult, hstate, congrArg Array.toList hkept, hlog⟩

theorem computeWith_log_past_i8 :
    (Observer.recorder (w := .i8)).Quiet ∧
      ∃ place, IsLeast {i : ℕ | Width.greatest .i8 < Nat.fib i} place ∧
        (({ trace := .active .high } : Settings).computeWith (w := .i8) .recorder #[] 200).log.map Event.line =
          .started 200 .i8 .error ::
            ((({ trace := .active .high } : Settings).delivered .i8 200).map (.ofStep .high) ++
              [.overflowed 200 place .i8]) := by
  have hq : (Observer.recorder (w := .i8)).Quiet := fun _ _ => rfl
  obtain ⟨-, hlines, -⟩ := computeWith_log_exact { trace := .active .high } (Observer.recorder (w := .i8)) #[] 200
  obtain ⟨closing, hclosing, hlog⟩ := hlines hq
  refine ⟨hq, ?_⟩
  cases hclosing with
  | overflowed place _ _ hplace => exact ⟨place, hplace, hlog⟩
  | saturated place hresult => exact absurd rfl (hresult 200 .i8)
  | silent hresult => exact absurd rfl (hresult 200 .i8)

end Settings

end BoundedFibonacci
