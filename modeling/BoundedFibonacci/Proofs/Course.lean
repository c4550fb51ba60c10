import BoundedFibonacci.Computation
import Mathlib.Data.Nat.Notation

/-!
The course of a computation is what remains of it without an observer and without a log: the steps, the value held at
the end, and the way it ended. Every computation of an admitted index replays its course to the observer.
-/

namespace BoundedFibonacci

inductive Ending where
  | finished
  | overflowed (place : ℕ)
  | saturated (place : ℕ)
  deriving DecidableEq

namespace Ending

@[simp]
def events (n : ℕ) (w : Width) : Ending → List Event
  | .finished => []
  | .overflowed place => [.overflowed n place w]
  | .saturated place => [.saturated n place]

@[simp]
def result {w : Width} (n : ℕ) (last : Word w) : Ending → Except Error (Word w)
  | .overflowed _ => .error (.overflow n w)
  | .finished | .saturated _ => .ok last

theorem eq_of_result_eq_ok {w : Width} {n : ℕ} {last r : Word w} {e : Ending} (h : e.result n last = .ok r) :
    r = last := by
  cases e with
  | finished => exact (Except.ok.inj h).symm
  | overflowed place => cases h
  | saturated place => exact (Except.ok.inj h).symm

end Ending

structure Course (w : Width) where
  steps : List (Step w)
  last : Word w
  ending : Ending

variable {w : Width} {σ : Type}

namespace Observer

def feed (obs : Observer w σ) (s : σ) (steps : List (Step w)) : σ :=
  steps.foldl (fun s step => (obs.onStep s step).1) s

@[simp]
theorem feed_nil (obs : Observer w σ) (s : σ) : obs.feed s [] = s := rfl

@[simp]
theorem feed_cons (obs : Observer w σ) (s : σ) (step : Step w) (steps : List (Step w)) :
    obs.feed s (step :: steps) = obs.feed (obs.onStep s step).1 steps := rfl

theorem feed_recorder (steps : List (Step w)) (kept : Array (Step w)) :
    recorder.feed kept steps = kept ++ steps.toArray := by
  induction steps generalizing kept with
  | nil => simp
  | cons step steps ih =>
    rw [feed_cons, ih]
    simp [recorder, ofFun]

end Observer

def NegativePolicy.answer (policy : NegativePolicy) (w : Width) (n : Int64) : Except Error (Word w) :=
  match policy with
  | .reject => .error (.negativeIndex n.toInt)
  | .passThrough => (Word.ofIndex? w n).elim (.error (.notRepresentable n.toInt w)) .ok

namespace Settings

@[simp]
def transcript (c : Settings) (obs : Observer w σ) : σ → List (Step w) → List Event
  | _, [] => []
  | s, step :: steps =>
    c.stepEvents (obs.onStep s step).2 step ++ c.transcript obs (obs.onStep s step).1 steps

def replay (c : Settings) (obs : Observer w σ) (n : ℕ) (s : σ) (log : List Event) (p : Course w) : Run w σ :=
  ⟨p.ending.result n p.last, obs.feed s p.steps, log ++ c.transcript obs s p.steps ++ p.ending.events n w⟩

def courseFrom (c : Settings) : (left index : ℕ) → (prev curr : Word w) → Course w
  | 0, _, _, curr => ⟨[], curr, .finished⟩
  | left + 1, index, prev, curr =>
    match c.overflow.add prev curr with
    | none => ⟨[], curr, .overflowed index⟩
    | some next =>
      if c.isSaturated next then ⟨[⟨index, curr, next⟩], next, .saturated index⟩
      else
        let rest := c.courseFrom left (index + 1) curr next
        ⟨⟨index, curr, next⟩ :: rest.steps, rest.last, rest.ending⟩

-- The loop keeps its log newest first and turns it around at the end; the transcript is in the order of the steps.
theorem advance_eq_replay (c : Settings) (obs : Observer w σ) (n left index : ℕ) (prev curr : Word w)
    (s : σ) (log : List Event) :
    c.advance obs n left index prev curr s log =
      c.replay obs n s log.reverse (c.courseFrom left index prev curr) := by
  induction left generalizing index prev curr s log with
  | zero => simp [advance, courseFrom, replay]
  | succ left ih =>
    cases hadd : c.overflow.add prev curr with
    | none => simp [advance, courseFrom, hadd, replay]
    | some next =>
      by_cases hsat : c.isSaturated next = true
      · simp [advance, courseFrom, hadd, hsat, replay]
      · simp only [advance, courseFrom, hadd, if_neg hsat, ih]
        simp [replay]

def Admits (c : Settings) (n : Int64) : Prop := 0 ≤ n.toInt ∧ ∀ bound ∈ c.maxIndex, n.toInt ≤ bound.toNat

instance (c : Settings) (n : Int64) : Decidable (c.Admits n) :=
  haveI := Option.decidableForallMem (p := fun bound : UInt64 => n.toInt ≤ bound.toNat) c.maxIndex
  instDecidableAnd

def courseTo (c : Settings) (w : Width) : ℕ → Course w
  | 0 => ⟨[], .zero, .finished⟩
  | k + 1 => c.courseFrom k 2 .zero .one

theorem accept_of_admits (c : Settings) (w : Width) {n : Int64} (h : c.Admits n) :
    c.accept w n = .ok (.place n.toInt.toNat) := by
  obtain ⟨hn, hb⟩ := h
  unfold accept
  rw [if_neg (by omega)]
  cases hc : c.maxIndex with
  | none => rfl
  | some bound =>
    have hle := hb bound (by simp [hc])
    simp only
    rw [if_neg (by omega)]

theorem computeWith_eq_replay (c : Settings) (obs : Observer w σ) (s : σ) {n : Int64} (h : c.Admits n) :
    c.computeWith obs s n =
      c.replay obs n.toInt.toNat s [.started n.toInt w c.overflow] (c.courseTo w n.toInt.toNat) := by
  unfold computeWith
  rw [c.accept_of_admits w h]
  cases n.toInt.toNat with
  | zero => simp [courseTo, replay]
  | succ k => exact c.advance_eq_replay obs (k + 1) k 2 .zero .one s _

theorem not_admits_cases (c : Settings) {n : Int64} (h : ¬ c.Admits n) :
    n.toInt < 0 ∨ 0 ≤ n.toInt ∧ ∃ bound ∈ c.maxIndex, bound.toNat < n.toInt := by
  by_cases hn : n.toInt < 0
  · exact .inl hn
  · refine .inr ⟨by omega, ?_⟩
    cases hc : c.maxIndex with
    | none => exact absurd ⟨by omega, by simp [hc]⟩ h
    | some bound =>
      refine ⟨bound, rfl, Int.not_le.mp ?_⟩
      intro hle
      exact h ⟨by omega, by simpa [hc] using hle⟩

theorem computeWith_of_exceeds (c : Settings) (obs : Observer w σ) (s : σ) {n : Int64} {bound : UInt64}
    (hn : 0 ≤ n.toInt) (hb : bound ∈ c.maxIndex) (hlt : bound.toNat < n.toInt) :
    c.computeWith obs s n =
      ⟨.error (.exceedsMaxIndex n.toInt bound), s, [.started n.toInt w c.overflow]⟩ := by
  have hc : c.maxIndex = some bound := hb
  have haccept : c.accept w n = .error (.exceedsMaxIndex n.toInt bound) := by
    unfold accept
    rw [if_neg (by omega), hc]
    exact if_pos (by omega)
  unfold computeWith
  rw [haccept]

theorem computeWith_of_negative (c : Settings) (obs : Observer w σ) (s : σ) {n : Int64} (hn : n.toInt < 0) :
    c.computeWith obs s n =
      ⟨c.negative.answer w n, s, [.started n.toInt w c.overflow]⟩ := by
  unfold computeWith accept NegativePolicy.answer
  rw [if_pos hn]
  cases c.negative with
  | reject => rfl
  | passThrough => cases Word.ofIndex? w n <;> rfl

theorem computeWith_state_of_negative (c : Settings) (obs : Observer w σ) (s : σ) {n : Int64} (hn : n.toInt < 0) :
    (c.computeWith obs s n).state = s := by
  rw [c.computeWith_of_negative obs s hn]

theorem computeWith_state_of_not_admits (c : Settings) (obs : Observer w σ) (s : σ) {n : Int64}
    (h : ¬ c.Admits n) : (c.computeWith obs s n).state = s := by
  rcases c.not_admits_cases h with hn | ⟨hn, bound, hb, hlt⟩
  · exact c.computeWith_state_of_negative obs s hn
  · rw [c.computeWith_of_exceeds obs s hn hb hlt]

end Settings

end BoundedFibonacci
