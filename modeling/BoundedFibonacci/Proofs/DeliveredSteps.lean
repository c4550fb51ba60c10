import BoundedFibonacci.Proofs.ClosedForm

namespace BoundedFibonacci

variable {w : Width} {σ : Type}

def Step.reading (s : Step w) : ℕ × ℤ × ℤ := (s.index, s.prev.toInt, s.curr.toInt)

namespace OverflowPolicy

theorem reading_stepAt (policy : OverflowPolicy) (w : Width) (i : ℕ) (h : policy = .error → i ≤ w.lastExact) :
    (policy.stepAt w i).reading = (i, policy.value w (i - 1), policy.value w i) := by
  have hprev : policy = .error → i - 1 ≤ w.lastExact := fun hc => (Nat.sub_le i 1).trans (h hc)
  simp only [Step.reading, stepAt, policy.toInt_word w i h, policy.toInt_word w (i - 1) hprev]

theorem lastPlace_le (policy : OverflowPolicy) (w : Width) (n : ℕ) : policy.lastPlace w n ≤ n := by
  cases policy with
  | error => exact min_le_left _ _
  | wrapping => exact le_rfl
  | saturating => exact min_le_left _ _

theorem two_le_lastPlace (policy : OverflowPolicy) (w : Width) {n : ℕ} (h : 2 ≤ n) : 2 ≤ policy.lastPlace w n := by
  cases policy with
  | error => exact le_min h w.two_le_lastExact
  | wrapping => exact h
  | saturating => exact le_min h w.one_lt_firstFull

end OverflowPolicy

namespace Settings

def delivered (c : Settings) (w : Width) (n : Int64) : List (Step w) :=
  (c.computeWith Observer.recorder #[] n).state.toList

theorem delivered_of_admits (c : Settings) (w : Width) {n : Int64} (h : c.Admits n) :
    c.delivered w n =
      (List.range' 2 (c.overflow.lastPlace w n.toInt.toNat - 1)).map (c.overflow.stepAt w) := by
  rw [delivered, c.computeWith_state _ _ h, Observer.feed_recorder]
  simp

theorem delivered_of_not_admits (c : Settings) (w : Width) {n : Int64} (h : ¬ c.Admits n) : c.delivered w n = [] := by
  rw [delivered, c.computeWith_state_of_not_admits _ _ h]

theorem computeWith_state_eq_feed (c : Settings) (obs : Observer w σ) (s : σ) (n : Int64) :
    (c.computeWith obs s n).state = obs.feed s (c.delivered w n) := by
  by_cases h : c.Admits n
  · rw [c.computeWith_state obs s h, c.delivered_of_admits w h]
  · rw [c.computeWith_state_of_not_admits obs s h, c.delivered_of_not_admits w h]
    rfl

theorem delivered_of_lt_two (c : Settings) (w : Width) {n : Int64} (h : n.toInt < 2) : c.delivered w n = [] := by
  by_cases ha : c.Admits n
  · have hle := c.overflow.lastPlace_le w n.toInt.toNat
    have hzero : c.overflow.lastPlace w n.toInt.toNat - 1 = 0 := by omega
    rw [c.delivered_of_admits w ha, hzero]
    rfl
  · exact c.delivered_of_not_admits w ha

theorem delivered_reading (c : Settings) (w : Width) {n : Int64} (h : c.Admits n) :
    (c.delivered w n).map Step.reading =
      (List.range' 2 (c.overflow.lastPlace w n.toInt.toNat - 1)).map fun i =>
        (i, c.overflow.value w (i - 1), c.overflow.value w i) := by
  rw [c.delivered_of_admits w h, List.map_map]
  apply List.map_congr_left
  intro i hi
  apply c.overflow.reading_stepAt w i
  intro hc
  rw [List.mem_range'_1] at hi
  simp only [hc, OverflowPolicy.lastPlace] at hi
  omega

theorem delivered_length (c : Settings) (w : Width) (n : Int64) :
    (c.delivered w n).length ≤ c.overflow.lastPlace w n.toInt.toNat - 1 := by
  by_cases h : c.Admits n
  · rw [c.delivered_of_admits w h]
    simp
  · rw [c.delivered_of_not_admits w h]
    simp

theorem delivered_last (c : Settings) (obs : Observer w σ) (s : σ) {n : Int64} {r : Word w} (hn : 2 ≤ n.toInt)
    (hr : (c.computeWith obs s n).result = .ok r) : (c.delivered w n).getLast?.map Step.curr = some r := by
  by_cases h : c.Admits n
  · have htwo := c.overflow.two_le_lastPlace w (show 2 ≤ n.toInt.toNat by omega)
    rw [c.computeWith_result obs s h] at hr
    obtain ⟨j, hj⟩ := Nat.exists_eq_add_of_le' htwo
    have hcount : j + 2 - 1 = j + 1 := by omega
    rw [Ending.eq_of_result_eq_ok hr, c.delivered_of_admits w h, hj, hcount, List.range'_concat]
    simp [OverflowPolicy.stepAt, Nat.add_comm]
  · rcases c.not_admits_cases h with hneg | ⟨hpos, bound, hb, hlt⟩
    · omega
    · rw [c.computeWith_of_exceeds obs s hpos hb hlt] at hr
      cases hr

theorem delivered_exact (w : Width) :
    IsGreatest {i : ℕ | (Nat.fib i : ℤ) ≤ w.greatest} w.lastExact ∧
      IsLeast {i : ℕ | w.greatest ≤ Nat.fib i} w.firstFull ∧
      ∀ (c : Settings) (n : Int64),
        (∀ (σ : Type) (obs : Observer w σ) (s : σ),
          (c.computeWith obs s n).state = obs.feed s (c.delivered w n)) ∧
        (n.toInt < 2 ∨ (∃ bound ∈ c.maxIndex, bound.toNat < n.toInt) → c.delivered w n = []) ∧
        (2 ≤ n.toInt → (∀ bound ∈ c.maxIndex, n.toInt ≤ bound.toNat) →
          (c.delivered w n).map Step.reading =
            (List.range' 2 (c.overflow.lastPlace w n.toInt.toNat - 1)).map fun i =>
              (i, c.overflow.value w (i - 1), c.overflow.value w i)) ∧
        (c.overflow = .error → (c.delivered w n).length ≤ w.lastExact - 1) ∧
        (c.overflow = .saturating → (c.delivered w n).length ≤ w.firstFull - 1) ∧
        ∀ (σ : Type) (obs : Observer w σ) (s : σ) (r : Word w), 2 ≤ n.toInt →
          (c.computeWith obs s n).result = .ok r → (c.delivered w n).getLast?.map Step.curr = some r := by
  refine ⟨w.lastExact_isGreatest, w.firstFull_isLeast, fun c n => ⟨?_, ?_, ?_, ?_, ?_, ?_⟩⟩
  · intro σ obs s
    exact c.computeWith_state_eq_feed obs s n
  · rintro (hn | ⟨bound, hb, hlt⟩)
    · exact c.delivered_of_lt_two w hn
    · apply c.delivered_of_not_admits w
      intro h
      have hle := h.2 bound hb
      omega
  · intro hn hb
    exact c.delivered_reading w ⟨by omega, hb⟩
  · intro hc
    have hlen := c.delivered_length w n
    simp only [hc, OverflowPolicy.lastPlace] at hlen
    omega
  · intro hc
    have hlen := c.delivered_length w n
    simp only [hc, OverflowPolicy.lastPlace] at hlen
    omega
  · intro σ obs s r hn hr
    exact c.delivered_last obs s hn hr

theorem delivered_saturating_u8 :
    ({ overflow := .saturating } : Settings).delivered .u8 Int64.maxValue ≠ [] ∧
      (({ overflow := .saturating } : Settings).delivered .u8 Int64.maxValue).map Step.reading =
        (List.range' 2 13).map fun i => (i, min (Nat.fib (i - 1) : ℤ) 255, min (Nat.fib i : ℤ) 255) := by
  obtain ⟨-, -, hexact⟩ := delivered_exact .u8
  obtain ⟨-, -, hread, -⟩ := hexact { overflow := .saturating } Int64.maxValue
  have hreading := hread (by decide) (by simp)
  have hfull : Width.firstFull .u8 = 14 := by
    have hle := (Width.greatest_le_fib_iff .u8 14).mp (by decide)
    have hlt := mt (Width.greatest_le_fib_iff .u8 13).mpr (by decide)
    omega
  have hlast : OverflowPolicy.saturating.lastPlace .u8 Int64.maxValue.toInt.toNat = 14 := by
    simp only [OverflowPolicy.lastPlace, hfull]
    decide
  rw [hlast] at hreading
  refine ⟨?_, hreading⟩
  intro hnil
  rw [hnil] at hreading
  exact absurd hreading (by decide)

end Settings

end BoundedFibonacci
