import BoundedFibonacci.Proofs.DeliveredSteps
import BoundedFibonacci.Proofs.SequencePrefix
import Mathlib.Algebra.BigOperators.Group.List.Basic

namespace BoundedFibonacci

variable {w : Width}

theorem Observer.feed_sum (part : Step w → Word w) (total : Word w) (steps : List (Step w)) :
    ((sum Word.wrappingAdd part).feed total steps).toInt ≡
      total.toInt + (steps.map fun step => (part step).toInt).sum [ZMOD 2 ^ w.bits] := by
  induction steps generalizing total with
  | nil => simp
  | cons step steps ih =>
    have hadd := Word.wrappingAdd_modEq total (part step)
    rw [feed_cons, List.map_cons, List.sum_cons, ← add_assoc]
    exact (ih _).trans (hadd.add_right _)

namespace OverflowPolicy

theorem value_modEq {policy : OverflowPolicy} (h : policy ≠ .saturating) (w : Width) (i : ℕ) :
    policy.value w i ≡ Nat.fib i [ZMOD 2 ^ w.bits] := by
  cases policy with
  | error => rfl
  | wrapping => exact w.wrap_modEq _
  | saturating => exact absurd rfl h

theorem sum_value_modEq {policy : OverflowPolicy} (h : policy ≠ .saturating) (w : Width) (count : ℕ) :
    ((List.range' 2 count).map (policy.value w)).sum ≡ Nat.fib (count + 3) - 2 [ZMOD 2 ^ w.bits] := by
  induction count with
  | zero => rfl
  | succ count ih =>
    have hnext : (Nat.fib (count + 3) - 2 + Nat.fib (count + 2) : ℤ) = Nat.fib (count + 4) - 2 := by
      have hfib : Nat.fib (count + 4) = Nat.fib (count + 2) + Nat.fib (count + 3) := Nat.fib_add_two
      omega
    have hvalue := value_modEq h w (count + 2)
    rw [List.range'_concat, List.map_append, List.sum_append, ← hnext]
    simp only [List.map_cons, List.map_nil, List.sum_singleton, one_mul, Nat.add_comm 2 count]
    exact ih.add hvalue

end OverflowPolicy

namespace Settings

theorem delivered_values (c : Settings) (w : Width) {n : Int64} (h : c.Admits n) :
    ((c.delivered w n).map fun step => step.curr.toInt) =
      (List.range' 2 (c.overflow.lastPlace w n.toInt.toNat - 1)).map (c.overflow.value w) := by
  have hread := congrArg (List.map fun x => x.2.2) (c.delivered_reading w h)
  rw [List.map_map, List.map_map] at hread
  exact hread

def summedRun (c : Settings) (w : Width) (n : Int64) : Run w (Word w) :=
  c.computeWith (.sum .wrappingAdd Step.curr) .zero n

theorem summedRun_state (c : Settings) (w : Width) {n : Int64} (hn : 2 ≤ n.toInt) (ha : c.Admits n)
    (hc : c.overflow ≠ .saturating) :
    (c.summedRun w n).state.toInt ≡
      Nat.fib (c.overflow.lastPlace w n.toInt.toNat + 2) - 2 [ZMOD 2 ^ w.bits] := by
  have hlast := c.overflow.two_le_lastPlace w (show 2 ≤ n.toInt.toNat by omega)
  have hplace : c.overflow.lastPlace w n.toInt.toNat + 2 = c.overflow.lastPlace w n.toInt.toNat - 1 + 3 := by omega
  have hfeed := Observer.feed_sum Step.curr .zero (c.delivered w n)
  rw [Word.toInt_zero, zero_add, c.delivered_values w ha] at hfeed
  rw [summedRun, c.computeWith_state_eq_feed, hplace]
  exact hfeed.trans (OverflowPolicy.sum_value_modEq hc w _)

theorem summedRun_overflows_iff (c : Settings) (w : Width) {n : Int64} (ha : c.Admits n) :
    (c.summedRun w n).result = .error (.overflow n.toInt.toNat w) ↔
      c.overflow = .error ∧ w.lastExact < n.toInt.toNat := by
  constructor
  · intro hover
    by_contra hends
    have hfits : c.overflow = .error → n.toInt.toNat ≤ w.lastExact := by
      intro hc
      exact Nat.le_of_not_lt fun hlt => hends ⟨hc, hlt⟩
    rw [summedRun, c.computeWith_result_of_fits _ _ ha hfits] at hover
    cases hover
  · rintro ⟨hc, hlt⟩
    exact c.computeWith_result_of_overflow _ _ ha hc hlt

theorem summedRun_congruent (c : Settings) (w : Width) {n : Int64} {k : ℕ} (hn : 2 ≤ n.toInt) (ha : c.Admits n)
    (hk : c.overflow = .wrapping ∧ k = n.toInt.toNat ∨
      c.overflow = .error ∧ k = min n.toInt.toNat (Sequence.maxExactIndex w)) :
    (c.summedRun w n).state.toInt ≡ Nat.fib (k + 2) - 2 [ZMOD 2 ^ w.bits] ∧
    (∀ u : Word w, u.toInt ≡ Nat.fib (k + 2) - 2 [ZMOD 2 ^ w.bits] → u = (c.summedRun w n).state) ∧
    ((c.summedRun w n).result = .error (.overflow n.toInt.toNat w) ↔
      c.overflow = .error ∧ Sequence.maxExactIndex w < n.toInt.toNat) := by
  rw [Sequence.maxExactIndex_eq] at hk ⊢
  have hlast : c.overflow ≠ .saturating ∧ c.overflow.lastPlace w n.toInt.toNat = k := by
    rcases hk with ⟨hc, rfl⟩ | ⟨hc, rfl⟩
    · rw [hc]
      exact ⟨by decide, rfl⟩
    · rw [hc]
      exact ⟨by decide, rfl⟩
  have hsum := c.summedRun_state w hn ha hlast.1
  rw [hlast.2] at hsum
  exact ⟨hsum, fun u hu => Word.eq_of_modEq (hu.trans hsum.symm), c.summedRun_overflows_iff w ha⟩

theorem summedRun_congruent_past_u8 :
    (({} : Settings).summedRun .u8 200).result = .error (.overflow 200 .u8) ∧
    (({} : Settings).summedRun .u8 200).state = .ofInt .u8 96 ∧
    (({ overflow := .wrapping } : Settings).summedRun .i8 20).state = .ofInt .i8 45 := by
  have hfits : 13 = min 200 (Sequence.maxExactIndex .u8) := by decide +kernel
  obtain ⟨-, hchecked, hover⟩ :=
    summedRun_congruent {} .u8 (n := 200) (k := 13) (by decide) (by decide) (.inr ⟨rfl, hfits⟩)
  obtain ⟨-, hwrapped, -⟩ :=
    summedRun_congruent { overflow := .wrapping } .i8 (n := 20) (k := 20) (by decide) (by decide) (.inl ⟨rfl, rfl⟩)
  have hlt : Sequence.maxExactIndex .u8 < 200 := by omega
  exact ⟨hover.mpr ⟨rfl, hlt⟩, (hchecked _ (by decide +kernel)).symm, (hwrapped _ (by decide +kernel)).symm⟩

end Settings

end BoundedFibonacci
