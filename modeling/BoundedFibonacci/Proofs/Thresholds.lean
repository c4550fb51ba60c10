import BoundedFibonacci.Proofs.WordArithmetic
import Mathlib.Data.Nat.Fib.Basic
import Mathlib.Data.Nat.Find
import Mathlib.Order.Bounds.Defs

namespace BoundedFibonacci

theorem two_pow_le_fib (k : ℕ) : 2 ^ k ≤ Nat.fib (2 * k + 1) := by
  induction k with
  | zero => simp
  | succ k ih =>
    have hsum : Nat.fib (2 * (k + 1) + 1) = Nat.fib (2 * k + 1) + Nat.fib (2 * k + 1 + 1) := Nat.fib_add_two
    have hmono : Nat.fib (2 * k + 1) ≤ Nat.fib (2 * k + 1 + 1) := Nat.fib_le_fib_succ
    rw [pow_succ]
    omega

namespace Width

theorem greatest_lt_fib (w : Width) : w.greatest < Nat.fib (2 * w.bits + 1) := by
  have hfib : ((2 ^ w.bits : ℕ) : ℤ) ≤ Nat.fib (2 * w.bits + 1) := by exact_mod_cast two_pow_le_fib w.bits
  have hg := w.greatest_eq_least_add
  have hl := w.least_nonpos
  push_cast at hfib
  omega

def lastExact (w : Width) : ℕ := Nat.findGreatest (fun i => (Nat.fib i : ℤ) ≤ w.greatest) (2 * w.bits)

theorem fib_le_greatest_iff (w : Width) (i : ℕ) : (Nat.fib i : ℤ) ≤ w.greatest ↔ i ≤ w.lastExact := by
  constructor
  · intro h
    apply Nat.le_findGreatest _ h
    by_contra hi
    have hmono : Nat.fib (2 * w.bits + 1) ≤ Nat.fib i := Nat.fib_mono (by omega)
    have hlt := w.greatest_lt_fib
    omega
  · intro h
    have hzero : (Nat.fib 0 : ℤ) ≤ w.greatest := by
      have hg := w.one_lt_greatest
      simp only [Nat.fib_zero]
      omega
    have hlast : (Nat.fib w.lastExact : ℤ) ≤ w.greatest :=
      Nat.findGreatest_spec (P := fun i => (Nat.fib i : ℤ) ≤ w.greatest) (Nat.zero_le _) hzero
    have hmono : Nat.fib i ≤ Nat.fib w.lastExact := Nat.fib_mono h
    omega

theorem lastExact_isGreatest (w : Width) : IsGreatest {i : ℕ | (Nat.fib i : ℤ) ≤ w.greatest} w.lastExact :=
  ⟨(w.fib_le_greatest_iff _).mpr le_rfl, fun i hi => (w.fib_le_greatest_iff i).mp hi⟩

theorem lastExact_succ_isLeast (w : Width) : IsLeast {i : ℕ | w.greatest < Nat.fib i} (w.lastExact + 1) := by
  have hfit := w.fib_le_greatest_iff
  constructor
  · have hnext := mt (hfit (w.lastExact + 1)).mp (by omega)
    exact Int.not_le.mp hnext
  · intro i hi
    have hover : w.greatest < Nat.fib i := hi
    have hlt := mt (hfit i).mpr (by omega)
    omega

theorem exists_greatest_le_fib (w : Width) : ∃ i : ℕ, w.greatest ≤ Nat.fib i := ⟨_, w.greatest_lt_fib.le⟩

def firstFull (w : Width) : ℕ := Nat.find w.exists_greatest_le_fib

theorem greatest_le_fib_iff (w : Width) (i : ℕ) : w.greatest ≤ Nat.fib i ↔ w.firstFull ≤ i := by
  constructor
  · exact fun h => Nat.find_min' w.exists_greatest_le_fib h
  · intro h
    have hfirst : w.greatest ≤ Nat.fib w.firstFull := Nat.find_spec w.exists_greatest_le_fib
    have hmono : Nat.fib w.firstFull ≤ Nat.fib i := Nat.fib_mono h
    omega

theorem firstFull_isLeast (w : Width) : IsLeast {i : ℕ | w.greatest ≤ Nat.fib i} w.firstFull :=
  ⟨(w.greatest_le_fib_iff _).mpr le_rfl, fun i hi => (w.greatest_le_fib_iff i).mp hi⟩

theorem two_le_lastExact (w : Width) : 2 ≤ w.lastExact := by
  apply (w.fib_le_greatest_iff 2).mp
  have h := w.one_lt_greatest
  simp only [Nat.fib_two]
  omega

theorem one_lt_firstFull (w : Width) : 1 < w.firstFull := by
  apply lt_of_not_ge
  intro h
  have hg := (w.greatest_le_fib_iff 1).mpr h
  have hw := w.one_lt_greatest
  simp only [Nat.fib_one] at hg
  omega

end Width

end BoundedFibonacci
