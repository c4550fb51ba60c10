import BoundedFibonacci.Proofs.Course
import BoundedFibonacci.Proofs.Thresholds

/-!
The course of a computation in closed form: which value stands at each place, how far the places are visited, and how
the visit ends. The loop keeps the values at two consecutive places, and goes on only below the threshold of its policy.
-/

namespace BoundedFibonacci

namespace Width

def wrap (w : Width) (x : ℤ) : ℤ := (x - w.least) % 2 ^ w.bits + w.least

theorem wrap_modEq (w : Width) (x : ℤ) : w.wrap x ≡ x [ZMOD 2 ^ w.bits] := by
  have h := (Int.mod_modEq (x - w.least) (2 ^ w.bits)).add_right w.least
  rwa [sub_add_cancel] at h

theorem least_le_wrap (w : Width) (x : ℤ) : w.least ≤ w.wrap x := by
  have h := Int.emod_nonneg (x - w.least) (pow_ne_zero w.bits (two_ne_zero (α := ℤ)))
  unfold wrap
  omega

theorem wrap_le_greatest (w : Width) (x : ℤ) : w.wrap x ≤ w.greatest := by
  have hpos : (0 : ℤ) < 2 ^ w.bits := by exact_mod_cast Nat.two_pow_pos w.bits
  have h := Int.emod_lt_of_pos (x - w.least) hpos
  have hg := w.greatest_eq_least_add
  unfold wrap
  omega

theorem wrap_of_mem (w : Width) {x : ℤ} (hl : w.least ≤ x) (hg : x ≤ w.greatest) : w.wrap x = x := by
  have h := w.greatest_eq_least_add
  unfold wrap
  rw [Int.emod_eq_of_lt (by omega) (by omega)]
  omega

end Width

namespace OverflowPolicy

def value (policy : OverflowPolicy) (w : Width) (i : ℕ) : ℤ :=
  match policy with
  | .error => Nat.fib i
  | .wrapping => w.wrap (Nat.fib i)
  | .saturating => min (Nat.fib i : ℤ) w.greatest

def word (policy : OverflowPolicy) (w : Width) (i : ℕ) : Word w := .ofInt w (policy.value w i)

def stepAt (policy : OverflowPolicy) (w : Width) (i : ℕ) : Step w := ⟨i, policy.word w (i - 1), policy.word w i⟩

def lastPlace (policy : OverflowPolicy) (w : Width) (n : ℕ) : ℕ :=
  match policy with
  | .error => min n w.lastExact
  | .wrapping => n
  | .saturating => min n w.firstFull

def ending (policy : OverflowPolicy) (w : Width) (n : ℕ) : Ending :=
  match policy with
  | .error => if n ≤ w.lastExact then .finished else .overflowed (w.lastExact + 1)
  | .wrapping => .finished
  | .saturating => if n < w.firstFull then .finished else .saturated w.firstFull

/-- The value at the place `i` is exact under the policy, and does not yet end the computation. -/
def Continues (policy : OverflowPolicy) (w : Width) (i : ℕ) : Prop :=
  match policy with
  | .error => i ≤ w.lastExact
  | .wrapping => True
  | .saturating => i < w.firstFull

theorem toInt_word (policy : OverflowPolicy) (w : Width) (i : ℕ) (h : policy = .error → i ≤ w.lastExact) :
    (policy.word w i).toInt = policy.value w i := by
  have hl := w.least_nonpos
  have hg := w.one_lt_greatest
  apply Word.toInt_ofInt
  · cases policy with
    | error => simp only [value]; omega
    | wrapping => exact w.least_le_wrap _
    | saturating => simp only [value]; omega
  · cases policy with
    | error => exact (w.fib_le_greatest_iff i).mpr (h rfl)
    | wrapping => exact w.wrap_le_greatest _
    | saturating => exact min_le_right _ _

theorem value_of_le (policy : OverflowPolicy) (w : Width) {i : ℕ} (h : (Nat.fib i : ℤ) ≤ w.greatest) :
    policy.value w i = Nat.fib i := by
  have hl := w.least_nonpos
  cases policy with
  | error => rfl
  | wrapping => exact w.wrap_of_mem (by omega) h
  | saturating => exact min_eq_left h

theorem word_eq_of_le {w : Width} (policy : OverflowPolicy) {i : ℕ} {v : Word w} (h : (Nat.fib i : ℤ) ≤ w.greatest)
    (hv : v.toInt = Nat.fib i) : policy.word w i = v := by
  have hle : i ≤ w.lastExact := (w.fib_le_greatest_iff i).mp h
  apply Word.eq_of_toInt_eq
  rw [policy.toInt_word w i (fun _ => hle), policy.value_of_le w h, hv]

theorem word_zero (policy : OverflowPolicy) (w : Width) : policy.word w 0 = .zero := by
  have hg := w.one_lt_greatest
  apply policy.word_eq_of_le
  · simp only [Nat.fib_zero]
    omega
  · exact Word.toInt_zero

theorem word_one (policy : OverflowPolicy) (w : Width) : policy.word w 1 = .one := by
  have hg := w.one_lt_greatest
  apply policy.word_eq_of_le
  · simp only [Nat.fib_one]
    omega
  · exact Word.toInt_one

theorem checkedAdd_word (w : Width) (j : ℕ) (h : j + 1 ≤ w.lastExact) :
    (error.word w j).checkedAdd (error.word w (j + 1)) =
      if j + 2 ≤ w.lastExact then some (error.word w (j + 2)) else none := by
  have hl := w.least_nonpos
  have hsum : error.value w j + error.value w (j + 1) = error.value w (j + 2) := by
    simp only [value]
    exact_mod_cast Nat.fib_add_two.symm
  rw [Word.checkedAdd_eq, toInt_word _ w j (fun _ => by omega), toInt_word _ w (j + 1) (fun _ => h), hsum]
  unfold Word.ofInt?
  have hfit : w.least ≤ error.value w (j + 2) ∧ error.value w (j + 2) ≤ w.greatest ↔ j + 2 ≤ w.lastExact := by
    rw [← w.fib_le_greatest_iff]
    simp only [value]
    omega
  simp only [hfit, word]

theorem wrappingAdd_word (w : Width) (j : ℕ) :
    (wrapping.word w j).wrappingAdd (wrapping.word w (j + 1)) = wrapping.word w (j + 2) := by
  rw [Word.wrappingAdd_eq, toInt_word _ w j (by simp), toInt_word _ w (j + 1) (by simp)]
  apply Word.ofInt_congr
  have hsum := (w.wrap_modEq (Nat.fib j)).add (w.wrap_modEq (Nat.fib (j + 1)))
  have hnext : (Nat.fib j + Nat.fib (j + 1) : ℤ) = Nat.fib (j + 2) := by exact_mod_cast Nat.fib_add_two.symm
  rw [hnext] at hsum
  exact hsum.trans (w.wrap_modEq (Nat.fib (j + 2))).symm

theorem saturatingAdd_word (w : Width) (j : ℕ) :
    (saturating.word w j).saturatingAdd (saturating.word w (j + 1)) = saturating.word w (j + 2) := by
  have hl := w.least_nonpos
  have hg := w.one_lt_greatest
  have hnext : Nat.fib (j + 2) = Nat.fib j + Nat.fib (j + 1) := Nat.fib_add_two
  apply Word.eq_of_toInt_eq
  rw [Word.toInt_saturatingAdd, toInt_word _ w j (by simp), toInt_word _ w (j + 1) (by simp),
    toInt_word _ w (j + 2) (by simp)]
  simp only [value]
  omega

theorem isSaturated_word_iff (c : Settings) (w : Width) (i : ℕ) :
    c.isSaturated (c.overflow.word w i) = true ↔ c.overflow = .saturating ∧ w.firstFull ≤ i := by
  unfold Settings.isSaturated
  simp only [Bool.and_eq_true, decide_eq_true_eq]
  constructor
  · rintro ⟨hc, hm⟩
    have hv := (Word.eq_max_iff _).mp hm
    rw [hc, toInt_word _ w i (by simp)] at hv
    refine ⟨hc, (w.greatest_le_fib_iff i).mp ?_⟩
    simp only [value] at hv
    omega
  · rintro ⟨hc, hi⟩
    have hv := (w.greatest_le_fib_iff i).mpr hi
    refine ⟨hc, (Word.eq_max_iff _).mpr ?_⟩
    rw [hc, toInt_word _ w i (by simp)]
    simp only [value]
    omega

theorem add_word_cases (policy : OverflowPolicy) (w : Width) (j : ℕ) (h : policy.Continues w (j + 1)) :
    (policy.add (policy.word w j) (policy.word w (j + 1)) = none ∧ policy = .error ∧ w.lastExact = j + 1) ∨
      (policy.add (policy.word w j) (policy.word w (j + 1)) = some (policy.word w (j + 2)) ∧
        (policy = .saturating ∧ w.firstFull = j + 2 ∨ policy.Continues w (j + 2))) := by
  cases policy with
  | error =>
    have hle : j + 1 ≤ w.lastExact := h
    have hadd := checkedAdd_word w j hle
    by_cases hfit : j + 2 ≤ w.lastExact
    · rw [if_pos hfit] at hadd
      exact .inr ⟨hadd, .inr hfit⟩
    · rw [if_neg hfit] at hadd
      exact .inl ⟨hadd, rfl, by omega⟩
  | wrapping => exact .inr ⟨congrArg some (wrappingAdd_word w j), .inr trivial⟩
  | saturating =>
    have hlt : j + 1 < w.firstFull := h
    refine .inr ⟨congrArg some (saturatingAdd_word w j), ?_⟩
    by_cases hfull : w.firstFull = j + 2
    · exact .inl ⟨rfl, hfull⟩
    · right
      change j + 2 < w.firstFull
      omega

theorem continues_of_le_one (policy : OverflowPolicy) (w : Width) {i : ℕ} (h : i ≤ 1) : policy.Continues w i := by
  cases policy with
  | error => exact h.trans (one_le_two.trans w.two_le_lastExact)
  | wrapping => trivial
  | saturating => exact h.trans_lt w.one_lt_firstFull

theorem lastPlace_of_continues (policy : OverflowPolicy) (w : Width) {n : ℕ} (h : policy.Continues w n) :
    policy.lastPlace w n = n := by
  cases policy with
  | error => exact min_eq_left h
  | wrapping => rfl
  | saturating => exact min_eq_left (le_of_lt h)

theorem ending_of_continues (policy : OverflowPolicy) (w : Width) {n : ℕ} (h : policy.Continues w n) :
    policy.ending w n = .finished := by
  cases policy with
  | error => exact if_pos h
  | wrapping => rfl
  | saturating => exact if_pos h

theorem ending_of_exceeds {w : Width} {n : ℕ} (h : w.lastExact < n) :
    error.ending w n = .overflowed (w.lastExact + 1) :=
  if_neg (Nat.not_le.mpr h)

theorem le_lastPlace (policy : OverflowPolicy) (w : Width) {i n : ℕ} (h : policy.Continues w i) (hi : i ≤ n) :
    i ≤ policy.lastPlace w n := by
  cases policy with
  | error => exact le_min hi h
  | wrapping => exact hi
  | saturating => exact le_min hi (le_of_lt h)

-- Past the first full place every value is the greatest integer, so stopping there loses nothing.
theorem word_lastPlace (policy : OverflowPolicy) (w : Width) {n : ℕ} (h : policy = .error → n ≤ w.lastExact) :
    policy.word w (policy.lastPlace w n) = policy.word w n := by
  cases policy with
  | error => rw [lastPlace_of_continues _ w (show error.Continues w n from h rfl)]
  | wrapping => rfl
  | saturating =>
    by_cases hn : n < w.firstFull
    · rw [lastPlace_of_continues _ w (show saturating.Continues w n from hn)]
    · have hlast : saturating.lastPlace w n = w.firstFull := min_eq_right (by omega)
      have hfull := (w.greatest_le_fib_iff w.firstFull).mpr le_rfl
      have hfull' := (w.greatest_le_fib_iff n).mpr (by omega)
      simp only [word, value, hlast, min_eq_right hfull, min_eq_right hfull']

theorem ending_result (policy : OverflowPolicy) (w : Width) {n : ℕ} (h : policy = .error → n ≤ w.lastExact)
    (v : Word w) : (policy.ending w n).result n v = .ok v := by
  cases policy with
  | error => rw [ending_of_continues _ w (show error.Continues w n from h rfl)]; rfl
  | wrapping => rfl
  | saturating =>
    unfold ending
    dsimp only
    split <;> rfl

end OverflowPolicy

namespace Settings

-- The places left are those above `j + 1`; the invariant is that the loop holds the values at `j` and `j + 1` and that
-- the value at `j + 1` does not end the computation.
theorem courseFrom_eq (c : Settings) (w : Width) (left j n : ℕ) (hn : n = j + 1 + left)
    (h : c.overflow.Continues w (j + 1)) :
    c.courseFrom left (j + 2) (c.overflow.word w j) (c.overflow.word w (j + 1)) =
      ⟨(List.range' (j + 2) (c.overflow.lastPlace w n - (j + 1))).map (c.overflow.stepAt w),
        c.overflow.word w (c.overflow.lastPlace w n), c.overflow.ending w n⟩ := by
  induction left generalizing j with
  | zero =>
    obtain rfl : n = j + 1 := hn
    rw [c.overflow.lastPlace_of_continues w h, c.overflow.ending_of_continues w h]
    simp [courseFrom]
  | succ left ih =>
    rcases c.overflow.add_word_cases w j h with ⟨hadd, hc, hm⟩ | ⟨hadd, hnext⟩
    · have hlast : c.overflow.lastPlace w n = j + 1 := by
        simp only [hc, OverflowPolicy.lastPlace]
        omega
      have hend : c.overflow.ending w n = .overflowed (j + 2) := by
        simp only [hc, OverflowPolicy.ending]
        rw [if_neg (by omega), hm]
      simp [courseFrom, hadd, hlast, hend]
    · rcases hnext with ⟨hc, hs⟩ | hopen
      · have hsat := (OverflowPolicy.isSaturated_word_iff c w (j + 2)).mpr ⟨hc, hs.le⟩
        have hlast : c.overflow.lastPlace w n = j + 2 := by
          simp only [hc, OverflowPolicy.lastPlace]
          omega
        have hend : c.overflow.ending w n = .saturated (j + 2) := by
          simp only [hc, OverflowPolicy.ending]
          rw [if_neg (by omega), hs]
        have hcount : j + 2 - (j + 1) = 1 := by omega
        simp [courseFrom, hadd, hsat, hlast, hend, hcount, OverflowPolicy.stepAt]
      · have hsat : ¬ c.isSaturated (c.overflow.word w (j + 2)) = true := by
          rw [OverflowPolicy.isSaturated_word_iff]
          rintro ⟨hc, hs⟩
          simp only [hc, OverflowPolicy.Continues] at hopen
          omega
        have hle : j + 2 ≤ c.overflow.lastPlace w n := c.overflow.le_lastPlace w hopen (by omega)
        have hcount : c.overflow.lastPlace w n - (j + 1) = c.overflow.lastPlace w n - (j + 2) + 1 := by omega
        simp only [courseFrom, hadd, if_neg hsat, ih (j + 1) (by omega) hopen]
        rw [hcount, List.range'_succ, List.map_cons]
        rfl

theorem courseTo_eq (c : Settings) (w : Width) (n : ℕ) :
    c.courseTo w n =
      ⟨(List.range' 2 (c.overflow.lastPlace w n - 1)).map (c.overflow.stepAt w),
        c.overflow.word w (c.overflow.lastPlace w n), c.overflow.ending w n⟩ := by
  cases n with
  | zero =>
    have hopen := c.overflow.continues_of_le_one w (Nat.zero_le 1)
    rw [c.overflow.lastPlace_of_continues w hopen, c.overflow.ending_of_continues w hopen, c.overflow.word_zero w]
    rfl
  | succ k =>
    rw [courseTo, ← c.overflow.word_zero w, ← c.overflow.word_one w]
    exact c.courseFrom_eq w k 0 (k + 1) (by omega) (c.overflow.continues_of_le_one w le_rfl)

section

variable {w : Width} {σ : Type} (c : Settings) (obs : Observer w σ) (s : σ) {n : Int64}

theorem computeWith_result (h : c.Admits n) :
    (c.computeWith obs s n).result =
      (c.overflow.ending w n.toInt.toNat).result n.toInt.toNat
        (c.overflow.word w (c.overflow.lastPlace w n.toInt.toNat)) := by
  rw [c.computeWith_eq_replay obs s h, c.courseTo_eq]
  rfl

theorem computeWith_result_of_fits (h : c.Admits n) (hfit : c.overflow = .error → n.toInt.toNat ≤ w.lastExact) :
    (c.computeWith obs s n).result = .ok (c.overflow.word w n.toInt.toNat) := by
  rw [c.computeWith_result obs s h, c.overflow.ending_result w hfit, c.overflow.word_lastPlace w hfit]

theorem computeWith_result_of_overflow (h : c.Admits n) (hc : c.overflow = .error) (hlt : w.lastExact < n.toInt.toNat) :
    (c.computeWith obs s n).result = .error (.overflow n.toInt.toNat w) := by
  rw [c.computeWith_result obs s h, hc, OverflowPolicy.ending_of_exceeds hlt]
  rfl

theorem computeWith_state (h : c.Admits n) :
    (c.computeWith obs s n).state =
      obs.feed s ((List.range' 2 (c.overflow.lastPlace w n.toInt.toNat - 1)).map (c.overflow.stepAt w)) := by
  rw [c.computeWith_eq_replay obs s h, c.courseTo_eq]
  rfl

end

end Settings

end BoundedFibonacci
