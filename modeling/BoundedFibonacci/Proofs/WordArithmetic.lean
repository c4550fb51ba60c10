import BoundedFibonacci.Word
import Mathlib.Data.Int.ModEq

/-!
The three additions and the words of indices in exact integers. A word is determined by its integer modulo the number of
words, so each addition is the exact sum followed by its own way back into the range.
-/

namespace BoundedFibonacci

namespace Width

theorem least_eq (w : Width) : w.least = if w.signed then -2 ^ (w.bits - 1) else 0 := rfl

theorem greatest_eq (w : Width) : w.greatest = if w.signed then 2 ^ (w.bits - 1) - 1 else 2 ^ w.bits - 1 := rfl

theorem greatest_eq_least_add (w : Width) : w.greatest = w.least + 2 ^ w.bits - 1 := by
  cases w <;> decide

theorem least_nonpos (w : Width) : w.least ≤ 0 := by
  cases w <;> decide

theorem one_lt_greatest (w : Width) : 1 < w.greatest := by
  cases w <;> decide

end Width

namespace Word

variable {w : Width}

theorem least_le_toInt (a : Word w) : w.least ≤ a.toInt := by
  rw [toInt, Width.least_eq]
  split
  · exact BitVec.le_toInt a.bits
  · exact Int.natCast_nonneg _

theorem toInt_le_greatest (a : Word w) : a.toInt ≤ w.greatest := by
  rw [toInt, Width.greatest_eq]
  split
  · have h := BitVec.toInt_lt (x := a.bits)
    omega
  · have h : (a.bits.toNat : ℤ) < ((2 ^ w.bits : ℕ) : ℤ) := by exact_mod_cast a.bits.isLt
    push_cast at h
    omega

theorem toInt_range (a : Word w) :
    if w.signed then -2 ^ (w.bits - 1) ≤ a.toInt ∧ a.toInt < 2 ^ (w.bits - 1)
    else 0 ≤ a.toInt ∧ a.toInt < 2 ^ w.bits := by
  have hl := least_le_toInt a
  have hg := toInt_le_greatest a
  rw [Width.least_eq] at hl
  rw [Width.greatest_eq] at hg
  split
  · next hs =>
    rw [if_pos hs] at hl hg
    omega
  · next hs =>
    rw [if_neg hs] at hl hg
    omega

theorem toInt_modEq_toNat (a : Word w) : a.toInt ≡ a.bits.toNat [ZMOD 2 ^ w.bits] := by
  unfold toInt
  split
  · rw [BitVec.toInt_eq_toNat_bmod]
    have h : Int.bmod a.bits.toNat (2 ^ w.bits) ≡ a.bits.toNat [ZMOD ((2 ^ w.bits : ℕ) : ℤ)] :=
      Int.bmod_emod
    push_cast at h
    exact h
  · rfl

theorem eq_of_modEq {a b : Word w} (h : a.toInt ≡ b.toInt [ZMOD 2 ^ w.bits]) : a = b := by
  have hab : (a.bits.toNat : ℤ) ≡ b.bits.toNat [ZMOD 2 ^ w.bits] :=
    (toInt_modEq_toNat a).symm.trans (h.trans (toInt_modEq_toNat b))
  have hm : a.bits.toNat ≡ b.bits.toNat [MOD 2 ^ w.bits] := by
    apply Int.natCast_modEq_iff.mp
    push_cast
    exact hab
  have hn : a.bits.toNat = b.bits.toNat := Nat.ModEq.eq_of_lt_of_lt hm a.bits.isLt b.bits.isLt
  obtain ⟨x⟩ := a
  obtain ⟨y⟩ := b
  exact congrArg Word.mk (BitVec.eq_of_toNat_eq hn)

theorem eq_of_toInt_eq {a b : Word w} (h : a.toInt = b.toInt) : a = b := eq_of_modEq (by rw [h])

theorem ofInt_modEq (w : Width) (n : ℤ) : (ofInt w n).toInt ≡ n [ZMOD 2 ^ w.bits] := by
  apply (toInt_modEq_toNat _).trans
  have hpos : ((2 ^ w.bits : ℕ) : ℤ) ≠ 0 := by exact_mod_cast (Nat.two_pow_pos w.bits).ne'
  have hn : ((ofInt w n).bits.toNat : ℤ) = n % ((2 ^ w.bits : ℕ) : ℤ) := by
    rw [ofInt, BitVec.toNat_ofInt, Int.toNat_of_nonneg (Int.emod_nonneg _ hpos)]
  push_cast at hn
  rw [hn]
  exact Int.mod_modEq n _

theorem ofInt_congr {m n : ℤ} (h : m ≡ n [ZMOD 2 ^ w.bits]) : ofInt w m = ofInt w n :=
  eq_of_modEq ((ofInt_modEq w m).trans (h.trans (ofInt_modEq w n).symm))

theorem toInt_ofInt {n : ℤ} (hl : w.least ≤ n) (hg : n ≤ w.greatest) : (ofInt w n).toInt = n := by
  have hd : (2 : ℤ) ^ w.bits ∣ n - (ofInt w n).toInt := (ofInt_modEq w n).dvd
  have habs : |n - (ofInt w n).toInt| < 2 ^ w.bits := by
    have hl' := least_le_toInt (ofInt w n)
    have hg' := toInt_le_greatest (ofInt w n)
    have hw := w.greatest_eq_least_add
    rw [abs_lt]
    omega
  have hz := Int.eq_zero_of_abs_lt_dvd hd habs
  omega

theorem ofInt?_eq_some_iff {n : ℤ} {v : Word w} : ofInt? w n = some v ↔ v.toInt = n := by
  unfold ofInt?
  split
  · next hrange =>
    have hread : (ofInt w n).toInt = n := toInt_ofInt hrange.1 hrange.2
    constructor
    · rintro ⟨⟩
      exact hread
    · intro hv
      exact congrArg some (eq_of_toInt_eq (hread.trans hv.symm))
  · next hrange =>
    simp only [reduceCtorEq, false_iff]
    rintro rfl
    exact hrange ⟨least_le_toInt v, toInt_le_greatest v⟩

theorem exists_toInt_eq_iff {n : ℤ} : (∃ v : Word w, v.toInt = n) ↔ w.least ≤ n ∧ n ≤ w.greatest := by
  constructor
  · rintro ⟨v, rfl⟩
    exact ⟨v.least_le_toInt, v.toInt_le_greatest⟩
  · rintro ⟨hl, hg⟩
    exact ⟨ofInt w n, toInt_ofInt hl hg⟩

theorem exists_ofInt?_eq_some_iff {n : ℤ} : (∃ v, ofInt? w n = some v) ↔ w.least ≤ n ∧ n ≤ w.greatest := by
  simp only [ofInt?_eq_some_iff]
  exact exists_toInt_eq_iff

theorem toInt_zero : (zero : Word w).toInt = 0 := by
  simp [toInt, zero]

theorem toInt_one : (one : Word w).toInt = 1 := by
  cases w <;> decide

theorem toInt_min : (min : Word w).toInt = w.least := by
  rw [toInt, min, Width.least_eq]
  split
  · exact BitVec.toInt_intMin_of_pos w.bits_pos
  · simp

theorem toInt_max : (max : Word w).toInt = w.greatest := by
  rw [toInt, max, Width.greatest_eq]
  split
  · exact BitVec.toInt_intMax
  · have h := Nat.two_pow_pos w.bits
    rw [BitVec.toNat_allOnes]
    push_cast [h]
    rfl

theorem eq_max_iff (a : Word w) : a = max ↔ w.greatest ≤ a.toInt := by
  constructor
  · rintro rfl
    exact toInt_max.ge
  · intro h
    apply eq_of_toInt_eq
    rw [toInt_max]
    exact le_antisymm (toInt_le_greatest a) h

theorem addOverflows_iff (a b : Word w) :
    addOverflows a b = true ↔ a.toInt + b.toInt < w.least ∨ w.greatest < a.toInt + b.toInt := by
  rw [addOverflows, toInt, toInt, Width.least_eq, Width.greatest_eq]
  split
  · simp only [BitVec.saddOverflow, Bool.or_eq_true, decide_eq_true_eq]
    omega
  · simp only [BitVec.uaddOverflow, decide_eq_true_eq]
    have h : ((2 ^ w.bits : ℕ) : ℤ) = 2 ^ w.bits := by push_cast; rfl
    omega

theorem wrappingAdd_modEq (a b : Word w) : (wrappingAdd a b).toInt ≡ a.toInt + b.toInt [ZMOD 2 ^ w.bits] := by
  have hbits : (wrappingAdd a b).toInt ≡ a.bits.toNat + b.bits.toNat [ZMOD 2 ^ w.bits] := by
    apply (toInt_modEq_toNat _).trans
    rw [wrappingAdd, BitVec.toNat_add]
    push_cast
    exact Int.mod_modEq _ _
  have hsum := (toInt_modEq_toNat a).add (toInt_modEq_toNat b)
  exact hbits.trans hsum.symm

theorem wrappingAdd_eq (a b : Word w) : wrappingAdd a b = ofInt w (a.toInt + b.toInt) := by
  apply eq_of_modEq
  exact (wrappingAdd_modEq a b).trans (ofInt_modEq w _).symm

theorem checkedAdd_eq (a b : Word w) : checkedAdd a b = ofInt? w (a.toInt + b.toInt) := by
  unfold checkedAdd ofInt?
  rw [← wrappingAdd_eq]
  by_cases h : addOverflows a b = true
  · have ho := (addOverflows_iff a b).mp h
    rw [if_pos h, if_neg (by omega)]
  · have ho := mt (addOverflows_iff a b).mpr h
    rw [if_neg h, if_pos (by omega)]

theorem signed_and_msb_iff (a : Word w) : (w.signed && a.bits.msb) = true ↔ a.toInt < 0 := by
  unfold toInt
  cases hs : w.signed with
  | true => simp [BitVec.msb_eq_toInt]
  | false => simp

theorem toInt_saturatingAdd (a b : Word w) :
    (saturatingAdd a b).toInt = Max.max w.least (Min.min w.greatest (a.toInt + b.toInt)) := by
  have hw := w.least_nonpos
  have hw' := w.one_lt_greatest
  unfold saturatingAdd
  by_cases h : addOverflows a b = true
  · have ho := (addOverflows_iff a b).mp h
    -- The second summand alone stays in the range, so the sign of the first tells which end was passed.
    have hl := least_le_toInt b
    have hg := toInt_le_greatest b
    rw [if_pos h]
    split
    · next hm =>
      have ha := (signed_and_msb_iff a).mp hm
      rw [toInt_min]
      omega
    · next hm =>
      have ha := mt (signed_and_msb_iff a).mpr hm
      rw [toInt_max]
      omega
  · have ho := mt (addOverflows_iff a b).mpr h
    rw [if_neg h, wrappingAdd_eq, toInt_ofInt (by omega) (by omega)]
    omega

theorem checkedAdd_eq_some_iff {a b c : Word w} : checkedAdd a b = some c ↔ c.toInt = a.toInt + b.toInt := by
  rw [checkedAdd_eq]
  exact ofInt?_eq_some_iff

theorem wrappingAdd_of_checkedAdd {a b c : Word w} (h : checkedAdd a b = some c) : wrappingAdd a b = c := by
  apply eq_of_modEq
  rw [checkedAdd_eq_some_iff.mp h]
  exact wrappingAdd_modEq a b

theorem saturatingAdd_of_checkedAdd {a b c : Word w} (h : checkedAdd a b = some c) : saturatingAdd a b = c := by
  have hl := least_le_toInt c
  have hg := toInt_le_greatest c
  apply eq_of_toInt_eq
  rw [toInt_saturatingAdd, ← checkedAdd_eq_some_iff.mp h, min_eq_right hg, max_eq_right hl]

theorem arithmetic_exact (w : Width) :
    ((∀ n : ℤ, (∃ a : Word w, a.toInt = n) ↔ w.least ≤ n ∧ n ≤ w.greatest) ∧
      (min : Word w).toInt = w.least ∧ (max : Word w).toInt = w.greatest) ∧
    (∀ a b : Word w,
      ((∃ c, checkedAdd a b = some c) ↔ w.least ≤ a.toInt + b.toInt ∧ a.toInt + b.toInt ≤ w.greatest) ∧
      (∀ c, checkedAdd a b = some c → c.toInt = a.toInt + b.toInt) ∧
      (wrappingAdd a b).toInt ≡ a.toInt + b.toInt [ZMOD 2 ^ w.bits] ∧
      (∀ c : Word w, c.toInt ≡ a.toInt + b.toInt [ZMOD 2 ^ w.bits] → c = wrappingAdd a b) ∧
      (saturatingAdd a b).toInt = Max.max w.least (Min.min w.greatest (a.toInt + b.toInt)) ∧
      ∀ c, checkedAdd a b = some c → wrappingAdd a b = c ∧ saturatingAdd a b = c) ∧
    ∀ x : Int64,
      ((∃ y, ofIndex? w x = some y) ↔ w.least ≤ x.toInt ∧ x.toInt ≤ w.greatest) ∧
      ∀ y, ofIndex? w x = some y → y.toInt = x.toInt := by
  refine ⟨⟨fun n => exists_toInt_eq_iff, toInt_min, toInt_max⟩, ?_, ?_⟩
  · intro a b
    refine ⟨?_, ?_, wrappingAdd_modEq a b, ?_, toInt_saturatingAdd a b, ?_⟩
    · rw [checkedAdd_eq]
      exact exists_ofInt?_eq_some_iff
    · intro c hc
      exact checkedAdd_eq_some_iff.mp hc
    · intro c hc
      apply eq_of_modEq
      exact hc.trans (wrappingAdd_modEq a b).symm
    · intro c hc
      exact ⟨wrappingAdd_of_checkedAdd hc, saturatingAdd_of_checkedAdd hc⟩
  · intro x
    refine ⟨exists_ofInt?_eq_some_iff, ?_⟩
    intro y hy
    exact ofInt?_eq_some_iff.mp hy

theorem arithmetic_exact_below_zero :
    (checkedAdd (.ofInt .i8 (-100)) (.ofInt .i8 (-100)) = none ∧
      wrappingAdd (.ofInt .i8 (-100)) (.ofInt .i8 (-100)) = .ofInt .i8 56 ∧
      saturatingAdd (.ofInt .i8 (-100)) (.ofInt .i8 (-100)) = min) ∧
    (checkedAdd min max = some (.ofInt .i128 (-1)) ∧
      wrappingAdd min max = .ofInt .i128 (-1) ∧ saturatingAdd min max = .ofInt .i128 (-1)) ∧
    ofIndex? .u128 (-1) = none ∧ ∃ y : Word .i128, ofIndex? .i128 (-1) = some y ∧ y.toInt = -1 := by
  obtain ⟨⟨-, hmin, -⟩, hadd, -⟩ := arithmetic_exact .i8
  obtain ⟨hchecked, -, -, hwrapped, hclamped, -⟩ := hadd (.ofInt .i8 (-100)) (.ofInt .i8 (-100))
  obtain ⟨-, hends, hsigned⟩ := arithmetic_exact .i128
  obtain ⟨-, -, hunsigned⟩ := arithmetic_exact .u128
  refine ⟨⟨?_, (hwrapped _ (by decide +kernel)).symm, ?_⟩, ?_, ?_, ?_⟩
  · apply Option.eq_none_iff_forall_ne_some.mpr
    intro c hc
    exact absurd (hchecked.mp ⟨c, hc⟩) (by decide +kernel)
  · apply eq_of_toInt_eq
    rw [hclamped, hmin]
    decide +kernel
  · obtain ⟨-, -, -, -, -, hagree⟩ := hends min max
    have hsum : checkedAdd min max = some (ofInt .i128 (-1)) := by decide +kernel
    exact ⟨hsum, hagree _ hsum⟩
  · apply Option.eq_none_iff_forall_ne_some.mpr
    intro y hy
    exact absurd ((hunsigned (-1)).1.mp ⟨y, hy⟩) (by decide +kernel)
  · obtain ⟨y, hy⟩ := (hsigned (-1)).1.mpr (by decide +kernel)
    exact ⟨y, hy, (hsigned (-1)).2 y hy⟩

end Word

end BoundedFibonacci
