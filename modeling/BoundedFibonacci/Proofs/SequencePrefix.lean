import BoundedFibonacci.Proofs.ClosedForm
import BoundedFibonacci.Sequence

/-!
The sequence of a width in every state that it can reach. The pair it holds is the number of a place and the number of
the next place, each as long as it fits, so every operation is a statement about places.
-/

namespace BoundedFibonacci

theorem filter_range_mod {k : ℕ} (hk : 0 < k) (n : ℕ) :
    (List.range n).filter (· % k = 0) = List.range' 0 ((n + k - 1) / k) k := by
  induction n with
  | zero =>
    have hzero : (0 + k - 1) / k = 0 := Nat.div_eq_of_lt (by omega)
    rw [hzero]
    rfl
  | succ n ih =>
    have hdiv := Nat.div_add_mod n k
    have hnext : (n + 1 + k - 1) / k = n / k + 1 := by
      rw [Nat.add_right_comm, Nat.add_sub_cancel, Nat.add_div_right n hk]
    rw [List.range_succ, List.filter_append, ih, hnext]
    by_cases hmod : n % k = 0
    · have hcount : (n + k - 1) / k = n / k := by
        apply Nat.div_eq_of_lt_le
        · rw [Nat.mul_comm]
          omega
        · rw [Nat.succ_mul, Nat.mul_comm]
          omega
      have hlast : k * (n / k) = n := by omega
      rw [hcount, List.range'_concat]
      simp [hmod, hlast]
    · have hlt := Nat.mod_lt n hk
      have hcount : (n + k - 1) / k = n / k + 1 := by
        apply Nat.div_eq_of_lt_le
        · rw [Nat.succ_mul, Nat.mul_comm]
          omega
        · rw [Nat.succ_mul, Nat.succ_mul, Nat.mul_comm]
          omega
      rw [hcount]
      simp [hmod]

namespace Sequence

variable {w : Width}

def number? (w : Width) (i : ℕ) : Option (Word w) := Word.ofInt? w (Nat.fib i)

def atPlace (w : Width) (j : ℕ) : Sequence w := ⟨number? w j, number? w (j + 1)⟩

theorem number?_eq (w : Width) (i : ℕ) :
    number? w i = if i ≤ w.lastExact then some (OverflowPolicy.error.word w i) else none := by
  have hl := w.least_nonpos
  have hfit : w.least ≤ Nat.fib i ∧ (Nat.fib i : ℤ) ≤ w.greatest ↔ i ≤ w.lastExact := by
    rw [← w.fib_le_greatest_iff]
    omega
  simp only [number?, Word.ofInt?, hfit]
  rfl

theorem number?_toInt (w : Width) (i : ℕ) :
    (number? w i).map Word.toInt = if i ≤ w.lastExact then some (Nat.fib i : ℤ) else none := by
  rw [number?_eq]
  split
  · next h => exact congrArg some (OverflowPolicy.error.toInt_word w i fun _ => h)
  · rfl

theorem number?_eq_none_iff (w : Width) (i : ℕ) : number? w i = none ↔ w.lastExact < i := by
  rw [number?_eq]
  split <;> simp <;> omega

theorem start_eq_atPlace : (start : Sequence w) = atPlace w 0 := by
  have hm := w.two_le_lastExact
  simp only [atPlace, number?_eq, Nat.zero_le, if_true, if_pos (show 0 + 1 ≤ w.lastExact by omega)]
  rw [OverflowPolicy.word_zero, OverflowPolicy.word_one]
  rfl

theorem atPlace_of_lt {j : ℕ} (h : w.lastExact < j) : atPlace w j = ⟨none, none⟩ := by
  simp only [atPlace, number?_eq, if_neg (show ¬ j ≤ w.lastExact by omega),
    if_neg (show ¬ j + 1 ≤ w.lastExact by omega)]

theorem step_atPlace (w : Width) (j : ℕ) : (atPlace w j).step = (number? w j, atPlace w (j + 1)) := by
  by_cases hj : j ≤ w.lastExact
  · by_cases hnext : j + 1 ≤ w.lastExact
    · have hadd := OverflowPolicy.checkedAdd_word w j hnext
      simp only [step, atPlace, number?_eq, if_pos hj, if_pos hnext, Option.bind_some, hadd]
    · simp only [step, atPlace, number?_eq, if_pos hj, if_neg hnext, Option.bind_none,
        if_neg (show ¬ j + 1 + 1 ≤ w.lastExact by omega)]
  · rw [atPlace_of_lt (by omega), atPlace_of_lt (by omega), number?_eq, if_neg hj]
    rfl

theorem nth_atPlace (w : Width) (k j : ℕ) :
    (atPlace w j).nth k = (number? w (j + k), atPlace w (j + k + 1)) := by
  induction k generalizing j with
  | zero => exact step_atPlace w j
  | succ k ih =>
    rw [nth, step_atPlace, number?_eq]
    by_cases hj : j ≤ w.lastExact
    · rw [if_pos hj]
      simp only [ih]
      rw [Nat.add_right_comm j 1 k, Nat.add_assoc j k 1]
    · rw [if_neg hj, number?_eq, if_neg (by omega), atPlace_of_lt (by omega), atPlace_of_lt (by omega)]

theorem take_atPlace (w : Width) (k j : ℕ) :
    (atPlace w j).take k =
      ((List.range' j (min k (w.lastExact + 1 - j))).map (OverflowPolicy.error.word w), atPlace w (j + k)) := by
  induction k generalizing j with
  | zero => simp [take]
  | succ k ih =>
    rw [take, step_atPlace, number?_eq]
    by_cases hj : j ≤ w.lastExact
    · have hlen : min (k + 1) (w.lastExact + 1 - j) = min k (w.lastExact + 1 - (j + 1)) + 1 := by omega
      rw [if_pos hj, hlen, List.range'_succ]
      simp only [ih, List.map_cons]
      rw [Nat.add_right_comm j 1 k, Nat.add_assoc j k 1]
    · have hlen : min (k + 1) (w.lastExact + 1 - j) = 0 := by omega
      rw [if_neg hj, hlen, atPlace_of_lt (by omega), atPlace_of_lt (by omega)]
      rfl

theorem toList_atPlace (w : Width) (j : ℕ) :
    (atPlace w j).toList = (List.range' j (w.lastExact + 1 - j)).map (OverflowPolicy.error.word w) := by
  have hm : w.lastExact ≤ 2 * w.bits := Nat.findGreatest_le _
  have hlen : min (bound w) (w.lastExact + 1 - j) = w.lastExact + 1 - j := by
    unfold bound
    omega
  rw [toList, take_atPlace, hlen]

theorem count_atPlace (w : Width) (j : ℕ) : (atPlace w j).count = w.lastExact + 1 - j := by
  rw [count, toList_atPlace, List.length_map, List.length_range']

theorem last?_atPlace (w : Width) (j : ℕ) :
    (atPlace w j).last? = if j ≤ w.lastExact then some (OverflowPolicy.error.word w w.lastExact) else none := by
  rw [last?, toList_atPlace]
  split
  · next hj =>
    have hlen : w.lastExact + 1 - j = w.lastExact - j + 1 := by omega
    have hlast : j + (w.lastExact - j) = w.lastExact := by omega
    rw [hlen, List.range'_concat]
    simp [hlast]
  · next hj =>
    have hlen : w.lastExact + 1 - j = 0 := by omega
    rw [hlen]
    rfl

theorem last?_atPlace_toInt (w : Width) (j : ℕ) :
    (atPlace w j).last?.map Word.toInt =
      if j ≤ w.lastExact then some (Nat.fib w.lastExact : ℤ) else none := by
  rw [last?_atPlace]
  split
  · exact congrArg some (OverflowPolicy.error.toInt_word w w.lastExact fun _ => le_rfl)
  · rfl

theorem pairwise_toList_atPlace (w : Width) (j : ℕ) :
    (atPlace w j).toList.Pairwise fun a b => a.toInt ≤ b.toInt := by
  rw [toList_atPlace, List.pairwise_map]
  apply List.Pairwise.imp_of_mem _ List.pairwise_lt_range'
  intro a b ha hb hab
  rw [List.mem_range'_1] at ha hb
  rw [OverflowPolicy.toInt_word _ w a fun _ => by omega, OverflowPolicy.toInt_word _ w b fun _ => by omega]
  exact Int.ofNat_le.mpr (Nat.fib_mono hab.le)

theorem foldl_greater_eq_getLast? (l : List (Word w)) (h : l.Pairwise fun a b => a.toInt ≤ b.toInt) :
    l.foldl (fun best v => some (best.elim v fun b => if v.toInt < b.toInt then b else v)) none = l.getLast? := by
  induction l using List.reverseRecOn with
  | nil => rfl
  | append_singleton l v ih =>
    obtain ⟨hl, -, hle⟩ := List.pairwise_append.mp h
    rw [List.foldl_append, ih hl, List.getLast?_concat, List.foldl_cons, List.foldl_nil]
    cases hlast : l.getLast? with
    | none => rfl
    | some b =>
      have hb := hle b (List.mem_of_getLast? hlast) v (List.mem_singleton_self v)
      simp [hb]

theorem max?_atPlace (w : Width) (j : ℕ) : (atPlace w j).max? = (atPlace w j).last? :=
  foldl_greater_eq_getLast? _ (pairwise_toList_atPlace w j)

theorem stepBy_atPlace (w : Width) (j : ℕ) {k : ℕ} (hk : 0 < k) :
    (atPlace w j).stepBy k =
      (List.range' j ((w.lastExact + 1 - j + k - 1) / k) k).map (OverflowPolicy.error.word w) := by
  have hplaces : ((List.range' j (w.lastExact + 1 - j)).map (OverflowPolicy.error.word w)).zipIdx =
      (List.range (w.lastExact + 1 - j)).map fun i => (OverflowPolicy.error.word w (j + i), i) := by
    apply List.ext_getElem
    · simp
    · simp
  have hshift (n : ℕ) : List.range' j n k = (List.range' 0 n k).map (j + ·) := by
    rw [List.map_add_range', Nat.add_zero]
  rw [stepBy, toList_atPlace, hplaces, List.filter_map, List.map_map, hshift, List.map_map, ← filter_range_mod hk]
  rfl

theorem stepBy_atPlace_getElem? (w : Width) (j : ℕ) {k : ℕ} (hk : 0 < k) (i : ℕ) :
    ((atPlace w j).stepBy k)[i]? = number? w (j + i * k) := by
  have hlt : i < (w.lastExact + 1 - j + k - 1) / k ↔ j + i * k ≤ w.lastExact := by
    rw [Nat.lt_iff_add_one_le, Nat.le_div_iff_mul_le hk, Nat.succ_mul]
    omega
  rw [stepBy_atPlace w j hk, List.getElem?_map, number?_eq]
  by_cases h : j + i * k ≤ w.lastExact
  · rw [List.getElem?_range' (hlt.mpr h), if_pos h, Nat.mul_comm]
    rfl
  · rw [List.getElem?_eq_none (by rw [List.length_range']; omega), if_neg h]
    rfl

def after (w : Width) (j : ℕ) : Sequence w := (fun s : Sequence w => s.step.2)^[j] start

theorem after_eq_atPlace (w : Width) (j : ℕ) : after w j = atPlace w j := by
  induction j with
  | zero => exact start_eq_atPlace
  | succ j ih =>
    unfold after at ih ⊢
    rw [Function.iterate_succ_apply', ih, step_atPlace]

def Ended (s : Sequence w) : Prop := s.step = (none, s)

theorem ended_atPlace {j : ℕ} (h : w.lastExact < j) : (atPlace w j).Ended := by
  apply step_of_ended
  rw [atPlace_of_lt h]

theorem after_exact (w : Width) :
    IsGreatest {i : ℕ | (Nat.fib i : ℤ) ≤ w.greatest} w.lastExact ∧
      ∀ j : ℕ,
        ((after w j).step.1.map Word.toInt =
          if (Nat.fib j : ℤ) ≤ w.greatest then some (Nat.fib j : ℤ) else none) ∧
        ((after w j).step.1 = none → ∀ i, j ≤ i → after w i = after w j ∧ (after w i).Ended) ∧
        (∀ k, ((after w j).nth k).1.map Word.toInt =
          if j + k ≤ w.lastExact then some (Nat.fib (j + k) : ℤ) else none) ∧
        (∀ k, ((after w j).nth k).1 = none → ((after w j).nth k).2.Ended) ∧
        (∀ k, ((after w j).take k).1.map Word.toInt =
          (List.range' j (min (j + k) (w.lastExact + 1) - j)).map fun i => (Nat.fib i : ℤ)) ∧
        (after w j).count = w.lastExact + 1 - j ∧
        ((after w j).last?.map Word.toInt =
          if j ≤ w.lastExact then some (Nat.fib w.lastExact : ℤ) else none) ∧
        ((after w j).max?.map Word.toInt =
          if j ≤ w.lastExact then some (Nat.fib w.lastExact : ℤ) else none) ∧
        ∀ k, 1 ≤ k → ∀ i, ((after w j).stepBy k)[i]?.map Word.toInt =
          if j + i * k ≤ w.lastExact then some (Nat.fib (j + i * k) : ℤ) else none := by
  refine ⟨w.lastExact_isGreatest, fun j => ?_⟩
  simp only [after_eq_atPlace, w.fib_le_greatest_iff]
  refine ⟨?_, ?_, ?_, ?_, ?_, count_atPlace w j, last?_atPlace_toInt w j, ?_, ?_⟩
  · rw [step_atPlace, number?_toInt]
  · intro hnone i hi
    rw [step_atPlace] at hnone
    have hj := (number?_eq_none_iff w j).mp hnone
    have hlt : w.lastExact < i := hj.trans_le hi
    exact ⟨by rw [atPlace_of_lt hj, atPlace_of_lt hlt], ended_atPlace hlt⟩
  · intro k
    rw [nth_atPlace, number?_toInt]
  · intro k hnone
    rw [nth_atPlace] at hnone ⊢
    have hj := (number?_eq_none_iff w (j + k)).mp hnone
    exact ended_atPlace (hj.trans (Nat.lt_succ_self _))
  · intro k
    have hlen : min (j + k) (w.lastExact + 1) - j = min k (w.lastExact + 1 - j) := by omega
    rw [take_atPlace, hlen, List.map_map]
    apply List.map_congr_left
    intro i hi
    rw [List.mem_range'_1] at hi
    exact OverflowPolicy.error.toInt_word w i fun _ => by omega
  · rw [max?_atPlace, last?_atPlace_toInt]
  · intro k hk i
    rw [stepBy_atPlace_getElem? w j hk, number?_toInt]

theorem after_end_of_u8 :
    (after .u8 14).step.1 = none ∧ (∀ i, 14 ≤ i → after .u8 i = after .u8 14 ∧ (after .u8 i).Ended) ∧
      ((after .u8 12).nth 2).1 = none ∧ ((after .u8 12).nth 2).2.Ended ∧
      1 ≤ 5 ∧ ∀ i, ((after .u8 1).stepBy 5)[i]?.map Word.toInt =
        if 1 + i * 5 ≤ Width.lastExact .u8 then some (Nat.fib (1 + i * 5) : ℤ) else none := by
  have hstep : (after .u8 14).step.1 = none := by decide
  have hnth : ((after .u8 12).nth 2).1 = none := by decide
  obtain ⟨-, hexact⟩ := after_exact .u8
  obtain ⟨-, hfused, -⟩ := hexact 14
  obtain ⟨-, -, -, hended, -⟩ := hexact 12
  obtain ⟨-, -, -, -, -, -, -, -, hstride⟩ := hexact 1
  exact ⟨hstep, hfused hstep, hnth, hended 2 hnth, by decide, hstride 5 (by decide)⟩

theorem maxExactIndex_eq (w : Width) : maxExactIndex w = w.lastExact := by
  rw [maxExactIndex, start_eq_atPlace, count_atPlace]
  rfl

theorem threshold_iff (w : Width) (i : ℕ) :
    ((Nat.fib i : ℤ) ≤ w.greatest ∧ w.greatest < Nat.fib (i + 1)) ↔ i = w.lastExact := by
  have hnext := w.fib_le_greatest_iff (i + 1)
  rw [w.fib_le_greatest_iff i]
  omega

theorem maxExactIndex_agrees (w : Width) :
    (∀ i : ℕ, ((Nat.fib i : ℤ) ≤ w.greatest ∧ w.greatest < Nat.fib (i + 1)) ↔ i = maxExactIndex w) ∧
      ∀ n : Int64, 0 ≤ n.toInt →
        ((∃ v, (({} : Settings).compute w n).result = .ok v) ↔ n.toInt ≤ maxExactIndex w) ∧
        (n.toInt ≤ maxExactIndex w → ∃ v, (({} : Settings).compute w n).result = .ok v ∧
          ((start : Sequence w).nth n.toInt.toNat).1 = some v) ∧
        (maxExactIndex w < n.toInt →
          (({} : Settings).compute w n).result = .error (.overflow n.toInt.toNat w) ∧
          ((start : Sequence w).nth n.toInt.toNat).1 = none) := by
  rw [maxExactIndex_eq, start_eq_atPlace]
  refine ⟨threshold_iff w, ?_⟩
  intro n hn
  have hadmits : ({} : Settings).Admits n := ⟨hn, by simp⟩
  have hnth : ((atPlace w 0).nth n.toInt.toNat).1 = number? w n.toInt.toNat := by
    rw [nth_atPlace, Nat.zero_add]
  have hfits (hle : n.toInt ≤ w.lastExact) :
      (({} : Settings).compute w n).result = .ok (OverflowPolicy.error.word w n.toInt.toNat) :=
    Settings.computeWith_result_of_fits {} .silent () hadmits fun _ => by omega
  have hover (hlt : w.lastExact < n.toInt) :
      (({} : Settings).compute w n).result = .error (.overflow n.toInt.toNat w) :=
    Settings.computeWith_result_of_overflow {} .silent () hadmits rfl (by omega)
  refine ⟨⟨?_, fun hle => ⟨_, hfits hle⟩⟩, ?_, ?_⟩
  · rintro ⟨v, hv⟩
    by_contra hlt
    rw [hover (by omega)] at hv
    cases hv
  · intro hle
    refine ⟨_, hfits hle, ?_⟩
    rw [hnth, number?_eq, if_pos (by omega)]
  · intro hlt
    exact ⟨hover hlt, hnth.trans ((number?_eq_none_iff w _).mpr (by omega))⟩

theorem maxExactIndex_agrees_at_i64 :
    (∃ v, (({} : Settings).compute .i64 92).result = .ok v ∧ ((start : Sequence .i64).nth 92).1 = some v) ∧
      (({} : Settings).compute .i64 93).result = .error (.overflow 93 .i64) ∧
      ((start : Sequence .i64).nth 93).1 = none := by
  obtain ⟨-, hagrees⟩ := maxExactIndex_agrees .i64
  obtain ⟨-, hfits, -⟩ := hagrees 92 (by decide)
  obtain ⟨-, -, hover⟩ := hagrees 93 (by decide)
  exact ⟨hfits (by decide +kernel), hover (by decide +kernel)⟩

end Sequence

end BoundedFibonacci
