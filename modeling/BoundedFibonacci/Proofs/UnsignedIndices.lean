import BoundedFibonacci.Proofs.ClosedForm

namespace BoundedFibonacci

namespace Width

theorem lastExact_le (w : Width) : w.lastExact ≤ 2 * w.bits := Nat.findGreatest_le _

theorem lastExact_lt_of_exceeds {n : UInt64} (h : Int64.maxValue.toInt < n.toNat) : lastExact .u64 < n.toNat := by
  have hmax := Int64.toInt_maxValue
  have hle := lastExact_le .u64
  simp only [bits] at hle
  omega

end Width

namespace OverflowPolicy

def checkedAnswer (w : Width) (n : ℕ) : Except Error (Word w) :=
  (error.ending w n).result n (error.word w (error.lastPlace w n))

theorem checkedAnswer_of_le {w : Width} {n : ℕ} (h : n ≤ w.lastExact) : checkedAnswer w n = .ok (error.word w n) := by
  rw [checkedAnswer, ending_result error w fun _ => h, word_lastPlace error w fun _ => h]

theorem checkedAnswer_of_lt {w : Width} {n : ℕ} (h : w.lastExact < n) :
    checkedAnswer w n = .error (.overflow n w) := by
  rw [checkedAnswer, ending_of_exceeds h]
  rfl

end OverflowPolicy

open OverflowPolicy

theorem Settings.advance_result {w : Width} {σ : Type} (c : Settings) (hc : c.overflow = .error) (obs : Observer w σ)
    (s : σ) (log : List Event) (k : ℕ) :
    (c.advance obs (k + 1) k 2 .zero .one s log).result = checkedAnswer w (k + 1) := by
  have hcourse := c.courseTo_eq w (k + 1)
  rw [courseTo, hc] at hcourse
  rw [advance_eq_replay, hcourse]
  rfl

theorem fibonacci_result (n : UInt64) : (fibonacci n).result = checkedAnswer .u64 n.toNat := by
  unfold fibonacci
  split_ifs with hn
  · have hmax := Int64.toInt_maxValue
    have hread : (Int64.ofNat n.toNat).toInt = n.toNat := Int64.toInt_ofNat_of_lt (by omega)
    have hadmits : ({} : Settings).Admits (Int64.ofNat n.toNat) := ⟨by omega, by rintro _ ⟨⟩⟩
    rw [Settings.compute, Settings.computeWith_result _ _ _ hadmits, hread]
    rfl
  · exact (checkedAnswer_of_lt (Width.lastExact_lt_of_exceeds (by omega))).symm

theorem fibonacci_exact (n : UInt64) :
    (Nat.fib n.toNat < 2 ^ 64 →
      ∃ v : Word .u64, (fibonacci n).result = .ok v ∧ v.toInt = Nat.fib n.toNat) ∧
    (2 ^ 64 ≤ Nat.fib n.toNat → (fibonacci n).result = .error (.overflow n.toNat .u64)) ∧
    (Int64.maxValue.toInt < n.toNat → ∀ (σ : Type) (obs : Observer .u64 σ) (s : σ) (log : List Event),
      (({} : Settings).advance obs n.toNat (n.toNat - 1) 2 .zero .one s log).result = .error (.overflow n.toNat .u64) ∧
      (fibonacci n).result = (({} : Settings).advance obs n.toNat (n.toNat - 1) 2 .zero .one s log).result) ∧
    ∀ i reason, (fibonacci n).result ≠ .error (.invalidInput i reason) := by
  have hgreatest : Width.greatest .u64 = 2 ^ 64 - 1 := by decide
  rw [fibonacci_result]
  refine ⟨?_, ?_, ?_, ?_⟩
  · intro hfit
    have hle : (Nat.fib n.toNat : ℤ) ≤ Width.greatest .u64 := by omega
    have hplace := (Width.fib_le_greatest_iff .u64 _).mp hle
    refine ⟨_, checkedAnswer_of_le hplace, ?_⟩
    rw [toInt_word _ _ _ fun _ => hplace, value_of_le _ _ hle]
  · intro hover
    apply checkedAnswer_of_lt
    by_contra hplace
    have hle := (Width.fib_le_greatest_iff .u64 n.toNat).mpr (by omega)
    omega
  · intro hn σ obs s log
    have hlt := Width.lastExact_lt_of_exceeds hn
    have hplace : n.toNat - 1 + 1 = n.toNat := by omega
    have hloop := Settings.advance_result {} rfl obs s log (n.toNat - 1)
    rw [hplace] at hloop
    rw [hloop]
    exact ⟨checkedAnswer_of_lt hlt, rfl⟩
  · intro i reason hinvalid
    rcases le_or_gt n.toNat (Width.lastExact .u64) with hle | hlt
    · rw [checkedAnswer_of_le hle] at hinvalid
      cases hinvalid
    · rw [checkedAnswer_of_lt hlt] at hinvalid
      cases hinvalid

theorem fibonacci_exact_at_ends :
    (∃ v : Word .u64, (fibonacci 93).result = .ok v ∧ v.toInt = 12200160415121876738) ∧
    (fibonacci 94).result = .error (.overflow 94 .u64) ∧
    (fibonacci 9223372036854775808).result = .error (.overflow 9223372036854775808 .u64) ∧
    (fibonacci 18446744073709551615).result = .error (.overflow 18446744073709551615 .u64) := by
  obtain ⟨hlast, -⟩ := fibonacci_exact 93
  obtain ⟨-, hfirst, -⟩ := fibonacci_exact 94
  have hbeyond (n : UInt64) (hn : Int64.maxValue.toInt < n.toNat) :
      (fibonacci n).result = .error (.overflow n.toNat .u64) := by
    obtain ⟨-, -, hloop, -⟩ := fibonacci_exact n
    obtain ⟨hanswer, hsame⟩ := hloop hn Unit .silent () []
    exact hsame.trans hanswer
  exact ⟨hlast (by decide +kernel), hfirst (by decide +kernel), hbeyond 9223372036854775808 (by decide),
    hbeyond 18446744073709551615 (by decide)⟩

end BoundedFibonacci
