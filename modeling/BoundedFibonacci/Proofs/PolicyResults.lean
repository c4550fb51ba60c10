import BoundedFibonacci.Proofs.ClosedForm

namespace BoundedFibonacci

variable {w : Width} {σ : Type}

namespace Word

def saturatingShift (p : Word w × Word w) : Word w × Word w := (p.2, p.1.saturatingAdd p.2)

def saturatingLoop (w : Width) : ℕ → Word w
  | 0 => .zero
  | k + 1 => (saturatingShift^[k] (.zero, .one)).2

theorem saturatingShift_iterate (w : Width) (k : ℕ) :
    saturatingShift^[k] (.zero, .one) =
      (OverflowPolicy.saturating.word w k, OverflowPolicy.saturating.word w (k + 1)) := by
  induction k with
  | zero => rw [OverflowPolicy.word_zero, OverflowPolicy.word_one]; rfl
  | succ k ih =>
    rw [Function.iterate_succ_apply', ih, saturatingShift, OverflowPolicy.saturatingAdd_word]

theorem saturatingLoop_eq (w : Width) (n : ℕ) : saturatingLoop w n = OverflowPolicy.saturating.word w n := by
  cases n with
  | zero => exact (OverflowPolicy.word_zero _ w).symm
  | succ k => rw [saturatingLoop, saturatingShift_iterate]

end Word

namespace Settings

theorem computeWith_error_exact (c : Settings) (obs : Observer w σ) (s : σ) (n : Int64)
    (hc : c.overflow = .error) (hn : c.Admits n) :
    ((Nat.fib n.toInt.toNat : ℤ) ≤ w.greatest →
        ∃ v : Word w, (c.computeWith obs s n).result = .ok v ∧ v.toInt = Nat.fib n.toInt.toNat) ∧
      (w.greatest < Nat.fib n.toInt.toNat →
        (c.computeWith obs s n).result = .error (.overflow n.toInt.toNat w)) ∧
      (c.compute w n).result = (c.computeWith obs s n).result := by
  refine ⟨?_, ?_, ?_⟩
  · intro hfit
    have hle : n.toInt.toNat ≤ w.lastExact := (w.fib_le_greatest_iff _).mp hfit
    refine ⟨_, c.computeWith_result_of_fits obs s hn fun _ => hle, ?_⟩
    rw [OverflowPolicy.toInt_word _ w _ fun _ => hle, OverflowPolicy.value_of_le _ w hfit]
  · intro hover
    apply c.computeWith_result_of_overflow obs s hn hc
    by_contra hle
    have hfit := (w.fib_le_greatest_iff n.toInt.toNat).mpr (by omega)
    omega
  · rw [compute, c.computeWith_result .silent () hn, c.computeWith_result obs s hn]

theorem computeWith_error_at_u8_boundary :
    (∃ v : Word .u8, (({ maxIndex := some 14 } : Settings).computeWith .recorder #[] 13).result = .ok v ∧
      v.toInt = 233) ∧
    (({ maxIndex := some 14 } : Settings).computeWith (w := .u8) .recorder #[] 14).result =
      .error (.overflow 14 .u8) := by
  obtain ⟨hfits, -⟩ := computeWith_error_exact { maxIndex := some 14 } .recorder #[] 13 rfl (by decide)
  obtain ⟨-, hover, -⟩ := computeWith_error_exact { maxIndex := some 14 } .recorder #[] 14 rfl (by decide)
  exact ⟨hfits (by decide), hover (by decide)⟩

theorem computeWith_saturating_exact (c : Settings) (obs : Observer w σ) (s : σ) (n : Int64)
    (hc : c.overflow = .saturating) (hn : c.Admits n) :
    ∃ v : Word w, (c.computeWith obs s n).result = .ok v ∧
      v.toInt = min (Nat.fib n.toInt.toNat : ℤ) w.greatest ∧ v = Word.saturatingLoop w n.toInt.toNat := by
  have hfit : c.overflow = .error → n.toInt.toNat ≤ w.lastExact := by simp [hc]
  refine ⟨_, c.computeWith_result_of_fits obs s hn hfit, ?_, ?_⟩
  · rw [OverflowPolicy.toInt_word _ w _ hfit, hc]
    rfl
  · rw [Word.saturatingLoop_eq, hc]

theorem computeWith_saturating_past_i8 :
    ∃ v : Word .i8, (({ overflow := .saturating } : Settings).computeWith .counter 0 200).result = .ok v ∧
      v.toInt = 127 ∧ v = Word.saturatingLoop .i8 200 := by
  obtain ⟨v, hv, hmin, hloop⟩ :=
    computeWith_saturating_exact (w := .i8) { overflow := .saturating } .counter 0 200 rfl (by decide)
  exact ⟨v, hv, hmin.trans (by decide +kernel), hloop⟩

theorem computeWith_wrapping_congruent (c : Settings) (obs : Observer w σ) (s : σ) (n : Int64)
    (hc : c.overflow = .wrapping) (hn : c.Admits n) :
    ∃ v : Word w, (c.computeWith obs s n).result = .ok v ∧
      v.toInt ≡ Nat.fib n.toInt.toNat [ZMOD 2 ^ w.bits] ∧
      (if w.signed then -2 ^ (w.bits - 1) ≤ v.toInt ∧ v.toInt < 2 ^ (w.bits - 1)
        else 0 ≤ v.toInt ∧ v.toInt < 2 ^ w.bits) ∧
      ∀ u : Word w, u.toInt ≡ Nat.fib n.toInt.toNat [ZMOD 2 ^ w.bits] → u = v := by
  have hfit : c.overflow = .error → n.toInt.toNat ≤ w.lastExact := by simp [hc]
  have hcongr : (c.overflow.word w n.toInt.toNat).toInt ≡ Nat.fib n.toInt.toNat [ZMOD 2 ^ w.bits] := by
    rw [OverflowPolicy.toInt_word _ w _ hfit, hc]
    exact w.wrap_modEq _
  refine ⟨_, c.computeWith_result_of_fits obs s hn hfit, hcongr, Word.toInt_range _, ?_⟩
  intro u hu
  exact Word.eq_of_modEq (hu.trans hcongr.symm)

theorem computeWith_wrapping_past_i64 :
    (({ overflow := .wrapping } : Settings).computeWith (w := .i64) .silent () 93).result =
      .ok (.ofInt .i64 (-6246583658587674878)) := by
  obtain ⟨v, hv, -, -, hunique⟩ :=
    computeWith_wrapping_congruent (w := .i64) { overflow := .wrapping } .silent () 93 rfl (by decide)
  rw [hv, hunique (.ofInt .i64 (-6246583658587674878)) (by decide +kernel)]

end Settings

end BoundedFibonacci
