import BoundedFibonacci.Proofs.EventLog

namespace BoundedFibonacci

variable {w : Width} {σ : Type}

namespace Error

-- The reasons differ within their first two characters, whatever width or bound they name.
def reasonStart : Error → List Char
  | .invalidInput _ reason => reason.toList.take 2
  | _ => []

@[simp]
theorem reasonStart_negativeIndex (i : ℤ) : (negativeIndex i).reasonStart = ['n', 'e'] := by
  simp [negativeIndex, reasonStart]

@[simp]
theorem reasonStart_notRepresentable (i : ℤ) (w : Width) : (notRepresentable i w).reasonStart = ['n', 'o'] := by
  simp [notRepresentable, reasonStart, String.toList_append]

@[simp]
theorem reasonStart_exceedsMaxIndex (i : ℤ) (bound : UInt64) :
    (exceedsMaxIndex i bound).reasonStart = ['e', 'x'] := by
  simp [exceedsMaxIndex, reasonStart, String.toList_append]

theorem ne_of_reasonStart_ne {e f : Error} (h : e.reasonStart ≠ f.reasonStart) : e ≠ f := fun he => h (he ▸ rfl)

theorem exceedsMaxIndex_inj {i j : ℤ} {a b : UInt64} (h : exceedsMaxIndex i a = exceedsMaxIndex j b) : a = b := by
  injection h with _ hreason
  have htext : toString a.toNat = toString b.toNat := (String.append_right_inj _).mp hreason
  rw [Nat.toString_eq_ofList_toDigits, Nat.toString_eq_ofList_toDigits, String.ofList_inj] at htext
  have hvalue := congrArg (fun digits => Nat.ofDigitChars 10 digits 0) htext
  simp only [Nat.ofDigitChars_ten_toDigits] at hvalue
  exact UInt64.toNat_inj.mp hvalue

end Error

namespace Settings

inductive Outcome (c : Settings) (n : Int64) : Except Error (Word w) → Prop
  | rejected (hn : n.toInt < 0) (hc : c.negative = .reject) : Outcome c n (.error (.negativeIndex n.toInt))
  | passed (v : Word w) (hn : n.toInt < 0) (hc : c.negative = .passThrough) (hv : v.toInt = n.toInt) :
      Outcome c n (.ok v)
  | unrepresentable (hn : n.toInt < 0) (hc : c.negative = .passThrough) (hv : ∀ v : Word w, v.toInt ≠ n.toInt) :
      Outcome c n (.error (.notRepresentable n.toInt w))
  | exceeded (bound : UInt64) (hn : 0 ≤ n.toInt) (hb : c.maxIndex = some bound) (hlt : bound.toNat < n.toInt) :
      Outcome c n (.error (.exceedsMaxIndex n.toInt bound))
  | overflowed (h : c.Admits n) (hc : c.overflow = .error) (hlt : w.lastExact < n.toInt.toNat) :
      Outcome c n (.error (.overflow n.toInt.toNat w))
  | computed (v : Word w) (h : c.Admits n) : Outcome c n (.ok v)

theorem outcome_of_negative (c : Settings) {n : Int64} (hn : n.toInt < 0) : c.Outcome n (c.negative.answer w n) := by
  cases hc : c.negative with
  | reject => exact .rejected hn hc
  | passThrough =>
    unfold NegativePolicy.answer
    cases hv : Word.ofIndex? w n with
    | some v => exact .passed v hn hc (Word.ofInt?_eq_some_iff.mp hv)
    | none =>
      refine .unrepresentable hn hc ?_
      intro v hread
      have hsome : Word.ofIndex? w n = some v := Word.ofInt?_eq_some_iff.mpr hread
      rw [hv] at hsome
      cases hsome

theorem outcome_of_admits (c : Settings) (obs : Observer w σ) (s : σ) {n : Int64} (h : c.Admits n) :
    c.Outcome n (c.computeWith obs s n).result := by
  by_cases hfit : c.overflow = .error → n.toInt.toNat ≤ w.lastExact
  · rw [c.computeWith_result_of_fits obs s h hfit]
    exact .computed _ h
  · obtain ⟨hc, hlt⟩ := Classical.not_imp.mp hfit
    rw [c.computeWith_result_of_overflow obs s h hc (not_le.mp hlt)]
    exact .overflowed h hc (not_le.mp hlt)

theorem computeWith_outcome (c : Settings) (obs : Observer w σ) (s : σ) (n : Int64) :
    c.Outcome n (c.computeWith obs s n).result := by
  by_cases h : c.Admits n
  · exact c.outcome_of_admits obs s h
  · rcases c.not_admits_cases h with hn | ⟨hn, bound, hb, hlt⟩
    · rw [c.computeWith_of_negative obs s hn]
      exact c.outcome_of_negative hn
    · rw [c.computeWith_of_exceeds obs s hn hb hlt]
      exact .exceeded bound hn hb hlt

section

variable {c : Settings} {n : Int64} {r : Except Error (Word w)}

theorem Outcome.negativeIndex (ho : c.Outcome n r) {i : ℤ} (hr : r = .error (.negativeIndex i)) :
    n.toInt < 0 ∧ c.negative = .reject := by
  cases ho with
  | rejected hn hc => exact ⟨hn, hc⟩
  | unrepresentable => exact absurd (Except.error.inj hr) (Error.ne_of_reasonStart_ne (by simp))
  | exceeded => exact absurd (Except.error.inj hr) (Error.ne_of_reasonStart_ne (by simp))
  | overflowed => cases hr
  | passed | computed => cases hr

theorem Outcome.passThrough (ho : c.Outcome n r) (hn : n.toInt < 0) (hc : c.negative = .passThrough) :
    (∀ v, r = .ok v ↔ v.toInt = n.toInt) ∧
      (r = .error (.notRepresentable n.toInt w) ↔ ∀ v : Word w, v.toInt ≠ n.toInt) := by
  cases ho with
  | rejected _ hreject =>
    rw [hc] at hreject
    cases hreject
  | passed v _ _ hv =>
    refine ⟨?_, by simpa using ⟨v, hv⟩⟩
    intro u
    constructor
    · rintro ⟨⟩
      exact hv
    · intro hu
      rw [Word.eq_of_toInt_eq (hv.trans hu.symm)]
  | unrepresentable _ _ hv => simp [hv]
  | exceeded _ hpos => omega
  | overflowed h | computed _ h => exact absurd h.1 (by omega)

theorem Outcome.exceedsMaxIndex (ho : c.Outcome n r) {i : ℤ} {bound : UInt64}
    (hr : r = .error (.exceedsMaxIndex i bound)) : 0 ≤ n.toInt ∧ c.maxIndex = some bound ∧ bound.toNat < n.toInt := by
  cases ho with
  | rejected => exact absurd (Except.error.inj hr) (Error.ne_of_reasonStart_ne (by simp))
  | unrepresentable => exact absurd (Except.error.inj hr) (Error.ne_of_reasonStart_ne (by simp))
  | exceeded bound' hn hb hlt =>
    obtain rfl := Error.exceedsMaxIndex_inj (Except.error.inj hr)
    exact ⟨hn, hb, hlt⟩
  | overflowed => cases hr
  | passed | computed => cases hr

theorem Outcome.error_cases (ho : c.Outcome n r) {e : Error} (hr : r = .error e) :
    (¬ c.Admits n ∧ ∃ reason, e = .invalidInput n.toInt reason) ∨
      (c.Admits n ∧ c.overflow = .error ∧ w.lastExact < n.toInt.toNat ∧ e = .overflow n.toInt.toNat w) := by
  cases ho with
  | passed | computed => cases hr
  | rejected hn | unrepresentable hn =>
    cases hr
    exact .inl ⟨fun h => absurd h.1 (by omega), _, rfl⟩
  | exceeded bound hn hb hlt =>
    cases hr
    refine .inl ⟨fun h => ?_, _, rfl⟩
    have hle := h.2 bound hb
    omega
  | overflowed h hc hlt =>
    cases hr
    exact .inr ⟨h, hc, hlt, rfl⟩

end

theorem transcript_of_trace_eq {c d : Settings} (h : c.trace = d.trace) (obs : Observer w σ) (s : σ)
    (steps : List (Step w)) : c.transcript obs s steps = d.transcript obs s steps := by
  induction steps generalizing s with
  | nil => rfl
  | cons step steps ih => simp only [transcript, stepEvents, h, ih]

theorem computeWith_without_bound (c : Settings) (obs : Observer w σ) (s : σ) {n : Int64}
    (h : ∀ bound ∈ c.maxIndex, n.toInt ≤ bound.toNat) :
    c.computeWith obs s n = ({ c with maxIndex := none } : Settings).computeWith obs s n := by
  by_cases hn : n.toInt < 0
  · rw [computeWith_of_negative c obs s hn, computeWith_of_negative _ obs s hn]
  · have hc : c.Admits n := ⟨not_lt.mp hn, h⟩
    have hd : ({ c with maxIndex := none } : Settings).Admits n := ⟨not_lt.mp hn, by simp⟩
    have htrace : c.trace = ({ c with maxIndex := none } : Settings).trace := rfl
    rw [computeWith_eq_replay c obs s hc, computeWith_eq_replay _ obs s hd, courseTo_eq, courseTo_eq, replay, replay,
      transcript_of_trace_eq htrace]

theorem computeWith_error_domain (c : Settings) (obs : Observer w σ) (s : σ) (n : Int64) :
    ((c.computeWith obs s n).result = .error (.invalidInput n.toInt "negative index") ↔
      n.toInt < 0 ∧ c.negative = .reject) ∧
    (n.toInt < 0 → c.negative = .passThrough →
      (∀ v, (c.computeWith obs s n).result = .ok v ↔ v.toInt = n.toInt) ∧
      ((c.computeWith obs s n).result = .error (.invalidInput n.toInt ("not representable in " ++ w.name)) ↔
        ∀ v : Word w, v.toInt ≠ n.toInt) ∧
      ((∃ v : Word w, v.toInt = n.toInt) ↔ w.least ≤ n.toInt ∧ n.toInt ≤ w.greatest)) ∧
    (∀ bound : UInt64,
      (c.computeWith obs s n).result = .error (.invalidInput n.toInt ("exceeds max_index " ++ toString bound)) ↔
        0 ≤ n.toInt ∧ c.maxIndex = some bound ∧ bound.toNat < n.toInt) ∧
    (0 ≤ n.toInt → (∀ bound ∈ c.maxIndex, n.toInt ≤ bound.toNat) →
      c.computeWith obs s n = ({ c with maxIndex := none } : Settings).computeWith obs s n ∧
      ∀ e, (c.computeWith obs s n).result = .error e → e = .overflow n.toInt.toNat w ∧ c.overflow = .error) ∧
    (∀ bound : UInt64, 2 ^ 63 - 1 ≤ bound.toNat →
      ({ c with maxIndex := some bound } : Settings).computeWith obs s n =
        ({ c with maxIndex := none } : Settings).computeWith obs s n) ∧
    (∀ reason, (c.computeWith obs s n).result ≠ .error (.config reason) ∧
      (c.computeWith obs s n).result ≠ .error (.io reason)) ∧
    (∀ i reason, (c.computeWith obs s n).result = .error (.invalidInput i reason) →
      i = n.toInt ∧ (c.computeWith obs s n).state = s ∧
        (c.computeWith obs s n).log = [.started n.toInt w c.overflow]) := by
  have ho := c.computeWith_outcome obs s n
  refine ⟨⟨ho.negativeIndex, ?_⟩, ?_, ?_, ?_, ?_, ?_, ?_⟩
  · rintro ⟨hn, hc⟩
    rw [c.computeWith_of_negative obs s hn, hc]
    rfl
  · intro hn hc
    obtain ⟨hok, herror⟩ := ho.passThrough hn hc
    exact ⟨hok, herror, Word.exists_toInt_eq_iff⟩
  · intro bound
    refine ⟨ho.exceedsMaxIndex, ?_⟩
    rintro ⟨hn, hb, hlt⟩
    rw [c.computeWith_of_exceeds obs s hn hb hlt]
    rfl
  · intro hn hb
    refine ⟨c.computeWith_without_bound obs s hb, ?_⟩
    intro e he
    obtain ⟨hrefused, -⟩ | ⟨-, hc, -, rfl⟩ := ho.error_cases he
    · exact absurd ⟨hn, hb⟩ hrefused
    · exact ⟨rfl, hc⟩
  · intro bound hbound
    apply computeWith_without_bound { c with maxIndex := some bound }
    rintro _ ⟨⟩
    -- No index is above the signed range, so the bound is never passed.
    have hlt := n.toInt_lt
    omega
  · intro reason
    refine ⟨fun he => ?_, fun he => ?_⟩
    all_goals
      obtain ⟨-, _, hrefused⟩ | ⟨-, -, -, hover⟩ := ho.error_cases he
      · cases hrefused
      · cases hover
  · intro i reason he
    obtain ⟨hrefused, _, hinput⟩ | ⟨-, -, -, hover⟩ := ho.error_cases he
    · injection hinput with hi
      rw [c.computeWith_eq_of_not_admits obs s hrefused]
      exact ⟨hi, rfl, rfl⟩
    · cases hover

theorem computeWith_error_domain_i8 :
    (∃ v : Word .i8, v.toInt = -128 ∧
      (({ negative := .passThrough, maxIndex := some 3 } : Settings).computeWith .recorder #[] (-128)).result = .ok v) ∧
    (({ negative := .passThrough, maxIndex := some 3 } : Settings).computeWith (w := .i8) .recorder #[]
      Int64.minValue).result = .error (.invalidInput (-9223372036854775808) "not representable in i8") ∧
    (({ negative := .passThrough, maxIndex := some 3 } : Settings).computeWith (w := .i8) .recorder #[] 12).result =
      .error (.invalidInput 12 "exceeds max_index 3") ∧
    (({ negative := .passThrough, maxIndex := some 3 } : Settings).computeWith (w := .i8) .recorder #[] 12).state = #[] ∧
    (({ maxIndex := some 9223372036854775807 } : Settings).computeWith (w := .i8) .recorder #[] 12).result =
      .error (.overflow 12 .i8) := by
  have hdomain (n : Int64) := computeWith_error_domain (w := .i8)
    { negative := .passThrough, maxIndex := some 3 } .recorder #[] n
  obtain ⟨-, hleast, -⟩ := hdomain (-128)
  obtain ⟨hok, -, hrange⟩ := hleast (by decide) rfl
  obtain ⟨v, hv⟩ := hrange.mpr (by decide)
  obtain ⟨-, hlow, -⟩ := hdomain Int64.minValue
  obtain ⟨-, herror, -⟩ := hlow (by decide) rfl
  obtain ⟨-, -, hexceeds, -, -, -, huntouched⟩ := hdomain 12
  have hrefused := (hexceeds 3).mpr (by decide)
  obtain ⟨-, hstate, -⟩ := huntouched _ _ hrefused
  obtain ⟨-, -, -, -, hbound, -⟩ := computeWith_error_domain (w := .i8) {} .recorder #[] 12
  refine ⟨⟨v, hv, (hok v).mpr hv⟩, herror.mpr ?_, hrefused, hstate, ?_⟩
  · intro u hu
    have hl := u.least_le_toInt
    rw [hu] at hl
    exact absurd hl (by decide)
  · rw [hbound 9223372036854775807 (by decide)]
    rfl

end Settings

end BoundedFibonacci
