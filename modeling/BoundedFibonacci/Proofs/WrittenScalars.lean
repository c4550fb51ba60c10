import BoundedFibonacci.Toml.Statement
import Mathlib.Data.List.Basic

namespace BoundedFibonacci.Toml

inductive Scalar where
  | word (s : String)
  | truth (b : Bool)
  | number (n : ℕ)

namespace Scalar

def text : Scalar → List Char
  | .word s => '\x22' :: (s.toList ++ ['\x22'])
  | .truth b => (toString b).toList
  | .number n => Nat.toDigits 10 n

def value (r : Region) : Scalar → Value
  | .word s => .string r s
  | .truth b => .boolean r b
  | .number n => .integer r (Int64.ofInt n)

def before (x : Scalar) (rest : List Char) : Value := x.value ⟨x.text ++ rest, rest⟩

def Plain : Scalar → Prop
  | .word s => s.toList ≠ [] ∧ ∀ c ∈ s.toList, isTextual c = true ∧ c ≠ '\x22' ∧ c ≠ '\\'
  | .truth _ => True
  | .number n => n ≤ Int64.maxValue.toInt

instance : DecidablePred Plain
  | .word s =>
    haveI := List.decidableBAll (fun c => isTextual c = true ∧ c ≠ '\x22' ∧ c ≠ '\\') s.toList
    inferInstanceAs (Decidable (_ ∧ _))
  | .truth _ => .isTrue trivial
  | .number _ => inferInstanceAs (Decidable (_ ≤ _))

end Scalar

section Numbers

def DigitLine (cs : List Char) : Prop := ∃ ds rest, cs = ds ++ '\n' :: rest ∧ ∀ c ∈ ds, isDecimal c = true

variable {cs r ds rest : List Char} {c d : Char}

theorem ne_of_class {p : Char → Bool} (hd : p d = true) (hc : p c = false) : d ≠ c := by
  rintro rfl
  rw [hd] at hc
  cases hc

theorem isBlank_of_class {p : Char → Bool} (hc : p c = true) (hspace : p ' ' = false) (htab : p '\t' = false) :
    isBlank c = false := by
  simp [isBlank, ne_of_class hc hspace, ne_of_class hc htab]

theorem DigitLine.head (h : DigitLine (c :: r)) : isDecimal c = true ∨ c = '\n' := by
  obtain ⟨ds, rest, heq, hds⟩ := h
  cases ds with
  | nil => exact .inr (List.cons.inj heq).1
  | cons d ds => exact .inl ((List.cons.inj heq).1 ▸ hds d List.mem_cons_self)

theorem DigitLine.tail (h : DigitLine (c :: r)) (hc : isDecimal c = true) : DigitLine r := by
  obtain ⟨ds, rest, heq, hds⟩ := h
  cases ds with
  | nil =>
    rw [(List.cons.inj heq).1] at hc
    exact absurd hc (by decide)
  | cons d ds => exact ⟨ds, rest, (List.cons.inj heq).2, (List.forall_mem_cons.mp hds).2⟩

theorem char?_digitLine (h : DigitLine cs) (hc : isDecimal c = false) (hn : c ≠ '\n') : char? c cs = none := by
  cases cs with
  | nil => rfl
  | cons d r =>
    have hd : d ≠ c := by
      rcases h.head with hdec | hend
      · exact ne_of_class hdec hc
      · exact fun heq => hn (heq ▸ hend)
    simp [char?, hd]

theorem twoDigits?_digitLine {v : ℕ} (h : DigitLine cs) (hv : twoDigits? cs = some (v, r)) : DigitLine r := by
  unfold twoDigits? at hv
  split at hv
  · next a b t =>
    split at hv
    · next hab =>
      rw [Bool.and_eq_true] at hab
      obtain ⟨-, rfl⟩ := Prod.mk.inj (Option.some.inj hv)
      exact (h.tail hab.1).tail hab.2
    · cases hv
  · cases hv

theorem date?_digitLine (h : DigitLine cs) : date? cs = none := by
  unfold date?
  simp only [Option.bind_eq_bind, Option.bind_eq_none_iff]
  rintro ⟨century, r⟩ hr ⟨year, r'⟩ hr' r'' hdash
  have hline := twoDigits?_digitLine (twoDigits?_digitLine h hr) hr'
  rw [char?_digitLine hline (by decide) (by decide)] at hdash
  cases hdash

theorem clock?_digitLine (h : DigitLine cs) : clock? cs = none := by
  unfold clock?
  simp only [Option.bind_eq_bind, Option.bind_eq_none_iff]
  rintro ⟨hour, r⟩ hr r' hcolon
  rw [char?_digitLine (twoDigits?_digitLine h hr) (by decide) (by decide)] at hcolon
  cases hcolon

theorem datetime?_digitLine (h : DigitLine cs) : datetime? cs = none := by
  rw [datetime?, date?_digitLine h, time?, clock?_digitLine h]
  rfl

theorem digitRun_append (hds : ∀ c ∈ ds, isDecimal c = true) :
    digitRun isDecimal false (ds ++ '\n' :: rest) = some (ds, '\n' :: rest) := by
  induction ds with
  | nil => rfl
  | cons d ds ih =>
    obtain ⟨hd, hds⟩ := List.forall_mem_cons.mp hds
    rw [List.cons_append, digitRun, if_pos hd, ih hds]
    rfl

theorem wholeDigits?_append (hds : ∀ c ∈ d :: ds, isDecimal c = true) (hzero : d = '0' → ds = []) :
    wholeDigits? (d :: ds ++ '\n' :: rest) = some (d :: ds, '\n' :: rest) := by
  by_cases hd : d = '0'
  · rw [hd, hzero hd]
    rfl
  · have hall : wholeDigits? (d :: ds ++ '\n' :: rest) = digits? isDecimal (d :: ds ++ '\n' :: rest) := by
      unfold wholeDigits?
      split
      · next heq => exact absurd (List.cons.inj heq).1 hd
      · rfl
    obtain ⟨hdec, hds⟩ := List.forall_mem_cons.mp hds
    rw [hall, List.cons_append, digits?, if_pos hdec, digitRun_append hds]
    rfl

theorem valueOfDigits_eq (hds : ∀ c ∈ ds, isDecimal c = true) : valueOfDigits 10 ds = Nat.ofDigitChars 10 ds 0 := by
  unfold valueOfDigits
  rw [Nat.ofDigitChars_eq_foldl]
  apply List.foldl_ext
  intro n c hc
  have hdec := hds c hc
  simp only [isDecimal, Bool.and_eq_true, decide_eq_true_eq] at hdec
  rw [hexDigit?, if_pos hdec, Option.getD_some, Nat.mul_comm]

theorem isDecimal_of_mem_toDigits {n : ℕ} (h : c ∈ Nat.toDigits 10 n) : isDecimal c = true :=
  Nat.isDigit_of_mem_toDigits (by decide) (by decide) h

theorem head?_toDigits_ne_zero {n : ℕ} (h : 0 < n) : (Nat.toDigits 10 n).head? ≠ some '0' := by
  induction n using Nat.strongRecOn with
  | ind n ih =>
    rw [Nat.toDigits_eq_if (by decide)]
    by_cases hn : n < 10
    · rw [if_pos hn]
      simp only [List.head?_cons, ne_eq, Option.some.injEq, Nat.digitChar_eq_zero]
      omega
    · rw [if_neg hn, List.head?_append_of_ne_nil _ Nat.toDigits_ne_nil]
      exact ih (n / 10) (by omega) (by omega)

theorem toDigits_eq_cons (n : ℕ) : ∃ d ds, Nat.toDigits 10 n = d :: ds ∧ (d = '0' → ds = []) := by
  obtain ⟨d, ds, heq⟩ := List.exists_cons_of_ne_nil (Nat.toDigits_ne_nil (b := 10) (n := n))
  refine ⟨d, ds, heq, ?_⟩
  rintro rfl
  by_cases hn : n = 0
  · subst hn
    exact (List.cons.inj heq).2.symm
  · have hhead := head?_toDigits_ne_zero (Nat.pos_of_ne_zero hn)
    rw [heq] at hhead
    exact absurd rfl hhead

theorem sign_of_decimal (hd : isDecimal d = true) : sign (d :: r) = (false, d :: r) := by
  unfold sign
  split
  · next heq => exact absurd (List.cons.inj heq).1 (ne_of_class hd (by decide))
  · next heq => exact absurd (List.cons.inj heq).1 (ne_of_class hd (by decide))
  · rfl

theorem number?_digits (hds : ∀ c ∈ d :: ds, isDecimal c = true) :
    number? (d :: ds ++ '\n' :: rest) = decimal? false (d :: ds ++ '\n' :: rest) := by
  obtain ⟨hd, hds⟩ := List.forall_mem_cons.mp hds
  have hline : DigitLine (ds ++ '\n' :: rest) := ⟨ds, rest, rfl, hds⟩
  -- A second character that would choose another base is neither a digit nor the end of the line.
  have hsecond {c : Char} {t : List Char} (heq : d :: ds ++ '\n' :: rest = '0' :: c :: t) :
      isDecimal c = true ∨ c = '\n' := by
    rw [List.cons_append] at heq
    rw [(List.cons.inj heq).2] at hline
    exact hline.head
  unfold number?
  split
  · next heq => exact absurd (hsecond heq) (by decide)
  · next heq => exact absurd (hsecond heq) (by decide)
  · next heq => exact absurd (hsecond heq) (by decide)
  · rw [List.cons_append, sign_of_decimal hd]
    split
    · next heq => exact absurd (List.cons.inj (Prod.mk.inj heq).2).1 (ne_of_class hd (by decide))
    · next heq => exact absurd (List.cons.inj (Prod.mk.inj heq).2).1 (ne_of_class hd (by decide))
    · next heq =>
      obtain ⟨rfl, rfl⟩ := Prod.mk.inj heq
      rfl

theorem decimal?_toDigits {n : ℕ} (rest : List Char) (hn : n ≤ Int64.maxValue.toInt) :
    decimal? false (Nat.toDigits 10 n ++ '\n' :: rest) = some (.integer (Int64.ofInt n), '\n' :: rest) := by
  have hdec : ∀ c ∈ Nat.toDigits 10 n, isDecimal c = true := fun c hc => isDecimal_of_mem_toDigits hc
  have hvalue : valueOfDigits 10 (Nat.toDigits 10 n) = n := by
    rw [valueOfDigits_eq hdec, Nat.ofDigitChars_ten_toDigits]
  have hfit : Number.ofInt? n = some (.integer (Int64.ofInt n)) := by
    have hmin : Int64.minValue.toInt ≤ 0 := by decide
    rw [Number.ofInt?, if_pos (by omega)]
  obtain ⟨d, ds, heq, hzero⟩ := toDigits_eq_cons n
  rw [heq] at hdec hvalue ⊢
  rw [decimal?, wholeDigits?_append hdec hzero]
  simp [hvalue, hfit]

end Numbers

section Strings

variable {c : Char} {cs r rest : List Char}

theorem lineString?_eq_none (hq : c ≠ '\x22') (hl : c ≠ '\x27') : lineString? (c :: r) = none := by
  unfold lineString?
  split
  · next heq => exact absurd (List.cons.inj heq).1 hq
  · next heq => exact absurd (List.cons.inj heq).1 hl
  · rfl

theorem string?_eq_none (hq : c ≠ '\x22') (hl : c ≠ '\x27') : string? (c :: r) = none := by
  unfold string?
  split
  · next heq => exact absurd (List.cons.inj heq).1 hq
  · next heq => exact absurd (List.cons.inj heq).1 hl
  · exact lineString?_eq_none hq hl

theorem basicLine_append (h : ∀ c ∈ cs, isTextual c = true ∧ c ≠ '\x22' ∧ c ≠ '\\') :
    basicLine .nothing (cs ++ '\x22' :: rest) = some (cs, rest) := by
  induction cs with
  | nil => rfl
  | cons c cs ih =>
    obtain ⟨⟨htext, hquote, hslash⟩, hcs⟩ := List.forall_mem_cons.mp h
    have hplain : Pending.plain false c = some (.nothing, [c]) := by simp [Pending.plain, htext, hslash]
    rw [List.cons_append, basicLine, if_neg hquote, hplain]
    dsimp only
    rw [ih hcs]
    rfl

theorem string?_append (hne : cs ≠ []) (h : ∀ c ∈ cs, isTextual c = true ∧ c ≠ '\x22' ∧ c ≠ '\\') :
    string? ('\x22' :: (cs ++ '\x22' :: rest)) = some (cs, rest) := by
  obtain ⟨c, r, rfl⟩ := List.exists_cons_of_ne_nil hne
  obtain ⟨-, hquote, -⟩ := h c List.mem_cons_self
  unfold string?
  split
  · next heq => exact absurd (List.cons.inj (List.cons.inj heq).2).1 hquote
  · next heq => exact absurd (List.cons.inj heq).1 (by decide)
  · exact basicLine_append h

end Strings

namespace Scalar

variable {rest : List Char}

theorem scalar?_number {n : ℕ} (hn : n ≤ Int64.maxValue.toInt) :
    scalar? (Nat.toDigits 10 n ++ '\n' :: rest) =
      some ((number n).before ('\n' :: rest), '\n' :: rest) := by
  have hnumber := decimal?_toDigits rest hn
  have hdec : ∀ c ∈ Nat.toDigits 10 n, isDecimal c = true := fun c hc => isDecimal_of_mem_toDigits hc
  have hdate : datetime? (Nat.toDigits 10 n ++ '\n' :: rest) = none := datetime?_digitLine ⟨_, rest, rfl, hdec⟩
  obtain ⟨d, ds, heq, -⟩ := toDigits_eq_cons n
  rw [before, value, text, heq]
  rw [heq] at hdec hnumber hdate
  have hd : isDecimal d = true := hdec d List.mem_cons_self
  have hstring : string? (d :: ds ++ '\n' :: rest) = none :=
    string?_eq_none (ne_of_class hd (by decide)) (ne_of_class hd (by decide))
  unfold scalar?
  split
  · next h => exact absurd (List.cons.inj h).1 (ne_of_class hd (by decide))
  · next h => exact absurd (List.cons.inj h).1 (ne_of_class hd (by decide))
  · rw [hstring, hdate, number?_digits hdec, hnumber]

theorem scalar?_word {s : String} (hs : (word s).Plain) :
    scalar? ((word s).text ++ rest) = some ((word s).before rest, rest) := by
  have htext : (word s).text ++ rest = '\x22' :: (s.toList ++ '\x22' :: rest) := by simp [text]
  rw [before, value, htext]
  unfold scalar?
  split
  · next h => exact absurd (List.cons.inj h).1 (by decide)
  · next h => exact absurd (List.cons.inj h).1 (by decide)
  · rw [string?_append hs.1 hs.2]
    simp

theorem scalar?_truth (b : Bool) :
    scalar? ((truth b).text ++ rest) = some ((truth b).before rest, rest) := by
  cases b <;> rfl

theorem scalar?_text {x : Scalar} (h : x.Plain) :
    scalar? (x.text ++ '\n' :: rest) = some (x.before ('\n' :: rest), '\n' :: rest) := by
  cases x with
  | word s => exact scalar?_word h
  | truth b => exact scalar?_truth b
  | number n => exact scalar?_number h

theorem text_eq_cons {x : Scalar} (h : x.Plain) :
    ∃ c r, x.text = c :: r ∧ c ≠ '[' ∧ c ≠ '\x7b' ∧ isBlank c = false := by
  cases x with
  | word s => exact ⟨'\x22', _, rfl, by decide, by decide, by decide⟩
  | truth b => cases b <;> exact ⟨_, _, rfl, by decide, by decide, by decide⟩
  | number n =>
    obtain ⟨d, ds, heq, -⟩ := toDigits_eq_cons n
    have hd : isDecimal d = true := isDecimal_of_mem_toDigits (heq ▸ List.mem_cons_self)
    exact ⟨d, ds, heq, ne_of_class hd (by decide), ne_of_class hd (by decide),
      isBlank_of_class hd (by decide) (by decide)⟩

theorem value?_text {x : Scalar} (h : x.Plain) (most fuel depth : ℕ) :
    value? most (fuel + 1) depth (x.text ++ '\n' :: rest) = some (x.before ('\n' :: rest), '\n' :: rest) := by
  obtain ⟨c, r, heq, hopen, hbrace, -⟩ := text_eq_cons h
  rw [← scalar?_text h, heq, List.cons_append, value?]
  · intro t ht
    exact hopen (List.cons.inj ht).1
  · intro t ht
    exact hbrace (List.cons.inj ht).1

end Scalar

end BoundedFibonacci.Toml
