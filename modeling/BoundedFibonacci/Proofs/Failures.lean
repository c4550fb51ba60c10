import Mathlib.Data.Option.Basic
import Mathlib.Data.Option.Defs

namespace Except

variable {α β γ ε ε' : Type}

section Results

variable {x : Except ε α} {a : α}

theorem toOption_eq_some_iff : x.toOption = some a ↔ x = .ok a := by
  cases x <;> simp [Except.toOption]

theorem toOption_eq_iff {y : Except ε' α} : x.toOption = y.toOption ↔ ∀ a, x = .ok a ↔ y = .ok a := by
  simp only [← toOption_eq_some_iff]
  exact Option.ext_iff

theorem toOption_map {f : α → β} : (x.map f).toOption = x.toOption.map f := by
  cases x <;> rfl

theorem toOption_map_congr {y : Except ε' α} {f : α → β} (h : x.toOption = y.toOption) :
    (x.map f).toOption = (y.map f).toOption := by
  rw [toOption_map, toOption_map, h]

theorem map_eq_ok_iff {f : α → β} {b : β} : x.map f = .ok b ↔ ∃ a, x = .ok a ∧ f a = b := by
  cases x <;> simp [Except.map]

theorem mapError_eq_ok_iff {f : ε → ε'} : x.mapError f = .ok a ↔ x = .ok a := by
  cases x <;> simp [Except.mapError]

end Results

section Folds

variable {f : α → β → Except ε α} {xs : List β} {a b : α} {x : β}

theorem foldlM_cons_of_ok (h : f a x = .ok b) (xs : List β) : (x :: xs).foldlM f a = xs.foldlM f b := by
  rw [List.foldlM_cons, h]
  rfl

theorem exists_of_foldlM_cons (h : (x :: xs).foldlM f a = .ok b) : ∃ c, f a x = .ok c ∧ xs.foldlM f c = .ok b := by
  rw [List.foldlM_cons] at h
  cases hx : f a x with
  | error e =>
    rw [hx] at h
    cases h
  | ok c =>
    rw [hx] at h
    exact ⟨c, rfl, h⟩

theorem exists_step_of_foldlM (h : xs.foldlM f a = .ok b) (hx : x ∈ xs) : ∃ c d, f c x = .ok d := by
  induction xs generalizing a with
  | nil => cases hx
  | cons y xs ih =>
    obtain ⟨c, hy, hrest⟩ := exists_of_foldlM_cons h
    rcases List.mem_cons.mp hx with rfl | hx
    · exact ⟨a, c, hy⟩
    · exact ih hrest hx

theorem foldlM_total (h : ∀ x ∈ xs, ∀ a, ∃ b, f a x = .ok b) (a : α) : ∃ b, xs.foldlM f a = .ok b := by
  induction xs generalizing a with
  | nil => exact ⟨a, rfl⟩
  | cons x xs ih =>
    obtain ⟨hx, hxs⟩ := List.forall_mem_cons.mp h
    obtain ⟨b, hb⟩ := hx a
    rw [foldlM_cons_of_ok hb]
    exact ih hxs b

-- The property takes the place of the fold: every result has it, it rules out all failures, and one thing alone has it.
theorem foldlM_eq_ok_iff {P : α → Prop} (hsound : ∀ b, xs.foldlM f a = .ok b → P b)
    (htotal : P b → ∀ x ∈ xs, ∀ c, ∃ d, f c x = .ok d) (hunique : ∀ c, P b → P c → b = c) :
    xs.foldlM f a = .ok b ↔ P b := by
  constructor
  · exact hsound b
  · intro hb
    obtain ⟨c, hc⟩ := foldlM_total (htotal hb) a
    rw [hc, hunique c hb (hsound c hc)]

theorem foldlM_map {g : γ → β → Except ε γ} {φ : α → γ} (h : ∀ x ∈ xs, ∀ a, g (φ a) x = (f a x).map φ) (a : α) :
    xs.foldlM g (φ a) = (xs.foldlM f a).map φ := by
  induction xs generalizing a with
  | nil => rfl
  | cons x xs ih =>
    obtain ⟨hx, hxs⟩ := List.forall_mem_cons.mp h
    rw [List.foldlM_cons, List.foldlM_cons, hx]
    cases f a x with
    | error e => rfl
    | ok b => exact ih hxs b

theorem foldlM_optional {member : γ → β} (set : Option γ → α) (hnone : set none = a)
    (hsome : ∀ y, f a (member y) = .ok (set (some y))) (y : Option γ) (rest : List β) :
    (y.toList.map member ++ rest).foldlM f a = rest.foldlM f (set y) := by
  cases y with
  | none =>
    rw [hnone]
    rfl
  | some y => exact foldlM_cons_of_ok (hsome y) rest

end Folds

end Except

namespace Option

variable {α β : Type}

theorem Rel.of_mem {R S : α → β → Prop} {o : Option α} {p : Option β} (h : Option.Rel R o p)
    (himp : ∀ a ∈ o, ∀ b ∈ p, R a b → S a b) : Option.Rel S o p := by
  cases h with
  | none => exact .none
  | some h => exact .some (himp _ rfl _ rfl h)

theorem mem_bind_mono {o p : Option α} {f g : α → Option β} (hop : ∀ a ∈ o, a ∈ p)
    (hfg : ∀ a, ∀ b ∈ f a, b ∈ g a) : ∀ b ∈ o.bind f, b ∈ p.bind g := by
  intro b hb
  obtain ⟨a, ha, hab⟩ := Option.mem_bind_iff.mp hb
  exact Option.mem_bind_iff.mpr ⟨a, hop a ha, hfg a b hab⟩

end Option
