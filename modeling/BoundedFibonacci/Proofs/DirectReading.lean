import BoundedFibonacci.Proofs.Failures
import BoundedFibonacci.Settings.Toml
import Mathlib.Tactic.SplitIfs

/-!
Settings read at once, and settings read as an overlay over the defaults. An entry does to the settings under an overlay
what it does to the overlay, so the two readings stop at the same entry or at none.
-/

namespace BoundedFibonacci

namespace Toml

variable {α β : Type}

theorem Entries.visit_map {f : α → Key → Value → Except Fault α} {g : β → Key → Value → Except Fault β} {φ : α → β}
    (h : ∀ a k v, g (φ a) k v = (f a k v).map φ) (a : α) (es : Entries) :
    Entries.visit g (φ a) es = (Entries.visit f a es).map φ := by
  apply Except.foldlM_map
  intro e _ a
  rw [h]
  cases f a e.1 e.2 <;> rfl

end Toml

open Toml

namespace Settings

theorem addEntry_merge (s : Settings) (o : Overlay) (k : Key) (v : Value) :
    (s.merge o).addEntry k v = (o.addEntry k v).map s.merge := by
  unfold Settings.addEntry Overlay.addEntry
  split_ifs
  · cases v.readAs (Value.toChoice (α := NegativePolicy)) k <;> rfl
  · cases v.readAs (Value.toChoice (α := OverflowPolicy)) k <;> rfl
  · cases v.readAs Value.toNatural k <;> rfl
  · cases v.readAs Value.toTrace k <;> rfl
  · rfl

theorem visit_merge (s : Settings) (o : Overlay) (es : Entries) :
    Entries.visit Settings.addEntry (s.merge o) es = (Entries.visit Overlay.addEntry o es).map s.merge :=
  Entries.visit_map s.addEntry_merge o es

theorem readToml_eq (text : String) : Settings.readToml text = (Overlay.ofToml text).map ({} : Settings).merge := by
  unfold Settings.readToml Overlay.ofToml
  cases parse? text with
  | none => rfl
  | some es =>
    -- The empty overlay changes nothing, so both readings start from the defaults.
    have h := visit_merge {} {} es
    rw [merge_empty] at h
    exact h

theorem ofToml_iff_readToml (text : String) :
    (∀ c, Settings.ofToml text = .ok c ↔ Settings.readToml text = .ok c) ∧
    (∀ e, Settings.ofToml text = .error e ↔
      ∃ p, Settings.readToml text = .error p ∧ e = .config ("invalid compute config: " ++ p.message text)) := by
  rw [readToml_eq, Settings.ofToml]
  cases Overlay.ofToml text with
  | ok o => simp [Except.map]
  | error p =>
    constructor
    · simp [Except.map]
    · intro e
      simp [Except.map, eq_comm]

end Settings

end BoundedFibonacci
