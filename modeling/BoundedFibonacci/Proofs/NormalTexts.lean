import BoundedFibonacci.Proofs.CollectedEntries
import BoundedFibonacci.Proofs.LayeredLoading

namespace BoundedFibonacci

def WritableIndex (x : Option UInt64) : Prop := ∀ n ∈ x, n.toNat ≤ Int64.maxValue.toInt

theorem WritableIndex.or {x y : Option UInt64} (hx : WritableIndex x) (hy : WritableIndex y) :
    WritableIndex (x.or y) := by
  cases x with
  | none => rwa [Option.none_or]
  | some n => rwa [Option.some_or]

namespace Toml

theorem Value.toNatural_le {v : Value} {n : UInt64} (h : v.toNatural = .ok n) : n.toNat ≤ Int64.maxValue.toInt := by
  unfold toNatural at h
  split at h
  · next r m =>
    split_ifs at h
    cases h
    have hle := m.toInt_le
    have hmax := Int64.toInt_maxValue
    rw [UInt64.toNat_ofNat_of_lt' (by rw [UInt64.size]; omega)]
    omega
  · cases h

end Toml

open Toml

theorem Overlay.writable_of_ofToml {text : String} {o : Overlay} (h : Overlay.ofToml text = .ok o) :
    WritableIndex o.maxIndex := by
  intro n hn
  obtain ⟨es, -, hes⟩ := exists_collects_of_ofToml h
  obtain ⟨v, hv⟩ := hes.maxIndex.exists_read hn
  exact Value.toNatural_le hv

example : (Overlay.ofToml "max_index = 0x8000_0000_0000_0000\n").toOption = none := by decide +kernel

namespace Settings

variable {h : Host} {s c : Settings} {o : Overlay}

theorem writable_merge (hs : WritableIndex s.maxIndex) (ho : WritableIndex o.maxIndex) :
    WritableIndex (s.merge o).maxIndex :=
  ho.or hs

theorem writable_default : WritableIndex ({} : Settings).maxIndex := by
  rintro n ⟨⟩

theorem writable_of_ofToml {text : String} (hread : Settings.ofToml text = .ok c) : WritableIndex c.maxIndex := by
  unfold Settings.ofToml at hread
  split at hread
  · next o ho =>
    cases hread
    exact writable_merge writable_default (Overlay.writable_of_ofToml ho)
  · cases hread

theorem writable_of_mergeStores {stores : List Store} (hs : WritableIndex s.maxIndex)
    (hload : (mergeStores h stores s).1 = .ok c) : WritableIndex c.maxIndex := by
  induction stores generalizing s with
  | nil =>
    cases hload
    exact hs
  | cons store stores ih =>
    cases hread : store.read h with
    | error e =>
      rw [mergeStores_of_error hread] at hload
      cases hload
    | ok found =>
      rw [mergeStores_of_ok hread] at hload
      refine ih (writable_merge hs ?_) hload
      cases found with
      | none => exact writable_default
      | some o =>
        obtain ⟨text, -, ho⟩ := Store.read_eq_some_iff.mp hread
        exact Overlay.writable_of_ofToml ho

theorem writable_of_loadLayered {global : Option Store} {project : Store}
    (hload : (loadLayered h global project).1 = .ok c) : WritableIndex c.maxIndex :=
  writable_of_mergeStores writable_default hload

/-- The settings have a text, it reads as these settings, and what it reads as has this text again. -/
structure Savable (c : Settings) : Prop where
  index : ∀ n ∈ c.maxIndex, n.toNat ≤ Int64.maxValue.toInt
  normal : ∃ text, c.toToml = .ok text ∧ Settings.ofToml text = .ok c ∧ (Settings.ofToml text).bind toToml = .ok text

theorem savable_of_writable (hc : WritableIndex c.maxIndex) : c.Savable := by
  have htext : c.toToml = .ok c.toOverlay.render := by
    rw [toToml, Overlay.toToml_of_fits (o := c.toOverlay) hc]
    rfl
  have hread : Settings.ofToml c.toOverlay.render = .ok c := by
    rw [Settings.ofToml, Overlay.ofToml_render (o := c.toOverlay) hc]
    exact congrArg Except.ok c.merge_default_toOverlay
  refine ⟨hc, _, htext, hread, ?_⟩
  rw [hread]
  exact htext

theorem savable_of_texts :
    (∀ g p og op, Overlay.ofToml g = .ok og → Overlay.ofToml p = .ok op →
      ((({} : Settings).merge og).merge op).Savable) ∧
    (∀ text c, Settings.ofToml text = .ok c → c.Savable) ∧
    (∀ h store c, (loadFrom h store).1 = .ok c → c.Savable) ∧
    (∀ h global project c, (loadLayered h global project).1 = .ok c → c.Savable) ∧
    (∀ h c, (load h).1 = .ok c → c.Savable) := by
  refine ⟨?_, ?_, ?_, ?_, ?_⟩
  · intro g p og op hg hp
    have hglobal := writable_merge writable_default (Overlay.writable_of_ofToml hg)
    exact savable_of_writable (writable_merge hglobal (Overlay.writable_of_ofToml hp))
  · intro text c hread
    exact savable_of_writable (writable_of_ofToml hread)
  · intro h store c hload
    exact savable_of_writable (writable_of_loadLayered hload)
  · intro h global project c hload
    exact savable_of_writable (writable_of_loadLayered hload)
  · intro h c hload
    unfold load at hload
    split at hload
    · cases hload
    · exact savable_of_writable (writable_of_loadLayered hload)

theorem savable_of_texts_at_greatest :
    Overlay.ofToml "max_index = 0x7fff_ffff_ffff_ffff\n" = .ok { maxIndex := some 9223372036854775807 } ∧
    Overlay.ofToml "trace = [true]\noverflow.wrapping = []\n" =
      .ok { overflow := some .wrapping, trace := some { enabled := true } } ∧
    ({ overflow := .wrapping, maxIndex := some 9223372036854775807, trace := { enabled := true } } : Settings).Savable ∧
    (loadLayered threeDirectories (some ⟨⟨"/g/fibcalc.toml"⟩⟩) ⟨⟨"/p/fibcalc.toml"⟩⟩).1 =
      .ok { overflow := .saturating, maxIndex := some 500 } ∧
    ({ overflow := .saturating, maxIndex := some 500 } : Settings).Savable := by
  have hglobal : Overlay.ofToml "max_index = 0x7fff_ffff_ffff_ffff\n" = .ok { maxIndex := some 9223372036854775807 } :=
    Except.toOption_eq_some_iff.mp (by decide +kernel)
  have hproject : Overlay.ofToml "trace = [true]\noverflow.wrapping = []\n" =
      .ok { overflow := some .wrapping, trace := some { enabled := true } } :=
    Except.toOption_eq_some_iff.mp (by decide +kernel)
  have hload : (loadLayered threeDirectories (some ⟨⟨"/g/fibcalc.toml"⟩⟩) ⟨⟨"/p/fibcalc.toml"⟩⟩).1 =
      .ok { overflow := .saturating, maxIndex := some 500 } :=
    Except.toOption_eq_some_iff.mp (by decide +kernel)
  obtain ⟨hmerged, -, -, hloaded, -⟩ := savable_of_texts
  exact ⟨hglobal, hproject, hmerged _ _ _ _ hglobal hproject, hload, hloaded _ _ _ _ hload⟩

end Settings

namespace Overlay

theorem toToml_keeps_absence (o : Overlay) :
    ((∀ n ∈ o.maxIndex, n.toNat ≤ Int64.maxValue.toInt) →
      ∃ text es, o.toToml = .ok text ∧ parse? text = some es ∧
        (es.get? "negative").isSome = o.negative.isSome ∧ (es.get? "overflow").isSome = o.overflow.isSome ∧
        (es.get? "max_index").isSome = o.maxIndex.isSome ∧ (es.get? "trace").isSome = o.trace.isSome ∧
        Overlay.ofToml text = .ok o ∧ ∀ c : Settings, (Overlay.ofToml text).map c.merge = .ok (c.merge o)) ∧
    ((∃ n ∈ o.maxIndex, Int64.maxValue.toInt < n.toNat) → o.toToml = .error .outOfRange) := by
  constructor
  · intro hfits
    have hread := ofToml_render hfits
    obtain ⟨es, hparse, hes⟩ := exists_collects_of_ofToml hread
    refine ⟨o.render, es, toToml_of_fits hfits, hparse, hes.negative.isSome_eq, hes.overflow.isSome_eq,
      hes.maxIndex.isSome_eq, hes.trace.isSome_eq, hread, ?_⟩
    intro c
    rw [hread]
    rfl
  · rintro ⟨n, hn, hlt⟩
    exact toToml_of_exceeds hn hlt

theorem toToml_keeps_absence_of_default_trace :
    (∃ text es, ({ trace := some {} } : Overlay).toToml = .ok text ∧ parse? text = some es ∧
      (es.get? "max_index").isSome = false ∧ (es.get? "trace").isSome = true ∧
      Overlay.ofToml text = .ok { trace := some {} }) ∧
    ({ negative := some .reject, maxIndex := some 9223372036854775808 } : Overlay).toToml = .error .outOfRange := by
  obtain ⟨hfits, -⟩ := toToml_keeps_absence { trace := some {} }
  obtain ⟨text, es, htext, hparse, -, -, hmax, htrace, hread, -⟩ := hfits (by rintro n ⟨⟩)
  obtain ⟨-, hexceeds⟩ := toToml_keeps_absence { negative := some .reject, maxIndex := some 9223372036854775808 }
  exact ⟨⟨text, es, htext, hparse, hmax, htrace, hread⟩, hexceeds ⟨_, rfl, by decide⟩⟩

end Overlay

end BoundedFibonacci
