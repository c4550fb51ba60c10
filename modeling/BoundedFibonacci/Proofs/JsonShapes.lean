import BoundedFibonacci.Proofs.DirectReading
import BoundedFibonacci.Proofs.SettingsText
import BoundedFibonacci.Settings.Json

namespace BoundedFibonacci

open Toml

namespace Json

variable {α : Type}

theorem toOption_of_ne_null {read : Json → Except Mismatch α} {v : Json} (h : v ≠ .null) :
    v.toOption read = (read v).map some := by
  cases v with
  | null => exact absurd rfl h
  | boolean | integer | float | string | array | object => rfl

theorem toOption_of_ok {read : Json → Except Mismatch α} {v : Json} {a : α} (h : read v = .ok a) (hv : v ≠ .null) :
    v.toOption read = .ok (some a) := by
  rw [toOption_of_ne_null hv, h]
  rfl

end Json

open Json

namespace Settings

def required : List String := ["negative", "overflow", "trace"]

theorem addMember_null (s : Settings) {key : String} (h : key ∈ required) :
    ∃ m, s.addMember (key, .null) = .error m := by
  simp only [required, List.mem_cons, List.not_mem_nil, or_false] at h
  rcases h with rfl | rfl | rfl <;> exact ⟨_, rfl⟩

theorem addMember_merge (o : Overlay) {m : String × Json} (h : m.1 ∈ required → m.2 ≠ .null) :
    (({} : Settings).merge o).addMember m = (o.addMember m).map ({} : Settings).merge := by
  unfold Settings.addMember Overlay.addMember
  split_ifs with hnegative hoverflow hmax htrace
  · rw [toOption_of_ne_null (h (by simp [required, hnegative]))]
    cases m.2.toChoice (α := NegativePolicy) <;> rfl
  · rw [toOption_of_ne_null (h (by simp [required, hoverflow]))]
    cases m.2.toChoice (α := OverflowPolicy) <;> rfl
  · -- Null unsets the greatest index in both, and merging an unset one leaves the default, which is unset too.
    cases m.2.toOption toNatural with
    | error e => rfl
    | ok x => cases x <;> rfl
  · rw [toOption_of_ne_null (h (by simp [required, htrace]))]
    cases Trace.ofJson m.2 <;> rfl
  · rfl

theorem ofJson_of_filled {members : List (String × Json)} (h : ∀ key ∈ required, (key, Json.null) ∉ members) :
    Settings.ofJson (.object members) = (Overlay.ofJson (.object members)).map ({} : Settings).merge := by
  have hstep : ∀ m ∈ members, ∀ o : Overlay,
      (({} : Settings).merge o).addMember m = (o.addMember m).map ({} : Settings).merge := by
    intro m hm o
    apply addMember_merge
    rintro hkey hnull
    exact h m.1 hkey (hnull ▸ hm)
  have hfold := Except.foldlM_map hstep {}
  rw [merge_empty] at hfold
  exact hfold

theorem filled_of_ofJson {members : List (String × Json)} {c : Settings}
    (h : Settings.ofJson (.object members) = .ok c) : ∀ key ∈ required, (key, Json.null) ∉ members := by
  intro key hkey hmem
  obtain ⟨s, t, hstep⟩ := Except.exists_step_of_foldlM h hmem
  obtain ⟨e, hnull⟩ := s.addMember_null hkey
  rw [hnull] at hstep
  cases hstep

end Settings

theorem Json.toChoice_word {α : Type} [Choice α] [Choice.Lawful α] (a : α) :
    (Json.string (Choice.word a)).toChoice = .ok a := by
  simp only [toChoice, ofWord, Choice.Lawful.ofWord?_word]

theorem Json.toNatural_number (n : UInt64) : (Json.integer n.toNat).toNatural = .ok n := by
  have hlt : (n.toNat : Int) < UInt64.size := by exact_mod_cast n.toNat_lt_size
  rw [toNatural, if_pos ⟨Int.natCast_nonneg _, hlt⟩, Int.toNat_natCast, UInt64.ofNat_toNat]

theorem Trace.ofJson_toJson (t : Trace) : Trace.ofJson t.toJson = .ok t := by
  have henabled : Trace.addMember {} ("enabled", .boolean t.enabled) = .ok { enabled := t.enabled } := rfl
  have hpriority : Trace.addMember { enabled := t.enabled } ("priority", .string (Choice.word t.priority)) = .ok t := by
    simp [Trace.addMember, toChoice_word, Except.map]
  rw [toJson, ofJson, Except.foldlM_cons_of_ok henabled, Except.foldlM_cons_of_ok hpriority]
  rfl

namespace Overlay

inductive TakesMember (o : Overlay) (v : Json) : String → Overlay → Prop
  | negative {x : Option NegativePolicy} (hv : v.toOption toChoice = .ok x) :
    TakesMember o v "negative" { o with negative := x }
  | overflow {x : Option OverflowPolicy} (hv : v.toOption toChoice = .ok x) :
    TakesMember o v "overflow" { o with overflow := x }
  | maxIndex {x : Option UInt64} (hv : v.toOption toNatural = .ok x) :
      TakesMember o v "max_index" { o with maxIndex := x }
  | trace {x : Option Trace} (hv : v.toOption Trace.ofJson = .ok x) : TakesMember o v "trace" { o with trace := x }

theorem addMember_of_takes {o o' : Overlay} {v : Json} {name : String} (h : o.TakesMember v name o') :
    o.addMember (name, v) = .ok o' := by
  cases h with
  | negative hv | overflow hv | maxIndex hv | trace hv => simp [addMember, hv, Except.map]

theorem ofJson_toJson (o : Overlay) : Overlay.ofJson o.toJson = .ok o := by
  rw [toJson, ofJson, List.append_assoc, List.append_assoc, ← List.append_nil (o.trace.toList.map _)]
  have hmax (o : Overlay) (n : UInt64) :
      o.addMember ("max_index", .integer n.toNat) = .ok { o with maxIndex := some n } :=
    addMember_of_takes (.maxIndex (toOption_of_ok (toNatural_number n) (by simp)))
  have hnegative (o : Overlay) (x : NegativePolicy) :
      o.addMember ("negative", .string (Choice.word x)) = .ok { o with negative := some x } :=
    addMember_of_takes (.negative (toOption_of_ok (toChoice_word x) (by simp)))
  have hoverflow (o : Overlay) (x : OverflowPolicy) :
      o.addMember ("overflow", .string (Choice.word x)) = .ok { o with overflow := some x } :=
    addMember_of_takes (.overflow (toOption_of_ok (toChoice_word x) (by simp)))
  have htrace (o : Overlay) (t : Trace) : o.addMember ("trace", t.toJson) = .ok { o with trace := some t } :=
    addMember_of_takes (.trace (toOption_of_ok t.ofJson_toJson (by simp [Trace.toJson])))
  calc
    _ = List.foldlM addMember { maxIndex := o.maxIndex } _ :=
      Except.foldlM_optional (fun x => ({ maxIndex := x } : Overlay)) rfl (hmax _) _ _
    _ = List.foldlM addMember { maxIndex := o.maxIndex, negative := o.negative } _ :=
      Except.foldlM_optional (fun x => ({ maxIndex := o.maxIndex, negative := x } : Overlay)) rfl (hnegative _) _ _
    _ = List.foldlM addMember { o with trace := none } _ :=
      Except.foldlM_optional (fun x => { o with overflow := x, trace := none }) rfl (hoverflow _) _ _
    _ = List.foldlM addMember o [] := Except.foldlM_optional (fun x => { o with trace := x }) rfl (htrace _) _ _

end Overlay

namespace Settings

theorem toJson_eq (c : Settings) : c.toJson = c.toOverlay.toJson := by
  simp [toJson, Overlay.toJson, toOverlay]

theorem ofJson_toJson (c : Settings) : Settings.ofJson c.toJson = .ok c := by
  obtain ⟨members, hmembers, hfilled⟩ :
      ∃ members, c.toJson = .object members ∧ ∀ key ∈ required, (key, Json.null) ∉ members :=
    ⟨_, rfl, by simp [required, Trace.toJson]⟩
  rw [hmembers, ofJson_of_filled hfilled, ← hmembers, toJson_eq, Overlay.ofJson_toJson]
  exact congrArg Except.ok c.merge_default_toOverlay

theorem ofJson_iff_overlay :
    (∀ (members : List (String × Json)) (c : Settings), Settings.ofJson (.object members) = .ok c ↔
      ∃ o, Overlay.ofJson (.object members) = .ok o ∧
        (∀ key ∈ ["negative", "overflow", "trace"], (key, Json.null) ∉ members) ∧ c = ({} : Settings).merge o) ∧
    (∀ c : Settings, Settings.ofJson c.toJson = .ok c) ∧
    ∀ o : Overlay, Overlay.ofJson o.toJson = .ok o := by
  refine ⟨?_, ofJson_toJson, Overlay.ofJson_toJson⟩
  intro members c
  constructor
  · intro hread
    have hfilled := filled_of_ofJson hread
    rw [ofJson_of_filled hfilled] at hread
    obtain ⟨o, ho, hmerge⟩ := Except.map_eq_ok_iff.mp hread
    exact ⟨o, ho, hfilled, hmerge.symm⟩
  · rintro ⟨o, ho, hfilled, rfl⟩
    rw [ofJson_of_filled hfilled, ho]
    rfl

theorem ofJson_iff_overlay_with_nulls :
    Settings.ofJson (.object [("max_index", .null), ("negative", .object [("pass_through", .null)]),
      ("trace", .array [.boolean true]), ("width", .null)]) =
        .ok { negative := .passThrough, trace := ⟨true, .normal⟩ } ∧
    Overlay.ofJson (.object [("overflow", .null)]) = .ok {} ∧
    ∀ c, Settings.ofJson (.object [("overflow", .null)]) ≠ .ok c := by
  obtain ⟨hiff, -⟩ := ofJson_iff_overlay
  refine ⟨(hiff _ _).mpr ⟨{ negative := some .passThrough, trace := some ⟨true, .normal⟩ }, rfl, ?_, rfl⟩, rfl, ?_⟩
  · simp
  · intro c hread
    obtain ⟨o, -, hfilled, -⟩ := (hiff _ _).mp hread
    exact hfilled "overflow" (by simp) (by simp)

end Settings

end BoundedFibonacci
