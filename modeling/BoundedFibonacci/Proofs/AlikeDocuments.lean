import BoundedFibonacci.Proofs.CollectedEntries
import BoundedFibonacci.Proofs.NestingLimit
import Mathlib.Data.List.Forall2

namespace BoundedFibonacci

namespace Toml

variable {α : Type}

namespace Value

def items? : Value → Option (List Value)
  | .array _ items | .tables items => some items
  | _ => none

/-- Values that hold the same data. Their places do not count, nor does the way a table was made, nor the order of its
keys. No setting is a floating-point number or a date, and these are not told apart. -/
inductive Alike : Value → Value → Prop
  | string (r r' : Region) (s : String) : Alike (.string r s) (.string r' s)
  | integer (r r' : Region) (n : Int64) : Alike (.integer r n) (.integer r' n)
  | float (r r' : Region) (x x' : Float) : Alike (.float r x) (.float r' x')
  | boolean (r r' : Region) (b : Bool) : Alike (.boolean r b) (.boolean r' b)
  | datetime (r r' : Region) (s s' : String) : Alike (.datetime r s) (.datetime r' s')
  | list {v v' : Value} {items items' : List Value} (hv : v.items? = some items) (hv' : v'.items? = some items')
      (h : List.Forall₂ Alike items items') : Alike v v'
  | table (o o' : Origin) (r r' : Option Region) {es es' : Entries}
      (hkeys : (es.map (·.1.name)).Perm (es'.map (·.1.name)))
      (h : ∀ name v v', es.get? name = some v → es'.get? name = some v' → Alike v v') :
      Alike (.table o r es) (.table o' r' es')

section Items

variable {v : Value} {items : List Value} (hv : v.items? = some items)

include hv

theorem toOption_toBool_of_items : v.toBool.toOption = none := by
  cases v <;> cases hv <;> rfl

theorem toOption_toNatural_of_items : v.toNatural.toOption = none := by
  cases v <;> cases hv <;> rfl

theorem toOption_toChoice_of_items [Choice α] : (v.toChoice : Except Fault α).toOption = none := by
  cases v <;> cases hv <;> rfl

theorem toOption_expectEmpty_of_items : v.expectEmpty.toOption = if items.isEmpty then some () else none := by
  cases v <;> cases hv <;> cases items <;> rfl

theorem toTrace_of_items : v.toTrace = traceOfItems items := by
  cases v <;> cases hv <;> rfl

end Items

theorem toOption_ofWord [Choice α] (r : Region) (s : String) :
    (ofWord r s : Except Fault α).toOption = Choice.ofWord? s := by
  unfold ofWord
  cases Choice.ofWord? (α := α) s <;> rfl

theorem toOption_toChoice_single [Choice α] (o : Origin) (r : Option Region) (e : Key × Value) :
    ((Value.table o r [e]).toChoice : Except Fault α).toOption =
      e.2.expectEmpty.toOption.bind fun _ => Choice.ofWord? e.1.name := by
  rw [toChoice, ofWord]
  cases Choice.ofWord? (α := α) e.1.name <;> cases e.2.expectEmpty <;> rfl

theorem toOption_traceOfItems_pair (e p : Value) (rest : List Value) :
    (traceOfItems (e :: p :: rest)).toOption = e.toBool.toOption.bind fun b => p.toChoice.toOption.map (⟨b, ·⟩) := by
  rw [traceOfItems]
  cases e.toBool with
  | error f => rfl
  | ok b => exact Except.toOption_map

namespace Alike

variable {v v' : Value} {items items' : List Value}

theorem toBool (h : v.Alike v') : v.toBool.toOption = v'.toBool.toOption := by
  cases h with
  | list hv hv' => rw [toOption_toBool_of_items hv, toOption_toBool_of_items hv']
  | string | integer | float | boolean | datetime | table => rfl

theorem toNatural (h : v.Alike v') : v.toNatural.toOption = v'.toNatural.toOption := by
  cases h with
  | integer r r' n =>
    unfold Value.toNatural
    dsimp only
    split <;> rfl
  | list hv hv' => rw [toOption_toNatural_of_items hv, toOption_toNatural_of_items hv']
  | string | float | boolean | datetime | table => rfl

theorem expectEmpty (h : v.Alike v') : v.expectEmpty.toOption = v'.expectEmpty.toOption := by
  cases h with
  | list hv hv' h =>
    rw [toOption_expectEmpty_of_items hv, toOption_expectEmpty_of_items hv']
    cases h <;> rfl
  | table o o' r r' hkeys =>
    have hempty := hkeys.isEmpty_eq
    rw [List.isEmpty_map, List.isEmpty_map] at hempty
    unfold Value.expectEmpty
    dsimp only
    rw [hempty]
    split <;> rfl
  | string | integer | float | boolean | datetime => rfl

theorem toChoice_table [Choice α] {o o' : Origin} {r r' : Option Region} {es es' : Entries}
    (hkeys : (es.map (·.1.name)).Perm (es'.map (·.1.name)))
    (h : ∀ name v v', es.get? name = some v → es'.get? name = some v' → v.Alike v') :
    ((Value.table o r es).toChoice : Except Fault α).toOption = (Value.table o' r' es').toChoice.toOption := by
  have hlength := hkeys.length_eq
  match es, es' with
  | [], [] => rfl
  | [e], [e'] =>
    have hname : e.1.name = e'.1.name := by simpa using hkeys
    have hcontent := h e.1.name e.2 e'.2 (Entries.get?_cons_of_eq rfl) (Entries.get?_cons_of_eq hname.symm)
    rw [toOption_toChoice_single, toOption_toChoice_single, hcontent.expectEmpty, hname]
  | _ :: _ :: _, _ :: _ :: _ => rfl
  | [], _ :: _ | _ :: _, [] | [_], _ :: _ :: _ | _ :: _ :: _, [_] => simp at hlength

theorem toChoice [Choice α] (h : v.Alike v') :
    (v.toChoice : Except Fault α).toOption = v'.toChoice.toOption := by
  cases h with
  | string r r' s => exact (toOption_ofWord r s).trans (toOption_ofWord r' s).symm
  | list hv hv' => rw [toOption_toChoice_of_items hv, toOption_toChoice_of_items hv']
  | table o o' r r' hkeys h => exact toChoice_table hkeys h
  | integer | float | boolean | datetime => rfl

theorem traceOfItems (h : List.Forall₂ Alike items items') :
    (Value.traceOfItems items).toOption = (Value.traceOfItems items').toOption := by
  cases h with
  | nil => rfl
  | cons he hrest =>
    cases hrest with
    | nil => exact Except.toOption_map_congr he.toBool
    | cons hp _ => rw [toOption_traceOfItems_pair, toOption_traceOfItems_pair, he.toBool, hp.toChoice]

end Alike

end Value

namespace Entries

def AlikeAt (name : String) (es es' : Entries) : Prop := Option.Rel Value.Alike (es.get? name) (es'.get? name)

/-- The four settings are the same in both documents. Of two traces that are tables, only the two entries that are
settings have to be. -/
structure SameSettings (es es' : Entries) : Prop where
  negative : AlikeAt "negative" es es'
  overflow : AlikeAt "overflow" es es'
  maxIndex : AlikeAt "max_index" es es'
  trace : AlikeAt "trace" es es' ∨
    ∃ o r sub o' r' sub', es.get? "trace" = some (.table o r sub) ∧ es'.get? "trace" = some (.table o' r' sub') ∧
      AlikeAt "enabled" sub sub' ∧ AlikeAt "priority" sub sub'

variable {es es' : Entries}

theorem alikeAt_of_keys (hkeys : (es.map (·.1.name)).Perm (es'.map (·.1.name)))
    (h : ∀ name v v', es.get? name = some v → es'.get? name = some v' → v.Alike v') (name : String) :
    AlikeAt name es es' := by
  have hnone : es.get? name = none ↔ es'.get? name = none := by
    rw [get?_eq_none_iff, get?_eq_none_iff, hkeys.mem_iff]
  unfold AlikeAt
  cases hv : es.get? name with
  | none =>
    rw [hnone.mp hv]
    exact .none
  | some v =>
    cases hv' : es'.get? name with
    | none => rw [hnone.mpr hv'] at hv; cases hv
    | some v' => exact .some (h name v v' hv hv')

end Entries

-- A check that suffices for documents whose settings are single values below a trace that is a table.

namespace Entries

variable {es es' : Entries} {name : String}

end Entries

section Readings

variable {read : Value → Except Fault α} {before after : α}

theorem Overwrites.congr {written written' : Option Value}
    (h : Option.Rel (fun v v' => (read v).toOption = (read v').toOption) written written') :
    Overwrites read before after written ↔ Overwrites read before after written' := by
  cases h with
  | none => rfl
  | some hread => exact Except.toOption_eq_iff.mp hread after

theorem Entries.AlikeAt.overwrites_iff {es es' : Entries} {name : String} (h : AlikeAt name es es')
    (hread : ∀ v v', v.Alike v' → (read v).toOption = (read v').toOption) :
    Overwrites read before after (es.get? name) ↔ Overwrites read before after (es'.get? name) := by
  apply Overwrites.congr
  exact Option.Rel.of_mem h fun v _ v' _ => hread v v'

end Readings

end Toml

open Toml

variable {es es' : Entries}

theorem Trace.collects_congr {t : Trace} (henabled : Entries.AlikeAt "enabled" es es')
    (hpriority : Entries.AlikeAt "priority" es es') : t.Collects es ↔ t.Collects es' := by
  rw [collects_iff, collects_iff]
  exact and_congr (henabled.overwrites_iff fun _ _ => Value.Alike.toBool)
    (hpriority.overwrites_iff fun _ _ => Value.Alike.toChoice)

namespace Toml

theorem toTrace_table {o o' : Origin} {r r' : Option Region} (hes : (Value.table o r es).Distinct)
    (hes' : (Value.table o' r' es').Distinct) (henabled : Entries.AlikeAt "enabled" es es')
    (hpriority : Entries.AlikeAt "priority" es es') :
    (Value.table o r es).toTrace.toOption = (Value.table o' r' es').toTrace.toOption := by
  rw [Except.toOption_eq_iff]
  intro t
  rw [Trace.toTrace_table_eq_ok_iff hes.entries.nodup, Trace.toTrace_table_eq_ok_iff hes'.entries.nodup]
  exact Trace.collects_congr henabled hpriority

theorem Value.Alike.toTrace {v v' : Value} (h : v.Alike v') (hv : v.Distinct) (hv' : v'.Distinct) :
    v.toTrace.toOption = v'.toTrace.toOption := by
  cases h with
  | list hitems hitems' h => rw [toTrace_of_items hitems, toTrace_of_items hitems', traceOfItems h]
  | table o o' r r' hkeys h =>
    exact toTrace_table hv hv' (Entries.alikeAt_of_keys hkeys h _) (Entries.alikeAt_of_keys hkeys h _)
  | string | integer | float | boolean | datetime => rfl

theorem Entries.SameSettings.toTrace (h : es.SameSettings es') (hes : es.Distinct) (hes' : es'.Distinct) :
    Option.Rel (fun v v' => v.toTrace.toOption = v'.toTrace.toOption) (es.get? "trace") (es'.get? "trace") := by
  rcases h.trace with halike | ⟨o, r, sub, o', r', sub', hget, hget', henabled, hpriority⟩
  · apply Option.Rel.of_mem halike
    intro v hv v' hv' h
    exact h.toTrace (hes.get? hv) (hes'.get? hv')
  · rw [hget, hget']
    exact .some (toTrace_table (hes.get? hget) (hes'.get? hget') henabled hpriority)

end Toml

namespace Overlay

theorem collects_congr {o : Overlay} (hes : es.Distinct) (hes' : es'.Distinct) (h : es.SameSettings es') :
    o.Collects es ↔ o.Collects es' := by
  rw [collects_iff, collects_iff]
  refine and_congr (h.negative.overwrites_iff ?_) (and_congr (h.overflow.overwrites_iff ?_)
    (and_congr (h.maxIndex.overwrites_iff ?_) (Overwrites.congr ?_)))
  · intro v v' hv
    exact Except.toOption_map_congr hv.toChoice
  · intro v v' hv
    exact Except.toOption_map_congr hv.toChoice
  · intro v v' hv
    exact Except.toOption_map_congr hv.toNatural
  · exact Option.Rel.of_mem (h.toTrace hes hes') fun _ _ _ _ hv => Except.toOption_map_congr hv

end Overlay

end BoundedFibonacci
