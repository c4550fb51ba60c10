import BoundedFibonacci.Proofs.WrittenSettings

/-!
Reading by visiting the entries of a document, and reading by looking up the names that are known. No name is given
twice, so the order of the visit does not count, and neither do the entries that have other names.
-/

namespace BoundedFibonacci

namespace Toml

variable {α β ε : Type}

theorem Entries.get?_of_mem {es : Entries} {e : Key × Value} (hes : (es.map (·.1.name)).Nodup) (he : e ∈ es) :
    es.get? e.1.name = some e.2 := by
  induction es with
  | nil => cases he
  | cons d es ih =>
    obtain ⟨hfresh, hes⟩ := List.nodup_cons.mp hes
    rcases List.mem_cons.mp he with rfl | he
    · exact get?_cons_of_eq rfl
    · have hne : d.1.name ≠ e.1.name := by
        intro heq
        exact hfresh (List.mem_map.mpr ⟨e, he, heq.symm⟩)
      rw [get?_cons_of_ne hne]
      exact ih hes he

namespace Overwrites

variable {read : Value → Except Fault α} {before after other : α} {written : Option Value}

theorem unique (h : Overwrites read before after written) (h' : Overwrites read before other written) :
    after = other := by
  cases written with
  | none => exact Eq.trans h (Eq.symm h')
  | some v => exact Except.ok.inj (Eq.trans (Eq.symm h) h')

theorem read_of_mem {es : Entries} {e : Key × Value} {name : String}
    (h : Overwrites read before after (es.get? name)) (hes : (es.map (·.1.name)).Nodup) (he : e ∈ es)
    (hname : e.1.name = name) : read e.2 = .ok after := by
  rw [← hname, Entries.get?_of_mem hes he] at h
  exact h

section Optional

variable {x : Option α} (h : Overwrites (fun v => (read v).map some) none x written)

include h

theorem isSome_eq : written.isSome = x.isSome := by
  obtain ⟨rfl, rfl⟩ | ⟨v, a, rfl, rfl, -⟩ := h.optional_cases
  · rfl
  · rfl

theorem exists_read {a : α} (ha : a ∈ x) : ∃ v, read v = .ok a := by
  obtain ⟨-, rfl⟩ | ⟨v, b, -, rfl, hb⟩ := h.optional_cases
  · cases ha
  · cases ha
    exact ⟨v, hb⟩

end Optional

end Overwrites

end Toml

open Toml

variable {es : Entries}

namespace Trace

@[mk_iff]
structure Collects (t : Trace) (es : Entries) : Prop where
  enabled : Overwrites Value.toBool false t.enabled (es.get? "enabled")
  priority : Overwrites Value.toChoice .normal t.priority (es.get? "priority")

variable {t u : Trace}

theorem Collects.unique (h : t.Collects es) (h' : u.Collects es) : t = u := by
  obtain ⟨enabled, priority⟩ := t
  obtain ⟨enabled', priority'⟩ := u
  obtain rfl : enabled = enabled' := h.enabled.unique h'.enabled
  obtain rfl : priority = priority' := h.priority.unique h'.priority
  rfl

theorem Collects.addTraceEntry_total (h : t.Collects es) (hes : (es.map (·.1.name)).Nodup) {e : Key × Value}
    (he : e ∈ es) (u : Trace) : ∃ u', Value.addTraceEntry u e = .ok u' := by
  by_cases henabled : e.1.name = "enabled"
  · exact ⟨_, addTraceEntry_of_takes (.enabled henabled (h.enabled.read_of_mem hes he henabled))⟩
  · by_cases hpriority : e.1.name = "priority"
    · exact ⟨_, addTraceEntry_of_takes (.priority hpriority (h.priority.read_of_mem hes he hpriority))⟩
    · exact ⟨u, addTraceEntry_of_takes (.other henabled hpriority)⟩

theorem toTrace_table_eq_ok_iff (hes : (es.map (·.1.name)).Nodup) (origin : Origin) (region : Option Region) :
    (Value.table origin region es).toTrace = .ok t ↔ t.Collects es := by
  apply Except.foldlM_eq_ok_iff
  · intro t ht
    exact ⟨sets_enabled.foldlM hes ht, sets_priority.foldlM hes ht⟩
  · intro ht e he u
    exact ht.addTraceEntry_total hes he u
  · intro u ht hu
    exact ht.unique hu

end Trace

namespace Overlay

@[mk_iff]
structure Collects (o : Overlay) (es : Entries) : Prop where
  negative : Overwrites (·.toChoice.map some) none o.negative (es.get? "negative")
  overflow : Overwrites (·.toChoice.map some) none o.overflow (es.get? "overflow")
  maxIndex : Overwrites (·.toNatural.map some) none o.maxIndex (es.get? "max_index")
  trace : Overwrites (·.toTrace.map some) none o.trace (es.get? "trace")

variable {o p : Overlay}

theorem Collects.unique (h : o.Collects es) (h' : p.Collects es) : o = p := by
  obtain ⟨negative, overflow, maxIndex, trace⟩ := o
  obtain ⟨negative', overflow', maxIndex', trace'⟩ := p
  obtain rfl : negative = negative' := h.negative.unique h'.negative
  obtain rfl : overflow = overflow' := h.overflow.unique h'.overflow
  obtain rfl : maxIndex = maxIndex' := h.maxIndex.unique h'.maxIndex
  obtain rfl : trace = trace' := h.trace.unique h'.trace
  rfl

theorem Collects.addEntry_total (h : o.Collects es) (hes : es.Distinct) {e : Key × Value} (he : e ∈ es)
    (p : Overlay) : ∃ p', p.addEntry e.1 e.2 = .ok p' := by
  have hread {α : Type} {read : Value → Except Fault α} {x : Option α} {name : String} (hname : e.1.name = name)
      (hx : Overwrites (fun v => (read v).map some) none x (es.get? name)) : ∃ a, read e.2 = .ok a := by
    obtain ⟨a, ha, -⟩ := Except.map_eq_ok_iff.mp (hx.read_of_mem hes.nodup he hname)
    exact ⟨a, ha⟩
  by_cases hnegative : e.1.name = "negative"
  · obtain ⟨x, hx⟩ := hread hnegative h.negative
    exact ⟨_, addEntry_of_takes (.negative hnegative hx)⟩
  by_cases hoverflow : e.1.name = "overflow"
  · obtain ⟨x, hx⟩ := hread hoverflow h.overflow
    exact ⟨_, addEntry_of_takes (.overflow hoverflow hx)⟩
  by_cases hmax : e.1.name = "max_index"
  · obtain ⟨n, hn⟩ := hread hmax h.maxIndex
    exact ⟨_, addEntry_of_takes (.maxIndex hmax hn)⟩
  by_cases htrace : e.1.name = "trace"
  · obtain ⟨t, ht⟩ := hread htrace h.trace
    exact ⟨_, addEntry_of_takes (.trace htrace ht)⟩
  exact ⟨p, addEntry_of_takes (.other (by simp [hnegative, hoverflow, hmax, htrace]))⟩

theorem ofEntries_eq_ok_iff (hes : es.Distinct) : Overlay.ofEntries es = .ok o ↔ o.Collects es := by
  apply Except.foldlM_eq_ok_iff
  · intro o ho
    exact ⟨sets_negative.visit hes ho, sets_overflow.visit hes ho, sets_maxIndex.visit hes ho,
      sets_trace.visit hes ho⟩
  · intro ho e he p
    obtain ⟨p', hp'⟩ := ho.addEntry_total hes he p
    exact ⟨p', Except.mapError_eq_ok_iff.mpr hp'⟩
  · intro p ho hp
    exact ho.unique hp

theorem ofToml_eq_ok_iff {text : String} (hparse : parse? text = some es) :
    Overlay.ofToml text = .ok o ↔ o.Collects es := by
  rw [ofToml, hparse]
  exact ofEntries_eq_ok_iff (parse?_distinct hparse)

theorem exists_collects_of_ofToml {text : String} (h : Overlay.ofToml text = .ok o) :
    ∃ es, parse? text = some es ∧ o.Collects es := by
  cases hparse : parse? text with
  | none =>
    rw [ofToml, hparse] at h
    cases h
  | some es => exact ⟨es, rfl, (ofToml_eq_ok_iff hparse).mp h⟩

end Overlay

end BoundedFibonacci
