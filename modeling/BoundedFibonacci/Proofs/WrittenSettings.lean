import BoundedFibonacci.Proofs.SettingsText

/-!
What a text writes and what its overlay changes, setting by setting. The fields of the settings change only where the
text writes them. A trace is replaced as a whole, so the parts of it that the text leaves out fall back to the defaults.
-/

namespace BoundedFibonacci

namespace Toml

variable {α β ε : Type}

def SetsAt (name : String) (k : Key) (read : Except Fault β) (before after : β) : Prop :=
  if k.name = name then read = .ok after else after = before

-- A part of what a reader builds: an entry of the given name sets it, and no other entry touches it.
def Sets (step : α → Key → Value → Except ε α) (name : String) (read : Value → Except Fault β) (part : α → β) : Prop :=
  ∀ {a b : α} {k : Key} {v : Value}, step a k v = .ok b → SetsAt name k (read v) (part a) (part b)

/-- What is written takes the place of what was there before, which stays if nothing is written. -/
def Overwrites (read : Value → Except Fault β) (before after : β) : Option Value → Prop
  | none => after = before
  | some v => read v = .ok after

namespace Overwrites

variable {read : Value → Except Fault α} {written : Option Value} {x : Option α}

theorem optional_cases (h : Overwrites (fun v => (read v).map some) none x written) :
    written = none ∧ x = none ∨ ∃ v a, written = some v ∧ x = some a ∧ read v = .ok a := by
  cases written with
  | none => exact .inl ⟨rfl, h⟩
  | some v =>
    obtain ⟨a, ha, rfl⟩ := Except.map_eq_ok_iff.mp h
    exact .inr ⟨v, a, rfl, rfl, ha⟩

theorem or (h : Overwrites (fun v => (read v).map some) none x written) (before : Option α) :
    Overwrites (fun v => (read v).map some) before (x.or before) written := by
  obtain ⟨rfl, rfl⟩ | ⟨v, a, rfl, rfl, ha⟩ := h.optional_cases
  · rfl
  · exact Except.map_eq_ok_iff.mpr ⟨a, ha, rfl⟩

theorem rebase {before before' after : α} (h : Overwrites read before after written) :
    Overwrites read before' after written ↔ (written = none → before' = before) := by
  cases written with
  | none =>
    obtain rfl : after = before := h
    simp [Overwrites, eq_comm]
  | some v =>
    constructor
    · intro _ hnone
      cases hnone
    · intro _
      exact h

theorem getD (h : Overwrites (fun v => (read v).map some) none x written) (before : α) :
    Overwrites read before (x.getD before) written := by
  obtain ⟨rfl, rfl⟩ | ⟨v, a, rfl, rfl, ha⟩ := h.optional_cases
  · rfl
  · exact ha

end Overwrites

namespace Entries

variable {e : Key × Value} {es : Entries} {name : String}

theorem get?_cons_of_eq (h : e.1.name = name) : get? name (e :: es) = some e.2 := by
  simp [get?, h]

theorem get?_cons_of_ne (h : e.1.name ≠ name) : get? name (e :: es) = get? name es := by
  simp [get?, h]

def trace (es : Entries) : Entries :=
  match es.get? "trace" with
  | some (.table _ _ sub) => sub
  | _ => []

theorem trace_of_none (h : es.get? "trace" = none) : es.trace = [] := by
  rw [trace, h]

theorem trace_of_table {origin : Origin} {region : Option Region} {sub : Entries}
    (h : es.get? "trace" = some (.table origin region sub)) : es.trace = sub := by
  rw [trace, h]

end Entries

def Value.isTable : Value → Bool
  | .table .. => true
  | _ => false

theorem Value.isTable_iff {v : Value} : v.isTable = true ↔ ∃ origin region sub, v = .table origin region sub := by
  cases v <;> simp [isTable]

section Readers

variable {name : String} {read : Value → Except Fault β} {part : α → β} {es : Entries} {a b : α}

theorem Sets.foldlM {step : α → Key → Value → Except ε α} (h : Sets step name read part)
    (hnodup : (es.map (·.1.name)).Nodup) (hfold : es.foldlM (fun a e => step a e.1 e.2) a = .ok b) :
    Overwrites read (part a) (part b) (es.get? name) := by
  induction es generalizing a with
  | nil =>
    cases hfold
    rfl
  | cons e es ih =>
    obtain ⟨hfresh, hnodup⟩ := List.nodup_cons.mp hnodup
    obtain ⟨mid, hstep, hfold⟩ := Except.exists_of_foldlM_cons hfold
    have hset := h hstep
    have hrest := ih hnodup hfold
    by_cases hname : e.1.name = name
    · -- Later entries have other names, so the part stays as this one sets it.
      simp only [hname] at hfresh
      rw [Entries.get?_eq_none_iff.mpr hfresh] at hrest
      rw [SetsAt, if_pos hname] at hset
      rw [Entries.get?_cons_of_eq hname]
      exact hset.trans (congrArg Except.ok hrest.symm)
    · rw [SetsAt, if_neg hname] at hset
      rw [hset] at hrest
      rwa [Entries.get?_cons_of_ne hname]

theorem Sets.visit {step : α → Key → Value → Except Fault α} (h : Sets step name read part) (hes : es.Distinct)
    (hvisit : es.visit step a = .ok b) : Overwrites read (part a) (part b) (es.get? name) := by
  have hlocated : Sets (fun a k v => (step a k v).mapError fun f =>
      Problem.mismatched (f.region.getD k.region) f.mismatch) name read part := by
    intro a b k v hstep
    exact h (Except.mapError_eq_ok_iff.mp hstep)
  exact hlocated.foldlM hes.nodup hvisit

end Readers

end Toml

open Toml

section Parts

variable {k : Key} {v : Value}

theorem Trace.Takes.parts {t t' : Trace} (h : Trace.Takes k v t t') :
    SetsAt "enabled" k v.toBool t.enabled t'.enabled ∧ SetsAt "priority" k v.toChoice t.priority t'.priority := by
  cases h with
  | enabled hk hv | priority hk hv => simp [SetsAt, hk, hv]
  | other henabled hpriority => simp [SetsAt, henabled, hpriority]

theorem Overlay.Takes.parts {o o' : Overlay} (h : Overlay.Takes k v o o') :
    SetsAt "negative" k (v.toChoice.map some) o.negative o'.negative ∧
      SetsAt "overflow" k (v.toChoice.map some) o.overflow o'.overflow ∧
      SetsAt "max_index" k (v.toNatural.map some) o.maxIndex o'.maxIndex ∧
      SetsAt "trace" k (v.toTrace.map some) o.trace o'.trace := by
  cases h with
  | negative hk hv | overflow hk hv | maxIndex hk hv | trace hk hv => simp [SetsAt, hk, hv, Except.map]
  | other hk =>
    simp only [List.mem_cons, List.not_mem_nil, or_false, not_or] at hk
    simp [SetsAt, hk]

theorem sets_enabled : Sets (fun t k v => Value.addTraceEntry t (k, v)) "enabled" Value.toBool Trace.enabled := by
  intro t t' k v h
  obtain ⟨henabled, -⟩ := (Trace.takes_of_ok h).parts
  exact henabled

theorem sets_priority : Sets (fun t k v => Value.addTraceEntry t (k, v)) "priority" Value.toChoice Trace.priority := by
  intro t t' k v h
  obtain ⟨-, hpriority⟩ := (Trace.takes_of_ok h).parts
  exact hpriority

theorem sets_negative : Sets Overlay.addEntry "negative" (·.toChoice.map some) Overlay.negative := by
  intro o o' k v h
  obtain ⟨hnegative, -⟩ := (Overlay.takes_of_ok h).parts
  exact hnegative

theorem sets_overflow : Sets Overlay.addEntry "overflow" (·.toChoice.map some) Overlay.overflow := by
  intro o o' k v h
  obtain ⟨-, hoverflow, -⟩ := (Overlay.takes_of_ok h).parts
  exact hoverflow

theorem sets_maxIndex : Sets Overlay.addEntry "max_index" (·.toNatural.map some) Overlay.maxIndex := by
  intro o o' k v h
  obtain ⟨-, -, hmax, -⟩ := (Overlay.takes_of_ok h).parts
  exact hmax

theorem sets_trace : Sets Overlay.addEntry "trace" (·.toTrace.map some) Overlay.trace := by
  intro o o' k v h
  obtain ⟨-, -, -, htrace⟩ := (Overlay.takes_of_ok h).parts
  exact htrace

end Parts

namespace Settings

/-- Each single setting is as the document writes it, and as it was before if the document does not write it. -/
structure OnlyWritten (es : Entries) (before after : Settings) : Prop where
  negative : Overwrites Value.toChoice before.negative after.negative (es.get? "negative")
  overflow : Overwrites Value.toChoice before.overflow after.overflow (es.get? "overflow")
  maxIndex : Overwrites (·.toNatural.map some) before.maxIndex after.maxIndex (es.get? "max_index")
  enabled : Overwrites Value.toBool before.trace.enabled after.trace.enabled (es.trace.get? "enabled")
  priority : Overwrites Value.toChoice before.trace.priority after.trace.priority (es.trace.get? "priority")

variable {text : String} {es : Entries} {o : Overlay}

/-- The settings on which the single settings of a document are written: a document that has a trace starts it anew. -/
def underTrace (c : Settings) (es : Entries) : Settings :=
  { c with trace := if (es.get? "trace").isSome then {} else c.trace }

theorem merge_trace (c : Settings) (hes : es.Distinct) (hread : Overlay.ofEntries es = .ok o)
    (htable : ∀ v ∈ es.get? "trace", v.isTable = true) :
    Overwrites Value.toBool (c.underTrace es).trace.enabled (c.merge o).trace.enabled (es.trace.get? "enabled") ∧
      Overwrites Value.toChoice (c.underTrace es).trace.priority (c.merge o).trace.priority
        (es.trace.get? "priority") := by
  have htrace := sets_trace.visit hes hread
  cases hget : es.get? "trace" with
  | none =>
    rw [hget] at htrace
    have hnone : o.trace = none := htrace
    rw [Entries.trace_of_none hget, underTrace, hget, merge, hnone]
    exact ⟨rfl, rfl⟩
  | some v =>
    obtain ⟨origin, region, sub, rfl⟩ := Value.isTable_iff.mp (htable v hget)
    rw [hget] at htrace
    obtain ⟨t, ht, hsome⟩ := Except.map_eq_ok_iff.mp htrace
    have hsub := (hes.get? hget).entries
    rw [Entries.trace_of_table hget, underTrace, hget, merge, ← hsome]
    exact ⟨sets_enabled.foldlM hsub.nodup ht, sets_priority.foldlM hsub.nodup ht⟩

theorem merge_onlyWritten (c : Settings) (hes : es.Distinct) (hread : Overlay.ofEntries es = .ok o)
    (htable : ∀ v ∈ es.get? "trace", v.isTable = true) :
    OnlyWritten es (c.underTrace es) (c.merge o) := by
  have hnegative := sets_negative.visit hes hread
  have hoverflow := sets_overflow.visit hes hread
  have hmax := sets_maxIndex.visit hes hread
  obtain ⟨henabled, hpriority⟩ := merge_trace c hes hread htable
  exact ⟨hnegative.getD _, hoverflow.getD _, hmax.or _, henabled, hpriority⟩

theorem onlyWritten_iff {c after : Settings} (h : OnlyWritten es (c.underTrace es) after) :
    OnlyWritten es c after ↔
      es.get? "trace" = none ∨
        (es.trace.get? "enabled" = none → c.trace.enabled = false) ∧
        (es.trace.get? "priority" = none → c.trace.priority = .normal) := by
  have hsplit : OnlyWritten es c after ↔
      (es.trace.get? "enabled" = none → c.trace.enabled = (c.underTrace es).trace.enabled) ∧
      (es.trace.get? "priority" = none → c.trace.priority = (c.underTrace es).trace.priority) := by
    rw [← h.enabled.rebase, ← h.priority.rebase]
    constructor
    · intro hall
      exact ⟨hall.enabled, hall.priority⟩
    · rintro ⟨henabled, hpriority⟩
      exact ⟨h.negative, h.overflow, h.maxIndex, henabled, hpriority⟩
  rw [hsplit]
  cases hget : es.get? "trace" with
  | none => simp [underTrace, hget]
  | some v => simp [underTrace, hget]

theorem merge_ofToml_exact (c : Settings) (hparse : parse? text = some es) (hread : Overlay.ofToml text = .ok o)
    (htable : ∀ v ∈ es.get? "trace", v.isTable = true) :
    OnlyWritten es (c.underTrace es) (c.merge o) ∧
    (OnlyWritten es c (c.merge o) ↔
      es.get? "trace" = none ∨
        (es.trace.get? "enabled" = none → c.trace.enabled = false) ∧
        (es.trace.get? "priority" = none → c.trace.priority = .normal)) := by
  rw [Overlay.ofToml, hparse] at hread
  have h := merge_onlyWritten c (parse?_distinct hparse) hread htable
  exact ⟨h, onlyWritten_iff h⟩

theorem merge_ofToml_dotted_priority :
    ∃ es o, parse? "max_index = 7\ntrace.priority = \"high\"\n" = some es ∧
      Overlay.ofToml "max_index = 7\ntrace.priority = \"high\"\n" = .ok o ∧
      OnlyWritten es { overflow := .saturating, trace := { priority := .low } }
        (({ overflow := .saturating, trace := { priority := .low } } : Settings).merge o) := by
  have hcheck : ((parse? "max_index = 7\ntrace.priority = \"high\"\n").map fun es =>
      (es.get? "trace").all Value.isTable && (es.trace.get? "priority").isSome) = some true := by decide +kernel
  have hread : (Overlay.ofToml "max_index = 7\ntrace.priority = \"high\"\n").toOption =
      some { maxIndex := some 7, trace := some { priority := .high } } := by decide +kernel
  obtain ⟨es, hparse, hes⟩ := Option.map_eq_some_iff.mp hcheck
  obtain ⟨htable, hpriority⟩ := (Bool.and_eq_true _ _).mp hes
  have hok := Except.toOption_eq_some_iff.mp hread
  refine ⟨es, _, hparse, hok, (merge_ofToml_exact _ hparse hok ((Option.all_eq_true _ _).mp htable)).2.mpr ?_⟩
  right
  constructor
  · intro _
    rfl
  · intro hnone
    rw [hnone] at hpriority
    cases hpriority

theorem merge_priority_alone_disables :
    ∃ es o, parse? "[trace]\npriority = \"high\"\n" = some es ∧
      Overlay.ofToml "[trace]\npriority = \"high\"\n" = .ok o ∧ (∀ v ∈ es.get? "trace", v.isTable = true) ∧
      es.trace.get? "enabled" = none ∧
      (({ trace := .active .normal } : Settings).merge o).trace.enabled = false ∧
      ¬ OnlyWritten es { trace := .active .normal } (({ trace := .active .normal } : Settings).merge o) := by
  have hcheck : ((parse? "[trace]\npriority = \"high\"\n").map fun es =>
      (es.get? "trace").all Value.isTable && (es.trace.get? "enabled").isNone) = some true := by decide +kernel
  have hread : (Overlay.ofToml "[trace]\npriority = \"high\"\n").toOption =
      some { trace := some { priority := .high } } := by decide +kernel
  obtain ⟨es, hparse, hes⟩ := Option.map_eq_some_iff.mp hcheck
  obtain ⟨htable, henabled⟩ := (Bool.and_eq_true _ _).mp hes
  have hnone : es.trace.get? "enabled" = none := Option.isNone_iff_eq_none.mp henabled
  refine ⟨es, _, hparse, Except.toOption_eq_some_iff.mp hread, (Option.all_eq_true _ _).mp htable, hnone, rfl, ?_⟩
  intro hall
  have hkept := hall.enabled
  rw [hnone] at hkept
  cases hkept

end Settings

end BoundedFibonacci
