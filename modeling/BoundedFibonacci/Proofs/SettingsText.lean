import BoundedFibonacci.Proofs.Failures
import BoundedFibonacci.Proofs.WrittenLines
import BoundedFibonacci.Settings.Toml

namespace BoundedFibonacci

class Choice.Lawful (α : Type) [Choice α] : Prop where
  ofWord?_word : ∀ a : α, Choice.ofWord? (Choice.word a) = some a
  word_plain : ∀ a : α, (Toml.Scalar.word (Choice.word a)).Plain

instance : Choice.Lawful NegativePolicy where
  ofWord?_word a := by cases a <;> rfl
  word_plain a := by cases a <;> decide +kernel

instance : Choice.Lawful OverflowPolicy where
  ofWord?_word a := by cases a <;> rfl
  word_plain a := by cases a <;> decide +kernel

instance : Choice.Lawful Priority where
  ofWord?_word a := by cases a <;> rfl
  word_plain a := by cases a <;> decide +kernel

namespace Toml

variable {α β : Type} {k : Key} {v : Value} {rest : List Char}

theorem Value.readAs_eq_ok_iff {read : Value → Except Fault α} {a : α} : v.readAs read k = .ok a ↔ read v = .ok a :=
  Except.mapError_eq_ok_iff

theorem Scalar.toChoice_word [Choice α] [Choice.Lawful α] (a : α) :
    ((Scalar.word (Choice.word a)).before rest).toChoice = .ok a := by
  simp only [before, value, Value.toChoice, ofWord, Choice.Lawful.ofWord?_word]

theorem Scalar.toNatural_number (n : UInt64) (h : n.toNat ≤ Int64.maxValue.toInt) :
    ((Scalar.number n.toNat).before rest).toNatural = .ok n := by
  have hmax : Int64.maxValue.toInt = 9223372036854775807 := by decide
  have hn : (Int64.ofInt n.toNat).toInt = n.toNat := Int64.toInt_ofInt_of_le (by omega) (by omega)
  simp only [before, value, Value.toNatural, hn]
  simp

theorem Entries.visit_cons {step : α → Key → Value → Except Fault α} {a b : α} {e : Key × Value}
    (h : step a e.1 e.2 = .ok b) (es : Entries) : Entries.visit step a (e :: es) = Entries.visit step b es := by
  apply Except.foldlM_cons_of_ok
  rw [h]
  rfl

theorem Entries.visit_optional {step : α → Key → Value → Except Fault α} {a b : α} {x : Option β} {field : β → Field}
    (hnone : x = none → a = b)
    (hsome : ∀ y, x = some y → ∀ rest, step a ((field y).entry rest).1 ((field y).entry rest).2 = .ok b)
    (rest : List Char) (es : Entries) :
    Entries.visit step a (Field.entries (x.toList.map field) rest ++ es) = Entries.visit step b es := by
  cases x with
  | none => rw [hnone rfl]; rfl
  | some y => exact Entries.visit_cons (hsome y rfl _) es

def Field.ofChoice [Choice α] (name : String) (a : α) : Field := ⟨name, .word (Choice.word a)⟩

def Field.ofIndex (n : UInt64) : Field := ⟨"max_index", .number n.toNat⟩

theorem line_append {key text : String} {x : Scalar} (h : text.toList = x.text) (rest : List Char) :
    (line key text).toList ++ rest = Field.write ⟨key, x⟩ rest := by
  simp [line, Field.write, Field.textAfterKey, h]

theorem line_choiceText [Choice α] (name : String) (a : α) (rest : List Char) :
    (line name (choiceText a)).toList ++ rest = (Field.ofChoice name a).write rest := by
  apply line_append
  simp [choiceText, Scalar.text]

theorem line_index (n : UInt64) (rest : List Char) :
    (line "max_index" (toString n.toNat)).toList ++ rest = (Field.ofIndex n).write rest := by
  apply line_append
  rw [Nat.toString_eq_ofList_toDigits, String.toList_ofList]
  rfl

theorem elim_append {x : Option β} {text : β → String} {field : β → Field}
    (h : ∀ y rest, (text y).toList ++ rest = (field y).write rest) (rest : List Char) :
    (x.elim "" text).toList ++ rest = Field.writeAll (x.toList.map field) rest := by
  cases x with
  | none => rfl
  | some y => exact h y rest

end Toml

open Toml

section Entries

variable {k : Key} {v : Value}

-- What one entry can do: it sets the part that has its name, or nothing.

inductive Trace.Takes (k : Key) (v : Value) (t : Trace) : Trace → Prop
  | enabled {b : Bool} (hk : k.name = "enabled") (hv : v.toBool = .ok b) : Takes k v t { t with enabled := b }
  | priority {p : Priority} (hk : k.name = "priority") (hv : v.toChoice = .ok p) :
    Takes k v t { t with priority := p }
  | other (henabled : k.name ≠ "enabled") (hpriority : k.name ≠ "priority") : Takes k v t t

inductive Overlay.Takes (k : Key) (v : Value) (o : Overlay) : Overlay → Prop
  | negative {x : NegativePolicy} (hk : k.name = "negative") (hv : v.toChoice = .ok x) :
    Takes k v o { o with negative := some x }
  | overflow {x : OverflowPolicy} (hk : k.name = "overflow") (hv : v.toChoice = .ok x) :
    Takes k v o { o with overflow := some x }
  | maxIndex {n : UInt64} (hk : k.name = "max_index") (hv : v.toNatural = .ok n) :
    Takes k v o { o with maxIndex := some n }
  | trace {t : Trace} (hk : k.name = "trace") (hv : v.toTrace = .ok t) : Takes k v o { o with trace := some t }
  | other (hk : k.name ∉ ["negative", "overflow", "max_index", "trace"]) : Takes k v o o

theorem map_readAs_eq_ok {α β : Type} {read : Value → Except Fault α} {f : α → β} {b : β}
    (h : (v.readAs read k).map f = .ok b) : ∃ a, read v = .ok a ∧ b = f a := by
  obtain ⟨a, ha, rfl⟩ := Except.map_eq_ok_iff.mp h
  exact ⟨a, Value.readAs_eq_ok_iff.mp ha, rfl⟩

theorem Trace.takes_of_ok {t t' : Trace} (h : Value.addTraceEntry t (k, v) = .ok t') : Trace.Takes k v t t' := by
  unfold Value.addTraceEntry at h
  split_ifs at h with henabled hpriority
  · obtain ⟨b, hb, rfl⟩ := map_readAs_eq_ok h
    exact .enabled henabled hb
  · obtain ⟨p, hp, rfl⟩ := map_readAs_eq_ok h
    exact .priority hpriority hp
  · cases h
    exact .other henabled hpriority

theorem Trace.addTraceEntry_of_takes {t t' : Trace} (h : Trace.Takes k v t t') :
    Value.addTraceEntry t (k, v) = .ok t' := by
  cases h with
  | enabled hk hv | priority hk hv => simp [Value.addTraceEntry, hk, Value.readAs_eq_ok_iff.mpr hv, Except.map]
  | other henabled hpriority => simp [Value.addTraceEntry, henabled, hpriority]

theorem Overlay.takes_of_ok {o o' : Overlay} (h : o.addEntry k v = .ok o') : Overlay.Takes k v o o' := by
  unfold Overlay.addEntry at h
  split_ifs at h with hnegative hoverflow hmax htrace
  · obtain ⟨x, hx, rfl⟩ := map_readAs_eq_ok h
    exact .negative hnegative hx
  · obtain ⟨x, hx, rfl⟩ := map_readAs_eq_ok h
    exact .overflow hoverflow hx
  · obtain ⟨n, hn, rfl⟩ := map_readAs_eq_ok h
    exact .maxIndex hmax hn
  · obtain ⟨t, ht, rfl⟩ := map_readAs_eq_ok h
    exact .trace htrace ht
  · cases h
    apply Overlay.Takes.other
    simp [hnegative, hoverflow, hmax, htrace]

theorem Overlay.addEntry_of_takes {o o' : Overlay} (h : Overlay.Takes k v o o') : o.addEntry k v = .ok o' := by
  cases h with
  | negative hk hv | overflow hk hv | maxIndex hk hv | trace hk hv =>
    simp [Overlay.addEntry, hk, Value.readAs_eq_ok_iff.mpr hv, Except.map]
  | other hk =>
    simp only [List.mem_cons, List.not_mem_nil, or_false, not_or] at hk
    simp [Overlay.addEntry, hk]

end Entries

namespace Trace

def fields (t : Trace) : List Field := [⟨"enabled", .truth t.enabled⟩, .ofChoice "priority" t.priority]

theorem fields_plain (t : Trace) : ∀ f ∈ t.fields, f.Plain := by
  intro f hf
  rcases List.mem_pair.mp hf with rfl | rfl
  · exact ⟨show Bare "enabled" by decide +kernel, trivial⟩
  · exact ⟨show Bare "priority" by decide +kernel, Choice.Lawful.word_plain t.priority⟩

theorem fields_nodup (t : Trace) : (t.fields.map Field.name).Nodup := by
  simp [fields, Field.ofChoice]

theorem toList_toToml (t : Trace) : t.toToml.toList = header "trace" (Field.writeAll t.fields []) := by
  have henabled (rest : List Char) :
      (line "enabled" (toString t.enabled)).toList ++ rest = Field.write ⟨"enabled", .truth t.enabled⟩ rest :=
    line_append rfl rest
  have hpriority := line_choiceText "priority" t.priority []
  rw [List.append_nil] at hpriority
  rw [toToml, String.toList_append, String.toList_append, List.append_assoc, hpriority, henabled]
  rfl

theorem toTrace_fields (t : Trace) (region : Option Region) (rest : List Char) :
    (Value.table .header region (Field.entries t.fields rest)).toTrace = .ok t := by
  have henabled : Value.addTraceEntry {} (Field.entry ⟨"enabled", .truth t.enabled⟩
      (Field.writeAll [.ofChoice "priority" t.priority] rest)) = .ok { enabled := t.enabled } :=
    addTraceEntry_of_takes (.enabled rfl rfl)
  have hpriority : Value.addTraceEntry { enabled := t.enabled } ((Field.ofChoice "priority" t.priority).entry rest) =
      .ok t :=
    addTraceEntry_of_takes (.priority rfl (Scalar.toChoice_word t.priority))
  rw [Value.toTrace, fields, Field.entries, Except.foldlM_cons_of_ok henabled]
  exact Except.foldlM_cons_of_ok hpriority []

end Trace

namespace Overlay

def fields (o : Overlay) : List Field :=
  o.negative.toList.map (.ofChoice "negative") ++ (o.overflow.toList.map (.ofChoice "overflow") ++
    o.maxIndex.toList.map .ofIndex)

theorem fields_plain {o : Overlay} (h : ∀ n ∈ o.maxIndex, n.toNat ≤ Int64.maxValue.toInt) :
    ∀ f ∈ o.fields, f.Plain := by
  intro f hf
  simp only [fields, List.mem_append, List.mem_map, Option.mem_toList] at hf
  rcases hf with ⟨x, -, rfl⟩ | ⟨x, -, rfl⟩ | ⟨n, hn, rfl⟩
  · exact ⟨show Bare "negative" by decide +kernel, Choice.Lawful.word_plain x⟩
  · exact ⟨show Bare "overflow" by decide +kernel, Choice.Lawful.word_plain x⟩
  · exact ⟨show Bare "max_index" by decide +kernel, h n hn⟩

theorem fields_nodup (o : Overlay) : ("trace" :: o.fields.map Field.name).Nodup := by
  obtain ⟨negative, overflow, maxIndex, trace⟩ := o
  cases negative <;> cases overflow <;> cases maxIndex <;> simp [fields, Field.ofChoice, Field.ofIndex]

theorem head_append (o : Overlay) (rest : List Char) : o.head.toList ++ rest = Field.writeAll o.fields rest := by
  rw [head, String.toList_append, String.toList_append, List.append_assoc, List.append_assoc, elim_append line_index,
    elim_append (line_choiceText "overflow"), elim_append (line_choiceText "negative"), fields,
    Field.writeAll_append, Field.writeAll_append]

theorem visit_fields {o : Overlay} (h : ∀ n ∈ o.maxIndex, n.toNat ≤ Int64.maxValue.toInt) (rest : List Char)
    (es : Entries) :
    Entries.visit addEntry {} (Field.entries o.fields rest ++ es) =
      Entries.visit addEntry { o with trace := none } es := by
  rw [fields, Field.entries_append, Field.entries_append, List.append_assoc, List.append_assoc]
  calc
    _ = Entries.visit addEntry { negative := o.negative } _ := by
      apply Entries.visit_optional
      · intro hnone
        rw [hnone]
      · intro x hx rest
        rw [hx]
        exact addEntry_of_takes (.negative rfl (Scalar.toChoice_word x))
    _ = Entries.visit addEntry { negative := o.negative, overflow := o.overflow } _ := by
      apply Entries.visit_optional
      · intro hnone
        rw [hnone]
      · intro x hx rest
        rw [hx]
        exact addEntry_of_takes (.overflow rfl (Scalar.toChoice_word x))
    _ = Entries.visit addEntry { o with trace := none } es := by
      apply Entries.visit_optional
      · intro hnone
        rw [hnone]
      · intro n hn rest
        rw [hn]
        exact addEntry_of_takes (.maxIndex rfl (Scalar.toNatural_number n (h n hn)))

theorem toList_render_some {o : Overlay} {t : Trace} (ht : o.trace = some t) :
    ∃ rest, (rest = header "trace" (Field.writeAll t.fields []) ∨
        rest = '\n' :: header "trace" (Field.writeAll t.fields [])) ∧
      o.render.toList = Field.writeAll o.fields rest := by
  rw [render, ht]
  by_cases hhead : o.head = ""
  · refine ⟨_, .inl rfl, ?_⟩
    rw [← head_append, ← t.toList_toToml]
    simp [hhead]
  · refine ⟨_, .inr rfl, ?_⟩
    rw [← head_append, ← t.toList_toToml]
    simp [hhead]

theorem ofToml_render {o : Overlay} (h : ∀ n ∈ o.maxIndex, n.toNat ≤ Int64.maxValue.toInt) :
    Overlay.ofToml o.render = .ok o := by
  cases ht : o.trace with
  | none =>
    have htext : o.render.toList = Field.writeAll o.fields [] := by
      rw [render, ht, ← head_append, List.append_nil]
    have hparse : parse? o.render = some (Field.entries o.fields []) :=
      parse?_writeAll (fields_plain h) (List.nodup_cons.mp o.fields_nodup).2 Reads.nil (by simp) rfl htext
    have hsame : { o with trace := none } = o := by rw [← ht]
    have hvisit := visit_fields h [] []
    rw [List.append_nil, hsame] at hvisit
    rw [ofToml, hparse]
    exact hvisit
  | some t =>
    obtain ⟨rest, hrest, htext⟩ := toList_render_some ht
    obtain ⟨key, region, hkey, hparse⟩ :=
      parse?_table (fields_plain h) t.fields_plain (by decide +kernel) o.fields_nodup t.fields_nodup hrest htext
    have htrace : addEntry { o with trace := none } key (.table .header region (Field.entries t.fields [])) = .ok o := by
      rw [addEntry_of_takes (.trace hkey (t.toTrace_fields region [])), ← ht]
    rw [ofToml, hparse]
    exact (visit_fields h rest _).trans (Entries.visit_cons htrace [])

theorem toToml_of_fits {o : Overlay} (h : ∀ n ∈ o.maxIndex, n.toNat ≤ Int64.maxValue.toInt) :
    o.toToml = .ok o.render := by
  unfold toToml
  split
  · next n hn => exact if_pos (h n hn)
  · rfl

theorem toToml_of_exceeds {o : Overlay} {n : UInt64} (hn : n ∈ o.maxIndex) (h : Int64.maxValue.toInt < n.toNat) :
    o.toToml = .error .outOfRange := by
  have heq : o.maxIndex = some n := hn
  rw [toToml, heq]
  exact if_neg (by omega)

theorem ofToml_of_toToml {o : Overlay} {text : String} (h : o.toToml = .ok text) : Overlay.ofToml text = .ok o := by
  have hfits : ∀ n ∈ o.maxIndex, n.toNat ≤ Int64.maxValue.toInt := by
    intro n hn
    by_contra hlt
    rw [toToml_of_exceeds hn (by omega)] at h
    cases h
  rw [toToml_of_fits hfits] at h
  cases h
  exact ofToml_render hfits

end Overlay

namespace Settings

theorem merge_default_toOverlay (c : Settings) : ({} : Settings).merge c.toOverlay = c := by
  rw [merge_toOverlay, Option.or_none]

theorem toToml_ofToml (c : Settings) :
    ((∀ n ∈ c.maxIndex, n.toNat ≤ Int64.maxValue.toInt) →
      ∃ text, c.toToml = .ok text ∧ Settings.ofToml text = .ok c) ∧
    ((∃ n ∈ c.maxIndex, Int64.maxValue.toInt < n.toNat) →
      c.toToml = .error (.config "Failed to serialize config: out-of-range value for u64 type")) := by
  constructor
  · intro h
    refine ⟨c.toOverlay.render, ?_, ?_⟩
    · rw [toToml, Overlay.toToml_of_fits h]
      rfl
    · rw [ofToml, Overlay.ofToml_render h]
      exact congrArg Except.ok c.merge_default_toOverlay
  · rintro ⟨n, hn, hlt⟩
    rw [toToml, Overlay.toToml_of_exceeds hn hlt]
    rfl

theorem toToml_ofToml_at_greatest :
    (∃ text,
      ({ negative := .passThrough, maxIndex := some 9223372036854775807, trace := .active .high } : Settings).toToml =
        .ok text ∧
      Settings.ofToml text =
        .ok { negative := .passThrough, maxIndex := some 9223372036854775807, trace := .active .high }) ∧
    ({ maxIndex := some 9223372036854775808 } : Settings).toToml =
      .error (.config "Failed to serialize config: out-of-range value for u64 type") := by
  obtain ⟨hwritable, -⟩ :=
    toToml_ofToml { negative := .passThrough, maxIndex := some 9223372036854775807, trace := .active .high }
  obtain ⟨-, hrefused⟩ := toToml_ofToml { maxIndex := some 9223372036854775808 }
  refine ⟨hwritable ?_, hrefused ?_⟩
  · rintro n ⟨⟩
    decide
  · exact ⟨_, rfl, by decide⟩

end Settings

end BoundedFibonacci
