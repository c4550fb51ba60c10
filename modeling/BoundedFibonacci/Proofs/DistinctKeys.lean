import BoundedFibonacci.Toml.Document
import Mathlib.Data.List.Nodup
import Mathlib.Tactic.SplitIfs

namespace BoundedFibonacci.Toml

inductive Value.Distinct : Value → Prop
  | string (r : Region) (s : String) : Distinct (.string r s)
  | integer (r : Region) (n : Int64) : Distinct (.integer r n)
  | float (r : Region) (x : Float) : Distinct (.float r x)
  | boolean (r : Region) (b : Bool) : Distinct (.boolean r b)
  | datetime (r : Region) (s : String) : Distinct (.datetime r s)
  | array (r : Region) {items : List Value} (h : ∀ v ∈ items, Distinct v) : Distinct (.array r items)
  | tables {items : List Value} (h : ∀ v ∈ items, Distinct v) : Distinct (.tables items)
  | table (o : Origin) (r : Option Region) {es : Entries} (hnodup : (es.map (·.1.name)).Nodup)
      (h : ∀ e ∈ es, Distinct e.2) : Distinct (.table o r es)

namespace Entries

variable {es : Entries} {name : String} {v : Value} {k : Key}

theorem get?_eq_none_iff : es.get? name = none ↔ name ∉ es.map (·.1.name) := by
  simp [get?]

theorem mem_of_get? (h : es.get? name = some v) : ∃ k : Key, k.name = name ∧ (k, v) ∈ es := by
  obtain ⟨e, he, rfl⟩ := Option.map_eq_some_iff.mp h
  exact ⟨e.1, by simpa using List.find?_some he, List.mem_of_find?_eq_some he⟩

theorem map_name_set (es : Entries) (name : String) (v : Value) :
    (es.set name v).map (·.1.name) = es.map (·.1.name) := by
  rw [set, List.map_map]
  apply List.map_congr_left
  intro e _
  simp only [Function.comp_apply]
  split_ifs <;> rfl

structure Distinct (es : Entries) : Prop where
  nodup : (es.map (·.1.name)).Nodup
  values : ∀ e ∈ es, e.2.Distinct

namespace Distinct

theorem nil : Distinct [] := ⟨List.nodup_nil, by simp⟩

theorem toValue (h : es.Distinct) (o : Origin) (r : Option Region) : (Value.table o r es).Distinct :=
  .table o r h.nodup h.values

theorem get? (h : es.Distinct) (hv : es.get? name = some v) : v.Distinct := by
  obtain ⟨k, -, hmem⟩ := mem_of_get? hv
  exact h.values _ hmem

theorem append (h : es.Distinct) (hk : es.get? k.name = none) (hv : v.Distinct) : Distinct (es ++ [(k, v)]) := by
  constructor
  · rw [List.map_append, List.nodup_append']
    refine ⟨h.nodup, List.nodup_singleton _, ?_⟩
    simpa using get?_eq_none_iff.mp hk
  · intro e he
    rcases List.mem_append.mp he with he | he
    · exact h.values e he
    · rw [List.mem_singleton.mp he]
      exact hv

theorem set (h : es.Distinct) (hv : v.Distinct) (name : String) : Distinct (es.set name v) := by
  constructor
  · rw [map_name_set]
    exact h.nodup
  · intro e he
    obtain ⟨d, hd, rfl⟩ := List.mem_map.mp he
    split_ifs
    · exact hv
    · exact h.values d hd

theorem erase (h : es.Distinct) (name : String) : Distinct (es.erase name) := by
  constructor
  · exact h.nodup.sublist (List.filter_sublist.map _)
  · intro e he
    exact h.values e (List.mem_of_mem_filter he)

end Distinct

theorem get?_erase (es : Entries) (name : String) : (es.erase name).get? name = none := by
  rw [get?_eq_none_iff]
  simp [erase]

end Entries

theorem Value.Distinct.entries {o : Origin} {r : Option Region} {es : Entries} (h : (Value.table o r es).Distinct) :
    es.Distinct := by
  cases h with
  | table o r hnodup h => exact ⟨hnodup, h⟩

theorem Value.Distinct.items {items : List Value} (h : (Value.tables items).Distinct) : ∀ v ∈ items, v.Distinct := by
  cases h with
  | tables h => exact h

namespace Entries

def KeepsDistinct (f : Entries → Option Entries) : Prop := ∀ es es', es.Distinct → f es = some es' → es'.Distinct

section Changes

variable {f : Entries → Option Entries} {fill : Entries → Option Value} {v : Value} {items : List Value}
  {es es' : Entries} {k : Key}

theorem inLast_distinct (hf : KeepsDistinct f) (hitems : ∀ v ∈ items, v.Distinct) (h : inLast f items = some v) :
    v.Distinct := by
  unfold inLast at h
  split at h
  · next o r sub hlast =>
    obtain ⟨sub', hsub', rfl⟩ := Option.map_eq_some_iff.mp h
    have hsub : Entries.Distinct sub := (hitems _ (List.mem_of_getLast? hlast)).entries
    apply Value.Distinct.tables
    rw [List.forall_mem_append, List.forall_mem_singleton]
    refine ⟨?_, (hf _ _ hsub hsub').toValue o r⟩
    intro w hw
    exact hitems w (List.dropLast_subset items hw)
  · cases h

-- The steps of a dotted key and those of a header go down in the same three ways.

theorem KeepsDistinct.make (hf : KeepsDistinct f) (hes : es.Distinct) (hnone : es.get? k.name = none) {o : Origin}
    (h : ((f []).map fun sub => es ++ [(k, .table o none sub)]) = some es') : es'.Distinct := by
  obtain ⟨sub, hsub, rfl⟩ := Option.map_eq_some_iff.mp h
  apply hes.append hnone
  exact (hf _ _ .nil hsub).toValue o none

theorem KeepsDistinct.pass (hf : KeepsDistinct f) (hes : es.Distinct) {o : Origin} {r : Option Region} {sub : Entries}
    (hsome : es.get? k.name = some (.table o r sub))
    (h : ((f sub).map fun sub => es.set k.name (.table o r sub)) = some es') : es'.Distinct := by
  obtain ⟨sub', hsub', rfl⟩ := Option.map_eq_some_iff.mp h
  apply hes.set
  exact (hf _ _ (hes.get? hsome).entries hsub').toValue o r

theorem KeepsDistinct.passLast (hf : KeepsDistinct f) (hes : es.Distinct) (hsome : es.get? k.name = some (.tables items))
    (h : (inLast f items).map (es.set k.name) = some es') : es'.Distinct := by
  obtain ⟨w, hw, rfl⟩ := Option.map_eq_some_iff.mp h
  apply hes.set
  exact inLast_distinct hf (hes.get? hsome).items hw

theorem place_distinct (hv : v.Distinct) (last : Key) (ks : List Key) : KeepsDistinct (place last v ks) := by
  induction ks with
  | nil =>
    intro es es' hes h
    rw [place] at h
    split_ifs at h with hused
    obtain rfl := Option.some.inj h
    exact hes.append (by simpa using hused) hv
  | cons k ks ih =>
    intro es es' hes h
    rw [place] at h
    split at h
    · next hnone => exact ih.make hes hnone h
    · next hsome =>
      split_ifs at h
      exact ih.pass hes hsome h
    · next hsome =>
      split_ifs at h
      exact ih.passLast hes hsome h
    · cases h

theorem within_distinct (hf : KeepsDistinct f) (ks : List Key) : KeepsDistinct (within f ks) := by
  induction ks with
  | nil => exact hf
  | cons k ks ih =>
    intro es es' hes h
    rw [within] at h
    split at h
    · next hnone => exact ih.make hes hnone h
    · next hsome =>
      split_ifs at h
      exact ih.pass hes hsome h
    · next hsome => exact ih.passLast hes hsome h
    · cases h

theorem openTable_distinct (hfill : ∀ es v, es.Distinct → fill es = some v → v.Distinct) (k : Key) :
    KeepsDistinct (openTable k fill) := by
  intro es es' hes h
  unfold openTable at h
  split at h
  · next hnone =>
    obtain ⟨v, hv, rfl⟩ := Option.map_eq_some_iff.mp h
    exact hes.append hnone (hfill _ _ .nil hv)
  · next r sub hsome =>
    obtain ⟨v, hv, rfl⟩ := Option.map_eq_some_iff.mp h
    exact (hes.erase k.name).append (get?_erase es k.name) (hfill _ _ (hes.get? hsome).entries hv)
  · cases h

theorem openElement_distinct (hfill : ∀ es v, es.Distinct → fill es = some v → v.Distinct) (k : Key) :
    KeepsDistinct (openElement k fill) := by
  intro es es' hes h
  unfold openElement at h
  split at h
  · next hnone =>
    obtain ⟨v, hv, rfl⟩ := Option.map_eq_some_iff.mp h
    apply hes.append hnone (.tables _)
    rw [List.forall_mem_singleton]
    exact hfill _ _ .nil hv
  · next items hsome =>
    obtain ⟨v, hv, rfl⟩ := Option.map_eq_some_iff.mp h
    apply hes.set (.tables _)
    rw [List.forall_mem_append, List.forall_mem_singleton]
    exact ⟨(hes.get? hsome).items, hfill _ _ .nil hv⟩
  · cases h

theorem foldlM_distinct {α : Type} {step : Entries → α → Option Entries} {xs : List α}
    (h : ∀ x ∈ xs, KeepsDistinct (step · x)) : KeepsDistinct (xs.foldlM step) := by
  induction xs with
  | nil =>
    intro es es' hes heq
    obtain rfl := Option.some.inj heq
    exact hes
  | cons x xs ih =>
    intro es es' hes heq
    obtain ⟨hx, hxs⟩ := List.forall_mem_cons.mp h
    simp only [List.foldlM_cons] at heq
    obtain ⟨mid, hmid, hrest⟩ := Option.bind_eq_some_iff.mp heq
    exact ih hxs mid es' (hx es mid hes hmid) hrest

theorem foldlM_assign_distinct {as : List Assignment} (h : ∀ a ∈ as, a.value.Distinct) :
    KeepsDistinct (as.foldlM assign) := by
  apply foldlM_distinct
  intro a ha
  exact place_distinct (h a ha) a.path.last a.path.steps

end Changes

end Entries

structure DistinctUpTo (most fuel : ℕ) : Prop where
  value {depth : ℕ} {cs : List Char} {v : Value} {r : List Char} (h : value? most fuel depth cs = some (v, r)) :
    v.Distinct
  items {depth : ℕ} {cs : List Char} {vs : List Value} {r : List Char} (h : items? most fuel depth cs = some (vs, r)) :
    ∀ v ∈ vs, v.Distinct
  pairs {depth : ℕ} {cs : List Char} {as : List Assignment} {r : List Char}
    (h : pairs? most fuel depth cs = some (as, r)) :
    ∀ a ∈ as, a.value.Distinct
  morePairs {depth : ℕ} {cs : List Char} {as : List Assignment} {r : List Char}
    (h : morePairs? most fuel depth cs = some (as, r)) : ∀ a ∈ as, a.value.Distinct
  assignment {depth : ℕ} {cs : List Char} {a : Assignment} {r : List Char}
    (h : assignment? most fuel depth cs = some (a, r)) : a.value.Distinct

section Readers

variable {most fuel depth : ℕ} {cs r : List Char} {v : Value} {vs : List Value} {a : Assignment} {as : List Assignment}

theorem scalar?_distinct (h : scalar? cs = some (v, r)) : v.Distinct := by
  unfold scalar? at h
  split at h
  · cases h
    exact .boolean _ _
  · cases h
    exact .boolean _ _
  · split at h
    · cases h
      exact .string _ _
    · split at h
      · cases h
        exact .datetime _ _
      · split at h
        · cases h
          exact .integer _ _
        · cases h
          exact .float _ _
        · cases h

theorem DistinctUpTo.value?_succ (ih : DistinctUpTo most fuel) (h : value? most (fuel + 1) depth cs = some (v, r)) :
    v.Distinct := by
  rw [value?.eq_def] at h
  dsimp only at h
  split at h
  · obtain ⟨inner, -, h⟩ := Option.bind_eq_some_iff.mp h
    obtain ⟨⟨items, rest⟩, hitems, heq⟩ := Option.bind_eq_some_iff.mp h
    cases heq
    exact .array _ (ih.items hitems)
  · obtain ⟨inner, -, h⟩ := Option.bind_eq_some_iff.mp h
    obtain ⟨⟨pairs, rest⟩, hpairs, heq⟩ := Option.bind_eq_some_iff.mp h
    obtain ⟨entries, hentries, heq⟩ := Option.bind_eq_some_iff.mp heq
    cases heq
    exact (Entries.foldlM_assign_distinct (ih.pairs hpairs) _ _ .nil hentries).toValue _ _
  · exact scalar?_distinct h

theorem DistinctUpTo.items?_succ (ih : DistinctUpTo most fuel) (h : items? most (fuel + 1) depth cs = some (vs, r)) :
    ∀ v ∈ vs, v.Distinct := by
  rw [items?.eq_def] at h
  dsimp only at h
  split at h
  · cases h
    simp
  · obtain ⟨⟨v, rest⟩, hv, heq⟩ := Option.bind_eq_some_iff.mp h
    dsimp only at heq
    split at heq
    · obtain ⟨⟨more, rest⟩, hmore, heq⟩ := Option.bind_eq_some_iff.mp heq
      cases heq
      exact List.forall_mem_cons.mpr ⟨ih.value hv, ih.items hmore⟩
    · cases heq
      exact List.forall_mem_singleton.mpr (ih.value hv)
    · cases heq

theorem DistinctUpTo.pairs?_succ (ih : DistinctUpTo most fuel) (h : pairs? most (fuel + 1) depth cs = some (as, r)) :
    ∀ a ∈ as, a.value.Distinct := by
  rw [pairs?.eq_def] at h
  dsimp only at h
  split at h
  · cases h
    simp
  · exact ih.morePairs h

theorem DistinctUpTo.morePairs?_succ (ih : DistinctUpTo most fuel)
    (h : morePairs? most (fuel + 1) depth cs = some (as, r)) :
    ∀ a ∈ as, a.value.Distinct := by
  rw [morePairs?] at h
  obtain ⟨⟨a, rest⟩, ha, heq⟩ := Option.bind_eq_some_iff.mp h
  dsimp only at heq
  split at heq
  · obtain ⟨⟨more, rest⟩, hmore, heq⟩ := Option.bind_eq_some_iff.mp heq
    cases heq
    exact List.forall_mem_cons.mpr ⟨ih.assignment ha, ih.morePairs hmore⟩
  · cases heq
    exact List.forall_mem_singleton.mpr (ih.assignment ha)
  · cases heq

theorem DistinctUpTo.assignment?_succ (ih : DistinctUpTo most fuel)
    (h : assignment? most (fuel + 1) depth cs = some (a, r)) :
    a.value.Distinct := by
  rw [assignment?] at h
  obtain ⟨⟨path, rest⟩, -, h⟩ := Option.bind_eq_some_iff.mp h
  obtain ⟨rest, -, h⟩ := Option.bind_eq_some_iff.mp h
  obtain ⟨⟨v, rest⟩, hv, heq⟩ := Option.bind_eq_some_iff.mp h
  cases heq
  exact ih.value hv

theorem distinctUpTo (most fuel : ℕ) : DistinctUpTo most fuel := by
  induction fuel with
  | zero => constructor <;> intros <;> contradiction
  | succ fuel ih => exact ⟨ih.value?_succ, ih.items?_succ, ih.pairs?_succ, ih.morePairs?_succ, ih.assignment?_succ⟩

end Readers

def Statement.Distinct : Statement → Prop
  | .assignment a => a.value.Distinct
  | .table .. | .element .. => True

section Documents

variable {most fuel : ℕ} {cs r : List Char} {s : Statement} {ss : List Statement} {text : String} {es : Entries}

theorem statement?_distinct (h : statement? most fuel cs = some (s, r)) : s.Distinct := by
  unfold statement? at h
  split at h
  · obtain ⟨⟨path, rest⟩, -, h⟩ := Option.bind_eq_some_iff.mp h
    obtain ⟨rest, -, h⟩ := Option.bind_eq_some_iff.mp h
    obtain ⟨rest, -, heq⟩ := Option.bind_eq_some_iff.mp h
    cases heq
    trivial
  · obtain ⟨⟨path, rest⟩, -, h⟩ := Option.bind_eq_some_iff.mp h
    obtain ⟨rest, -, heq⟩ := Option.bind_eq_some_iff.mp h
    cases heq
    trivial
  · obtain ⟨⟨a, rest⟩, ha, heq⟩ := Option.bind_eq_some_iff.mp h
    cases heq
    exact (distinctUpTo most fuel).assignment ha

theorem statements?_distinct (h : statements? most fuel cs = some ss) : ∀ s ∈ ss, s.Distinct := by
  induction fuel generalizing cs ss with
  | zero => cases h
  | succ fuel ih =>
    rw [statements?] at h
    split at h
    · cases h
      simp
    · split at h
      · exact ih h
      · obtain ⟨⟨s, rest⟩, hs, h⟩ := Option.bind_eq_some_iff.mp h
        obtain ⟨rest, -, h⟩ := Option.bind_eq_some_iff.mp h
        obtain ⟨more, hmore, heq⟩ := Option.bind_eq_some_iff.mp h
        cases heq
        exact List.forall_mem_cons.mpr ⟨statement?_distinct hs, ih hmore⟩

theorem Section.split_distinct (h : ∀ s ∈ ss, s.Distinct) :
    (∀ a ∈ (Section.split ss).1, a.value.Distinct) ∧
      ∀ s ∈ (Section.split ss).2, ∀ a ∈ s.body, a.value.Distinct := by
  induction ss with
  | nil => simp [Section.split]
  | cons s ss ih =>
    obtain ⟨hs, hss⟩ := List.forall_mem_cons.mp h
    obtain ⟨htop, hsections⟩ := ih hss
    cases s with
    | assignment a => exact ⟨List.forall_mem_cons.mpr ⟨hs, htop⟩, hsections⟩
    | table region path => exact ⟨by simp [Section.split], List.forall_mem_cons.mpr ⟨htop, hsections⟩⟩
    | element region path => exact ⟨by simp [Section.split], List.forall_mem_cons.mpr ⟨htop, hsections⟩⟩

theorem Section.addTo_distinct {s : Section} (h : ∀ a ∈ s.body, a.value.Distinct) :
    Entries.KeepsDistinct (Section.addTo · s) := by
  have hfill (es : Entries) (v : Value) (hes : es.Distinct) (hv : s.fill es = some v) : v.Distinct := by
    obtain ⟨sub, hsub, rfl⟩ := Option.map_eq_some_iff.mp hv
    exact (Entries.foldlM_assign_distinct h es sub hes hsub).toValue _ _
  apply Entries.within_distinct
  intro es es' hes heq
  split_ifs at heq
  · exact Entries.openElement_distinct hfill _ es es' hes heq
  · exact Entries.openTable_distinct hfill _ es es' hes heq

theorem parseWithin?_distinct (h : parseWithin? most text = some es) : es.Distinct := by
  obtain ⟨ss, hss, h⟩ := Option.bind_eq_some_iff.mp h
  obtain ⟨top, htop, hsections⟩ := Option.bind_eq_some_iff.mp h
  obtain ⟨hassign, hbody⟩ := Section.split_distinct (statements?_distinct hss)
  have hstart := Entries.foldlM_assign_distinct hassign _ _ .nil htop
  apply Entries.foldlM_distinct _ _ _ hstart hsections
  intro s hs
  exact Section.addTo_distinct (hbody s hs)

theorem parse?_distinct (h : parse? text = some es) : es.Distinct := parseWithin?_distinct h

end Documents

end BoundedFibonacci.Toml
