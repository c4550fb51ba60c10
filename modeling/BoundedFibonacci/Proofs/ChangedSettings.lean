import BoundedFibonacci.Settings.Toml

namespace BoundedFibonacci

theorem Settings.merge_merge_self (s : Settings) (o : Overlay) : (s.merge o).merge o = s.merge o := by
  obtain ⟨negative, overflow, maxIndex, trace⟩ := o
  cases negative <;> cases overflow <;> cases maxIndex <;> cases trace <;> rfl

inductive Change where
  | negative (policy : NegativePolicy)
  | overflow (policy : OverflowPolicy)
  | maxIndex (bound : UInt64)
  | trace (priority : Priority)
  | merge (o : Overlay)
  | mergeText (text : String)

namespace Change

def apply (c : Change) (s : Settings) : Settings :=
  match c with
  | .negative policy => s.withNegative policy
  | .overflow policy => s.withOverflow policy
  | .maxIndex bound => s.withMaxIndex bound
  | .trace priority => s.withTrace priority
  | .merge o => s.merge o
  | .mergeText text =>
    match Overlay.ofToml text with
    | .ok o => s.merge o
    | .error _ => s

def sets : Change → Overlay
  | .negative policy => { negative := some policy }
  | .overflow policy => { overflow := some policy }
  | .maxIndex bound => { maxIndex := some bound }
  | .trace priority => { trace := some ⟨true, priority⟩ }
  | .merge o => o
  | .mergeText text => (Overlay.ofToml text).toOption.getD {}

def Fails : Change → Prop
  | .mergeText text => (Overlay.ofToml text).toOption = none
  | _ => False

instance (c : Change) : Decidable c.Fails :=
  match c with
  | .mergeText text => inferInstanceAs (Decidable ((Overlay.ofToml text).toOption = none))
  | .negative _ | .overflow _ | .maxIndex _ | .trace _ | .merge _ => isFalse id

theorem apply_eq_merge (c : Change) (s : Settings) : c.apply s = s.merge c.sets := by
  cases c with
  | negative policy => rfl
  | overflow policy => rfl
  | maxIndex bound => rfl
  | trace priority => rfl
  | merge o => rfl
  | mergeText text =>
    unfold apply sets
    dsimp only
    cases Overlay.ofToml text with
    | ok o => rfl
    | error problem => exact s.merge_empty.symm

theorem sets_of_fails {c : Change} (h : c.Fails) : c.sets = {} := by
  cases c with
  | mergeText text =>
    have hread : (Overlay.ofToml text).toOption = none := h
    rw [sets, hread]
    rfl
  | negative | overflow | maxIndex | trace | merge => exact h.elim

theorem apply_of_fails {c : Change} (h : c.Fails) (s : Settings) : c.apply s = s := by
  rw [apply_eq_merge, sets_of_fails h, Settings.merge_empty]

theorem apply_apply (c : Change) (s : Settings) : c.apply (c.apply s) = c.apply s := by
  rw [apply_eq_merge, apply_eq_merge, Settings.merge_merge_self]

end Change

/-- What a field holds in the end: the value that the last change to set it gave, or the value before all changes. -/
inductive LastSet {α : Type} (given : Change → Option α) (before : α) : List Change → α → Prop
  | kept {changes : List Change} (h : ∀ c ∈ changes, given c = none) : LastSet given before changes before
  | set (earlier : List Change) {later : List Change} {c : Change} {x : α} (hc : given c = some x)
      (h : ∀ d ∈ later, given d = none) : LastSet given before (earlier ++ c :: later) x

namespace LastSet

variable {α : Type} {given : Change → Option α} {before x : α} {c : Change} {changes : List Change}

theorem cons (h : LastSet given ((given c).getD before) changes x) : LastSet given before (c :: changes) x := by
  cases h with
  | kept hlater =>
    cases hc : given c with
    | none => exact .kept (List.forall_mem_cons.mpr ⟨hc, hlater⟩)
    | some y => exact .set [] hc hlater
  | set earlier hd hlater => exact .set (c :: earlier) hd hlater

theorem value_cases (h : LastSet given before changes x) : x = before ∨ ∃ c ∈ changes, given c = some x := by
  cases h with
  | kept _ => exact .inl rfl
  | set earlier hc _ => exact .inr ⟨_, by simp, hc⟩

end LastSet

namespace Settings

variable (s : Settings) (changes : List Change)

def after : Settings := changes.foldl (fun s c => c.apply s) s

theorem after_cons (c : Change) : s.after (c :: changes) = (c.apply s).after changes := rfl

theorem after_append (more : List Change) : s.after (changes ++ more) = (s.after changes).after more :=
  List.foldl_append

theorem after_filter {keep : Change → Bool} (h : ∀ c ∈ changes, keep c = false → c.Fails) :
    s.after (changes.filter keep) = s.after changes := by
  induction changes generalizing s with
  | nil => rfl
  | cons c changes ih =>
    obtain ⟨hc, hchanges⟩ := List.forall_mem_cons.mp h
    cases hkeep : keep c with
    | true =>
      rw [List.filter_cons_of_pos hkeep, after_cons, after_cons]
      exact ih (c.apply s) hchanges
    | false =>
      rw [List.filter_cons_of_neg (by simp [hkeep]), after_cons, c.apply_of_fails (hc hkeep)]
      exact ih s hchanges

theorem lastSet_after {α : Type} (field : Settings → α) {given : Change → Option α}
    (h : ∀ s (c : Change), field (s.merge c.sets) = (given c).getD (field s)) :
    LastSet given (field s) changes (field (s.after changes)) := by
  -- The settings are free, since the first change alters what the field holds before the others.
  induction changes generalizing s with
  | nil => exact .kept (List.forall_mem_nil _)
  | cons c changes ih =>
    apply LastSet.cons
    rw [← h, ← c.apply_eq_merge]
    exact ih _

theorem lastSet_maxIndex :
    LastSet (fun c => c.sets.maxIndex.map some) s.maxIndex changes (s.after changes).maxIndex := by
  apply lastSet_after s changes maxIndex
  intro s c
  rw [merge]
  cases c.sets.maxIndex <;> rfl

theorem after_lastSet :
    LastSet (·.sets.negative) .reject changes (after {} changes).negative ∧
    LastSet (·.sets.overflow) .error changes (after {} changes).overflow ∧
    LastSet (fun c => c.sets.maxIndex.map some) none changes (after {} changes).maxIndex ∧
    LastSet (·.sets.trace) ⟨false, .normal⟩ changes (after {} changes).trace ∧
    (∀ keep : Change → Bool, (∀ c ∈ changes, keep c = false → c.Fails) →
      after {} (changes.filter keep) = after {} changes) ∧
    (∀ c more, c.Fails → after {} (changes ++ c :: more) = after {} (changes ++ more)) ∧
    (∀ c more, after {} (changes ++ c :: c :: more) = after {} (changes ++ c :: more)) ∧
    ∀ s : Settings, s.maxIndex.isSome → (s.after changes).maxIndex.isSome := by
  refine ⟨lastSet_after {} changes negative fun _ _ => rfl, lastSet_after {} changes overflow fun _ _ => rfl,
    lastSet_maxIndex {} changes, lastSet_after {} changes trace fun _ _ => rfl, ?_, ?_, ?_, ?_⟩
  · intro keep hkeep
    exact after_filter {} changes hkeep
  · intro c more hc
    rw [after_append, after_append, after_cons, c.apply_of_fails hc]
  · intro c more
    rw [after_append, after_append, after_cons, after_cons, after_cons, c.apply_apply]
  · intro s hs
    rcases (s.lastSet_maxIndex changes).value_cases with hkept | ⟨c, -, hgiven⟩
    · rwa [hkept]
    · obtain ⟨n, -, hn⟩ := Option.map_eq_some_iff.mp hgiven
      rw [← hn]
      rfl

def interrupted : List Change :=
  [.maxIndex 7, .mergeText "max_index = -1\n", .merge { trace := some {} }, .trace .high]

theorem after_lastSet_interrupted :
    LastSet (fun c => c.sets.maxIndex.map some) none interrupted (some 7) ∧
    LastSet (·.sets.trace) ⟨false, .normal⟩ interrupted ⟨true, .high⟩ ∧
    after {} (interrupted.filter fun c => !decide c.Fails) = after {} interrupted ∧
    (Change.mergeText "max_index = -1\n").Fails ∧
    after {} (interrupted ++ [.mergeText "max_index = -1\n", .negative .passThrough]) =
      after {} (interrupted ++ [.negative .passThrough]) ∧
    (after { maxIndex := some 9 } interrupted).maxIndex.isSome := by
  obtain ⟨-, -, hmax, htrace, hfilter, hdelete, -, hset⟩ := after_lastSet interrupted
  have hfails : (Change.mergeText "max_index = -1\n").Fails := by decide +kernel
  have hmaxIndex : (after {} interrupted).maxIndex = some 7 := by decide +kernel
  have htraced : (after {} interrupted).trace = ⟨true, .high⟩ := by decide +kernel
  rw [hmaxIndex] at hmax
  rw [htraced] at htrace
  refine ⟨hmax, htrace, hfilter _ ?_, hfails, hdelete _ _ hfails, hset _ rfl⟩
  intro c _ hc
  simpa using hc

end Settings

end BoundedFibonacci
