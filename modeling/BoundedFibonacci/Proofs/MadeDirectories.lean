import BoundedFibonacci.Proofs.FollowedPaths

namespace BoundedFibonacci.FileSystem

variable {fs fs' fs'' : FileSystem} {cwd : Position} {cs ds : List Component} {l : Location} {content : ByteArray}

def LiesOn (fs : FileSystem) (cwd : Position) (cs : List Component) (l : Location) : Prop :=
  ∃ pre, pre <+: cs ∧ fs.resolve cwd pre = .ok ⟨l, 0⟩

theorem LiesOn.extend (h : fs.LiesOn cwd cs l) (hcs : cs <+: ds) : fs.LiesOn cwd ds l := by
  obtain ⟨pre, hpre, hlead⟩ := h
  exact ⟨pre, hpre.trans hcs, hlead⟩

theorem LiesOn.mono (hkept : ∀ l, fs.get? l = some .directory → fs'.get? l = some .directory)
    (h : fs.LiesOn cwd cs l) : fs'.LiesOn cwd cs l := by
  obtain ⟨pre, hpre, hlead⟩ := h
  obtain ⟨hne, hlead⟩ := resolve_eq_ok_iff.mp hlead
  exact ⟨pre, hpre, resolve_eq_ok_iff.mpr ⟨hne, hlead.mono hkept⟩⟩

structure Grows (cwd : Position) (cs : List Component) (fs fs' : FileSystem) : Prop where
  kept : ∀ l e, fs.get? l = some e → fs'.get? l = some e
  added : ∀ l e, fs.get? l = none → fs'.get? l = some e → e = .directory ∧ fs'.LiesOn cwd cs l

namespace Grows

theorem refl (cwd : Position) (cs : List Component) (fs : FileSystem) : Grows cwd cs fs fs where
  kept _ _ h := h
  added l e hnone hsome := by
    rw [hnone] at hsome
    cases hsome

theorem extend (h : Grows cwd cs fs fs') (hcs : cs <+: ds) : Grows cwd ds fs fs' where
  kept := h.kept
  added l e hnone hsome := (h.added l e hnone hsome).imp_right fun hlie => hlie.extend hcs

theorem trans (h : Grows cwd cs fs fs') (h' : Grows cwd cs fs' fs'') : Grows cwd cs fs fs'' where
  kept l e hl := h'.kept l e (h.kept l e hl)
  added l e hnone hsome := by
    cases hmid : fs'.get? l with
    | none => exact h'.added l e hmid hsome
    | some d =>
      obtain ⟨rfl, hlie⟩ := h.added l d hnone hmid
      cases (h'.kept l _ hmid).symm.trans hsome
      exact ⟨rfl, hlie.mono fun m => h'.kept m _⟩

theorem file_iff (h : Grows cwd cs fs fs') :
    fs'.get? l = some (.file content) ↔ fs.get? l = some (.file content) := by
  constructor
  · intro hafter
    cases hbefore : fs.get? l with
    | none => cases (h.added l _ hbefore hafter).1
    | some e => rw [← h.kept l e hbefore, hafter]
  · exact h.kept l _

theorem of_new_directory (h : Grows cwd cs fs fs') (hafter : fs'.get? l = some .directory)
    (hnew : fs.get? l ≠ some .directory) : fs.get? l = none ∧ fs'.LiesOn cwd cs l := by
  cases hbefore : fs.get? l with
  | none => exact ⟨rfl, (h.added l _ hbefore hafter).2⟩
  | some e =>
    cases (h.kept l e hbefore).symm.trans hafter
    exact absurd hbefore hnew

end Grows

theorem makeDirectory_eq_ok_iff :
    fs.makeDirectory cwd cs = .ok fs' ↔
      ∃ q, fs.resolve cwd cs = .ok q ∧ fs.entry? q = none ∧ fs' = fs.insert q.location .directory := by
  unfold makeDirectory
  cases fs.resolve cwd cs with
  | error f => simp
  | ok q => cases hentry : fs.entry? q <;> simp [hentry, eq_comm]

theorem makeDirectory_grows (h : fs.makeDirectory cwd cs = .ok fs') : Grows cwd cs fs fs' := by
  obtain ⟨⟨l, removed⟩, hlead, hentry, rfl⟩ := makeDirectory_eq_ok_iff.mp h
  have hopen : fs.entry? ⟨l, removed⟩ ≠ some .directory := by simp [hentry]
  obtain ⟨rfl, hroot, hplace⟩ := place_of_not_directory hopen
  have hfree : fs.get? l = none := hplace.symm.trans hentry
  have hget (m : Location) := get?_insert fs l m .directory hroot
  have hkept : ∀ m e, fs.get? m = some e → (fs.insert l .directory).get? m = some e := by
    intro m e hm
    rw [hget, if_neg, hm]
    rintro rfl
    rw [hfree] at hm
    cases hm
  refine ⟨hkept, ?_⟩
  intro m e hnone hsome
  rw [hget] at hsome
  split at hsome
  · next heq =>
    subst heq
    cases hsome
    have hlie : fs.LiesOn cwd cs m := ⟨cs, List.prefix_rfl, hlead⟩
    exact ⟨rfl, hlie.mono fun k => hkept k _⟩
  · rw [hnone] at hsome
    cases hsome

-- The induction is on the components from the last to the first, as the directories above are made before the last one
-- is tried again.
theorem makeDirectories_grows (fs : FileSystem) (cwd : Position) (cs : List Component) :
    Grows cwd cs.reverse fs (fs.makeDirectories cwd cs).1 := by
  induction cs with
  | nil => exact .refl cwd [] fs
  | cons c above ih =>
    have hprefix : above.reverse <+: (c :: above).reverse := by simp
    have habove := ih.extend hprefix
    rw [makeDirectories]
    split
    · next hmade => exact makeDirectory_grows hmade
    · split
      · next hfail =>
        rw [hfail] at habove
        exact habove
      · next hall =>
        rw [hall] at habove
        split
        · next hmade => exact habove.trans (makeDirectory_grows hmade)
        · exact habove
    · exact .refl cwd _ fs

theorem makeParents_grows (fs : FileSystem) (cwd : Position) (path : Path) :
    Grows cwd (path.parent?.getD []) fs (fs.makeParents cwd path).1 := by
  unfold makeParents
  split
  · exact .refl cwd _ fs
  · next parent hparent =>
    split
    · exact .refl cwd _ fs
    · have hmade := makeDirectories_grows fs cwd parent.reverse
      rw [List.reverse_reverse] at hmade
      rwa [hparent, Option.getD_some]

end BoundedFibonacci.FileSystem
