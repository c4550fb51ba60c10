import BoundedFibonacci.Proofs.MadeDirectories
import BoundedFibonacci.Proofs.SavedSettings

namespace BoundedFibonacci

instance (o : Option Entry) : Decidable (o = some .directory) :=
  match o with
  | some .directory => isTrue rfl
  | some (.file _) | none => isFalse (by simp)

namespace Store

theorem write_error_frame (s : Store) (h : Host) (c : Settings) {e : Error} (hfail : (s.write h c).result = .error e) :
    (∀ l content,
      (s.write h c).host.files.get? l = some (.file content) ↔ h.files.get? l = some (.file content)) ∧
    (∀ l, h.files.get? l = some .directory → (s.write h c).host.files.get? l = some .directory) ∧
    (∀ l, (s.write h c).host.files.get? l = some .directory → h.files.get? l ≠ some .directory →
      h.files.get? l = none ∧ (s.write h c).host.files.LiesOn h.cwd (s.path.parent?.getD []) l) ∧
    (s.write h c).host = { h with files := (s.write h c).host.files } := by
  have hgrows := h.files.makeParents_grows h.cwd s.path
  obtain ⟨e', hwrite⟩ | ⟨files, text, files', -, -, -, hwrite⟩ := s.write_cases h c
  · rw [hwrite]
    refine ⟨?_, ?_, ?_, rfl⟩
    · intro l content
      exact hgrows.file_iff
    · intro l
      exact hgrows.kept l _
    · intro l
      exact hgrows.of_new_directory
  · rw [hwrite] at hfail
    cases hfail

-- When the text cannot be formed the directory is already made, and the file that is there is not yet opened.
theorem write_error_frame_unwritable :
    ∃ w, (Store.mk ⟨"/p/n/../fibcalc.toml"⟩).write Settings.threeDirectories { maxIndex := some 18446744073709551615 } = w ∧
      (∃ e, w.result = .error e) ∧
      w.host.files.get? ["p", "fibcalc.toml"] = some (.file "overflow = \"saturating\"\n".toUTF8) ∧
      w.host.files.get? ["p", "n"] = some .directory ∧
      w.host.files.LiesOn .root [.root, .normal "p", .normal "n", .parent] ["p", "n"] := by
  obtain ⟨w, hw⟩ : ∃ w, (Store.mk ⟨"/p/n/../fibcalc.toml"⟩).write Settings.threeDirectories
      { maxIndex := some 18446744073709551615 } = w := ⟨_, rfl⟩
  have hfail : ∃ e, w.result = .error e := by
    have hnone : w.result.toOption = none := by
      rw [← hw]
      decide +kernel
    cases hresult : w.result with
    | error e => exact ⟨e, rfl⟩
    | ok u => cases hresult ▸ hnone
  have hmade : w.host.files.get? ["p", "n"] = some .directory := by
    rw [← hw]
    decide +kernel
  obtain ⟨e, he⟩ := hfail
  obtain ⟨hfiles, -, hdirectories, -⟩ := write_error_frame _ _ _ (hw ▸ he)
  rw [hw] at hfiles hdirectories
  refine ⟨w, hw, ⟨e, he⟩, (hfiles _ _).mpr rfl, hmade, ?_⟩
  exact (hdirectories _ hmade (by decide +kernel)).2

theorem write_ok_exact (s : Store) (h : Host) (c : Settings) (hok : (s.write h c).result = .ok ()) :
    (∃ f, s.read (s.write h c).host = .ok (some f) ∧ f.negative = some c.negative ∧ f.overflow = some c.overflow ∧
      f.trace = some c.trace ∧ f.maxIndex = c.maxIndex) ∧
    (∃ l text, (s.write h c).host.files.locate h.cwd s.path = .ok ⟨l, 0⟩ ∧ c.toToml = .ok text ∧
      (s.write h c).host.files.get? l = some (.file text.toUTF8) ∧
      ∀ m content, m ≠ l →
        ((s.write h c).host.files.get? m = some (.file content) ↔ h.files.get? m = some (.file content))) ∧
    (∀ l, h.files.get? l = some .directory → (s.write h c).host.files.get? l = some .directory) ∧
    (∀ l, (s.write h c).host.files.get? l = some .directory → h.files.get? l ≠ some .directory →
      h.files.get? l = none ∧ (s.write h c).host.files.LiesOn h.cwd (s.path.parent?.getD []) l) ∧
    (s.write h c).host = { h with files := (s.write h c).host.files } := by
  have hgrows := h.files.makeParents_grows h.cwd s.path
  obtain ⟨e, hwrite⟩ | ⟨files, text, files', hparents, htext, hfile, hwrite⟩ := s.write_cases h c
  · rw [hwrite] at hok
    cases hok
  · have hread := read_of_write hwrite
    rw [hparents] at hgrows
    rw [hwrite]
    obtain ⟨l, hreach, hentry, hget⟩ := FileSystem.writeFile_place hfile
    have hkept : ∀ m, files.get? m = some .directory → files'.get? m = some .directory := by
      intro m hm
      rw [hget, if_neg, hm]
      rintro rfl
      exact hentry hm
    refine ⟨⟨_, hread, rfl, rfl, rfl, rfl⟩, ⟨l, text, FileSystem.locate_eq_ok_iff.mpr hreach, htext, ?_, ?_⟩, ?_, ?_, rfl⟩
    · exact (hget l).trans (if_pos rfl)
    · intro m content hm
      rw [hget, if_neg hm]
      exact hgrows.file_iff
    · intro m hm
      exact hkept m (hgrows.kept m _ hm)
    · intro m hafter hnew
      have hm : m ≠ l := by
        rintro rfl
        rw [hget, if_pos rfl] at hafter
        cases hafter
      rw [hget, if_neg hm] at hafter
      obtain ⟨hnone, hlie⟩ := hgrows.of_new_directory hafter hnew
      exact ⟨hnone, hlie.mono hkept⟩

-- The path leads through a directory that is made on the way, and back to a file that holds other settings.
theorem write_ok_exact_roundabout :
    ∃ w, (Store.mk ⟨"/p/n/../fibcalc.toml"⟩).write Settings.threeDirectories { overflow := .wrapping } = w ∧
      w.result = .ok () ∧
      (∃ f, Store.read ⟨⟨"/p/n/../fibcalc.toml"⟩⟩ w.host = .ok (some f) ∧ f.overflow = some .wrapping ∧ f.maxIndex = none) ∧
      w.host.files.get? ["g", "fibcalc.toml"] = Settings.threeDirectories.files.get? ["g", "fibcalc.toml"] ∧
      w.host.files.LiesOn .root [.root, .normal "p", .normal "n", .parent] ["p", "n"] := by
  obtain ⟨w, hw⟩ : ∃ w, (Store.mk ⟨"/p/n/../fibcalc.toml"⟩).write Settings.threeDirectories
      { overflow := .wrapping } = w := ⟨_, rfl⟩
  have hok : w.result = .ok () := by
    rw [← hw]
    exact Except.toOption_eq_some_iff.mp (by decide +kernel)
  have hplace : w.host.files.locate .root ⟨"/p/n/../fibcalc.toml"⟩ = .ok ⟨["p", "fibcalc.toml"], 0⟩ := by
    rw [← hw]
    exact Except.toOption_eq_some_iff.mp (by decide +kernel)
  have hmade : w.host.files.get? ["p", "n"] = some .directory := by
    rw [← hw]
    decide +kernel
  have hexact := write_ok_exact _ _ _ (hw ▸ hok)
  rw [hw] at hexact
  obtain ⟨⟨f, hread, -, hoverflow, -, hmax⟩, ⟨l, text, hl, -, -, hothers⟩, -, hdirectories, -⟩ := hexact
  cases hplace.symm.trans hl
  refine ⟨w, hw, hok, ⟨f, hread, hoverflow, hmax⟩, ?_, ?_⟩
  · have hbefore : Settings.threeDirectories.files.get? ["g", "fibcalc.toml"] =
        some (.file "overflow = \"wrapping\"\nmax_index = 500\n".toUTF8) := rfl
    rw [hbefore]
    exact (hothers _ _ (by decide)).mpr hbefore
  · exact (hdirectories _ hmade (by decide +kernel)).2

end Store

end BoundedFibonacci
