import BoundedFibonacci.Proofs.LayeredLoading

namespace BoundedFibonacci

namespace FileSystem

variable {fs fs' : FileSystem} {cwd p q : Position} {cs : List Component} {path : Path} {content : ByteArray}
  {l : Location}

theorem Leads.insert (h : fs.Leads p cs q) (hl : fs.get? l ≠ some .directory) (e : Entry) :
    (fs.insert l e).Leads p cs q := by
  have hroot : l ≠ [] := by
    rintro rfl
    exact hl fs.get?_root
  apply h.mono
  intro m hm
  rw [get?_insert fs l m e hroot, if_neg, hm]
  rintro rfl
  exact hl hm

theorem writeFile_eq_ok_iff :
    fs.writeFile cwd path content = .ok fs' ↔
      ∃ q, fs.Reaches cwd path q ∧ fs.entry? q ≠ some .directory ∧ fs' = fs.insert q.location (.file content) := by
  simp only [← locate_eq_ok_iff]
  unfold writeFile
  cases fs.locate cwd path with
  | error f => simp
  | ok q =>
    cases hentry : fs.entry? q with
    | none => simp [hentry, eq_comm]
    | some e => cases e <;> simp [hentry, eq_comm]

theorem writeFile_place (h : fs.writeFile cwd path content = .ok fs') :
    ∃ l, fs'.Reaches cwd path ⟨l, 0⟩ ∧ fs.get? l ≠ some .directory ∧
      ∀ m, fs'.get? m = if m = l then some (.file content) else fs.get? m := by
  obtain ⟨⟨l, removed⟩, ⟨hfault, hsteps, hlead⟩, hentry, rfl⟩ := writeFile_eq_ok_iff.mp h
  obtain ⟨rfl, hroot, hplace⟩ := place_of_not_directory hentry
  rw [hplace] at hentry
  exact ⟨l, ⟨hfault, hsteps, hlead.insert hentry _⟩, hentry, fun m => get?_insert fs l m _ hroot⟩

theorem finds_writeFile (h : fs.writeFile cwd path content = .ok fs') : fs'.Finds cwd path (.file content) := by
  obtain ⟨l, hreach, -, hget⟩ := writeFile_place h
  refine ⟨⟨l, 0⟩, hreach, ?_⟩
  rw [entry?_of_present rfl, hget, if_pos rfl]

end FileSystem

namespace Store

variable {s : Store} {h h' : Host} {c : Settings} {log : List Event}

theorem write_cases (s : Store) (h : Host) (c : Settings) :
    (∃ e, s.write h c = ⟨{ h with files := (h.files.makeParents h.cwd s.path).1 }, .error e, []⟩) ∨
    ∃ files text files', h.files.makeParents h.cwd s.path = (files, .ok ()) ∧ c.toToml = .ok text ∧
      files.writeFile h.cwd s.path text.toUTF8 = .ok files' ∧
      s.write h c = ⟨{ h with files := files' }, .ok (), [.wrote s.path.text]⟩ := by
  unfold write
  split
  · next files f hparents =>
    rw [hparents]
    exact .inl ⟨_, rfl⟩
  · next files hparents =>
    rw [hparents]
    dsimp only
    split
    · exact .inl ⟨_, rfl⟩
    · next text htext =>
      split
      · exact .inl ⟨_, rfl⟩
      · next files' hfile => exact .inr ⟨files, text, files', rfl, htext, hfile, rfl⟩

theorem write_eq_ok (hwrite : s.write h c = ⟨h', .ok (), log⟩) :
    ∃ files text files', h.files.makeParents h.cwd s.path = (files, .ok ()) ∧ c.toToml = .ok text ∧
      files.writeFile h.cwd s.path text.toUTF8 = .ok files' ∧ h' = { h with files := files' } := by
  obtain ⟨e, herror⟩ | ⟨files, text, files', hparents, htext, hfile, hok⟩ := write_cases s h c
  · cases herror.symm.trans hwrite
  · cases hok.symm.trans hwrite
    exact ⟨files, text, files', hparents, htext, hfile, rfl⟩

theorem read_of_write (hwrite : s.write h c = ⟨h', .ok (), log⟩) : s.read h' = .ok (some c.toOverlay) := by
  obtain ⟨files, text, files', -, htext, hfile, rfl⟩ := write_eq_ok hwrite
  have hparse : Overlay.ofToml text = .ok c.toOverlay := Overlay.ofToml_of_toToml (Except.mapError_eq_ok_iff.mp htext)
  exact read_eq_some_iff.mpr ⟨text, FileSystem.readText_eq_ok_iff.mpr (FileSystem.finds_writeFile hfile), hparse⟩

end Store

namespace Settings

variable {h h' : Host} {c : Settings} {project : Store} {log : List Event}

theorem loadLayered_of_write (hwrite : project.write h c = ⟨h', .ok (), log⟩) {global : Option Store}
    {g : Option Overlay} (hglobal : Store.readGiven h' global = .ok g) :
    (loadLayered h' global project).1 = .ok { c with maxIndex := c.maxIndex.or (g.bind Overlay.maxIndex) } := by
  have hmax : (({} : Settings).merge (g.getD {})).maxIndex = g.bind Overlay.maxIndex :=
    Option.or_none.trans (part_getD Overlay.maxIndex rfl g)
  rw [loadLayered_of_ok hglobal, Store.read_of_write hwrite, Except.map, Option.getD_some, merge_toOverlay, hmax]

theorem loadLayered_write_exact (hwrite : project.write h c = ⟨h', .ok (), log⟩) :
    (∀ global g, Store.readGiven h' global = .ok g →
      ∃ c', (loadLayered h' global project).1 = .ok c' ∧
        c'.negative = c.negative ∧ c'.overflow = c.overflow ∧ c'.trace = c.trace ∧
        c'.maxIndex = c.maxIndex.or (g.bind Overlay.maxIndex) ∧
        (c' = c ↔ c.maxIndex.isSome ∨ g.bind Overlay.maxIndex = none)) ∧
    (loadFrom h' project).1 = .ok c := by
  constructor
  · intro global g hglobal
    refine ⟨_, loadLayered_of_write hwrite hglobal, rfl, rfl, rfl, rfl, ?_⟩
    obtain ⟨negative, overflow, maxIndex, trace⟩ := c
    cases maxIndex <;> simp
  · have hread : Store.readGiven h' none = .ok none := rfl
    have hload := loadLayered_of_write hwrite hread
    rwa [Option.bind_none, Option.or_none] at hload

theorem loadLayered_write_unlimited :
    ∃ h' c', (Store.mk ⟨"/p/fibcalc.toml"⟩).write threeDirectories { negative := .passThrough, trace := .active .low } =
        ⟨h', .ok (), [.wrote "/p/fibcalc.toml"]⟩ ∧
      (loadLayered h' (some ⟨⟨"/g/fibcalc.toml"⟩⟩) ⟨⟨"/p/fibcalc.toml"⟩⟩).1 = .ok c' ∧
      c'.overflow = .error ∧ c'.maxIndex = some 500 ∧
      c' ≠ { negative := .passThrough, trace := .active .low } ∧
      (loadFrom h' ⟨⟨"/p/fibcalc.toml"⟩⟩).1 = .ok { negative := .passThrough, trace := .active .low } := by
  obtain ⟨w, hw⟩ : ∃ w, (Store.mk ⟨"/p/fibcalc.toml"⟩).write threeDirectories
      { negative := .passThrough, trace := .active .low } = w := ⟨_, rfl⟩
  have hwrite : w = ⟨w.host, .ok (), [.wrote "/p/fibcalc.toml"]⟩ := by
    have hresult : w.result = .ok () := by
      rw [← hw]
      exact Except.toOption_eq_some_iff.mp (by decide +kernel)
    have hlog : w.log = [.wrote "/p/fibcalc.toml"] := by
      rw [← hw]
      decide +kernel
    rw [← hresult, ← hlog]
  have hglobal : Store.readGiven w.host (some ⟨⟨"/g/fibcalc.toml"⟩⟩) =
      .ok (some { overflow := some .wrapping, maxIndex := some 500 }) := by
    rw [← hw]
    exact Except.toOption_eq_some_iff.mp (by decide +kernel)
  obtain ⟨hlayered, hfrom⟩ := loadLayered_write_exact (hw.trans hwrite)
  obtain ⟨c', hc', -, hoverflow, -, hmax, hsame⟩ := hlayered _ _ hglobal
  refine ⟨w.host, c', hw.trans hwrite, hc', hoverflow, hmax, ?_, hfrom⟩
  rw [ne_eq, hsame]
  decide

end Settings

end BoundedFibonacci
