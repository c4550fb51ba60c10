import BoundedFibonacci.Proofs.FollowedPaths
import BoundedFibonacci.Proofs.SettingsText
import BoundedFibonacci.Store

namespace BoundedFibonacci

namespace Store

variable {s : Store} {h : Host} {o : Overlay} {text : String} {content : ByteArray} {f : FileFault} {p : Toml.Problem}

theorem read_of_error (htext : h.readText s.path = .error f) (hf : f ≠ .notFound) :
    s.read h = .error (.io f.message) := by
  unfold read
  split
  · next hmissing => exact absurd (Except.error.inj (htext.symm.trans hmissing)) hf
  · next hother =>
    cases htext.symm.trans hother
    rfl
  · next hok => cases htext.symm.trans hok

theorem read_eq_none_iff : s.read h = .ok none ↔ h.readText s.path = .error .notFound := by
  constructor
  · intro hread
    unfold read at hread
    split at hread
    · next htext => exact htext
    · cases hread
    · split at hread <;> cases hread
  · intro htext
    rw [read, htext]

theorem read_eq_some_iff :
    s.read h = .ok (some o) ↔ ∃ text, h.readText s.path = .ok text ∧ Overlay.ofToml text = .ok o := by
  constructor
  · intro hread
    unfold read at hread
    split at hread
    · cases hread
    · cases hread
    · next text htext =>
      split at hread
      · next hparse =>
        cases hread
        exact ⟨text, htext, hparse⟩
      · cases hread
  · rintro ⟨text, htext, hparse⟩
    simp only [read, htext, hparse]

theorem read_of_malformed (htext : h.readText s.path = .ok text) (hparse : Overlay.ofToml text = .error p) :
    s.read h = .error (.config (s.path.text ++ ": " ++ p.message text)) := by
  simp only [read, htext, hparse]

theorem read_of_directory (hfinds : h.files.Finds h.cwd s.path .directory) :
    s.read h = .error (.io "Is a directory (os error 21)") :=
  read_of_error (FileSystem.readText_of_error (FileSystem.readFile_of_finds hfinds)) (by decide)

theorem read_of_not_valid (hfinds : h.files.Finds h.cwd s.path (.file content)) (hvalid : ¬ content.IsValidUTF8) :
    s.read h = .error (.io "stream did not contain valid UTF-8") :=
  read_of_error (FileSystem.readText_of_not_valid hfinds hvalid) (by decide)

theorem read_of_passesFile (hpass : h.files.PassesFile h.cwd s.path) :
    s.read h = .error (.io ((Path.fault? s.path.text).getD .notDirectory).message) := by
  apply read_of_error (FileSystem.readText_of_error (FileSystem.readFile_of_passesFile hpass))
  cases hfault : Path.fault? s.path.text with
  | none => simp
  | some f =>
    rintro rfl
    exact Path.fault?_ne_notFound _ hfault

def readGiven (h : Host) : Option Store → Except Error (Option Overlay)
  | none => .ok none
  | some s => s.read h

end Store

namespace Settings

variable {h : Host} {s : Settings} {store : Store} {rest : List Store} {o g : Option Overlay} {e : Error}
  {global : Option Store}

theorem mergeStores_of_error (hread : store.read h = .error e) : mergeStores h (store :: rest) s = (.error e, []) := by
  rw [mergeStores, hread]

theorem mergeStores_of_ok (hread : store.read h = .ok o) :
    (mergeStores h (store :: rest) s).1 = (mergeStores h rest (s.merge (o.getD {}))).1 := by
  rw [mergeStores, hread]
  cases o with
  | none => rw [Option.getD_none, merge_empty]
  | some o => rfl

theorem loadLayered_of_error (hread : Store.readGiven h global = .error e) (project : Store) :
    loadLayered h global project = (.error e, []) := by
  cases global with
  | none => cases hread
  | some store => exact mergeStores_of_error hread

theorem loadLayered_of_ok (hread : Store.readGiven h global = .ok g) (project : Store) :
    (loadLayered h global project).1 =
      (project.read h).map fun p => (({} : Settings).merge (g.getD {})).merge (p.getD {}) := by
  have hlast (s : Settings) : (mergeStores h [project] s).1 = (project.read h).map fun p => s.merge (p.getD {}) := by
    cases hproject : project.read h with
    | error e => rw [mergeStores_of_error hproject]; rfl
    | ok p => rw [mergeStores_of_ok hproject]; rfl
  cases global with
  | none =>
    cases hread
    rw [Option.getD_none, merge_empty]
    exact hlast {}
  | some store => exact (mergeStores_of_ok hread).trans (hlast _)

section Parts

variable {α : Type} (part : Overlay → Option α)

theorem part_getD (hpart : part {} = none) (o : Option Overlay) : part (o.getD {}) = o.bind part := by
  cases o with
  | none => exact hpart
  | some o => rfl

theorem part_or (hpart : part {} = none) (p g : Option Overlay) :
    (part (p.getD {})).or (part (g.getD {})) = (p.bind part).or (g.bind part) := by
  rw [part_getD part hpart, part_getD part hpart]

theorem part_getD_getD (hpart : part {} = none) (p g : Option Overlay) (d : α) :
    (part (p.getD {})).getD ((part (g.getD {})).getD d) = ((p.bind part).or (g.bind part)).getD d := by
  rw [← Option.getD_or, part_or part hpart]

end Parts

theorem loadLayered_exact (h : Host) (global : Option Store) (project : Store) :
    (∀ e, Store.readGiven h global = .error e →
      (loadLayered h global project).1 = .error e ∧
      ∀ h' project', Store.readGiven h' global = .error e →
        loadLayered h' global project' = loadLayered h global project) ∧
    (∀ g e, Store.readGiven h global = .ok g → project.read h = .error e →
      (loadLayered h global project).1 = .error e) ∧
    (∀ g p, Store.readGiven h global = .ok g → project.read h = .ok p →
      ∃ c, (loadLayered h global project).1 = .ok c ∧
        c.negative = ((p.bind Overlay.negative).or (g.bind Overlay.negative)).getD .reject ∧
        c.overflow = ((p.bind Overlay.overflow).or (g.bind Overlay.overflow)).getD .error ∧
        c.maxIndex = (p.bind Overlay.maxIndex).or (g.bind Overlay.maxIndex) ∧
        c.trace = ((p.bind Overlay.trace).or (g.bind Overlay.trace)).getD ⟨false, .normal⟩) ∧
    (∀ s : Store,
      (s.read h = .ok none ↔ h.files.readFile h.cwd s.path = .error .notFound) ∧
      (h.files.readFile h.cwd s.path = .error .notFound ↔ h.files.Missing h.cwd s.path) ∧
      (∀ o, s.read h = .ok (some o) ↔
        ∃ text, h.files.Finds h.cwd s.path (.file text.toUTF8) ∧ Overlay.ofToml text = .ok o) ∧
      (∀ content, h.files.Finds h.cwd s.path (.file content) → ¬ content.IsValidUTF8 →
        s.read h = .error (.io "stream did not contain valid UTF-8")) ∧
      (h.files.Finds h.cwd s.path .directory → s.read h = .error (.io "Is a directory (os error 21)")) ∧
      (h.files.PassesFile h.cwd s.path →
        s.read h = .error (.io ((Path.fault? s.path.text).getD .notDirectory).message)) ∧
      (∀ text p, h.files.Finds h.cwd s.path (.file text.toUTF8) → Overlay.ofToml text = .error p →
        s.read h = .error (.config (s.path.text ++ ": " ++ p.message text)))) := by
  refine ⟨?_, ?_, ?_, ?_⟩
  · intro e hread
    rw [loadLayered_of_error hread]
    refine ⟨rfl, ?_⟩
    intro h' project' hread'
    exact loadLayered_of_error hread' project'
  · intro g e hread hproject
    rw [loadLayered_of_ok hread, hproject]
    rfl
  · intro g p hread hproject
    refine ⟨_, by rw [loadLayered_of_ok hread, hproject]; rfl, ?_, ?_, ?_, ?_⟩
    · exact part_getD_getD Overlay.negative rfl p g _
    · exact part_getD_getD Overlay.overflow rfl p g _
    · rw [← part_or Overlay.maxIndex rfl p g]
      simp [merge]
    · exact part_getD_getD Overlay.trace rfl p g _
  · intro s
    refine ⟨?_, FileSystem.readFile_eq_notFound_iff, ?_, ?_, Store.read_of_directory, Store.read_of_passesFile, ?_⟩
    · rw [Store.read_eq_none_iff, Host.readText, FileSystem.readText_eq_notFound_iff, FileSystem.readFile_eq_notFound_iff]
    · intro o
      simp only [Store.read_eq_some_iff, Host.readText, FileSystem.readText_eq_ok_iff]
    · intro content
      exact Store.read_of_not_valid
    · intro text p hfinds
      exact Store.read_of_malformed (FileSystem.readText_eq_ok_iff.mpr hfinds)

def threeDirectories : Host where
  home := ⟨"/home"⟩
  files := ⟨[(["g"], .directory), (["g", "fibcalc.toml"], .file "overflow = \"wrapping\"\nmax_index = 500\n".toUTF8),
    (["p"], .directory), (["p", "fibcalc.toml"], .file "overflow = \"saturating\"\n".toUTF8),
    (["d"], .directory), (["d", "fibcalc.toml"], .directory)]⟩

theorem loadLayered_threeDirectories :
    (∃ c, (loadLayered threeDirectories (some ⟨⟨"/g/fibcalc.toml"⟩⟩) ⟨⟨"/p/fibcalc.toml"⟩⟩).1 = .ok c ∧
      c.negative = .reject ∧ c.overflow = .saturating ∧ c.maxIndex = some 500 ∧ c.trace = ⟨false, .normal⟩) ∧
    (loadLayered threeDirectories (some ⟨⟨"/d/fibcalc.toml"⟩⟩) ⟨⟨"/p/fibcalc.toml"⟩⟩).1 =
      .error (.io "Is a directory (os error 21)") := by
  have hglobal : Store.readGiven threeDirectories (some ⟨⟨"/g/fibcalc.toml"⟩⟩) =
      .ok (some { overflow := some .wrapping, maxIndex := some 500 }) :=
    Except.toOption_eq_some_iff.mp (by decide +kernel)
  have hproject : Store.read ⟨⟨"/p/fibcalc.toml"⟩⟩ threeDirectories = .ok (some { overflow := some .saturating }) :=
    Except.toOption_eq_some_iff.mp (by decide +kernel)
  have hfinds : threeDirectories.files.Finds threeDirectories.cwd ⟨"/d/fibcalc.toml"⟩ .directory := by
    refine ⟨⟨["d", "fibcalc.toml"], 0⟩, FileSystem.locate_eq_ok_iff.mp (Except.toOption_eq_some_iff.mp ?_), rfl⟩
    decide +kernel
  obtain ⟨-, -, hok, -⟩ := loadLayered_exact threeDirectories (some ⟨⟨"/g/fibcalc.toml"⟩⟩) ⟨⟨"/p/fibcalc.toml"⟩⟩
  obtain ⟨herror, -, -, hread⟩ :=
    loadLayered_exact threeDirectories (some ⟨⟨"/d/fibcalc.toml"⟩⟩) ⟨⟨"/p/fibcalc.toml"⟩⟩
  obtain ⟨-, -, -, -, hdirectory, -⟩ := hread ⟨⟨"/d/fibcalc.toml"⟩⟩
  exact ⟨hok _ _ hglobal hproject, (herror _ (hdirectory hfinds)).1⟩

end Settings

end BoundedFibonacci
