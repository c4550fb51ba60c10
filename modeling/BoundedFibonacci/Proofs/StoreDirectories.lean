import BoundedFibonacci.Proofs.PathSpellings
import BoundedFibonacci.Proofs.StoreEffects

namespace BoundedFibonacci

namespace FileSystem

variable {fs : FileSystem} {cwd p q r : Position} {c : Component} {cs : List Component} {path : Path}
  {content : ByteArray}

theorem Leads.last (h : fs.Leads p (cs ++ [c]) r) :
    ∃ q, fs.Leads p cs q ∧ fs.entry? q = some .directory ∧ q.step c = .ok r := by
  induction cs generalizing p with
  | nil =>
    cases h with
    | cons hdir hstep h =>
      cases h
      exact ⟨p, .nil p, hdir, hstep⟩
  | cons d cs ih =>
    cases h with
    | cons hdir hstep h =>
      obtain ⟨q, hlead, hlast⟩ := ih h
      exact ⟨q, .cons hdir hstep hlead, hlast⟩

theorem step_normal {name : String} (h : p.step (.normal name) = .ok q) :
    p = ⟨p.location, 0⟩ ∧ q = ⟨p.location ++ [name], 0⟩ := by
  obtain ⟨l, removed⟩ := p
  rw [Position.step] at h
  split_ifs at h with hremoved
  obtain rfl : removed = 0 := Decidable.not_not.mp hremoved
  exact ⟨rfl, (Except.ok.inj h).symm⟩

theorem Reaches.steps_eq (h : fs.Reaches cwd path q) (hfile : fs.entry? q ≠ some .directory) :
    path.steps = path.components := by
  unfold Path.steps
  split
  · next hnames =>
    have hlead := h.leads
    rw [Path.steps, if_pos hnames] at hlead
    obtain ⟨q', -, hdir, hstep⟩ := hlead.last
    cases hstep
    exact absurd hdir hfile
  · rfl

end FileSystem

namespace Path

theorem root_not_mem_below (text : String) : Component.root ∉ below text := by
  intro h
  obtain ⟨s, -, hs⟩ := List.mem_filterMap.mp h
  unfold Component.ofSegment? at hs
  split_ifs at hs <;> cases hs

theorem head?_components (p : Path) : p.components.head? = some .root ↔ p.isAbsolute := by
  rw [components, origin]
  split_ifs with habsolute hdot
  · simp [habsolute]
  · simp [habsolute]
  · simp only [habsolute, iff_false, List.nil_append, Bool.false_eq_true]
    exact fun hhead => root_not_mem_below p.text (List.mem_of_head? hhead)

end Path

namespace Store

variable (p q : Path)

theorem components_inDirectory : (inDirectory p).path.components = p.components ++ [.normal fileName] :=
  Path.components_join p (by decide)

theorem parent?_inDirectory : (inDirectory p).path.parent? = some p.components := by
  simp [Path.parent?, components_inDirectory]

theorem same_inDirectory_iff : (inDirectory p).same (inDirectory q) ↔ p.same q := by
  simp [same, Path.same, components_inDirectory]

theorem same_project_iff : (project p).same (project q) ↔ p.same q := by
  have hjoin (r : Path) : (r.join ⟨projectName⟩).components = r.components ++ [.normal projectName] :=
    Path.components_join r (by decide)
  rw [project, project, same_inDirectory_iff]
  simp [Path.same, hjoin]

theorem start_inDirectory (cwd : Position) :
    (if (inDirectory p).path.components.head? = some .root then .root else cwd) =
      if p.isAbsolute then .root else cwd := by
  have hhead : (inDirectory p).path.components.head? = some .root ↔ p.isAbsolute := by
    rw [components_inDirectory, ← p.head?_components]
    cases p.components <;> simp
  simp only [hhead]

theorem directory_write_iff (s : Store) (h : Host) (c : Settings) (l : Location) :
    (s.write h c).host.files.get? l = some .directory ↔
      (h.files.makeParents h.cwd s.path).1.get? l = some .directory := by
  obtain ⟨e, hwrite⟩ | ⟨files, text, files', hparents, -, hfile, hwrite⟩ := s.write_cases h c
  · rw [hwrite]
  · obtain ⟨m, -, hentry, hget⟩ := FileSystem.writeFile_place hfile
    rw [hwrite, hparents]
    dsimp only
    rw [hget]
    split
    · next hl =>
      rw [hl]
      simp [hentry]
    · rfl

theorem liesOn_of_write (s : Store) (h : Host) (c : Settings) {l : Location}
    (hafter : (s.write h c).host.files.get? l = some .directory) (hnew : h.files.get? l ≠ some .directory) :
    (s.write h c).host.files.LiesOn h.cwd (s.path.parent?.getD []) l := by
  have hgrows := h.files.makeParents_grows h.cwd s.path
  obtain ⟨-, hlie⟩ := hgrows.of_new_directory ((s.directory_write_iff h c l).mp hafter) hnew
  exact hlie.mono fun m => (s.directory_write_iff h c m).mpr

theorem leads_of_write {h : Host} {c : Settings} {w : Effect} (hwrite : (inDirectory p).write h c = w)
    (hok : w.result = .ok ()) :
    ∃ l text, w.host.files.Leads (if p.isAbsolute then .root else h.cwd) p.components ⟨l, 0⟩ ∧
      w.host.files.get? l = some .directory ∧ c.toToml = .ok text ∧
      w.host.files.get? (l ++ [fileName]) = some (.file text.toUTF8) := by
  obtain ⟨e, herror⟩ | ⟨files, text, files', -, htext, hfile, hdone⟩ := (inDirectory p).write_cases h c
  · rw [← hwrite, herror] at hok
    cases hok
  · obtain ⟨m, hreach, -, hget⟩ := FileSystem.writeFile_place hfile
    have hfound : files'.get? m = some (.file text.toUTF8) := (hget m).trans (if_pos rfl)
    have hsteps := hreach.steps_eq (by rw [FileSystem.entry?_of_present rfl, hfound]; simp)
    have hlead := hreach.leads
    rw [Path.start, hsteps, start_inDirectory, components_inDirectory] at hlead
    -- The last step goes from the directory to the file, so the directory is no removed one.
    obtain ⟨q, hq, hdir, hstep⟩ := hlead.last
    obtain ⟨hpresent, hm⟩ := FileSystem.step_normal hstep
    cases hm
    rw [hpresent] at hq hdir
    rw [← hwrite, hdone]
    exact ⟨q.location, text, hq, hdir, htext, hfound⟩

theorem inDirectory_exact :
    (inDirectory p).path.components.getLast? = some (.normal "fibcalc.toml") ∧
    (inDirectory p).path.parent? = some p.components ∧
    (∀ h c w, (inDirectory p).write h c = w →
      (∀ l, w.host.files.get? l = some .directory → h.files.get? l ≠ some .directory →
        w.host.files.LiesOn h.cwd p.components l) ∧
      (w.result = .ok () →
        ∃ l text, w.host.files.Leads (if p.isAbsolute then .root else h.cwd) p.components ⟨l, 0⟩ ∧
          w.host.files.get? l = some .directory ∧ c.toToml = .ok text ∧
          w.host.files.get? (l ++ ["fibcalc.toml"]) = some (.file text.toUTF8))) ∧
    ((inDirectory p).same (inDirectory q) ↔ p.same q) ∧
    ((project p).same (project q) ↔ p.same q) ∧
    ((inDirectory p).same (project q) ↔ p.same (q.join ⟨".fibcalc"⟩)) ∧
    (p.same q ↔ Relation.EqvGen Path.Respells p q) := by
  refine ⟨?_, parent?_inDirectory p, ?_, same_inDirectory_iff p q, same_project_iff p q, same_inDirectory_iff p _,
    Path.same_iff_alike⟩
  · rw [components_inDirectory, List.getLast?_concat]
    rfl
  · intro h c w hwrite
    refine ⟨?_, leads_of_write p hwrite⟩
    intro l hafter hnew
    subst hwrite
    have hlie := (inDirectory p).liesOn_of_write h c hafter hnew
    rwa [parent?_inDirectory] at hlie

theorem inDirectory_exact_respelled :
    (inDirectory ⟨"/p//n/."⟩).same (inDirectory ⟨"/p/n/"⟩) ∧
    Relation.EqvGen Path.Respells ⟨"/p//n/."⟩ ⟨"/p/n/"⟩ ∧
    (inDirectory ⟨"q/./.fibcalc"⟩).same (project ⟨"q//"⟩) ∧
    ¬ (project ⟨"./p"⟩).same (project ⟨"p"⟩) ∧
    ¬ (inDirectory ⟨"p/../n"⟩).same (inDirectory ⟨"n"⟩) ∧
    ∃ w, (inDirectory ⟨"/p//n/."⟩).write Settings.threeDirectories { overflow := .wrapping } = w ∧ w.result = .ok () ∧
      w.host.files.get? ["p", "n"] = some .directory ∧
      w.host.files.LiesOn .root [.root, .normal "p", .normal "n"] ["p", "n"] ∧
      ∃ l text, w.host.files.Leads .root [.root, .normal "p", .normal "n"] ⟨l, 0⟩ ∧
        w.host.files.get? (l ++ ["fibcalc.toml"]) = some (.file text) := by
  obtain ⟨-, -, hwrites, hsame, -, -, hspelled⟩ := inDirectory_exact ⟨"/p//n/."⟩ ⟨"/p/n/"⟩
  obtain ⟨-, -, -, -, -, hproject, -⟩ := inDirectory_exact ⟨"q/./.fibcalc"⟩ ⟨"q//"⟩
  obtain ⟨-, -, -, -, hdot, -, -⟩ := inDirectory_exact ⟨"./p"⟩ ⟨"p"⟩
  obtain ⟨-, -, -, hdots, -, -, -⟩ := inDirectory_exact ⟨"p/../n"⟩ ⟨"n"⟩
  have hpath : Path.same ⟨"/p//n/."⟩ ⟨"/p/n/"⟩ := by decide +kernel
  refine ⟨hsame.mpr hpath, hspelled.mp hpath, hproject.mpr (by decide +kernel), mt hdot.mp (by decide +kernel),
    mt hdots.mp (by decide +kernel), ?_⟩
  obtain ⟨w, hw⟩ : ∃ w, (inDirectory ⟨"/p//n/."⟩).write Settings.threeDirectories { overflow := .wrapping } = w :=
    ⟨_, rfl⟩
  have hok : w.result = .ok () := by
    rw [← hw]
    exact Except.toOption_eq_some_iff.mp (by decide +kernel)
  have hmade : w.host.files.get? ["p", "n"] = some .directory := by
    rw [← hw]
    decide +kernel
  obtain ⟨hnew, hdone⟩ := hwrites _ _ w hw
  obtain ⟨l, text, hlead, -, -, hfile⟩ := hdone hok
  exact ⟨w, hw, hok, hmade, hnew _ hmade (by decide +kernel), l, _, hlead, hfile⟩

end Store

end BoundedFibonacci
