import BoundedFibonacci.FileSystem.Operations
import Mathlib.Tactic.SplitIfs

namespace BoundedFibonacci

def Path.start (path : Path) (cwd : Position) : Position := if path.steps.head? = some .root then .root else cwd

theorem Path.fault?_ne_notFound (text : String) : Path.fault? text ≠ some .notFound := by
  unfold Path.fault?
  split_ifs <;> simp

namespace FileSystem

variable {fs : FileSystem} {cwd p q : Position} {c : Component} {cs : List Component} {f : FileFault} {path : Path}
  {content : ByteArray} {text : String}

theorem entry?_of_present (h : p.removed = 0) : fs.entry? p = fs.get? p.location := if_pos h

theorem entry?_of_removed (h : p.removed ≠ 0) : fs.entry? p = some .directory := if_neg h

theorem place_of_not_directory (h : fs.entry? p ≠ some .directory) :
    p.removed = 0 ∧ p.location ≠ [] ∧ fs.entry? p = fs.get? p.location := by
  by_cases hremoved : p.removed = 0
  · rw [entry?_of_present hremoved] at h ⊢
    refine ⟨hremoved, ?_, rfl⟩
    intro hnil
    rw [hnil] at h
    exact h fs.get?_root
  · exact absurd (entry?_of_removed hremoved) h

/-- Components lead from one place to another, and every place that is left on the way is a directory. -/
inductive Leads (fs : FileSystem) : Position → List Component → Position → Prop
  | nil (p : Position) : Leads fs p [] p
  | cons {p q r : Position} {c : Component} {cs : List Component} (hdir : fs.entry? p = some .directory)
      (hstep : p.step c = .ok q) (h : Leads fs q cs r) : Leads fs p (c :: cs) r

inductive Blocks (fs : FileSystem) (p : Position) (c : Component) : FileFault → Prop
  | missing (h : fs.entry? p = none) : Blocks fs p c .notFound
  | file {content : ByteArray} (h : fs.entry? p = some (.file content)) : Blocks fs p c .notDirectory
  | step {f : FileFault} (h : fs.entry? p = some .directory) (hstep : p.step c = .error f) : Blocks fs p c f

theorem walk_cons (hdir : fs.entry? p = some .directory) (hstep : p.step c = .ok q) (cs : List Component) :
    fs.walk p (c :: cs) = fs.walk q cs := by
  simp [walk, hdir, hstep]

theorem Leads.mono {fs' : FileSystem} (hkept : ∀ l, fs.get? l = some .directory → fs'.get? l = some .directory)
    (h : fs.Leads p cs q) : fs'.Leads p cs q := by
  induction h with
  | nil p => exact .nil p
  | @cons p q r c cs hdir hstep h ih =>
    refine .cons ?_ hstep ih
    by_cases hremoved : p.removed = 0
    · rw [entry?_of_present hremoved] at hdir ⊢
      exact hkept _ hdir
    · exact entry?_of_removed hremoved

theorem Leads.walk_append (h : fs.Leads p cs q) (ds : List Component) : fs.walk p (cs ++ ds) = fs.walk q ds := by
  induction h with
  | nil p => rfl
  | cons hdir hstep h ih => rw [List.cons_append, walk_cons hdir hstep, ih]

theorem walk_eq_ok_iff : fs.walk p cs = .ok q ↔ fs.Leads p cs q := by
  constructor
  · intro h
    induction cs generalizing p with
    | nil =>
      obtain rfl := Except.ok.inj h
      exact .nil p
    | cons c cs ih =>
      rw [walk] at h
      split at h
      · cases h
      · cases h
      · next hdir =>
        split at h
        · cases h
        · next hstep => exact .cons hdir hstep (ih h)
  · intro h
    rw [← List.append_nil cs, h.walk_append]
    rfl

theorem Blocks.walk_eq (h : fs.Blocks p c f) (cs : List Component) : fs.walk p (c :: cs) = .error f := by
  cases h with
  | missing h => simp [walk, h]
  | file h => simp [walk, h]
  | step h hstep => simp [walk, h, hstep]

theorem walk_eq_error_iff :
    fs.walk p cs = .error f ↔ ∃ pre c post q, cs = pre ++ c :: post ∧ fs.Leads p pre q ∧ fs.Blocks q c f := by
  constructor
  · intro h
    induction cs generalizing p with
    | nil => cases h
    | cons c cs ih =>
      rw [walk] at h
      split at h
      · next hnone =>
        cases h
        exact ⟨[], c, cs, p, rfl, .nil p, .missing hnone⟩
      · next hfile =>
        cases h
        exact ⟨[], c, cs, p, rfl, .nil p, .file hfile⟩
      · next hdir =>
        split at h
        · next hstep =>
          cases h
          exact ⟨[], c, cs, p, rfl, .nil p, .step hdir hstep⟩
        · next hstep =>
          obtain ⟨pre, d, post, q, rfl, hlead, hblock⟩ := ih h
          exact ⟨c :: pre, d, post, q, rfl, .cons hdir hstep hlead, hblock⟩
  · rintro ⟨pre, c, post, q, rfl, hlead, hblock⟩
    rw [hlead.walk_append, hblock.walk_eq]

theorem resolve_eq_ok_iff :
    fs.resolve cwd cs = .ok q ↔ cs ≠ [] ∧ fs.Leads (if cs.head? = some .root then .root else cwd) cs q := by
  rw [← walk_eq_ok_iff, resolve]
  by_cases hcs : cs = [] <;> simp [hcs]

structure Reaches (fs : FileSystem) (cwd : Position) (path : Path) (q : Position) : Prop where
  faultless : Path.fault? path.text = none
  nonempty : path.steps ≠ []
  leads : fs.Leads (path.start cwd) path.steps q

def Finds (fs : FileSystem) (cwd : Position) (path : Path) (e : Entry) : Prop :=
  ∃ q, fs.Reaches cwd path q ∧ fs.entry? q = some e

/-- The path is empty, or it comes to a place where nothing is, at its end or on the way, or goes down from a removed
directory. -/
def Missing (fs : FileSystem) (cwd : Position) (path : Path) : Prop :=
  Path.fault? path.text = none ∧
    (path.steps = [] ∨ ∃ pre post q, path.steps = pre ++ post ∧ fs.Leads (path.start cwd) pre q ∧
      (fs.entry? q = none ∨ q.removed ≠ 0 ∧ ∃ name, post.head? = some (.normal name)))

def PassesFile (fs : FileSystem) (cwd : Position) (path : Path) : Prop :=
  ∃ pre c post q content, path.steps = pre ++ c :: post ∧ fs.Leads (path.start cwd) pre q ∧
    fs.entry? q = some (.file content)

theorem locate_eq_walk (hfault : Path.fault? path.text = none) (hsteps : path.steps ≠ []) :
    fs.locate cwd path = fs.walk (path.start cwd) path.steps := by
  simp only [locate, hfault, resolve, if_neg hsteps, Path.start]

theorem locate_of_fault (h : Path.fault? path.text = some f) : fs.locate cwd path = .error f := by
  rw [locate, h]

theorem locate_of_empty (hfault : Path.fault? path.text = none) (hsteps : path.steps = []) :
    fs.locate cwd path = .error .notFound := by
  simp only [locate, hfault, resolve, if_pos hsteps]

theorem locate_eq_ok_iff : fs.locate cwd path = .ok q ↔ fs.Reaches cwd path q := by
  constructor
  · intro h
    cases hfault : Path.fault? path.text with
    | some f =>
      rw [locate_of_fault hfault] at h
      cases h
    | none =>
      by_cases hsteps : path.steps = []
      · rw [locate_of_empty hfault hsteps] at h
        cases h
      · rw [locate_eq_walk hfault hsteps, walk_eq_ok_iff] at h
        exact ⟨hfault, hsteps, h⟩
  · rintro ⟨hfault, hsteps, hlead⟩
    rw [locate_eq_walk hfault hsteps, walk_eq_ok_iff]
    exact hlead

theorem step_eq_notFound_iff : p.step c = .error .notFound ↔ p.removed ≠ 0 ∧ ∃ name, c = .normal name := by
  cases c with
  | normal name =>
    simp only [Position.step]
    split_ifs with hremoved <;> simp [hremoved]
  | root | current | parent => simp [Position.step]

theorem blocks_notFound_iff :
    fs.Blocks p c .notFound ↔ fs.entry? p = none ∨ p.removed ≠ 0 ∧ ∃ name, c = .normal name := by
  constructor
  · intro h
    cases h with
    | missing h => exact .inl h
    | step h hstep => exact .inr (step_eq_notFound_iff.mp hstep)
  · rintro (h | h)
    · exact .missing h
    · exact .step (entry?_of_removed h.1) (step_eq_notFound_iff.mpr h)

theorem readFile_of_finds {e : Entry} (h : fs.Finds cwd path e) :
    fs.readFile cwd path = match e with
      | .directory => .error .isDirectory
      | .file content => .ok content := by
  obtain ⟨q, hq, he⟩ := h
  rw [readFile, locate_eq_ok_iff.mpr hq]
  cases e <;> simp [he]

theorem readFile_eq_ok_iff : fs.readFile cwd path = .ok content ↔ fs.Finds cwd path (.file content) := by
  constructor
  · intro h
    unfold readFile at h
    split at h
    · cases h
    · next q hq =>
      split at h
      · cases h
      · cases h
      · next hfile =>
        cases h
        exact ⟨q, locate_eq_ok_iff.mp hq, hfile⟩
  · exact readFile_of_finds

theorem readFile_of_passesFile (h : fs.PassesFile cwd path) :
    fs.readFile cwd path = .error ((Path.fault? path.text).getD .notDirectory) := by
  obtain ⟨pre, c, post, q, content, hsteps, hlead, hfile⟩ := h
  cases hfault : Path.fault? path.text with
  | some f => simp [readFile, locate_of_fault hfault]
  | none =>
    have hne : path.steps ≠ [] := by simp [hsteps]
    have hwalk : fs.walk (path.start cwd) path.steps = .error .notDirectory :=
      walk_eq_error_iff.mpr ⟨pre, c, post, q, hsteps, hlead, .file hfile⟩
    simp [readFile, locate_eq_walk hfault hne, hwalk]

theorem missing_of_readFile (h : fs.readFile cwd path = .error .notFound) : fs.Missing cwd path := by
  cases hfault : Path.fault? path.text with
  | some f =>
    rw [readFile, locate_of_fault hfault] at h
    cases h
    exact absurd hfault (Path.fault?_ne_notFound path.text)
  | none =>
    refine ⟨hfault, ?_⟩
    by_cases hsteps : path.steps = []
    · exact .inl hsteps
    · right
      rw [readFile, locate_eq_walk hfault hsteps] at h
      cases hwalk : fs.walk (path.start cwd) path.steps with
      | error f =>
        rw [hwalk] at h
        cases h
        obtain ⟨pre, c, post, q, heq, hlead, hblock⟩ := walk_eq_error_iff.mp hwalk
        exact ⟨pre, c :: post, q, heq, hlead, by simpa using blocks_notFound_iff.mp hblock⟩
      | ok q =>
        refine ⟨path.steps, [], q, (List.append_nil _).symm, walk_eq_ok_iff.mp hwalk, .inl ?_⟩
        cases hentry : fs.entry? q with
        | none => rfl
        | some e => cases e <;> simp [hwalk, hentry] at h

theorem readFile_of_missing (h : fs.Missing cwd path) : fs.readFile cwd path = .error .notFound := by
  obtain ⟨hfault, hsteps | ⟨pre, post, q, heq, hlead, hend⟩⟩ := h
  · rw [readFile, locate_of_empty hfault hsteps]
  · by_cases hsteps : path.steps = []
    · rw [readFile, locate_of_empty hfault hsteps]
    rw [readFile, locate_eq_walk hfault hsteps, heq, hlead.walk_append]
    cases post with
    | nil =>
      have hnone : fs.entry? q = none := by simpa using hend
      simp [walk, hnone]
    | cons c post =>
      have hblock : fs.Blocks q c .notFound := blocks_notFound_iff.mpr (by simpa using hend)
      rw [hblock.walk_eq]

theorem readFile_eq_notFound_iff : fs.readFile cwd path = .error .notFound ↔ fs.Missing cwd path :=
  ⟨missing_of_readFile, readFile_of_missing⟩

theorem fromUTF8?_eq_some_iff : String.fromUTF8? content = some text ↔ content = text.toUTF8 := by
  unfold String.fromUTF8?
  split_ifs with hvalid
  · constructor
    · rintro ⟨⟩
      rfl
    · rintro rfl
      rfl
  · simp only [false_iff]
    rintro rfl
    exact hvalid text.isValidUTF8

theorem readText_eq_ok_iff : fs.readText cwd path = .ok text ↔ fs.Finds cwd path (.file text.toUTF8) := by
  rw [← readFile_eq_ok_iff, readText]
  cases fs.readFile cwd path with
  | error f => simp
  | ok content =>
    simp only [Except.ok.injEq, ← fromUTF8?_eq_some_iff]
    cases String.fromUTF8? content <;> simp

theorem readText_eq_notFound_iff : fs.readText cwd path = .error .notFound ↔ fs.Missing cwd path := by
  rw [← readFile_eq_notFound_iff, readText]
  cases fs.readFile cwd path with
  | error f => simp
  | ok content =>
    dsimp only
    cases String.fromUTF8? content <;> simp

theorem readText_of_error (h : fs.readFile cwd path = .error f) : fs.readText cwd path = .error f := by
  rw [readText, h]

theorem readText_of_not_valid (h : fs.Finds cwd path (.file content)) (hvalid : ¬ content.IsValidUTF8) :
    fs.readText cwd path = .error .notText := by
  have hnone : String.fromUTF8? content = none := dif_neg hvalid
  rw [readText, readFile_eq_ok_iff.mpr h]
  simp [hnone]

end FileSystem

end BoundedFibonacci
