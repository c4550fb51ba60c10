import BoundedFibonacci.Event
import BoundedFibonacci.Host
import BoundedFibonacci.Settings.Toml

namespace BoundedFibonacci

structure Store where
  path : Path
  deriving DecidableEq, Repr

namespace Store

def fileName : String := "fibcalc.toml"

def globalName : String := "fibcalc"

def projectName : String := ".fibcalc"

def inDirectory (p : Path) : Store := ⟨p.join ⟨fileName⟩⟩

def project (root : Path) : Store := inDirectory (root.join ⟨projectName⟩)

def global (h : Host) : Store := inDirectory (h.configDirectory.join ⟨globalName⟩)

def current (h : Host) : Except Error Store :=
  match h.workingPath with
  | .ok p => .ok (project p)
  | .error f => .error (.io f.message)

def same (s t : Store) : Bool := s.path.same t.path

def read (s : Store) (h : Host) : Except Error (Option Overlay) :=
  match h.readText s.path with
  | .error .notFound => .ok none
  | .error f => .error (.io f.message)
  | .ok text =>
    match Overlay.ofToml text with
    | .ok o => .ok (some o)
    | .error p => .error (.config (s.path.text ++ ": " ++ p.message text))

structure Effect where
  host : Host
  result : Except Error Unit
  log : List Event

/-- Writes all settings. The directory is made first, then the text is formed, and only then the file is replaced. -/
def write (s : Store) (h : Host) (c : Settings) : Effect :=
  match h.files.makeParents h.cwd s.path with
  | (files, .error f) => ⟨{ h with files := files }, .error (.io f.message), []⟩
  | (files, .ok ()) =>
    let h := { h with files := files }
    match c.toToml with
    | .error e => ⟨h, .error e, []⟩
    | .ok text =>
      match files.writeFile h.cwd s.path text.toUTF8 with
      | .error f => ⟨h, .error (.io f.message), []⟩
      | .ok files => ⟨{ h with files := files }, .ok (), [.wrote s.path.text]⟩

def describe (s : Store) : String := Text.record "ConfigStore" [("path", Text.quoted s.path.text)]

end Store

namespace Settings

def mergeStores (h : Host) : List Store → Settings → Except Error Settings × List Event
  | [], s => (.ok s, [.loaded s])
  | store :: rest, s =>
    match store.read h with
    | .error e => (.error e, [])
    | .ok none => mergeStores h rest s
    | .ok (some o) =>
      let r := mergeStores h rest (s.merge o)
      (r.1, .merging store.path.text :: r.2)

def loadLayered (h : Host) (global : Option Store) (project : Store) : Except Error Settings × List Event :=
  mergeStores h (global.toList ++ [project]) {}

def loadFrom (h : Host) (store : Store) : Except Error Settings × List Event := loadLayered h none store

def load (h : Host) : Except Error Settings × List Event :=
  match Store.current h with
  | .error e => (.error e, [])
  | .ok project => loadLayered h (some (Store.global h)) project

end Settings

end BoundedFibonacci
