import BoundedFibonacci.FileSystem.Operations

namespace BoundedFibonacci

structure Host where
  files : FileSystem := {}
  cwd : Position := .root
  home : Path
  configHome : Option Path := none

namespace Host

def configDirectory (h : Host) : Path :=
  match h.configHome with
  | some p => if p.isAbsolute then p else h.home.join ⟨".config"⟩
  | none => h.home.join ⟨".config"⟩

def workingPath (h : Host) : Except FileFault Path :=
  if h.cwd.removed = 0 then .ok ⟨"/" ++ "/".intercalate h.cwd.location⟩ else .error .notFound

def readText (h : Host) (p : Path) : Except FileFault String := h.files.readText h.cwd p

def put (h : Host) (p : Path) (content : ByteArray) : Host × Bool :=
  match h.files.makeParents h.cwd p with
  | (files, .error _) => ({ h with files := files }, false)
  | (files, .ok ()) =>
    match files.writeFile h.cwd p content with
    | .error _ => ({ h with files := files }, false)
    | .ok files => ({ h with files := files }, true)

def makeDirectories (h : Host) (p : Path) : Host × Bool :=
  if (Path.fault? p.text).isSome then (h, false)
  else if p.endsInDot then
    -- The last directory is looked up from within, so only those above it are made.
    let files := (h.files.makeParents h.cwd p).1
    ({ h with files := files }, files.isDirectory h.cwd p.components)
  else
    let r := h.files.makeDirectories h.cwd p.components.reverse
    ({ h with files := r.1 }, r.2.isOk)

def clear (h : Host) (l : Location) : Host :=
  { h with files := h.files.clear l, cwd := h.cwd.afterClear l }

def erase (h : Host) (l : Location) : Host :=
  { h with files := h.files.erase l, cwd := h.cwd.afterErase l }

/-- Removes a file, or a directory with all it holds. A directory is emptied first and then looked up again by its path.
If the path led through what is gone, the directory stays and nothing more is asked; if the path ends in dots, the
directory stays and the removal fails. -/
def remove (h : Host) (p : Path) : Host × Bool :=
  match h.files.locate h.cwd p with
  | .error _ => (h, false)
  | .ok q =>
    match h.files.entry? q with
    | none => (h, false)
    | some (.file _) => (h.erase q.location, true)
    | some .directory =>
      if q.removed ≠ 0 then (h, false)
      else
        let h := h.clear q.location
        let holder := if p.endsInDot then p.components else p.components.dropLast
        match h.files.resolve h.cwd (holder ++ [.current]) with
        | .error .notFound => (h, true)
        | .error _ => (h, false)
        | .ok _ =>
          match p.endsInDot, p.components.getLast? with
          | false, some (.normal _) => (h.erase q.location, true)
          | _, _ => (h, false)

def enter (h : Host) (p : Path) : Host × Bool :=
  match h.files.locate h.cwd p with
  | .error _ => (h, false)
  | .ok q =>
    match h.files.entry? q with
    | some .directory => ({ h with cwd := q }, true)
    | _ => (h, false)

def list (h : Host) (p : Path) : List String :=
  match h.files.locate h.cwd p with
  | .error _ => []
  | .ok q => h.files.list q.location

end Host

end BoundedFibonacci
