import BoundedFibonacci.FileSystem.Basic
import BoundedFibonacci.Path

namespace BoundedFibonacci

/-- A place from which paths are followed. A directory that is removed while it is in use stays a place: nothing is
found or made in it, and the way up still leads to the directory that held it. The number `removed` counts the
directories, each in the one before and all of them removed, from the location to the place. -/
structure Position where
  location : Location
  removed : Nat := 0
  deriving DecidableEq, Repr

namespace Position

def root : Position := ⟨[], 0⟩

def up (p : Position) : Position :=
  if p.removed = 0 then ⟨p.location.dropLast, 0⟩ else ⟨p.location, p.removed - 1⟩

def nameLimit : Nat := 255

def step (p : Position) : Component → Except FileFault Position
  | .root => .ok root
  | .current => .ok p
  | .parent => .ok p.up
  | .normal name =>
    if p.removed ≠ 0 then .error .notFound
    else if nameLimit < name.utf8ByteSize then .error .nameTooLong
    else .ok ⟨p.location ++ [name], 0⟩

def afterClear (p : Position) (l : Location) : Position :=
  if l.isPrefixOf p.location then ⟨l, p.removed + (p.location.length - l.length)⟩ else p

def afterErase (p : Position) (l : Location) : Position :=
  if p.location = l then ⟨l.dropLast, p.removed + 1⟩ else p

end Position

def Path.sizeLimit : Nat := 4096

def Path.fault? (text : String) : Option FileFault :=
  if '\x00' ∈ text.toList then some .zeroInName
  else if Path.sizeLimit ≤ text.utf8ByteSize then some .nameTooLong
  else none

def Path.steps (p : Path) : List Component :=
  -- A path that can only name a directory goes on into it.
  if p.namesDirectory then p.components ++ [.current] else p.components

namespace FileSystem

def entry? (fs : FileSystem) (p : Position) : Option Entry :=
  if p.removed = 0 then fs.get? p.location else some .directory

def walk (fs : FileSystem) : Position → List Component → Except FileFault Position
  | p, [] => .ok p
  | p, c :: cs =>
    match fs.entry? p with
    | none => .error .notFound
    | some (.file _) => .error .notDirectory
    | some .directory =>
      match p.step c with
      | .error f => .error f
      | .ok q => walk fs q cs

def resolve (fs : FileSystem) (cwd : Position) (cs : List Component) : Except FileFault Position :=
  if cs = [] then .error .notFound
  else fs.walk (if cs.head? = some .root then .root else cwd) cs

def locate (fs : FileSystem) (cwd : Position) (p : Path) : Except FileFault Position :=
  match Path.fault? p.text with
  | some f => .error f
  | none => fs.resolve cwd p.steps

def isDirectory (fs : FileSystem) (cwd : Position) (cs : List Component) : Bool :=
  match fs.resolve cwd cs with
  | .ok p => match fs.entry? p with
    | some .directory => true
    | _ => false
  | .error _ => false

end FileSystem

end BoundedFibonacci
