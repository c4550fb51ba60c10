import BoundedFibonacci.FileSystem.Lookup

namespace BoundedFibonacci.FileSystem

def makeDirectory (fs : FileSystem) (cwd : Position) (cs : List Component) : Except FileFault FileSystem :=
  match fs.resolve cwd cs with
  | .error f => .error f
  | .ok p =>
    match fs.entry? p with
    | some _ => .error .exists
    | none => .ok (fs.insert p.location .directory)

/-- Makes a directory, given by its components in reverse, and those above it that are missing. What was made before a
failure stays. -/
def makeDirectories (fs : FileSystem) (cwd : Position) : List Component → FileSystem × Except FileFault Unit
  | [] => (fs, .ok ())
  | c :: above =>
    let path := (c :: above).reverse
    match fs.makeDirectory cwd path with
    | .ok fs => (fs, .ok ())
    | .error .notFound =>
      match makeDirectories fs cwd above with
      | (fs, .error f) => (fs, .error f)
      | (fs, .ok ()) =>
        match fs.makeDirectory cwd path with
        | .ok fs => (fs, .ok ())
        | .error f => (fs, if fs.isDirectory cwd path then .ok () else .error f)
    | .error f => (fs, if fs.isDirectory cwd path then .ok () else .error f)

def makeParents (fs : FileSystem) (cwd : Position) (p : Path) : FileSystem × Except FileFault Unit :=
  match p.parent? with
  | none => (fs, .ok ())
  | some cs =>
    match Path.fault? p.parentText with
    | some f => (fs, .error f)
    | none => fs.makeDirectories cwd cs.reverse

def readFile (fs : FileSystem) (cwd : Position) (p : Path) : Except FileFault ByteArray :=
  match fs.locate cwd p with
  | .error f => .error f
  | .ok q =>
    match fs.entry? q with
    | none => .error .notFound
    | some .directory => .error .isDirectory
    | some (.file content) => .ok content

def readText (fs : FileSystem) (cwd : Position) (p : Path) : Except FileFault String :=
  match fs.readFile cwd p with
  | .error f => .error f
  | .ok content =>
    match String.fromUTF8? content with
    | some text => .ok text
    | none => .error .notText

def writeFile (fs : FileSystem) (cwd : Position) (p : Path) (content : ByteArray) :
    Except FileFault FileSystem :=
  match fs.locate cwd p with
  | .error f => .error f
  | .ok q =>
    match fs.entry? q with
    | some .directory => .error .isDirectory
    | _ => .ok (fs.insert q.location (.file content))

end BoundedFibonacci.FileSystem
