namespace BoundedFibonacci

abbrev Location := List String

inductive Entry where
  | directory
  | file (content : ByteArray)

inductive FileFault where
  | notFound
  | exists
  | notDirectory
  | isDirectory
  | nameTooLong
  | zeroInName
  | notText
  deriving DecidableEq, Repr

def FileFault.message : FileFault → String
  | .notFound => "No such file or directory (os error 2)"
  | .exists => "File exists (os error 17)"
  | .notDirectory => "Not a directory (os error 20)"
  | .isDirectory => "Is a directory (os error 21)"
  | .nameTooLong => "File name too long (os error 36)"
  | .zeroInName => "file name contained an unexpected NUL byte"
  | .notText => "stream did not contain valid UTF-8"

structure FileSystem where
  entries : List (Location × Entry) := []

namespace FileSystem

def get? (fs : FileSystem) (l : Location) : Option Entry :=
  if l = [] then some .directory else (fs.entries.find? (·.1 = l)).map Prod.snd

def insert (fs : FileSystem) (l : Location) (e : Entry) : FileSystem :=
  ⟨fs.entries.filter (·.1 ≠ l) ++ [(l, e)]⟩

@[simp] theorem get?_root (fs : FileSystem) : fs.get? [] = some .directory := rfl

theorem get?_insert (fs : FileSystem) (l m : Location) (e : Entry) (hl : l ≠ []) :
    (fs.insert l e).get? m = if m = l then some e else fs.get? m := by
  by_cases hm : m = l
  · subst hm
    have hf : fs.entries.find? (fun _ => false) = none := by simp
    simp [get?, insert, hl, List.find?_append, List.find?_filter, hf]
  · have hp : (fun x : Location × Entry => !decide (x.1 = l) && decide (x.1 = m)) =
        fun x => decide (x.1 = m) := by
      funext x
      by_cases hx : x.1 = m <;> simp [hx, hm]
    simp [get?, insert, List.find?_append, List.find?_filter, hm, Ne.symm hm, hp]

def erase (fs : FileSystem) (l : Location) : FileSystem := ⟨fs.entries.filter (·.1 ≠ l)⟩

def clear (fs : FileSystem) (l : Location) : FileSystem :=
  ⟨fs.entries.filter fun e => !(l.isPrefixOf e.1 && e.1 ≠ l)⟩

def list (fs : FileSystem) (l : Location) : List String :=
  (fs.entries.filterMap fun e =>
    if l.isPrefixOf e.1 ∧ e.1 ≠ l then
      let name := "/".intercalate (e.1.drop l.length)
      match e.2 with
      | .directory => some (name ++ "/")
      | .file _ => some name
    else none).mergeSort

end FileSystem

end BoundedFibonacci
