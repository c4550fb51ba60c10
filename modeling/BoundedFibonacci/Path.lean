/-!
Paths. A path is joined and shown as text, and compared by its components: repeated slashes, a slash at the end and
dots after the first component do not count.
-/

namespace BoundedFibonacci

structure Path where
  text : String
  deriving DecidableEq, Repr

inductive Component where
  | root
  | current
  | parent
  | normal (name : String)
  deriving DecidableEq, Repr

def segments : List Char → List (List Char)
  | [] => [[]]
  | c :: r =>
    if c = '/' then [] :: segments r
    else match segments r with
      | s :: ss => (c :: s) :: ss
      | [] => [[c]]

def Component.ofSegment? (s : List Char) : Option Component :=
  if s = [] ∨ s = ['.'] then none
  else if s = ['.', '.'] then some .parent
  else some (.normal (String.ofList s))

namespace Path

def isAbsolute (p : Path) : Bool := p.text.toList.head? = some '/'

def endsInSlash (p : Path) : Bool := p.text.toList.getLast? = some '/'

def endsInDot (p : Path) : Bool := ((segments p.text.toList).filter (· ≠ [])).getLast? = some ['.']

def namesDirectory (p : Path) : Bool := p.endsInSlash || p.endsInDot

def join (p q : Path) : Path :=
  if q.isAbsolute then q
  else if p.text = "" ∨ p.endsInSlash then ⟨p.text ++ q.text⟩
  else ⟨p.text ++ "/" ++ q.text⟩

def origin (p : Path) : List Component :=
  if p.isAbsolute then [.root]
  else if (segments p.text.toList).head? = some ['.'] then [.current]
  else []

def components (p : Path) : List Component :=
  p.origin ++ (segments p.text.toList).filterMap Component.ofSegment?

def same (p q : Path) : Bool := p.components = q.components

def parent? (p : Path) : Option (List Component) :=
  match p.components.getLast? with
  | none | some .root => none
  | some _ => some p.components.dropLast

def parentText (p : Path) : String :=
  let rest := (segments p.text.toList).reverse.dropWhile fun s => (Component.ofSegment? s).isNone
  let above := (rest.drop 1).dropWhile fun s => (Component.ofSegment? s).isNone
  "/".intercalate (above.reverse.map String.ofList)

end Path

end BoundedFibonacci
