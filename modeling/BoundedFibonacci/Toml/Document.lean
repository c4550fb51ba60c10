import BoundedFibonacci.Toml.Statement

namespace BoundedFibonacci.Toml

structure Section where
  region : Region
  path : KeyPath
  isElement : Bool
  body : List Assignment

def Section.split : List Statement → List Assignment × List Section
  | [] => ([], [])
  | .assignment a :: rest =>
    let r := split rest
    (a :: r.1, r.2)
  | .table region path :: rest =>
    let r := split rest
    ([], ⟨region, path, false, r.1⟩ :: r.2)
  | .element region path :: rest =>
    let r := split rest
    ([], ⟨region, path, true, r.1⟩ :: r.2)

namespace Section

def reach (s : Section) : Region :=
  match s.body.getLast? with
  | some a => ⟨s.region.start, (a.value.region?.getD s.region).stop⟩
  | none => s.region

def fill (s : Section) (es : Entries) : Option Value :=
  (s.body.foldlM Entries.assign es).map (.table .header (some s.reach))

def addTo (es : Entries) (s : Section) : Option Entries :=
  es.within (fun sub =>
    if s.isElement then sub.openElement s.path.last s.fill else sub.openTable s.path.last s.fill) s.path.steps

end Section

def parseWithin? (most : Nat) (text : String) : Option Entries := do
  let statements ← Statement.parse? most text
  let (top, sections) := Section.split statements
  let es ← top.foldlM Entries.assign []
  sections.foldlM Section.addTo es

def parse? (text : String) : Option Entries := parseWithin? deepest text

end BoundedFibonacci.Toml
