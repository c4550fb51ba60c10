import BoundedFibonacci.Toml.Value

namespace BoundedFibonacci.Toml

structure KeyPath where
  steps : List Key
  last : Key

structure Assignment where
  path : KeyPath
  value : Value

namespace Entries

def inLast (f : Entries → Option Entries) (items : List Value) : Option Value :=
  match items.getLast? with
  | some (.table o r sub) => (f sub).map fun sub => .tables (items.dropLast ++ [.table o r sub])
  | _ => none

/-- Adds an entry below the given steps. The steps may pass tables that no header opened; the table that receives the
entry has to be made by dotted keys alone. -/
def place (last : Key) (v : Value) : List Key → Entries → Option Entries
  | [], es => if (es.get? last.name).isSome then none else some (es ++ [(last, v)])
  | k :: ks, es =>
    match es.get? k.name with
    | none => (place last v ks []).map fun sub => es ++ [(k, .table .dotted none sub)]
    | some (.table o r sub) =>
      if o = .dotted ∨ (o = .implied ∧ ks ≠ []) then
        (place last v ks sub).map fun sub => es.set k.name (.table o r sub)
      else none
    | some (.tables items) =>
      if ks = [] then none else (inLast (place last v ks) items).map (es.set k.name)
    | some _ => none

def assign (es : Entries) (a : Assignment) : Option Entries := es.place a.path.last a.value a.path.steps

def within (f : Entries → Option Entries) : List Key → Entries → Option Entries
  | [], es => f es
  | k :: ks, es =>
    match es.get? k.name with
    | none => (within f ks []).map fun sub => es ++ [(k, .table .implied none sub)]
    | some (.table o r sub) =>
      if o = .inline then none else (within f ks sub).map fun sub => es.set k.name (.table o r sub)
    | some (.tables items) => (inLast (within f ks) items).map (es.set k.name)
    | some _ => none

/-- Opens a table with the given entries. A table that was only implied so far is opened where it would now be
written, after the entries before it. -/
def openTable (k : Key) (fill : Entries → Option Value) (es : Entries) : Option Entries :=
  match es.get? k.name with
  | none => (fill []).map fun v => es ++ [(k, v)]
  | some (.table .implied _ sub) => (fill sub).map fun v => es.erase k.name ++ [(k, v)]
  | some _ => none

def openElement (k : Key) (fill : Entries → Option Value) (es : Entries) : Option Entries :=
  match es.get? k.name with
  | none => (fill []).map fun v => es ++ [(k, .tables [v])]
  | some (.tables items) => (fill []).map fun v => es.set k.name (.tables (items ++ [v]))
  | some _ => none

end Entries

end BoundedFibonacci.Toml
