import BoundedFibonacci.Json.Value
import BoundedFibonacci.Settings.Basic

/-!
The JSON shapes of settings and overlays. A record is an object, or the list of its fields in order.
-/

namespace BoundedFibonacci

namespace Json

variable {α : Type}

def ofWord [Choice α] (s : String) : Except Mismatch α :=
  match Choice.ofWord? s with
  | some a => .ok a
  | none => .error (.unknownVariant s (Choice.words α))

def expectNull : Json → Except Mismatch Unit
  | .null => .ok ()
  | v => .error (.wrongType v.found "unit")

def toChoice [Choice α] : Json → Except Mismatch α
  | .string s => ofWord s
  | .object [(s, v)] =>
    match ofWord s with
    | .error m => .error m
    | .ok a => v.expectNull.map fun _ => a
  | .object _ => .error (.wrongValue .map "map with a single key")
  | v => .error (.wrongType v.found "string or map")

def toBool : Json → Except Mismatch Bool
  | .boolean b => .ok b
  | v => .error (.wrongType v.found "a boolean")

def toNatural : Json → Except Mismatch UInt64
  | .integer n =>
    if 0 ≤ n ∧ n < UInt64.size then .ok (UInt64.ofNat n.toNat) else .error (.wrongValue (.integer n) "u64")
  | v => .error (.wrongType v.found "u64")

def toOption (read : Json → Except Mismatch α) : Json → Except Mismatch (Option α)
  | .null => .ok none
  | v => (read v).map some

def nextItem (read : Json → Except Mismatch α) (default : α) : List Json → Except Mismatch (α × List Json)
  | [] => .ok (default, [])
  | v :: rest => (read v).map fun a => (a, rest)

def expectEnd (length : Nat) : List Json → Except Mismatch Unit
  | [] => .ok ()
  | _ :: _ => .error (.wrongLength length "fewer elements in array")

end Json

open Json

namespace Trace

def addMember (t : Trace) (m : String × Json) : Except Mismatch Trace :=
  if m.1 = "enabled" then m.2.toBool.map fun b => { t with enabled := b }
  else if m.1 = "priority" then m.2.toChoice.map fun p => { t with priority := p }
  else .ok t

def ofItems (items : List Json) : Except Mismatch Trace := do
  let (enabled, rest) ← nextItem toBool false items
  let (priority, rest) ← nextItem toChoice .normal rest
  expectEnd items.length rest
  return ⟨enabled, priority⟩

def ofJson : Json → Except Mismatch Trace
  | .object members => members.foldlM addMember {}
  | .array items => ofItems items
  | v => .error (.wrongType v.found "struct TraceConfig")

def toJson (t : Trace) : Json :=
  .object [("enabled", .boolean t.enabled), ("priority", .string (Choice.word t.priority))]

end Trace

namespace Settings

def addMember (s : Settings) (m : String × Json) : Except Mismatch Settings :=
  if m.1 = "negative" then m.2.toChoice.map s.withNegative
  else if m.1 = "overflow" then m.2.toChoice.map s.withOverflow
  else if m.1 = "max_index" then (m.2.toOption toNatural).map fun x => { s with maxIndex := x }
  else if m.1 = "trace" then (Trace.ofJson m.2).map fun x => { s with trace := x }
  else .ok s

def ofItems (items : List Json) : Except Mismatch Settings := do
  let (negative, rest) ← nextItem toChoice .reject items
  let (overflow, rest) ← nextItem toChoice .error rest
  let (maxIndex, rest) ← nextItem (toOption toNatural) none rest
  let (trace, rest) ← nextItem Trace.ofJson {} rest
  expectEnd items.length rest
  return ⟨negative, overflow, maxIndex, trace⟩

def ofJson : Json → Except Mismatch Settings
  | .object members => members.foldlM addMember {}
  | .array items => ofItems items
  | v => .error (.wrongType v.found "struct ComputeConfig")

def toJson (s : Settings) : Json :=
  .object (s.maxIndex.toList.map (fun n => ("max_index", .integer n.toNat)) ++
    [("negative", .string (Choice.word s.negative)), ("overflow", .string (Choice.word s.overflow)),
      ("trace", s.trace.toJson)])

end Settings

namespace Overlay

def addMember (o : Overlay) (m : String × Json) : Except Mismatch Overlay :=
  if m.1 = "negative" then (m.2.toOption toChoice).map fun x => { o with negative := x }
  else if m.1 = "overflow" then (m.2.toOption toChoice).map fun x => { o with overflow := x }
  else if m.1 = "max_index" then (m.2.toOption toNatural).map fun x => { o with maxIndex := x }
  else if m.1 = "trace" then (m.2.toOption Trace.ofJson).map fun x => { o with trace := x }
  else .ok o

def requireItem {α : Type} (read : Json → Except Mismatch α) (length : Nat) :
    List Json → Except Mismatch (α × List Json)
  | [] => .error (.wrongLength length "struct ComputeConfigFile with 4 elements")
  | v :: rest => (read v).map fun a => (a, rest)

def ofItems (items : List Json) : Except Mismatch Overlay := do
  let (negative, rest) ← requireItem (toOption toChoice) items.length items
  let (overflow, rest) ← requireItem (toOption toChoice) items.length rest
  let (maxIndex, rest) ← requireItem (toOption toNatural) items.length rest
  let (trace, rest) ← requireItem (toOption Trace.ofJson) items.length rest
  expectEnd items.length rest
  return ⟨negative, overflow, maxIndex, trace⟩

def ofJson : Json → Except Mismatch Overlay
  | .object members => members.foldlM addMember {}
  | .array items => ofItems items
  | v => .error (.wrongType v.found "struct ComputeConfigFile")

def toJson (o : Overlay) : Json :=
  .object (o.maxIndex.toList.map (fun n => ("max_index", .integer n.toNat)) ++
    o.negative.toList.map (fun x => ("negative", .string (Choice.word x))) ++
    o.overflow.toList.map (fun x => ("overflow", .string (Choice.word x))) ++
    o.trace.toList.map (fun x => ("trace", x.toJson)))

end Overlay

end BoundedFibonacci
