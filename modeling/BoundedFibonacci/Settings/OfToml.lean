import BoundedFibonacci.Settings.Basic
import BoundedFibonacci.Toml.Diagnostic

/-!
Reading settings and overlays from TOML. Entries are visited in the order of the document, entries with other names are
passed over, and the first mismatch is reported.
-/

namespace BoundedFibonacci.Toml

variable {α : Type}

def ofWord [Choice α] (r : Region) (s : String) : Except Fault α :=
  match Choice.ofWord? s with
  | some a => .ok a
  | none => .error ⟨some r, .unknownVariant s (Choice.words α)⟩

namespace Value

def expectEmpty : Value → Except Fault Unit
  | .array r items => if items.isEmpty then .ok () else .error ⟨some r, .notEmptyTable⟩
  | .table _ r entries => if entries.isEmpty then .ok () else .error ⟨r, .notEmptyTable⟩
  | .tables items =>
    if items.isEmpty then .ok () else .error ⟨(Value.tables items).region?, .notEmptyArray⟩
  | v => .error ⟨v.region?, .notTable v.kind⟩

def toChoice [Choice α] : Value → Except Fault α
  | .string r s => ofWord r s
  | .table _ r [] => .error ⟨r, .noEntry⟩
  | .table _ r [(k, content)] =>
    match ofWord k.region k.name with
    | .error f => .error f
    | .ok a => (content.expectEmpty.mapError (Fault.orAt r)).map fun _ => a
  | .table _ r _ => .error ⟨r, .manyEntries⟩
  | v => .error ⟨v.region?, .notStringOrTable⟩

def toBool : Value → Except Fault Bool
  | .boolean _ b => .ok b
  | v => .error ⟨v.region?, .wrongType v.found "a boolean"⟩

def toNatural : Value → Except Fault UInt64
  | .integer r n =>
    if 0 ≤ n.toInt then .ok (UInt64.ofNat n.toInt.toNat)
    else .error ⟨some r, .wrongValue (.integer n.toInt) "u64"⟩
  | v => .error ⟨v.region?, .wrongType v.found "u64"⟩

def readAs (read : Value → Except Fault α) (k : Key) (v : Value) : Except Fault α :=
  (read v).mapError fun f => (f.orAt v.region?).orAt (some k.region)

def addTraceEntry (t : Trace) (e : Key × Value) : Except Fault Trace :=
  if e.1.name = "enabled" then (e.2.readAs toBool e.1).map fun b => { t with enabled := b }
  else if e.1.name = "priority" then (e.2.readAs toChoice e.1).map fun p => { t with priority := p }
  else .ok t

def traceOfItems : List Value → Except Fault Trace
  | [] => .ok {}
  | [e] => e.toBool.map fun b => { enabled := b }
  | e :: p :: _ =>
    match e.toBool with
    | .error f => .error f
    | .ok b => p.toChoice.map fun q => ⟨b, q⟩

def toTrace : Value → Except Fault Trace
  | .table _ _ entries => entries.foldlM addTraceEntry {}
  | .array _ items | .tables items => traceOfItems items
  -- A date or a time counts as a table of other fields.
  | .datetime .. => .ok {}
  | v => .error ⟨v.region?, .wrongType v.found "struct TraceConfig"⟩

end Value

def Entries.visit (step : α → Key → Value → Except Fault α) (start : α) (es : Entries) : Except Problem α :=
  es.foldlM (fun a e =>
    (step a e.1 e.2).mapError fun f => .mismatched (f.region.getD e.1.region) f.mismatch) start

end BoundedFibonacci.Toml

namespace BoundedFibonacci

open Toml

def Overlay.addEntry (o : Overlay) (k : Key) (v : Value) : Except Fault Overlay :=
  if k.name = "negative" then (v.readAs Value.toChoice k).map fun x => { o with negative := some x }
  else if k.name = "overflow" then (v.readAs Value.toChoice k).map fun x => { o with overflow := some x }
  else if k.name = "max_index" then (v.readAs Value.toNatural k).map fun x => { o with maxIndex := some x }
  else if k.name = "trace" then (v.readAs Value.toTrace k).map fun x => { o with trace := some x }
  else .ok o

def Settings.addEntry (s : Settings) (k : Key) (v : Value) : Except Fault Settings :=
  if k.name = "negative" then (v.readAs Value.toChoice k).map s.withNegative
  else if k.name = "overflow" then (v.readAs Value.toChoice k).map s.withOverflow
  else if k.name = "max_index" then (v.readAs Value.toNatural k).map s.withMaxIndex
  else if k.name = "trace" then (v.readAs Value.toTrace k).map fun x => { s with trace := x }
  else .ok s

def Overlay.ofEntries (es : Entries) : Except Problem Overlay := es.visit Overlay.addEntry {}

def Settings.ofEntries (es : Entries) : Except Problem Settings := es.visit Settings.addEntry {}

def Overlay.ofToml (text : String) : Except Problem Overlay :=
  match parse? text with
  | none => .error .malformed
  | some es => Overlay.ofEntries es

def Settings.readToml (text : String) : Except Problem Settings :=
  match parse? text with
  | none => .error .malformed
  | some es => Settings.ofEntries es

end BoundedFibonacci
