import BoundedFibonacci.Error
import BoundedFibonacci.Settings.OfToml

namespace BoundedFibonacci

namespace Toml

inductive WriteError where
  | outOfRange
  deriving DecidableEq, Repr

def WriteError.message : WriteError → String
  | .outOfRange => "out-of-range value for u64 type"

def line (key value : String) : String := key ++ " = " ++ value ++ "\n"

def choiceText {α : Type} [Choice α] (a : α) : String := "\"" ++ Choice.word a ++ "\""

end Toml

open Toml

def Trace.toToml (t : Trace) : String :=
  "[trace]\n" ++ line "enabled" (toString t.enabled) ++ line "priority" (choiceText t.priority)

namespace Overlay

def head (o : Overlay) : String :=
  o.negative.elim "" (fun x => line "negative" (choiceText x)) ++
    o.overflow.elim "" (fun x => line "overflow" (choiceText x)) ++
    o.maxIndex.elim "" (fun n => line "max_index" (toString n.toNat))

def render (o : Overlay) : String :=
  match o.trace with
  | none => o.head
  | some t => if o.head = "" then t.toToml else o.head ++ "\n" ++ t.toToml

def toToml (o : Overlay) : Except WriteError String :=
  match o.maxIndex with
  | some n => if n.toNat ≤ Int64.maxValue.toInt then .ok o.render else .error .outOfRange
  | none => .ok o.render

end Overlay

namespace Settings

def toToml (s : Settings) : Except Error String :=
  s.toOverlay.toToml.mapError fun e => .config ("Failed to serialize config: " ++ e.message)

def ofToml (text : String) : Except Error Settings :=
  match Overlay.ofToml text with
  | .ok o => .ok (({} : Settings).merge o)
  | .error p => .error (.config ("invalid compute config: " ++ p.message text))

end Settings

end BoundedFibonacci
