import BoundedFibonacci.Toml.Datetime
import BoundedFibonacci.Toml.Table

namespace BoundedFibonacci.Toml

inductive Statement where
  | assignment (a : Assignment)
  | table (region : Region) (path : KeyPath)
  | element (region : Region) (path : KeyPath)

def isBareKey (c : Char) : Bool := c.isAlphanum || c = '_' || c = '-'

def key? (cs : List Char) : Option (Key × List Char) :=
  match lineString? cs with
  | some (name, r) => some (⟨String.ofList name, cs, r⟩, r)
  | none =>
    let name := cs.takeWhile isBareKey
    let r := cs.dropWhile isBareKey
    if name = [] then none else some (⟨String.ofList name, cs, r⟩, r)

-- Keys of more parts are refused, and so are values with more arrays and inline tables within one another.
def deepest : Nat := 79

def keyPath? : (most : Nat) → List Char → Option (KeyPath × List Char)
  | 0, _ => none
  | most + 1, cs => do
    let (k, r) ← key? (skipBlanks cs)
    match skipBlanks r with
    | '.' :: r =>
      let (p, r) ← keyPath? most r
      some (⟨k :: p.steps, p.last⟩, r)
    | r => some (⟨[], k⟩, r)

def scalar? (cs : List Char) : Option (Value × List Char) :=
  match cs with
  | 't' :: 'r' :: 'u' :: 'e' :: r => some (.boolean ⟨cs, r⟩ true, r)
  | 'f' :: 'a' :: 'l' :: 's' :: 'e' :: r => some (.boolean ⟨cs, r⟩ false, r)
  | _ =>
    match string? cs with
    | some (s, r) => some (.string ⟨cs, r⟩ (String.ofList s), r)
    | none =>
      match datetime? cs with
      | some r => some (.datetime ⟨cs, r⟩ (String.ofList (cs.take (cs.length - r.length))), r)
      | none =>
        match number? cs with
        | some (.integer n, r) => some (.integer ⟨cs, r⟩ n, r)
        | some (.float x, r) => some (.float ⟨cs, r⟩ x, r)
        | none => none

def deeper? (most depth : Nat) : Option Nat := if depth < most then some (depth + 1) else none

-- The depth counts the arrays and inline tables around a value. The fuel bounds the calls only: the length of the text
-- is always enough.
mutual

def value? (most : Nat) : (fuel depth : Nat) → List Char → Option (Value × List Char)
  | 0, _, _ => none
  | fuel + 1, depth, cs =>
    match cs with
    | '[' :: r => do
      let depth ← deeper? most depth
      let (items, r) ← items? most fuel depth (skipLayout false r)
      some (.array ⟨cs, r⟩ items, r)
    | '\x7b' :: r => do
      let depth ← deeper? most depth
      let (pairs, r) ← pairs? most fuel depth (skipBlanks r)
      let entries ← pairs.foldlM Entries.assign []
      some (.table .inline (some ⟨cs, r⟩) entries, r)
    | _ => scalar? cs
termination_by structural fuel => fuel

def items? (most : Nat) : (fuel depth : Nat) → List Char → Option (List Value × List Char)
  | 0, _, _ => none
  | fuel + 1, depth, cs =>
    match cs with
    | ']' :: r => some ([], r)
    | _ => do
      let (v, r) ← value? most fuel depth cs
      match skipLayout false r with
      | ',' :: r =>
        let (vs, r) ← items? most fuel depth (skipLayout false r)
        some (v :: vs, r)
      | ']' :: r => some ([v], r)
      | _ => none
termination_by structural fuel => fuel

def pairs? (most : Nat) : (fuel depth : Nat) → List Char → Option (List Assignment × List Char)
  | 0, _, _ => none
  | fuel + 1, depth, cs =>
    match cs with
    | '\x7d' :: r => some ([], r)
    | _ => morePairs? most fuel depth cs
termination_by structural fuel => fuel

def morePairs? (most : Nat) : (fuel depth : Nat) → List Char → Option (List Assignment × List Char)
  | 0, _, _ => none
  | fuel + 1, depth, cs => do
    let (a, r) ← assignment? most fuel depth cs
    match skipBlanks r with
    | ',' :: r =>
      let (rest, r) ← morePairs? most fuel depth r
      some (a :: rest, r)
    | '\x7d' :: r => some ([a], r)
    | _ => none
termination_by structural fuel => fuel

def assignment? (most : Nat) : (fuel depth : Nat) → List Char → Option (Assignment × List Char)
  | 0, _, _ => none
  | fuel + 1, depth, cs => do
    let (path, r) ← keyPath? most cs
    let r ← char? '=' r
    let (v, r) ← value? most fuel depth (skipBlanks r)
    some (⟨path, v⟩, r)
termination_by structural fuel => fuel

end

def statement? (most fuel : Nat) (cs : List Char) : Option (Statement × List Char) :=
  match cs with
  | '[' :: '[' :: r => do
    let (path, r) ← keyPath? most r
    let r ← char? ']' r
    let r ← char? ']' r
    some (.element ⟨cs, r⟩ path, r)
  | '[' :: r => do
    let (path, r) ← keyPath? most r
    let r ← char? ']' r
    some (.table ⟨cs, r⟩ path, r)
  | _ => do
    let (a, r) ← assignment? most fuel 0 cs
    some (.assignment a, r)

def statements? (most : Nat) : (fuel : Nat) → List Char → Option (List Statement)
  | 0, _ => none
  | fuel + 1, cs =>
    match skipBlanks cs with
    | [] => some []
    | cs =>
      match lineEnd? cs with
      | some r => statements? most fuel r
      | none => do
        let (s, r) ← statement? most fuel cs
        let r ← lineEnd? r
        let rest ← statements? most fuel r
        some (s :: rest)

def Statement.parse? (most : Nat) (text : String) : Option (List Statement) :=
  let cs := text.toList
  -- A byte order mark in front is no part of the text.
  let cs := if cs.head? = some '\ufeff' then cs.tail else cs
  statements? most (cs.length + 4) cs

end BoundedFibonacci.Toml
