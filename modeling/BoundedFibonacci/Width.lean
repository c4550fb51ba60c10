namespace BoundedFibonacci

inductive Width where
  | u8 | u16 | u32 | u64 | u128 | usize
  | i8 | i16 | i32 | i64 | i128 | isize
  deriving DecidableEq, Repr

namespace Width

def all : List Width :=
  [.u8, .u16, .u32, .u64, .u128, .usize, .i8, .i16, .i32, .i64, .i128, .isize]

def name : Width → String
  | .u8 => "u8"
  | .u16 => "u16"
  | .u32 => "u32"
  | .u64 => "u64"
  | .u128 => "u128"
  | .usize => "usize"
  | .i8 => "i8"
  | .i16 => "i16"
  | .i32 => "i32"
  | .i64 => "i64"
  | .i128 => "i128"
  | .isize => "isize"

def ofName? (s : String) : Option Width := all.find? (·.name = s)

def bits : Width → Nat
  | .u8 | .i8 => 8
  | .u16 | .i16 => 16
  | .u32 | .i32 => 32
  | .u64 | .i64 | .usize | .isize => 64
  | .u128 | .i128 => 128

def signed : Width → Bool
  | .u8 | .u16 | .u32 | .u64 | .u128 | .usize => false
  | .i8 | .i16 | .i32 | .i64 | .i128 | .isize => true

def least (w : Width) : Int := if w.signed then -Int.pow 2 (w.bits - 1) else 0

def greatest (w : Width) : Int := if w.signed then Int.pow 2 (w.bits - 1) - 1 else Int.pow 2 w.bits - 1

theorem bits_pos (w : Width) : 0 < w.bits := by cases w <;> decide

theorem mem_all (w : Width) : w ∈ all := by cases w <;> decide

end Width

end BoundedFibonacci
