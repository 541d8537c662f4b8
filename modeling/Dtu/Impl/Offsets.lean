import Dtu.Framework.Bytes

/-!
# Offset files

`load_offsets` and `save_offsets` on the bytes of the file: an `off_t` has eight of
them, the lowest first. `SaveEnd` is how a call of `save_offsets` ends, with every
way in which it can fail or the process can die in it.
-/

namespace Dtu

open Bytes

/-- `sizeof(off_t)`. -/
abbrev offSize : Nat := 8

/-- The memory of `off_t offsets[count]`. -/
def offsetBytes {n : Nat} (offsets : Fin n → Int64) : List UInt8 :=
  (List.ofFn offsets).flatMap fun o => leBytes offSize o.toUInt64.toNat

/-- Element `i` of an array of `off_t` in memory. -/
def offsetAt (bytes : List UInt8) (i : Nat) : Int64 :=
  (UInt64.ofNat (leValue ((bytes.drop (offSize * i)).take offSize))).toInt64

/-- `load_offsets` of a file that can be read, or does not exist. -/
def loadOffsetsFile (n : Nat) (file : Option (List UInt8)) : Fin n → Int64 :=
  match file with
  | none => fun _ => 0
  | some bytes => if bytes.length < offSize * n then fun _ => 0 else fun i => offsetAt bytes i

/-- How a call of `save_offsets` ends: the process dies before `open`; `open` fails;
the process dies behind it, when `write` has stored so many bytes; `write` returns. -/
inductive SaveEnd where
  | diesFirst
  | openFails
  | dies (stored : Nat)
  | writes (stored : Nat)

/-- `save_offsets`: the file, and what it returns unless the process dies. -/
def saveOffsetsFile {n : Nat} (file : Option (List UInt8)) (offsets : Fin n → Int64) :
    SaveEnd → Option (List UInt8) × Option Int
  | .diesFirst => (file, none)
  | .openFails => (file, some (-1))
  | .dies stored => (some ((offsetBytes offsets).take stored), none)
  | .writes stored =>
    (some ((offsetBytes offsets).take stored), some (if stored < offSize * n then -1 else 0))

end Dtu
