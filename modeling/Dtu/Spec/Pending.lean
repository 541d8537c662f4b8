import Dtu.Impl.Lora
import Dtu.Spec.Batch

/-!
# What is pending in the logs

The lines that a packer finds from its offsets on (`linesFrom`), up to the end of its
window if it has one (`linesWithin`); those it has to pack, and those it never can
(`Exceeds`). `takeBatch` is one call of a packer that decides by the data lengths of
the lines: `accept` with a budget of characters, `acceptRaw` with one of bytes.
-/

namespace Dtu

open Stdio Loop

/-- The lines of a file from an offset on, as a reader with a buffer of `size` finds
them. -/
def linesFrom (size : Nat) (file : Option (List Char)) (offset : Nat) : List (List Char) :=
  fgetsAll size ((file.getD []).drop offset)

/-- The first of the lines from position `pos` on: those that end by `stop`. -/
def linesWithin (stop : Nat) : Nat → List (List Char) → List (List Char)
  | _, [] => []
  | pos, line :: rest =>
    if stop < pos + line.length then [] else line :: linesWithin stop (pos + line.length) rest

/-- The lines pending before a call of `pack_data_from_files`. -/
def fileLines {n : Nat} (files : Fin n → Option (List Char)) (offsets : Fin n → Nat) (i : Fin n) :
    List (List Char) :=
  linesFrom packLineSize (files i) (offsets i)

/-- The lines pending before a call of `main_pack_pending_until`. -/
def windowLines {n : Nat} (files : Fin n → Option (List Char)) (endOffsets offsets : Fin n → Nat) (i : Fin n) :
    List (List Char) :=
  linesWithin (endOffsets i) (offsets i) (linesFrom untilLineSize (files i) (offsets i))

/-- The data of a line as read is more than `limit` bytes, or cannot be read. -/
def Exceeds (limit : Nat) (line : List Char) : Prop := ∀ size, lineSize line = some size → limit < size

/-- How many of the items a raw buffer of `limit` bytes accepts, when `used` are spent;
the items are as in `accept`. -/
def acceptRaw (limit : Nat) : Nat → List (Option Nat) → Option Nat
  | _, [] => some 0
  | _, none :: _ => none
  | used, some size :: items =>
    if size < 2 then (acceptRaw limit used items).map (· + 1)
    else if limit < used + size then some 0
    else (acceptRaw limit (used + (size + 1)) items).map (· + 1)

/-- The batch that is taken of the lines pending in each log, and how many lines of each;
`acc es items` is how many items are taken behind a batch `es`. -/
def takeBatch (acc : List (List UInt8) → List (Option Nat) → Option Nat) {n : Nat}
    (pending : Fin n → List (List Char)) : Option (List (List UInt8) × (Fin n → Nat)) :=
  threadFin (fun i es => (acc es ((pending i).map lineSize)).map fun k => (es ++ pieces (pending i) k, k)) []

/-- The batch that a budget of `cap` characters accepts. -/
def hexBatch (cap : Nat) {n : Nat} (pending : Fin n → List (List Char)) :
    Option (List (List UInt8) × (Fin n → Nat)) :=
  takeBatch (fun es => accept cap (hexCost es)) pending

/-- The batch that a buffer of `limit` bytes accepts. -/
def rawBatch (limit : Nat) {n : Nat} (pending : Fin n → List (List Char)) :
    Option (List (List UInt8) × (Fin n → Nat)) :=
  takeBatch (fun es => acceptRaw limit (rawCost es)) pending

/-- A call from `offsets` packs an entry, or its caller goes on with other offsets. -/
def GetsOn {n : Nat} (entryCount : (Fin n → Nat) → Option Nat) (send : (Fin n → Nat) → Option (Fin n → Nat))
    (offsets : Fin n → Nat) : Prop :=
  (∃ k, entryCount offsets = some k ∧ 0 < k) ∨ ∃ sent, send offsets = some sent ∧ sent ≠ offsets

def GetsOn4g (files : Fin mainPathCount → Option (List Char)) : (Fin mainPathCount → Nat) → Prop :=
  GetsOn (fun o => (packDataFromFiles files o egMaxHexLen).map (·.1.entryCount)) (send4g files)

def GetsOnLora (files : Fin 2 → Option (List Char)) : (Fin 2 → Nat) → Prop :=
  GetsOn (fun o => (packDataFromFiles files o loraMaxHexLen).map (·.1.entryCount)) (sendLora files)

def GetsOnBd (files : Fin mainPathCount → Option (List Char)) (endOffsets : Fin mainPathCount → Nat) :
    (Fin mainPathCount → Nat) → Prop :=
  GetsOn (fun o => (mainPackPendingUntil files o endOffsets bdMaxHexLen bdMaxRawLen).map (·.entryCount))
    (sendBd files endOffsets)

end Dtu
