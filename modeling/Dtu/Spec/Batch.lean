import Dtu.Impl.Pack

/-!
# Batches of log entries

What packing is for: an entry is the data of a log line, at least two bytes;
a batch is a list of entries, written as hexadecimal text with commas
(`joinHex`) and sent as bytes with commas (`joinRaw`). `windowEntries` are the
entries of the logs between two vectors of offsets; `accept` is what a budget
of hexadecimal characters lets into a batch, and `batch` what it lets in of the
pending records of several logs, as the 512-byte reader of
`pack_data_from_files` shows them.
-/

namespace Dtu

open Stdio Loop

/-- A batch as hexadecimal text. -/
def joinHex (es : List (List UInt8)) : List Char := [','].intercalate (es.map (·.flatMap fmtX2))

/-- A batch as bytes. -/
def joinRaw (es : List (List UInt8)) : List UInt8 := [0x2C].intercalate es

/-- The characters the entries of a batch take, with a comma behind each. -/
def hexCost (es : List (List UInt8)) : Nat := (es.map fun e => 2 * e.length + 1).sum

/-- The bytes the entries of a batch take, with a comma behind each. -/
def rawCost (es : List (List UInt8)) : Nat := (es.map fun e => e.length + 1).sum

/-- The entry of one line as read: its data, if that is at least two bytes. -/
def entryOf (line : List Char) : Option (List UInt8) := (parseLogLine (cstr line) 256).filter (2 ≤ ·.length)

/-- The part of a file between two offsets. -/
def slice (content : List Char) (start stop : Nat) : List Char := (content.take stop).drop start

/-- The entries between two offsets of a file, read with a buffer of `size`. -/
def entriesBetween (size : Nat) (file : Option (List Char)) (start stop : Nat) : List (List UInt8) :=
  (fgetsAll size (slice (file.getD []) start stop)).filterMap entryOf

/-- The entries of the files between two vectors of offsets, file by file. -/
def windowEntries (size : Nat) {n : Nat} (files : Fin n → Option (List Char)) (start stop : Fin n → Nat) :
    List (List UInt8) :=
  (List.finRange n).flatMap fun i => entriesBetween size (files i) (start i) (stop i)

/-- An offset of a file is 0 or behind a newline. -/
def AtLine (content : List Char) (offset : Nat) : Prop :=
  offset ≤ content.length ∧ (content.take offset = [] ∨ (content.take offset).getLast? = some '\n')

/-- The last line between two offsets of a file fits the 512-byte reader; if there
is none, the first offset is at a line. -/
def EndsInLine (content : List Char) (start stop : Nat) : Prop :=
  if slice content start stop = [] then AtLine content start
  else ∃ front line, slice content start stop = front ++ (line ++ ['\n']) ∧
    (front = [] ∨ front.getLast? = some '\n') ∧ '\n' ∉ line ∧ line.length < packLineSize - 1

/-- The last line between two offsets of a file, read with a buffer of `size`, is
an entry. -/
def LastEntry (size : Nat) (content : List Char) (start stop : Nat) : Prop :=
  ∃ cs line, fgetsAll size (slice content start stop) = cs ++ [line] ∧ entryOf line ≠ none

/-- The data length of a line as read. -/
def lineSize (line : List Char) : Option Nat := (parseLogLine (cstr line) 256).map List.length

/-- The first `k` pieces of a file. -/
def pieces (cs : List (List Char)) (k : Nat) : List (List UInt8) := (cs.take k).filterMap entryOf

/-- How many of the items a budget of `cap` characters accepts, up to and with
the last entry, when `used` are spent; the items are the data lengths of lines,
`none` for one that cannot be read. Fewer than two bytes are passed over, and
the first entry that does not fit ends the batch. -/
def accept (cap : Nat) : Nat → List (Option Nat) → Option Nat
  | _, [] => some 0
  | _, none :: _ => none
  | used, some size :: items =>
    if size < 2 then (accept cap used items).map fun k => if k = 0 then 0 else k + 1
    else if cap < used + 2 * size then some 0
    else (accept cap (used + (2 * size + 1)) items).map (· + 1)

/-! ## Records under the 512-byte reader -/

/-- The length of a record's header. -/
def headerLength (r : Record) : Nat := (logHeader r.tm r.msg).length

/-- The first 511 characters of the line end between the two digits of a byte. -/
def CutInByte (r : Record) : Prop := packLineSize - 1 < r.line.length ∧ headerLength r % 3 = 0

instance (r : Record) : Decidable (CutInByte r) := inferInstanceAs (Decidable (_ ∧ _))

/-- The data bytes whose digits are within the first 511 characters. -/
def shown (r : Record) : List UInt8 := r.payload.take ((packLineSize - headerLength r) / 3)

/-- The data length the reader finds in a record's line. -/
def shownSize (r : Record) : Option Nat := if CutInByte r then none else some (shown r).length

/-- The entries the reader finds in the lines of records. -/
def shownEntries (rs : List Record) : List (List UInt8) := (rs.map shown).filter (2 ≤ ·.length)

/-- The entries of records: the data of those with at least two bytes. -/
def recordEntries (rs : List Record) : List (List UInt8) := (rs.map Record.payload).filter (2 ≤ ·.length)

/-- The batch that a budget of `cap` characters accepts of the pending records of
each log: its entries, and of each log the number of records it takes. -/
def batch (cap : Nat) {n : Nat} (pending : Fin n → List Record) : Option (List (List UInt8) × (Fin n → Nat)) :=
  threadFin (fun i es =>
    (accept cap (hexCost es) ((pending i).map shownSize)).map fun k =>
      (es ++ shownEntries ((pending i).take k), k)) []

/-- A log file holds the lines of records; a file without any may be missing. -/
def Holds (file : Option (List Char)) (rs : List Record) : Prop :=
  file = some (logText rs) ∨ file = none ∧ rs = []

end Dtu
