import Dtu.Impl.LogLine

/-!
# The cursors of `parse_log_line`

`parse_log_line` with its cursors as positions in the line: a read behind the
terminating NUL has no result, nor has a loop that does not come to an end in `fuel`
turns. `parseLogLine` is what remains of a line at a cursor.
-/

namespace Dtu

open Stdio

/-- `line[p]` of the characters of a line and the NUL behind them. -/
def charAt (line : List Char) (p : Nat) : Option Char := (line ++ ['\x00'])[p]?

/-- `while (f(*p)) p++;`: where the cursor stops. -/
def advanceWhile (f : Char → Bool) (line : List Char) : Nat → Nat → Option Nat
  | 0, _ => none
  | fuel + 1, p => do
    let c ← charAt line p
    if f c then advanceWhile f line fuel (p + 1) else some p

/-- `strncmp(p, pat, strlen(pat)) == 0`. -/
def strncmpAt (line : List Char) : List Char → Nat → Option Bool
  | [], _ => some true
  | d :: pat, p => do
    let c ← charAt line p
    if c = d then strncmpAt line pat (p + 1) else some false

/-- `while (*p == ' ') p++;`. -/
def skipBlanksAt (line : List Char) (fuel p : Nat) : Option Nat := advanceWhile (· = ' ') line fuel p

/-- The condition of the loop of `parse_log_line` over the `F=` and `P=` tokens. -/
def isTokenAt (line : List Char) (dataStart : Nat) : Option Bool := do
  let f ← strncmpAt line ['F', '='] dataStart
  if f then some true else strncmpAt line ['P', '='] dataStart

/-- That loop. -/
def skipTokensAt (line : List Char) : Nat → Nat → Option Nat
  | 0, _ => none
  | fuel + 1, dataStart => do
    let token ← isTokenAt line dataStart
    if token then
      let p ← advanceWhile (fun c => c ≠ '\x00' ∧ c ≠ ' ') line (fuel + 1) dataStart
      let p ← skipBlanksAt line (fuel + 1) p
      skipTokensAt line fuel p
    else some dataStart

/-- The loop of `parse_log_line` over the bytes, with room for `max_len - count` more
of them. -/
def parseBytesAt (line : List Char) (fuel : Nat) : Nat → Nat → Option (List UInt8)
  | 0, p => (charAt line p).map fun _ => []
  | room + 1, p => do
    let c ← charAt line p
    if c = '\x00' then some []
    else
      let p ← skipBlanksAt line fuel p
      let c ← charAt line p
      if c = '\x00' then some []
      else
        match scanX2 (line.drop p) with
        | none => some []
        | some byte => (parseBytesAt line fuel room (p + 2)).map (UInt8.ofNat byte :: ·)

/-- `parse_log_line`: `out_data[0..count)`. -/
def parseLogLineAt (fuel : Nat) (line : List Char) (maxLen : Nat) : Option (List UInt8) := do
  let p ← advanceWhile (fun c => c ≠ '\x00' ∧ c ≠ ']') line fuel 0
  let c ← charAt line p
  if c = '\x00' then some []
  else
    let dataStart ← skipBlanksAt line fuel (p + 1)
    let p ← skipTokensAt line fuel dataStart
    parseBytesAt line fuel maxLen p

end Dtu
