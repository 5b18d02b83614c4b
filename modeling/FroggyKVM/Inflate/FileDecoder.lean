/-
# FroggyKVM.Inflate.FileDecoder — requests for the bytes of an entry (`FileDecoder.cpp`).

A stored entry is read from its file, a compressed one by the machine of the inflater; `get_bytes`
limits a request to the bytes that remain and subtracts its result from them.  **The result may be
the error code −1.**  A session is a decoder with what its callers have been told.
-/
import FroggyKVM.Inflate.DoInflate

namespace FroggyKVM.Inflate

/-! ## The decoders -/

/-- `FileDecoder`, without the file itself. -/
structure FileDecoder where
  filePos : Int
  fileSize : Int
  bytesRemain : Int
  deriving DecidableEq

inductive Decoder where
  | stored (d : FileDecoder)
  | inflater (m : Machine)

/-- `FileDecoder::allocate`. -/
def FileDecoder.allocate (pos size : Int) : FileDecoder :=
  { filePos := pos, fileSize := size, bytesRemain := size }

def Decoder.fileSize : Decoder → Int
  | .stored d => d.fileSize
  | .inflater m => m.inflater.fileSize

def Decoder.bytesRemain : Decoder → Int
  | .stored d => d.bytesRemain
  | .inflater m => m.inflater.bytesRemain

/-- `if (count > bytes_remain()) ..`. -/
def limit (bytesRemain : Int) (count : Nat) : Int :=
  if (count : Int) > bytesRemain then bytesRemain else count

/-- `get_bytes_raw`; `bytesRead` is what `OsFile_read` returns. -/
def FileDecoder.getBytesRaw (d : FileDecoder) (bytesRead : Int) : FileDecoder × Int :=
  ({ d with filePos := d.filePos + bytesRead }, bytesRead)

/-- `FileDecoder::get_bytes` of a stored entry. -/
def FileDecoder.getBytes (d : FileDecoder) (bytesRead : Int) : FileDecoder × Int :=
  let (d, result) := d.getBytesRaw bytesRead
  ({ d with bytesRemain := d.bytesRemain - result }, result)

/-- `FileDecoder::get_bytes` of a compressed entry, up to its first call of `do_inflate`; copying a
negative number of bytes is no access inside. -/
def Machine.getBytes (m : Machine) (raw : Nat → UInt8) (count : Nat) : Except MemFault Machine :=
  let count := limit m.inflater.bytesRemain count
  if 0 ≤ count then m.inflater.deliver raw count.toNat [] else .error .outOfRange

/-! ## Sessions -/

structure Session where
  decoder : Decoder
  /-- The number of bytes that the callers have been told they got. -/
  delivered : Int := 0
  /-- The count of the last request to `get_bytes_raw` or `Inflater::get_bytes`. -/
  asked : Int := 0
  /-- `bytes_remain` at that request. -/
  remained : Int := 0

/-- A session begins with a decoder none of whose bytes have been asked for. -/
structure Starts (s : Session) : Prop where
  remain : s.decoder.bytesRemain = s.decoder.fileSize
  idle : ∀ m, s.decoder = .inflater m → ∃ status result, m.point = .idle status result
  fresh : s.delivered = 0 ∧ s.asked = 0 ∧ s.remained = 0

inductive Call where
  /-- `get_bytes`, and what a read of the file returns. -/
  | getBytes (count : Nat) (raw : Nat → UInt8) (bytesRead : Int)
  /-- A step of `do_inflate` or of the loop around it. -/
  | step (raw : Nat → UInt8)
  /-- The request ends with an exception and returns 0; `f` is what it leaves of an inflater. -/
  | exception (f : Inflater)

/-- The bytes that a result reports. -/
def reportedBytes (result : Int) : Int := if 0 ≤ result then result else 0

/-- The bytes reported when the machine is done with a request. -/
def Machine.reported (m : Machine) : Int :=
  match m.point with
  | .idle _ (.count result _) => reportedBytes result
  | _ => 0

/-- Requests come one after the other; a read gives at most the bytes asked for, or −1; an exception
leaves the counts alone. -/
def Session.Legal (s : Session) : Call → Prop
  | .getBytes count _ bytesRead =>
    match s.decoder with
    | .stored d => bytesRead = -1 ∨ 0 ≤ bytesRead ∧ bytesRead ≤ max 0 (limit d.bytesRemain count)
    | .inflater m => ∃ status result, m.point = .idle status result
  | .step _ => ∃ m, s.decoder = .inflater m ∧ ∀ status result, m.point ≠ .idle status result
  | .exception f => f.bytesRemain = s.decoder.bytesRemain ∧ f.fileSize = s.decoder.fileSize

/-- The request fails: the file cannot be read, or `do_inflate` has returned `INFLATE_ERROR`. -/
def Session.Fails (s : Session) : Call → Prop
  | .getBytes _ _ bytesRead => ∃ d, s.decoder = .stored d ∧ bytesRead = -1
  | .step _ => ∃ m count dest, s.decoder = .inflater m ∧ m.caller = .getBytes count dest ∧
      m.point = .returned .error
  | .exception _ => False

namespace Session

def next (heuristic : Bool) (s : Session) : Call → Except MemFault Session
  | .getBytes count raw bytesRead =>
    match s.decoder with
    | .stored d =>
      let (d', result) := d.getBytes bytesRead
      .ok { decoder := .stored d'
            delivered := s.delivered + reportedBytes result
            asked := limit d.bytesRemain count
            remained := d.bytesRemain }
    | .inflater m => do
      let m' ← m.getBytes raw count
      return { decoder := .inflater m'
               delivered := s.delivered + m'.reported
               asked := limit m.inflater.bytesRemain count
               remained := m.inflater.bytesRemain }
  | .step raw =>
    match s.decoder with
    | .stored _ => .ok s
    | .inflater m => do
      let m' ← m.tick heuristic raw
      return { s with decoder := .inflater m', delivered := s.delivered + m'.reported }
  | .exception f =>
    match s.decoder with
    | .stored _ => .ok s
    | .inflater m => .ok { s with
        decoder := .inflater { m with inflater := f, point := .idle .error (.count 0 []) } }

/-- A legal step. -/
def Step (heuristic : Bool) (s : Session) (c : Call) (s' : Session) : Prop :=
  s.Legal c ∧ s.next heuristic c = .ok s'

end Session

end FroggyKVM.Inflate
