/-
# FroggyKVM.Pcsl.Utf — conversions between UTF-8 and UTF-16 (`utf.c`).

A pointer into a string is what is left of the string; a read at its end is a fault.  The mask tests
of the decoder tell lead bytes and continuation bytes apart and nothing else: it takes every lead
byte with its continuation bytes for a character, also an overlong form, a surrogate, or a number
past the last code point.
-/
import FroggyKVM.Lib.Codewords
import FroggyKVM.Lib.Transcode

namespace FroggyKVM.Pcsl

open Transcode

/-- `pcsl_string_status`. -/
inductive Status where
  | ok
  | err
  | enomem
  | einval
  | eilseq
  | bufferOverflow
  | overflow
  deriving DecidableEq, Repr

def UTF16_ERROR_CHAR : UInt16 := 0xFFFD
def UTF8_ERROR_CHAR : UInt8 := 63

/-- Conversion to `jchar`. -/
def jchar (x : Int) : UInt16 := UInt16.ofNat (x % 65536).toNat

/-- Conversion to `jbyte`. -/
def jbyte (x : Nat) : UInt8 := UInt8.ofNat x

/-- `*str++`. -/
def next {α : Type} : List α → Except MemFault (α × List α)
  | [] => .error .outOfRange
  | a :: str => .ok (a, str)

/-! ## The two conversions -/

/-- An illegal sequence, with the place to go on at. -/
def illegal (str : List UInt8) : Round UInt8 UInt16 := ⟨str, [UTF16_ERROR_CHAR], true⟩

/-- `while (n-- && (0xc0 & *str) == 0x80) str++;`. -/
def skipFollowing : Nat → List UInt8 → Except MemFault (List UInt8)
  | 0, str => .ok str
  | n + 1, str => do
    let (byte, str') ← next str
    if 0xc0 &&& byte.toNat = 0x80 then skipFollowing n str' else return str

/-- The loop body of `pcsl_utf8_convert_to_utf16`. -/
def utf8Round (str : List UInt8) : Except MemFault (Round UInt8 UInt16) := do
  let (byte1, str) ← next str
  let byte1 := byte1.toNat
  if byte1 &&& 0x80 = 0 then return ⟨str, [jchar byte1], false⟩
  else if byte1 &&& 0xe0 = 0xc0 then
    if str.length ≤ 0 then return illegal str
    else do
      let (byte2, str₂) ← next str
      let byte2 := byte2.toNat
      if byte2 &&& 0xc0 ≠ 0x80 then return illegal str
      else return ⟨str₂, [jchar ((byte1 &&& 0x1f) <<< 6 ||| byte2 &&& 0x3f : Nat)], false⟩
  else if byte1 &&& 0xf0 = 0xe0 then
    if str.length ≤ 1 then return illegal str
    else do
      let (byte2, str₂) ← next str
      let (byte3, str₃) ← next str₂
      let byte2 := byte2.toNat
      let byte3 := byte3.toNat
      if byte2 &&& 0xc0 ≠ 0x80 then return illegal str
      else if byte3 &&& 0xc0 ≠ 0x80 then return illegal str₂
      else return ⟨str₃, [jchar ((byte1 &&& 0x0f) <<< 12 ||| (byte2 &&& 0x3f) <<< 6 |||
        byte3 &&& 0x3f : Nat)], false⟩
  else if byte1 &&& 0xf8 = 0xf0 then
    if str.length ≤ 2 then return illegal str
    else do
      let (byte2, str₂) ← next str
      let (byte3, str₃) ← next str₂
      let (byte4, str₄) ← next str₃
      let byte2 := byte2.toNat
      let byte3 := byte3.toNat
      let byte4 := byte4.toNat
      if byte2 &&& 0xc0 ≠ 0x80 then return illegal str
      else if byte3 &&& 0xc0 ≠ 0x80 then return illegal str₂
      else if byte4 &&& 0xc0 ≠ 0x80 then return illegal str₃
      else
        let ucs4 : Int := ((0x07 &&& byte1) <<< 18 ||| (0x3f &&& byte2) <<< 12 |||
          (0x3f &&& byte3) <<< 6 ||| 0x3f &&& byte4 : Nat)
        return ⟨str₄, [jchar ((ucs4 - 0x10000).tdiv 0x400 + 0xd800),
          jchar ((ucs4 - 0x10000).tmod 0x400 + 0xdc00)], false⟩
  else do
    let str ← skipFollowing (min 2 str.length) str
    return illegal str

/-- The loop body of `pcsl_utf16_convert_to_utf8`. -/
def utf16Round (str : List UInt16) : Except MemFault (Round UInt16 UInt8) := do
  let (inputChar, str) ← next str
  let inputChar := inputChar.toNat
  if inputChar < 0x80 then return ⟨str, [jbyte inputChar], false⟩
  else if inputChar < 0x800 then
    return ⟨str, [jbyte (0xc0 ||| inputChar >>> 6 &&& 0x1f), jbyte (0x80 ||| inputChar &&& 0x3f)],
      false⟩
  else if 0xd800 ≤ inputChar ∧ inputChar ≤ 0xdbff then
    if str.length ≤ 0 then return ⟨str, [UTF8_ERROR_CHAR], true⟩
    else do
      let (lowChar, str₂) ← next str
      let lowChar := lowChar.toNat
      if lowChar < 0xdc00 ∨ 0xdfff < lowChar then return ⟨str, [UTF8_ERROR_CHAR], true⟩
      else
        let ucs4 := (inputChar - 0xd800) * 0x400 + (lowChar - 0xdc00) + 0x10000
        return ⟨str₂, [jbyte (0xf0 ||| ucs4 >>> 18 &&& 0x07), jbyte (0x80 ||| ucs4 >>> 12 &&& 0x3f),
          jbyte (0x80 ||| ucs4 >>> 6 &&& 0x3f), jbyte (0x80 ||| ucs4 &&& 0x3f)], false⟩
  else if 0xdc00 ≤ inputChar ∧ inputChar ≤ 0xdfff then return ⟨str, [UTF8_ERROR_CHAR], true⟩
  else
    return ⟨str, [jbyte (0xe0 ||| inputChar >>> 12 &&& 0x0f),
      jbyte (0x80 ||| inputChar >>> 6 &&& 0x3f), jbyte (0x80 ||| inputChar &&& 0x3f)], false⟩

/-- What a conversion reports, and its buffer. -/
structure Converted (β : Type) where
  status : Status
  convertedLength : Option Nat
  buffer : Option (Buffer β)

/-- What is the same in both: the loop over the string and the result. -/
def convert {α β : Type} (round : List α → Except MemFault (Round α β)) (str : Option (List α))
    (buffer : Option (Buffer β)) : Except MemFault (Converted β) :=
  match str with
  | none => .ok ⟨.einval, none, buffer⟩
  | some str => do
    let c ← loop round (str.length + 1) str { buffer := buffer }
    return ⟨if c.overflow then .bufferOverflow else if c.bad then .eilseq else .ok, some c.off,
      c.buffer⟩

/-- `pcsl_utf8_convert_to_utf16`; a null pointer is `none`. -/
def pcslUtf8ConvertToUtf16 : Option (List UInt8) → Option (Buffer UInt16) →
    Except MemFault (Converted UInt16) := convert utf8Round

/-- `pcsl_utf16_convert_to_utf8`. -/
def pcslUtf16ConvertToUtf8 : Option (List UInt16) → Option (Buffer UInt8) →
    Except MemFault (Converted UInt8) := convert utf16Round

/-! ## What a conversion reports -/

/-- A conversion without illegal sequences: it counts the whole output, and it stores all of it or
reports that the buffer is too small. -/
structure Gives {β : Type} (run : Except MemFault (Converted β)) (buffer : Option (Buffer β))
    (status : Status) (out : List β) : Prop where
  runs : ∃ r, run = .ok r ∧ r.convertedLength = some out.length ∧
    (∀ b, buffer = some b → b.length < out.length → r.status = .bufferOverflow) ∧
    ((∀ b, buffer = some b → out.length ≤ b.length) → r.status = status) ∧
    (∀ b, buffer = some b → out.length ≤ b.length →
      ∃ b', r.buffer = some b' ∧ b'.slice 0 out.length = .ok out) ∧
    (buffer = none → r.buffer = none)

theorem gives_of_rounds {α β : Type} {round : List α → Except MemFault (Round α β)} {str : List α}
    {rs : List (Round α β)} (h : Rounds round str rs) (buffer : Option (Buffer β)) :
    Gives (convert round (some str) buffer) buffer
      (if rs.any Round.bad then .eilseq else .ok) (rs.flatMap Round.output) := by
  obtain ⟨c, hloop, hc⟩ := h.loop (Nat.lt_succ_self str.length) (reached_nil buffer)
  rw [List.nil_append, Bool.false_or] at hc
  refine ⟨⟨⟨if c.overflow then .bufferOverflow else if c.bad then .eilseq else .ok, some c.off,
    c.buffer⟩, ?_, congrArg some hc.off, ?_, ?_, ?_, fun h => (hc.none h).1⟩⟩
  · show loop round (str.length + 1) str { buffer := buffer } >>= _ = _
    rw [hloop]
    rfl
  · intro b hb hlt
    exact if_pos (hc.full b hb hlt).1
  · intro hfits
    have hover : c.overflow = false := by
      cases hb : buffer with
      | none => exact (hc.none hb).2
      | some b => exact (hc.fits b hb (hfits b hb)).2
    dsimp only
    rw [hover, hc.bad]
    rfl
  · intro b hb hle
    refine ⟨_, (hc.fits b hb hle).1, Buffer.slice_fill ?_⟩
    rw [Nat.zero_add]
    exact hle

end FroggyKVM.Pcsl
