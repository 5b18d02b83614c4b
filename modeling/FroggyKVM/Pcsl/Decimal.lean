/-
# FroggyKVM.Pcsl.Decimal — decimal numbers from and to strings (`pcsl_string.c`).

A string is an array of units that ends with a zero, and its length counts the zero.  The digits of a
number are written from the end of a buffer of 20 units, and the zero, 19 digits and a sign do not
fit.  A text is parsed to its end as the abstract characters count it; that number is negative for
ill-formed text, **and then nothing is parsed at all**.
-/
import FroggyKVM.Lib.Fill
import FroggyKVM.Lib.MachineInt
import FroggyKVM.Lib.Text
import FroggyKVM.Pcsl.Utf

namespace FroggyKVM.Pcsl

def RADIX : Int := 10
def MIN_LONG : Int := -9223372036854775808
def MAXINT_DIV_10 : Int := 922337203685477580
def TEXT_BUF_FOR_LONG_SIZE : Nat := 20

/-- `pcsl_string`, without its flags. -/
structure PcslString where
  data : Option (List UInt16)
  length : Nat
  deriving DecidableEq

/-- `PCSL_STRING_NULL`. -/
def PCSL_STRING_NULL : PcslString := ⟨none, 0⟩

/-- The string with a text. -/
def PcslString.ofText (text : List UInt16) : PcslString := ⟨some (text ++ [0]), text.length + 1⟩

/-! ## Length -/

def isHigh (c : UInt16) : Bool := 0xd800 ≤ c.toNat ∧ c.toNat ≤ 0xdbff
def isLow (c : UInt16) : Bool := 0xdc00 ≤ c.toNat ∧ c.toNat ≤ 0xdfff

/-- The loop of `utf16_string_length`, with `char_count`. -/
def utf16StringLength : List UInt16 → Int → Int
  | [], charCount => charCount
  | c :: str, charCount =>
    if isHigh c then
      match str with
      | [] => -1
      | low :: str => if !isLow low then -1 else utf16StringLength str (charCount + 1)
    else utf16StringLength str (charCount + 1)

/-- `pcsl_string_length`. -/
def pcslStringLength (str : PcslString) : Int :=
  match str.data with
  | none => -1
  | some data => utf16StringLength (data.take str.length) 0 - 1

/-! ## Parsing -/

/-- `src[i]`. -/
def unitAt (src : List UInt16) (i : Nat) : Except MemFault UInt16 :=
  match src[i]? with
  | some c => .ok c
  | none => .error .outOfRange

/-- The rounds of the loop that are left, from index `i` on; the result is the number, or the status
to return. -/
def parseDigits (src : List UInt16) : Nat → Nat → Int → Except MemFault (Except Status Int)
  | 0, _, retVal => .ok (.ok retVal)
  | rounds + 1, i, retVal =>
    if retVal > MAXINT_DIV_10 ∨ retVal < 0 then .ok (.error .overflow)
    else do
      let c ← unitAt src i
      if 48 ≤ c.toNat ∧ c.toNat ≤ 57 then
        let retVal := i64 (retVal * RADIX + (c.toNat - 48))
        if retVal < 0 ∧ retVal ≠ MIN_LONG then return .error .overflow
        else parseDigits src rounds (i + 1) retVal
      else return .error .einval

/-- `pcsl_string_convert_to_jlong`: the status and `*value`. -/
def convertToJlong (str : PcslString) (value : Int) : Except MemFault (Status × Int) :=
  match str.data with
  | none => .ok (.einval, value)
  | some src => do
    let length := pcslStringLength str
    if length = 0 then return (.einval, value)
    else do
      let c ← unitAt src 0
      let isNegative := c.toNat = 45
      let i : Nat := if c.toNat = 45 ∨ c.toNat = 43 then 1 else 0
      match ← parseDigits src (length - i).toNat i 0 with
      | .error status => return (status, value)
      | .ok retVal =>
        if isNegative then return (.ok, i64 (-retVal))
        else if retVal = MIN_LONG then return (.overflow, value)
        else return (.ok, retVal)

/-- `pcsl_string_convert_to_jint`. -/
def convertToJint (str : PcslString) (value : Int) : Except MemFault (Status × Int) := do
  let (retVal, valueLong) ← convertToJlong str 0
  if retVal = .ok then
    let valueInt := i32 valueLong
    if valueInt = valueLong then return (.ok, valueInt) else return (.overflow, value)
  else return (retVal, value)

/-! ## Printing -/

/-- `buf[charPos] = x`. -/
def putAt (buf : Buffer UInt16) (charPos : Int) (x : UInt16) : Except MemFault (Buffer UInt16) :=
  if 0 ≤ charPos then buf.set charPos.toNat x else .error .outOfRange

/-- `DIGIT`. -/
def DIGIT (x : Int) : UInt16 := jchar (48 + x)

/-- `while (value >= RADIX) ..`, with the last digit behind it. -/
def putDigits : Nat → Int → Int → Buffer UInt16 → Except MemFault (Int × Buffer UInt16)
  | 0, _, _, _ => .error .outOfFuel
  | fuel + 1, charPos, value, buf =>
    if value ≥ RADIX then do
      let buf ← putAt buf charPos (DIGIT (value.tmod RADIX))
      putDigits fuel (charPos - 1) (value.tdiv RADIX) buf
    else do
      let buf ← putAt buf charPos (DIGIT value)
      return (charPos, buf)

/-- `PCSL_STRING_MIN_JLONG`. -/
def PCSL_STRING_MIN_JLONG : PcslString :=
  .ofText [45, 57, 50, 50, 51, 51, 55, 50, 48, 51, 54, 56, 53, 52, 55, 55, 53, 56, 48, 56]

/-- `pcsl_string_convert_from_jlong` into `str`; `allocated` says whether there is memory, and `raw`
is what is on the stack. -/
def convertFromJlong (allocated : Bool) (raw : Nat → UInt16) (value : Int) (str : PcslString) :
    Except MemFault (Status × PcslString) :=
  let negative := value < 0
  if negative ∧ value = MIN_LONG then .ok (.ok, PCSL_STRING_MIN_JLONG)
  else do
    let value := if negative then -value else value
    let charPos : Int := TEXT_BUF_FOR_LONG_SIZE - 1
    let buf : Buffer UInt16 := { length := TEXT_BUF_FOR_LONG_SIZE, data := raw }
    let buf ← putAt buf charPos 0
    let (charPos, buf) ← putDigits TEXT_BUF_FOR_LONG_SIZE (charPos - 1) value buf
    let (charPos, buf) ← (
      if negative then do
        let buf ← putAt buf (charPos - 1) 45
        return (charPos - 1, buf)
      else return (charPos, buf))
    if allocated then do
      let data ← buf.slice charPos.toNat (TEXT_BUF_FOR_LONG_SIZE - charPos.toNat)
      return (.ok, ⟨some data, TEXT_BUF_FOR_LONG_SIZE - charPos.toNat⟩)
    else return (.enomem, str)

/-- `pcsl_string_convert_from_jint`. -/
def convertFromJint (allocated : Bool) (raw : Nat → UInt16) (value : Int) (str : PcslString) :
    Except MemFault (Status × PcslString) := convertFromJlong allocated raw value str

end FroggyKVM.Pcsl
