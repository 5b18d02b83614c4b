/-
# FroggyKVM.Zip.Directory — little-endian fields and the central directory of a ZIP archive.

The central directory is a sequence of headers of 46 bytes, each followed by the name, an extra
field and a comment of the lengths it gives.  The entry cache of the class loader and the reader of
the launcher both walk through it by adding these lengths.
-/
import Mathlib

namespace FroggyKVM.Zip

/-! ## Fields -/

/-- Up to `n` bytes of a file from an offset on. -/
def bytesAt (file : List UInt8) (offset n : Nat) : List UInt8 := (file.drop offset).take n

/-- `CH`. -/
def ch (b : List UInt8) (n : Nat) : Nat := (b.getD n 0).toNat

/-- `SH`, `read_u16_le`. -/
def sh (b : List UInt8) (n : Nat) : Nat := ch b n + 256 * ch b (n + 1)

/-- `LG`, `read_u32_le`. -/
def lg (b : List UInt8) (n : Nat) : Nat := sh b n + 65536 * sh b (n + 2)

section Fields
variable {a b c : List UInt8} {n : Nat}

theorem bytesAt_append : bytesAt (a ++ (b ++ c)) a.length b.length = b := by
  rw [bytesAt, List.drop_left, List.take_left]

theorem bytesAt_append_of_eq {i : Nat} (hi : i = a.length) (hn : n = b.length) :
    bytesAt (a ++ (b ++ c)) i n = b := by rw [hi, hn, bytesAt_append]

theorem length_bytesAt_le (file : List UInt8) (i n : Nat) : (bytesAt file i n).length ≤ n :=
  List.length_take_le ..

theorem ch_append_left (h : n < a.length) : ch (a ++ b) n = ch a n := by
  rw [ch, ch, List.getD_append _ _ _ _ h]

theorem sh_append_left (h : n + 1 < a.length) : sh (a ++ b) n = sh a n := by
  rw [sh, sh, ch_append_left (by omega), ch_append_left h]

theorem lg_append_left (h : n + 3 < a.length) : lg (a ++ b) n = lg a n := by
  rw [lg, lg, sh_append_left (by omega), sh_append_left h]

theorem ch_append_right : ch (a ++ b) (a.length + n) = ch b n := by
  rw [ch, ch, List.getD_append_right _ _ _ _ (by omega), Nat.add_sub_cancel_left]

theorem sh_append_right : sh (a ++ b) (a.length + n) = sh b n := by
  rw [sh, sh, ch_append_right, Nat.add_assoc, ch_append_right]

theorem lg_append_right : lg (a ++ b) (a.length + n) = lg b n := by
  rw [lg, lg, sh_append_right, Nat.add_assoc, sh_append_right]

end Fields

/-! ## Central headers -/

def CENHDRSIZ : Nat := 46

/-- `"PK\\001\\002"`. -/
def CENSIG : Nat := 0x02014b50

/-- `CENHOW`. -/
def cenhow (b : List UInt8) : Nat := sh b 10

/-- `CENSIZ`. -/
def censiz (b : List UInt8) : Nat := lg b 20

/-- `CENLEN`. -/
def cenlen (b : List UInt8) : Nat := lg b 24

/-- `CENNAM`. -/
def cennam (b : List UInt8) : Nat := sh b 28

/-- `CENEXT`. -/
def cenext (b : List UInt8) : Nat := sh b 30

/-- `CENCOM`. -/
def cencom (b : List UInt8) : Nat := sh b 32

/-- `CENOFF`. -/
def cenoff (b : List UInt8) : Nat := lg b 42

/-- An entry of a central directory: a header, and what it gives the lengths of. -/
structure CentralEntry where
  header : List UInt8
  name : List UInt8
  extra : List UInt8
  comment : List UInt8
  length_header : header.length = CENHDRSIZ
  sig : lg header 0 = CENSIG
  cennam_header : cennam header = name.length
  cenext_header : cenext header = extra.length
  cencom_header : cencom header = comment.length

namespace CentralEntry

/-- The bytes of an entry. -/
def bytes (e : CentralEntry) : List UInt8 := e.header ++ (e.name ++ (e.extra ++ e.comment))

/-- The number of its bytes, as the readers compute it. -/
def size (e : CentralEntry) : Nat := CENHDRSIZ + cennam e.header + cenext e.header + cencom e.header

theorem length_bytes (e : CentralEntry) : e.bytes.length = e.size := by
  rw [bytes, size, e.cennam_header, e.cenext_header, e.cencom_header, List.length_append,
    List.length_append, List.length_append, e.length_header]
  omega

theorem size_pos (e : CentralEntry) : 0 < e.size := by
  rw [size, CENHDRSIZ]
  omega

end CentralEntry

/-- The bytes of a central directory. -/
def directoryBytes (es : List CentralEntry) : List UInt8 := es.flatMap CentralEntry.bytes

section Entries
variable {file pre rest : List UInt8} {e : CentralEntry}

/-- What a reader finds at an entry. -/
theorem header_at (h : file = pre ++ (e.bytes ++ rest)) :
    bytesAt file pre.length CENHDRSIZ = e.header := by
  rw [h, CentralEntry.bytes, List.append_assoc]
  exact bytesAt_append_of_eq rfl e.length_header.symm

theorem name_at (h : file = pre ++ (e.bytes ++ rest)) :
    bytesAt file (pre.length + CENHDRSIZ) (cennam e.header) = e.name := by
  rw [h, CentralEntry.bytes, List.append_assoc, List.append_assoc, ← List.append_assoc]
  exact bytesAt_append_of_eq (by rw [List.length_append, e.length_header]) e.cennam_header

/-- Behind it is the rest of the file. -/
theorem after_entry (h : file = pre ++ (e.bytes ++ rest)) :
    file = (pre ++ e.bytes) ++ rest ∧ (pre ++ e.bytes).length = pre.length + e.size := by
  refine ⟨h.trans (List.append_assoc ..).symm, ?_⟩
  rw [List.length_append, e.length_bytes]

end Entries

/-- Every entry takes a byte or more. -/
theorem length_le_length_directoryBytes (es : List CentralEntry) :
    es.length ≤ (directoryBytes es).length := by
  induction es with
  | nil => exact Nat.zero_le _
  | cons e es ih =>
    have hbytes := e.length_bytes
    have hpos := e.size_pos
    rw [directoryBytes, List.flatMap_cons, List.length_append, List.length_cons]
    rw [directoryBytes] at ih
    omega

end FroggyKVM.Zip
