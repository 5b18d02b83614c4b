/-
# FroggyKVM.Rms.Layout — the block chain of a store file.

Behind its header the file is a chain of blocks.  A `Block` carries its body together with the fact
that the body has the length its header announces, so that a scan steps from block to block by
construction.  This module says what the primitive file accesses of the source do to a file given
as a header, a chain and a rest.
-/
import FroggyKVM.Rms.Store

namespace FroggyKVM.Rms

/-! ## Blocks -/

/-- The bytes of a block with `n` bytes of data: header, data and padding. -/
def blockBytes (n : Nat) : Nat := (n + 7) / 8 * 8 + 8

theorem calculateBlockSize_eq {n : Nat} (h : blockBytes n < 2147483648) :
    calculateBlockSize n = blockBytes n := by
  have hmod : Int.tmod n BLOCK_HEADER_SIZE = ((n % 8 : Nat) : Int) := rfl
  simp only [calculateBlockSize, hmod]
  simp only [BLOCK_HEADER_SIZE]
  unfold blockBytes at h ⊢
  split <;> rw [i32_of_range (by omega)] <;> omega

/-- The padding behind `n` bytes of data. -/
def padding (n : Nat) : List UInt8 := if n % 8 ≠ 0 then DB_SIGNATURE.take (8 - n % 8) else []

theorem padding_length (n : Nat) : n + (padding n).length = (n + 7) / 8 * 8 := by
  unfold padding DB_SIGNATURE
  split <;> simp <;> omega

/-- A block of the chain. -/
structure Block where
  id : Int
  size : Nat
  body : List UInt8
  body_length : body.length = (size + 7) / 8 * 8

namespace Block

def header (b : Block) : BlockHeader := { id := b.id, size := b.size }

def bytes (b : Block) : List UInt8 := b.header.bytes ++ b.body

def length (b : Block) : Nat := blockBytes b.size

def data (b : Block) : List UInt8 := b.body.take b.size

/-- A block with a record. -/
def live (b : Block) : Bool := decide (0 < b.id)

@[simp] theorem bytes_length (b : Block) : b.bytes.length = b.length := by
  simp [bytes, BlockHeader.bytes, b.body_length, length, blockBytes]
  omega

/-- The size of a block as the source computes it from the header. -/
theorem blockSize {b : Block} (h : b.length < 2147483648) :
    calculateBlockSize b.header.size = b.length := calculateBlockSize_eq h

/-- The block of record `id` with the given data. -/
def record (id : Int) (data : List UInt8) : Block where
  id := id
  size := data.length
  body := data ++ padding data.length
  body_length := by rw [List.length_append, padding_length]

@[simp] theorem record_data (id : Int) (data : List UInt8) : (record id data).data = data := by
  simp [record, Block.data]

/-- A free block over `region`. -/
def free (region : List UInt8) (n : Nat) (h : region.length = n * 8 + 8) : Block where
  id := -1
  size := n * 8
  body := region.drop 8
  body_length := by
    rw [List.length_drop, h]
    omega

end Block

/-- The bytes of a chain. -/
def chain (bs : List Block) : List UInt8 := bs.flatMap Block.bytes

/-- The length of a chain. -/
def total (bs : List Block) : Nat := (bs.map Block.length).sum

@[simp] theorem chain_nil : chain [] = [] := rfl

@[simp] theorem chain_cons (b : Block) (bs : List Block) : chain (b :: bs) = b.bytes ++ chain bs := rfl

@[simp] theorem chain_append (l r : List Block) : chain (l ++ r) = chain l ++ chain r := by
  simp [chain]

@[simp] theorem total_nil : total [] = 0 := rfl

@[simp] theorem total_cons (b : Block) (bs : List Block) : total (b :: bs) = b.length + total bs := by
  simp [total]

@[simp] theorem total_append (l r : List Block) : total (l ++ r) = total l + total r := by
  simp [total]

@[simp] theorem chain_length (bs : List Block) : (chain bs).length = total bs := by
  induction bs with
  | nil => rfl
  | cons b bs ih => simp [ih]

theorem length_pos (b : Block) : 8 ≤ b.length := by
  unfold Block.length blockBytes
  omega

theorem length_le_total (bs : List Block) : bs.length ≤ total bs := by
  induction bs with
  | nil => simp
  | cons b bs ih =>
    have := length_pos b
    simp only [List.length_cons, total_cons]
    omega

/-! ## Reading a header -/

theorem bytes_header_length (h : DbHeader) : h.bytes.length = 40 := rfl

/-- What a scan reads at the start of a block. -/
theorem readHeader_block {pre post : List UInt8} {b : Block} {o : Int} (ho : (pre.length : Int) = o)
    (hid : -2147483648 ≤ b.id ∧ b.id < 2147483648) (hsize : b.length < 2147483648) :
    readHeader (pre ++ (b.bytes ++ post)) o = some b.header := by
  have hlen := length_pos b
  have hsize' : b.size < 2147483648 := by
    unfold Block.length blockBytes at hsize
    omega
  subst ho
  unfold readHeader
  rw [if_pos (by simp [BLOCK_HEADER_SIZE]; omega), Int.toNat_natCast]
  have h₁ : getInt (pre ++ (b.bytes ++ post)) pre.length = b.id := by
    rw [Block.bytes, BlockHeader.bytes, List.append_assoc, List.append_assoc, getInt_at rfl]
    exact i32_of_range hid
  have h₂ : getInt (pre ++ (b.bytes ++ post)) (pre.length + 4) = b.size := by
    rw [Block.bytes, BlockHeader.bytes, List.append_assoc, List.append_assoc, ← List.append_assoc,
      getInt_at (by simp)]
    exact i32_of_range (by simp only [Block.header]; omega)
  rw [h₁, h₂]
  rfl

/-! ## Writing -/

/-- The header a store has in memory, written over the header in its file, when the two agree
outside the part that is written. -/
theorem splice_header {old new rest : List UInt8} {o n : Nat} (hlen : old.length = new.length)
    (hn : o + n ≤ new.length) (hpre : old.take o = new.take o)
    (hpost : old.drop (o + n) = new.drop (o + n)) :
    splice (old ++ rest) o ((new.drop o).take n) = new ++ rest := by
  have hsplit : old = new.take o ++ old.drop o := by rw [← hpre, List.take_append_drop]
  have hlen' : ((new.drop o).take n).length = n := by simp; omega
  rw [hsplit, List.append_assoc, splice_append (by simp; omega), hlen',
    List.drop_append_of_le_length (by simp; omega), List.drop_drop, hpost, ← List.append_assoc,
    ← List.append_assoc]
  congr 1
  rw [← List.drop_drop, List.append_assoc, List.take_append_drop, List.take_append_drop]

namespace Store

theorem writeDbHeader_file {s : Store} {d : DbHeader} {rest : List UInt8} {o n : Nat}
    (hfile : s.file = d.bytes ++ rest) (hn : o + n ≤ 40)
    (hpre : d.bytes.take o = s.dbHeader.bytes.take o)
    (hpost : d.bytes.drop (o + n) = s.dbHeader.bytes.drop (o + n)) :
    (s.writeDbHeader o n).file = s.dbHeader.bytes ++ rest := by
  simp only [writeDbHeader, write, Int.toNat_natCast, hfile]
  exact splice_header rfl hn hpre hpost

@[simp] theorem writeDbHeader_dbHeader (s : Store) (o n : Nat) :
    (s.writeDbHeader o n).dbHeader = s.dbHeader := rfl

@[simp] theorem writeDbHeader_cache (s : Store) (o n : Nat) :
    (s.writeDbHeader o n).recordIdOffsets = s.recordIdOffsets := rfl

@[simp] theorem writeBlock_dbHeader (s : Store) (o : Int) (h : BlockHeader) (data : List UInt8) :
    (s.writeBlock o h data).dbHeader = s.dbHeader := by
  unfold writeBlock
  simp only
  split <;> rfl

@[simp] theorem writeBlock_cache (s : Store) (o : Int) (h : BlockHeader) (data : List UInt8) :
    (s.writeBlock o h data).recordIdOffsets =
      s.recordIdOffsets.map (·.setElementAt o h.id) := by
  unfold writeBlock
  simp only
  split <;> rfl

/-- `writeBlock` replaces the bytes from its offset on by header, data and padding. -/
theorem writeBlock_file (s : Store) (pre rest : List UInt8) {o : Int}
    (ho : (pre.length : Int) = o)
    (hfile : s.file = pre ++ rest) (h : BlockHeader) (data : List UInt8) :
    (s.writeBlock o h data).file = pre ++ (h.bytes ++ (data ++ padding data.length) ++
      rest.drop (8 + (data ++ padding data.length).length)) := by
  subst ho
  have h₁ : (((pre.length : Int) + BLOCK_HEADER_SIZE).toNat) = pre.length + 8 := by
    simp only [BLOCK_HEADER_SIZE]; lia
  have h₂ : (((pre.length : Int) + BLOCK_HEADER_SIZE + data.length).toNat) =
      pre.length + 8 + data.length := by
    simp only [BLOCK_HEADER_SIZE]; omega
  have hbytes : h.bytes.length = 8 := rfl
  have key : (s.writeBlock pre.length h data).file =
      splice (splice (splice (pre ++ rest) pre.length h.bytes) (pre.length + 8) data)
        (pre.length + 8 + data.length) (padding data.length) := by
    unfold writeBlock padding
    simp only [write, updateBlock, hfile, Int.toNat_natCast, h₁, h₂]
    split
    · rfl
    · rw [splice_nil]
  have e₁ := splice_splice (pre ++ rest) h.bytes data (i := pre.length) (by simp)
  have e₂ := splice_splice (pre ++ rest) (h.bytes ++ data) (padding data.length) (i := pre.length)
    (by simp)
  rw [hbytes] at e₁
  rw [List.length_append, hbytes, ← Nat.add_assoc] at e₂
  rw [key, e₁, e₂, splice_append rfl]
  simp [hbytes]

end Store

end FroggyKVM.Rms
