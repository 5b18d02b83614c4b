/-
# FroggyKVM.Gc.Forwarding — the word in which a moving object keeps its near and its new place.

The lowest bits of the word are the near, as a distance from the start of the heap or as an offset
in the ROM; bit 31 tells which.  The bits between are the distance of the object's new place from
the place where the objects of its slice go.
-/
import FroggyKVM.Gc.Resize
import FroggyKVM.Lib.Lts

namespace FroggyKVM.Gc

/-! ## Pointers

An address is a word index, and a pointer to it is the machine word of its byte address. -/

/-- The machine word of a pointer. -/
def pointer (p : Nat) : UInt32 := UInt32.ofNat (4 * p)

/-- The address that a machine word points to. -/
def address (w : UInt32) : Nat := w.toNat / 4

@[simp] theorem address_pointer {p : Nat} (hp : 4 * p < 2 ^ 32) : address (pointer p) = p := by
  unfold address pointer
  rw [UInt32.toNat_ofNat_of_lt' hp]
  omega

/-! ## Offsets in the ROM -/

/-- The blocks of the ROM: `rom_text_start`, `rom_text_size`, `rom_data_start` of the quick
variables, and the size of the data block. -/
structure Rom where
  textStart : UInt32
  textSize : UInt32
  dataStart : UInt32
  dataSize : UInt32

namespace Rom

variable (rom : Rom)

/-- `ROM::get_max_offset`. -/
def getMaxOffset : UInt32 :=
  (if rom.textSize > rom.dataSize then rom.textSize else rom.dataSize) <<< 1

/-- `ROM::system_contains`. -/
def systemContains (obj : UInt32) : Prop :=
  obj - rom.textStart < rom.textSize ∨ obj - rom.dataStart < rom.dataSize

/-- `rom_offset_of`: an offset in the data block is odd. -/
def romOffsetOf (obj : UInt32) : UInt32 :=
  let offset_plus_flag := obj - rom.textStart
  if offset_plus_flag < rom.textSize then offset_plus_flag
  else obj - rom.dataStart + 1

/-- `rom_oop_from_offset`. -/
def romOopFromOffset (offset : UInt32) : UInt32 :=
  if offset &&& 0x1 = 0 then rom.textStart + offset
  else rom.dataStart + (offset - 1)

end Rom

/-! ## The word -/

/-- The near offset of an object whose near lives in the ROM. -/
def romNear (offset : UInt32) : UInt32 := offset ||| 0x80000000

/-- The assignment to `obj->_klass` in `compute_new_object_locations`. -/
def encodeKlass (g : SliceGlobals) (sliceOffset nearOffset : UInt32) : UInt32 :=
  (sliceOffset <<< g.sliceShift) ||| nearOffset

/-- `((int) klass) >= 0` -/
def InHeap (klass : UInt32) : Prop := 0 ≤ klass.toInt32

instance (klass : UInt32) : Decidable (InHeap klass) := by unfold InHeap; infer_instance

/-- The near offset that `decode_near` takes from the word. -/
def decodeNearOffset (g : SliceGlobals) (klass : UInt32) : UInt32 := klass &&& g.nearMask

/-- `decode_near`. -/
def decodeNear (g : SliceGlobals) (rom : Rom) (heapStart : Nat) (klass : UInt32) : UInt32 :=
  let near_offset := decodeNearOffset g klass
  if InHeap klass then pointer (heapStart + near_offset.toNat)
  else rom.romOopFromOffset near_offset

/-- The slice offset that `decode_destination` takes from the word. -/
def decodeSliceOffset (g : SliceGlobals) (klass : UInt32) : UInt32 :=
  (klass &&& g.sliceOffsetMask) >>> g.sliceShift

/-- `decode_destination`: none where there is no entry for the slice of the object. -/
def decodeDestination (g : SliceGlobals) (slices : List Nat) (heapStart obj : Nat) (klass : UInt32) :
    Option Nat :=
  let slice_index := (obj - heapStart) >>> g.sliceOffsetBits.toNat
  slices[slice_index]?.map fun slice_start => slice_start + (decodeSliceOffset g klass).toNat

/-! ## How many bits a near needs -/

theorem countBitsLoop_le {fuel : Nat} (hfuel : fuel ≤ 32) {s : UInt32} (hs : s.toNat < 2 ^ fuel) :
    (countBitsLoop fuel s).toNat ≤ fuel ∧
      ∀ k, (countBitsLoop fuel s).toNat ≤ k ↔ s.toNat < 2 ^ k := by
  induction fuel generalizing s with
  | zero =>
    have hzero : s.toNat = 0 := by omega
    refine ⟨Nat.le_refl 0, fun k => ?_⟩
    rw [hzero]
    exact iff_of_true (Nat.zero_le k) (Nat.two_pow_pos k)
  | succ fuel ih =>
    unfold countBitsLoop
    split
    · next hzero =>
      subst hzero
      exact ⟨Nat.zero_le _, fun k => iff_of_true (Nat.zero_le k) (Nat.two_pow_pos k)⟩
    · next hne =>
      have hpos : s.toNat ≠ 0 := fun h => hne (UInt32.toNat_inj.1 h)
      have hhalf : (s >>> 1).toNat = s.toNat / 2 := by
        rw [UInt32.toNat_shiftRight]
        exact Nat.shiftRight_one _
      have hlt : (s >>> 1).toNat < 2 ^ fuel := by
        rw [hhalf]
        omega
      obtain ⟨hle, hiff⟩ := ih (by omega) hlt
      have hsucc : (countBitsLoop fuel (s >>> 1) + 1).toNat =
          (countBitsLoop fuel (s >>> 1)).toNat + 1 := by
        rw [UInt32.toNat_add, UInt32.toNat_one]
        exact Nat.mod_eq_of_lt (by omega)
      rw [hsucc]
      refine ⟨by omega, fun k => ?_⟩
      cases k with
      | zero => exact iff_of_false (by omega) (by omega)
      | succ k =>
        rw [Nat.add_le_add_iff_right, hiff k, hhalf, Nat.pow_succ]
        omega

theorem countBits_le_iff {s : UInt32} {k : Nat} : (countBits s).toNat ≤ k ↔ s.toNat < 2 ^ k :=
  (countBitsLoop_le (Nat.le_refl 32) s.toNat_lt).2 k

/-- So many bits are enough for the distances in the heap and for the offsets in the ROM. -/
theorem nearBits_le_iff {romMaxOffset size : UInt32} {k : Nat} :
    (nearBits romMaxOffset size).toNat ≤ k ↔
      (size - 1).toNat / 4 < 2 ^ k ∧ romMaxOffset.toNat < 2 ^ k := by
  have hheap := @countBits_le_iff ((size - 1) >>> 2) k
  have hrom := @countBits_le_iff romMaxOffset k
  have hshift : ((size - 1) >>> 2).toNat = (size - 1).toNat / 4 := by
    rw [UInt32.toNat_shiftRight]
    exact Nat.shiftRight_eq_div_pow _ 2
  rw [hshift] at hheap
  rw [← hheap, ← hrom]
  unfold nearBits
  dsimp only
  split
  · next hlt =>
    have := UInt32.lt_iff_toNat_lt.1 hlt
    omega
  · next hlt =>
    have := UInt32.le_iff_toNat_le.1 (UInt32.not_lt.1 hlt)
    omega

/-! ## The parameters as numbers -/

/-- `update_slices_size` succeeds: its assertions hold, and the number of slice offset bits does not
wrap. -/
structure SlicesFit (romMaxOffset size : UInt32) : Prop where
  positive : 0 < size
  aligned : size % 128 = 0
  bits : nearBits romMaxOffset size ≤ 31

/-- The parameters of a heap of `size` bytes whose nears have `n` bits. -/
structure SliceNumbers (n size : Nat) (g : SliceGlobals) : Prop where
  least : 5 ≤ n
  most : n ≤ 31
  shift : g.sliceShift.toNat = n
  mask : g.nearMask.toNat = 2 ^ n - 1
  offsetBits : g.sliceOffsetBits.toNat = 31 - n
  offsetMask : g.sliceOffsetMask.toNat = 2 ^ 31 - 2 ^ n
  sliceSize : g.sliceSize.toNat = 2 ^ (31 - n)
  nofSlices : g.nofSlices.toNat = (size + 2 ^ (31 - n) * 4 - 1) / (2 ^ (31 - n) * 4)

theorem rightNBits_toNat {n : UInt32} (hn : n ≤ 31) : (rightNBits n).toNat = 2 ^ n.toNat - 1 := by
  have hn' : n.toNat ≤ 31 := UInt32.le_iff_toNat_le.1 hn
  have hnot : ¬ n ≥ 32 := fun h => by
    have := UInt32.le_iff_toNat_le.1 h
    rw [show (32 : UInt32).toNat = 32 from rfl] at this
    omega
  have hpow : 2 ^ n.toNat < 2 ^ 32 := Nat.pow_lt_pow_right (by decide) (by omega)
  have hpos : 1 ≤ 2 ^ n.toNat := Nat.one_le_two_pow
  have hbit : ((1 : UInt32) <<< n).toNat = 2 ^ n.toNat := by
    rw [UInt32.toNat_shiftLeft, UInt32.toNat_one, Nat.mod_eq_of_lt (by omega : n.toNat < 32),
      Nat.one_shiftLeft, Nat.mod_eq_of_lt hpow]
  unfold rightNBits
  rw [if_neg hnot, UInt32.toNat_sub_of_le _ _ (UInt32.le_iff_toNat_le.2 (by rw [hbit]; exact hpos)),
    hbit]
  rfl

/-- A slice is at most as large as the alignment leaves room for. -/
theorem slices_no_overflow {n size : Nat} (h₅ : 5 ≤ n) (h₃₁ : n ≤ 31) (hsize : size < 2 ^ 32)
    (haligned : size % 128 = 0) (hbits : (size - 1) / 4 < 2 ^ n) :
    size + 2 ^ (31 - n) * 4 < 2 ^ 32 := by
  interval_cases n <;> omega

variable {romMaxOffset size : UInt32}

theorem SlicesFit.least (h : SlicesFit romMaxOffset size) : 5 ≤ (nearBits romMaxOffset size).toNat := by
  have hpos := UInt32.lt_iff_toNat_lt.1 h.positive
  have haligned := congrArg UInt32.toNat h.aligned
  rw [UInt32.toNat_mod] at haligned
  have hsub : (size - 1).toNat = size.toNat - 1 :=
    UInt32.toNat_sub_of_le _ _ (UInt32.le_iff_toNat_le.2 hpos)
  by_contra hlt
  have := (nearBits_le_iff.1 (by omega : (nearBits romMaxOffset size).toNat ≤ 4)).1
  rw [hsub] at this
  change size.toNat % 128 = 0 at haligned
  change 0 < size.toNat at hpos
  omega

/-- **What the parameters are** when `update_slices_size` succeeds. -/
theorem SlicesFit.numbers (h : SlicesFit romMaxOffset size) :
    SliceNumbers (nearBits romMaxOffset size).toNat size.toNat
      (updateSlicesSize romMaxOffset size).2 := by
  have h₅ := h.least
  have h₃₁ : (nearBits romMaxOffset size).toNat ≤ 31 := UInt32.le_iff_toNat_le.1 h.bits
  have hmask := rightNBits_toNat h.bits
  have hbits := (nearBits_le_iff.1 (Nat.le_refl (nearBits romMaxOffset size).toNat)).1
  unfold updateSlicesSize
  dsimp only
  generalize nearBits romMaxOffset size = near_bits at h₅ h₃₁ hmask hbits ⊢
  have hsize := size.toNat_lt
  have haligned : size.toNat % 128 = 0 := by
    have := congrArg UInt32.toNat h.aligned
    rwa [UInt32.toNat_mod] at this
  have hpos : 0 < size.toNat := UInt32.lt_iff_toNat_lt.1 h.positive
  have hsub : (size - 1).toNat = size.toNat - 1 :=
    UInt32.toNat_sub_of_le _ _ (UInt32.le_iff_toNat_le.2 hpos)
  rw [hsub] at hbits
  have hroom := slices_no_overflow h₅ h₃₁ hsize haligned hbits
  -- no operation wraps
  have h32 : (32 - near_bits).toNat = 32 - near_bits.toNat :=
    UInt32.toNat_sub_of_le _ _ (UInt32.le_iff_toNat_le.2 (by change near_bits.toNat ≤ 32; omega))
  have hoffset : (32 - near_bits - 1).toNat = 31 - near_bits.toNat := by
    rw [UInt32.toNat_sub_of_le _ _ (UInt32.le_iff_toNat_le.2 (by rw [h32]; change 1 ≤ _; omega)),
      h32]
    change 32 - near_bits.toNat - 1 = _
    lia
  have hslice : ((1 : UInt32) <<< (32 - near_bits - 1)).toNat = 2 ^ (31 - near_bits.toNat) := by
    rw [UInt32.toNat_shiftLeft, hoffset, UInt32.toNat_one, Nat.one_shiftLeft,
      Nat.mod_eq_of_lt (by omega : 31 - near_bits.toNat < 32)]
    exact Nat.mod_eq_of_lt (Nat.pow_lt_pow_right (by decide) (by omega))
  have hbytes : ((1 : UInt32) <<< (32 - near_bits - 1) * 4).toNat =
      2 ^ (31 - near_bits.toNat) * 4 := by
    rw [UInt32.toNat_mul, hslice]
    change _ * 4 % 2 ^ 32 = _
    omega
  have hsum : (size + (1 : UInt32) <<< (32 - near_bits - 1) * 4 - 1).toNat =
      size.toNat + 2 ^ (31 - near_bits.toNat) * 4 - 1 := by
    have hadd : (size + (1 : UInt32) <<< (32 - near_bits - 1) * 4).toNat =
        size.toNat + 2 ^ (31 - near_bits.toNat) * 4 := by
      rw [UInt32.toNat_add, hbytes]
      exact Nat.mod_eq_of_lt hroom
    rw [UInt32.toNat_sub_of_le _ _ (UInt32.le_iff_toNat_le.2 (by rw [hadd]; change 1 ≤ _; omega)),
      hadd]
    rfl
  have hnot : (~~~rightNBits near_bits &&& 0x7fffffff).toNat = 2 ^ 31 - 2 ^ near_bits.toNat := by
    have hle : 2 ^ near_bits.toNat ≤ 2 ^ 31 := Nat.pow_le_pow_right (by decide) h₃₁
    have hpow : 1 ≤ 2 ^ near_bits.toNat := Nat.one_le_two_pow
    rw [UInt32.toNat_and, UInt32.toNat_not, hmask]
    change (2 ^ 32 - 1 - (2 ^ near_bits.toNat - 1)) &&& (2 ^ 31 - 1) = _
    rw [Nat.and_two_pow_sub_one_eq_mod]
    lia
  refine ⟨h₅, h₃₁, rfl, hmask, hoffset, hnot, hslice, ?_⟩
  rw [UInt32.toNat_div, hsum, hbytes]

/-! ## The parts of the word -/

section Word
variable {n size' : Nat} {g : SliceGlobals} {so off : UInt32}

/-- The parts side by side are less than bit 31. -/
theorem parts_lt {a b : Nat} (hn : n ≤ 31) (ha : a < 2 ^ (31 - n)) (hb : b < 2 ^ n) :
    a * 2 ^ n + b < 2 ^ 31 := by
  have hpow : 2 ^ (31 - n) * 2 ^ n = 2 ^ 31 := by
    rw [← Nat.pow_add]
    congr 1
    omega
  have hle : (a + 1) * 2 ^ n ≤ 2 ^ (31 - n) * 2 ^ n := Nat.mul_le_mul_right _ ha
  rw [hpow] at hle
  rw [Nat.add_mul, Nat.one_mul] at hle
  omega

theorem encodeKlass_toNat (h : SliceNumbers n size' g) (hso : so.toNat < 2 ^ (31 - n))
    (hoff : off.toNat < 2 ^ n) : (encodeKlass g so off).toNat = so.toNat * 2 ^ n + off.toNat := by
  have hlt := parts_lt h.most hso hoff
  have hmost := h.most
  unfold encodeKlass
  rw [UInt32.toNat_or, UInt32.toNat_shiftLeft, h.shift, Nat.mod_eq_of_lt (by omega : n < 32),
    Nat.shiftLeft_eq, Nat.mod_eq_of_lt (by omega), ← Nat.shiftLeft_eq,
    ← Nat.shiftLeft_add_eq_or_of_lt hoff]

theorem encodeKlass_romNear_toNat (h : SliceNumbers n size' g) (hso : so.toNat < 2 ^ (31 - n))
    (hoff : off.toNat < 2 ^ n) :
    (encodeKlass g so (romNear off)).toNat = 2 ^ 31 + (so.toNat * 2 ^ n + off.toNat) := by
  have hflag : encodeKlass g so (romNear off) = 0x80000000 ||| encodeKlass g so off := by
    unfold encodeKlass romNear
    rw [UInt32.or_comm off, ← UInt32.or_assoc, UInt32.or_comm (so <<< g.sliceShift),
      UInt32.or_assoc]
  rw [hflag, UInt32.toNat_or, encodeKlass_toNat h hso hoff]
  exact (Nat.shiftLeft_add_eq_or_of_lt (parts_lt h.most hso hoff) 1).symm

/-- A word with its parts: the flag, the slice offset and the near offset. -/
structure Parts (n : Nat) (rom so off : Nat) (klass : UInt32) : Prop where
  near_lt : off < 2 ^ n
  slice_lt : so < 2 ^ (31 - n)
  sum : klass.toNat = 2 ^ 31 * rom + (so * 2 ^ n + off)

theorem Parts.near {rom so off : Nat} {klass : UInt32} (h : SliceNumbers n size' g)
    (hp : Parts n rom so off klass) : (decodeNearOffset g klass).toNat = off := by
  have hpow : 2 ^ 31 = 2 ^ (31 - n) * 2 ^ n := by
    rw [← Nat.pow_add]
    congr 1
    have := h.most
    omega
  have hsum : klass.toNat = off + 2 ^ n * (2 ^ (31 - n) * rom + so) := by
    rw [hp.sum, hpow]
    ring
  unfold decodeNearOffset
  rw [UInt32.toNat_and, h.mask, Nat.and_two_pow_sub_one_eq_mod, hsum, Nat.add_mul_mod_self_left,
    Nat.mod_eq_of_lt hp.near_lt]

theorem Parts.slice {rom so off : Nat} {klass : UInt32} (h : SliceNumbers n size' g)
    (hp : Parts n rom so off klass) : (decodeSliceOffset g klass).toNat = so := by
  have hmost := h.most
  have hpow : 2 ^ 31 = 2 ^ (31 - n) * 2 ^ n := by
    rw [← Nat.pow_add]
    congr 1
    omega
  have hsum : klass.toNat = off + 2 ^ n * (so + 2 ^ (31 - n) * rom) := by
    rw [hp.sum, hpow]
    ring
  have hmask : (2 ^ 31 - 2 ^ n) >>> n = 2 ^ (31 - n) - 1 := by
    rw [Nat.shiftRight_eq_div_pow, hpow, ← Nat.sub_one_mul, Nat.mul_div_cancel _ (Nat.two_pow_pos n)]
  unfold decodeSliceOffset
  rw [UInt32.toNat_shiftRight, UInt32.toNat_and, h.shift, h.offsetMask,
    Nat.mod_eq_of_lt (by omega : n < 32), Nat.shiftRight_and_distrib, hmask,
    Nat.and_two_pow_sub_one_eq_mod, Nat.shiftRight_eq_div_pow, hsum,
    Nat.add_mul_div_left _ _ (Nat.two_pow_pos n), Nat.div_eq_of_lt hp.near_lt, Nat.zero_add,
    Nat.add_mul_mod_self_left, Nat.mod_eq_of_lt hp.slice_lt]

theorem inHeap_iff {klass : UInt32} : InHeap klass ↔ klass.toNat < 2 ^ 31 := by
  have htoInt : klass.toInt32.toInt = klass.toBitVec.toInt := rfl
  have hnat : klass.toBitVec.toNat = klass.toNat := rfl
  have hlt := klass.toNat_lt
  unfold InHeap
  rw [Int32.le_iff_toInt_le, Int32.toInt_zero, htoInt, BitVec.toInt_eq_toNat_cond, hnat]
  split <;> omega

/-- Bit 31 is the flag. -/
theorem Parts.inHeap_iff {rom so off : Nat} {klass : UInt32} (hn : n ≤ 31)
    (hp : Parts n rom so off klass) : InHeap klass ↔ rom = 0 := by
  have := parts_lt hn hp.slice_lt hp.near_lt
  have hsum := hp.sum
  rw [Gc.inHeap_iff]
  omega

theorem parts_heap (h : SliceNumbers n size' g) (hso : so.toNat < 2 ^ (31 - n))
    (hoff : off.toNat < 2 ^ n) : Parts n 0 so.toNat off.toNat (encodeKlass g so off) :=
  ⟨hoff, hso, by rw [encodeKlass_toNat h hso hoff, Nat.mul_zero, Nat.zero_add]⟩

theorem parts_rom (h : SliceNumbers n size' g) (hso : so.toNat < 2 ^ (31 - n))
    (hoff : off.toNat < 2 ^ n) : Parts n 1 so.toNat off.toNat (encodeKlass g so (romNear off)) :=
  ⟨hoff, hso, by rw [encodeKlass_romNear_toNat h hso hoff, Nat.mul_one]⟩

theorem decodeDestination_of_slice {slices : List Nat} {heapStart obj : Nat} {klass : UInt32}
    (h : SliceNumbers n size' g) (hslice : decodeSliceOffset g klass = so) :
    decodeDestination g slices heapStart obj klass =
      slices[(obj - heapStart) / g.sliceSize.toNat]?.map (· + so.toNat) := by
  unfold decodeDestination
  dsimp only
  rw [h.offsetBits, h.sliceSize, Nat.shiftRight_eq_div_pow, hslice]

end Word

/-- A slice offset and a near offset as `compute_new_object_locations` packs them, and what
`decode_near` and `decode_destination` take from the word again. -/
structure Lossless (g : SliceGlobals) (so off : UInt32) (inRom : Prop) (klass : UInt32) : Prop where
  flag : ¬ InHeap klass ↔ inRom
  near : decodeNearOffset g klass = off
  slice : decodeSliceOffset g klass = so
  pointer_heap : ∀ rom heapStart, ¬ inRom →
    decodeNear g rom heapStart klass = pointer (heapStart + off.toNat)
  pointer_rom : ∀ rom heapStart, inRom → decodeNear g rom heapStart klass = rom.romOopFromOffset off
  destination : ∀ slices heapStart obj, decodeDestination g slices heapStart obj klass =
    slices[(obj - heapStart) / g.sliceSize.toNat]?.map (· + so.toNat)

theorem Parts.lossless {n size' : Nat} {g : SliceGlobals} {so off klass : UInt32} {rom : Nat}
    {inRom : Prop} (h : SliceNumbers n size' g) (hp : Parts n rom so.toNat off.toNat klass)
    (hflag : inRom ↔ rom ≠ 0) : Lossless g so off inRom klass := by
  have hheap := hp.inHeap_iff h.most
  have hnear := UInt32.toNat_inj.1 (hp.near h)
  have hslice := UInt32.toNat_inj.1 (hp.slice h)
  refine ⟨by rw [hheap, hflag], hnear, hslice, ?_, ?_, ?_⟩
  · intro rom' heapStart hno
    unfold decodeNear
    rw [if_pos (hheap.2 (by rwa [hflag, not_not] at hno)), hnear]
  · intro rom' heapStart hyes
    unfold decodeNear
    rw [if_neg (mt hheap.1 (hflag.1 hyes)), hnear]
  · intro slices heapStart obj
    exact decodeDestination_of_slice h hslice

/-- **The word is lossless**: for a near at the distance `off` from the start of the heap, and for a
near at the offset `off` in the ROM. -/
theorem SlicesFit.lossless (h : SlicesFit romMaxOffset size) {so off : UInt32} {g : SliceGlobals}
    (hg : (updateSlicesSize romMaxOffset size).2 = g) (hso : so < g.sliceSize) :
    (off.toNat < size.toNat / 4 → Lossless g so off False (encodeKlass g so off)) ∧
      (off ≤ romMaxOffset → Lossless g so off True (encodeKlass g so (romNear off))) := by
  have hn := h.numbers
  rw [hg] at hn
  have hso' : so.toNat < 2 ^ (31 - (nearBits romMaxOffset size).toNat) := by
    rw [← hn.sliceSize]
    exact UInt32.lt_iff_toNat_lt.1 hso
  obtain ⟨hheap, hrom⟩ := nearBits_le_iff.1 (Nat.le_refl (nearBits romMaxOffset size).toNat)
  have hpos : 0 < size.toNat := UInt32.lt_iff_toNat_lt.1 h.positive
  have hsub : (size - 1).toNat = size.toNat - 1 :=
    UInt32.toNat_sub_of_le _ _ (UInt32.le_iff_toNat_le.2 hpos)
  rw [hsub] at hheap
  constructor
  · intro hoff
    have hparts := parts_heap hn hso' (show off.toNat < _ by omega)
    exact hparts.lossless hn (by simp)
  · intro hoff
    have hle := UInt32.le_iff_toNat_le.1 hoff
    have hparts := parts_rom hn hso' (show off.toNat < _ by omega)
    exact hparts.lossless hn (by simp)

/-- The blocks are shorter than half of the address space, and start at a word. -/
structure Rom.Sound (rom : Rom) : Prop where
  textSize : rom.textSize < 0x80000000
  dataSize : rom.dataSize < 0x80000000
  text : rom.textStart.toNat % 4 = 0
  data : rom.dataStart.toNat % 4 = 0

theorem and_one_eq_zero {x : UInt32} : x &&& 1 = 0 ↔ x.toNat % 2 = 0 := by
  rw [← UInt32.toNat_inj, UInt32.toNat_and, UInt32.toNat_one, Nat.and_one_is_mod]
  rfl

/-- **A near in the ROM and its offset**: the offset gives the near back, and is in bounds. -/
theorem Rom.Sound.round_trip {rom : Rom} (h : rom.Sound) {w : UInt32} (hw : w.toNat % 4 = 0)
    (hin : rom.systemContains w) :
    rom.romOffsetOf w ≤ rom.getMaxOffset ∧ rom.romOopFromOffset (rom.romOffsetOf w) = w := by
  have htext := UInt32.lt_iff_toNat_lt.1 h.textSize
  have hdata := UInt32.lt_iff_toNat_lt.1 h.dataSize
  have hmax : rom.textSize.toNat ≤ rom.getMaxOffset.toNat ∧
      rom.dataSize.toNat ≤ rom.getMaxOffset.toNat := by
    unfold Rom.getMaxOffset
    rw [UInt32.toNat_shiftLeft]
    change _ ≤ _ <<< 1 % 2 ^ 32 ∧ _ ≤ _ <<< 1 % 2 ^ 32
    rw [Nat.shiftLeft_eq]
    change _ < 2 ^ 31 at htext hdata
    split
    · next hlt =>
      have := UInt32.lt_iff_toNat_lt.1 hlt
      omega
    · next hlt =>
      have := UInt32.le_iff_toNat_le.1 (UInt32.not_lt.1 hlt)
      omega
  have heven : ∀ base : UInt32, base.toNat % 4 = 0 → (w - base).toNat % 4 = 0 := by
    intro base hbase
    have := w.toNat_lt
    have := base.toNat_lt
    rw [UInt32.toNat_sub]
    omega
  unfold Rom.romOffsetOf Rom.romOopFromOffset
  dsimp only
  split
  · next hlt =>
    have hlt' := UInt32.lt_iff_toNat_lt.1 hlt
    have heven' := heven _ h.text
    refine ⟨UInt32.le_iff_toNat_le.2 (by omega), ?_⟩
    rw [if_pos (and_one_eq_zero.2 (by omega))]
    exact (UInt32.add_comm ..).trans (UInt32.sub_add_cancel ..)
  · next hout =>
    have hlt := UInt32.lt_iff_toNat_lt.1 (hin.resolve_left hout)
    have heven' := heven _ h.data
    have hsucc : (w - rom.dataStart + 1).toNat = (w - rom.dataStart).toNat + 1 := by
      change _ < 2 ^ 31 at hdata
      rw [UInt32.toNat_add, UInt32.toNat_one]
      omega
    refine ⟨UInt32.le_iff_toNat_le.2 (by omega), ?_⟩
    rw [if_neg (by rw [and_one_eq_zero]; omega), UInt32.add_sub_cancel]
    exact (UInt32.add_comm ..).trans (UInt32.sub_add_cancel ..)

end FroggyKVM.Gc
