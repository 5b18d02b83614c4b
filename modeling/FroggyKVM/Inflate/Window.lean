/-
# FroggyKVM.Inflate.Window — the input buffer as a window of the file.

The bytes of the buffer from `inOffset` on are those of the file from the position on, and the
register holds the bits in front of it (`Follows`).  **Refilling keeps the position and the bits**, so
no byte is lost or read twice.
-/
import FroggyKVM.Inflate.DoInflate
import FroggyKVM.Inflate.Register

namespace FroggyKVM.Inflate

/-- The bits of the file from `start` on. -/
def File.bits (file : File) (start : Nat) : Nat → Bool := byteBits fun k => file.byte (start + k)

/-- The input buffer `b` and the locals `i` follow the file, whose compressed data begin at
`start`. -/
structure Follows (file : File) (start : Nat) (f : Inflater) (b : Buffer UInt8) (i : In) : Prop where
  fileHandle : f.fileHandle = some file
  incremental : f.incremental = true
  inBuffer : f.inBuffer = some b
  inLength : 0 < i.inLength ∧ i.inLength + 4 = b.length ∧ b.length < 4294967296
  inOffset : i.inOffset ≤ b.length
  filePos : f.filePos ≤ start + f.track.base + b.length
  more : f.filePos = start + f.track.base + b.length ∨ file.length ≤ f.filePos
  data : ∀ k, i.inOffset ≤ k → k < b.length → start + f.track.base + k < file.length →
    b.data k = file.byte (start + f.track.base + k)
  size : i.inDataSize ≤ 32
  before : i.inDataSize ≤ 8 * (f.track.base + i.inOffset)
  small : i.Small
  holds : start + f.track.base + i.inOffset ≤ file.length →
    i.Holds (file.bits start) (8 * (f.track.base + i.inOffset) - i.inDataSize)

/-- The fields of `g` that the input has to do with are those of `f`. -/
structure SameInput (f g : Inflater) : Prop where
  fileHandle : g.fileHandle = f.fileHandle
  incremental : g.incremental = f.incremental
  inBuffer : g.inBuffer = f.inBuffer
  filePos : g.filePos = f.filePos
  base : g.track.base = f.track.base

/-- The codes of `g` are those of `f`. -/
structure SameCodes (f g : Inflater) : Prop where
  lengthBuffer : g.lengthBuffer = f.lengthBuffer
  distanceBuffer : g.distanceBuffer = f.distanceBuffer
  litLens : g.track.litLens = f.track.litLens
  distLens : g.track.distLens = f.track.distLens

theorem SameCodes.refl (f : Inflater) : SameCodes f f := ⟨rfl, rfl, rfl, rfl⟩

namespace Follows

variable {file : File} {start : Nat} {f g : Inflater} {b : Buffer UInt8} {i : In}

theorem congr (h : Follows file start f b i) (hsame : SameInput f g) : Follows file start g b i := by
  obtain ⟨hhandle, hinc, hbuffer, hpos, hbase⟩ := hsame
  have hmore := h.more
  have hfile := h.filePos
  have hdata := h.data
  have hbefore := h.before
  have hholds := h.holds
  rw [← hbase] at hmore hfile hdata hbefore hholds
  rw [← hpos] at hmore hfile
  exact ⟨hhandle.trans h.fileHandle, hinc.trans h.incremental, hbuffer.trans h.inBuffer, h.inLength,
    h.inOffset, hfile, hmore, hdata, h.size, hbefore, h.small, hholds⟩

/-- The bytes of the window are those of the file. -/
theorem bits_eq (h : Follows file start f b i) {n : Nat} (hn : i.inOffset + n ≤ b.length)
    (hfile : start + f.track.base + (i.inOffset + n) ≤ file.length) :
    bitsAt (byteBits b.data) (8 * i.inOffset) (8 * n) =
      bitsAt (file.bits start) (8 * (f.track.base + i.inOffset)) (8 * n) := by
  apply bitsAt_congr
  intro k hk
  unfold File.bits byteBits
  have hdiv : (8 * i.inOffset + k) / 8 = i.inOffset + k / 8 := by omega
  have hdiv' : (8 * (f.track.base + i.inOffset) + k) / 8 = f.track.base + i.inOffset + k / 8 := by
    omega
  have hmod : (8 * i.inOffset + k) % 8 = k % 8 := by omega
  have hmod' : (8 * (f.track.base + i.inOffset) + k) % 8 = k % 8 := by omega
  rw [hdiv, hdiv', hmod, hmod', h.data _ (by omega) (by omega) (by omega)]
  congr 3
  omega

/-- Bytes are taken. -/
theorem take (h : Follows file start f b i) {n : Nat} (hn : i.inOffset + n ≤ b.length)
    (hsize : i.inDataSize + 8 * n ≤ 32) : Follows file start f b (i.take b.data n) := by
  have hbefore := h.before
  refine ⟨h.fileHandle, h.incremental, h.inBuffer, h.inLength, hn, h.filePos, h.more, ?_, hsize, ?_,
    h.small.take _ _, ?_⟩
  · intro k hk
    have hk : i.inOffset + n ≤ k := hk
    exact h.data k (by omega)
  · show i.inDataSize + 8 * n ≤ 8 * (f.track.base + (i.inOffset + n))
    omega
  · intro hfile
    have hfile : start + f.track.base + (i.inOffset + n) ≤ file.length := hfile
    have hholds := h.holds (by omega)
    have hpos : 8 * (f.track.base + (i.inOffset + n)) - (i.inDataSize + 8 * n) =
        8 * (f.track.base + i.inOffset) - i.inDataSize := by omega
    show (i.take b.data n).Holds _
      (8 * (f.track.base + (i.inOffset + n)) - (i.inDataSize + 8 * n))
    rw [hpos]
    apply hholds.take
    rw [h.bits_eq hn hfile, Nat.sub_add_cancel hbefore]

/-- Bits are dumped. -/
theorem dumpBits (h : Follows file start f b i) {j : Nat} (hj : j ≤ i.inDataSize) :
    Follows file start f b (i.dumpBits j) := by
  have hbefore := h.before
  have hsize := h.size
  refine ⟨h.fileHandle, h.incremental, h.inBuffer, h.inLength, h.inOffset, h.filePos, h.more, h.data,
    ?_, ?_, h.small.dumpBits hj, fun hfile => ?_⟩
  · show i.inDataSize - j ≤ 32
    omega
  · show i.inDataSize - j ≤ 8 * (f.track.base + i.inOffset)
    omega
  · have hpos : 8 * (f.track.base + i.inOffset) - (i.inDataSize - j) =
        8 * (f.track.base + i.inOffset) - i.inDataSize + j := by omega
    show (i.dumpBits j).Holds _ (8 * (f.track.base + i.inOffset) - (i.inDataSize - j))
    rw [hpos]
    exact (h.holds hfile).dumpBits hj

/-- **`NEEDBITS`** follows the file. -/
theorem needBits (h : Follows file start f b i) {j : Nat} (hj : j ≤ 24) :
    Returns (i.needBits b j) fun i' => i' = i.take b.data (bytesFor i.inDataSize j) ∧
      j ≤ i'.inDataSize ∧ Follows file start f b i' := by
  refine (In.needBits_returns h.small (.inl (by omega))).mono ?_
  rintro i' ⟨rfl, hin⟩
  have hsize := h.size
  have hoffset := h.inOffset
  have hbytes : i.inDataSize + 8 * bytesFor i.inDataSize j ≤ 32 ∧
      j ≤ i.inDataSize + 8 * bytesFor i.inDataSize j ∧
      (j ≤ i.inDataSize → bytesFor i.inDataSize j = 0) := by
    unfold bytesFor
    omega
  refine ⟨rfl, hbytes.2.1, h.take ?_ hbytes.1⟩
  by_cases hlt : i.inDataSize < j
  · exact hin hlt
  · rw [hbytes.2.2 (by omega)]
    omega

/-- Behind the bits at hand come `copied` bytes of the buffer, and when it is used up, `deficit`
bytes that are read from the file. -/
theorem skip (h : Follows file start f b i) (hempty : i.inDataSize = 0) {copied deficit : Nat}
    (hcopied : i.inOffset + copied ≤ b.length)
    (hdeficit : deficit = 0 ∨ i.inOffset + copied = b.length ∧ f.filePos + deficit ≤ file.length)
    (hinc : g.incremental = f.incremental) (hhandle : g.fileHandle = f.fileHandle)
    (hbuffer : g.inBuffer = f.inBuffer) (hpos : g.filePos = f.filePos + deficit)
    (hbase : g.track.base = f.track.base + deficit) :
    Follows file start g b { i with inOffset := i.inOffset + copied } := by
  have hmore := h.more
  have hfile := h.filePos
  have hsmall := h.small
  unfold In.Small at hsmall
  rw [hempty] at hsmall
  refine ⟨hhandle.trans h.fileHandle, hinc.trans h.incremental, hbuffer.trans h.inBuffer, h.inLength,
    hcopied, ?_, ?_, ?_, h.size, ?_, h.small, fun _ => ?_⟩
  · rw [hpos, hbase]
    omega
  · rw [hpos, hbase]
    omega
  · intro k hk hlt hin
    have hk : i.inOffset + copied ≤ k := hk
    rw [hbase] at hin ⊢
    obtain rfl : deficit = 0 := by omega
    exact h.data k (by omega) hlt hin
  · show i.inDataSize ≤ 8 * (g.track.base + (i.inOffset + copied))
    omega
  · show i.inData = bitsAt _ _ i.inDataSize
    rw [hempty]
    show i.inData = 0
    omega

/-! ## Refilling -/

/-- **Refilling** from within the buffer: the position and the bits at hand stay. -/
theorem refillInput (h : Follows file start f b i) (raw : Nat → UInt8) :
    ∃ g b', f.refillInput raw i.inOffset = .ok g ∧ SameCodes f g ∧ g.blockType = f.blockType ∧
      Follows file start g b' { i with inOffset := 0 } := by
  obtain ⟨hhandle, hinc, hbuffer, hlength, hoffset, hfile, hmore, hdata, hsize, hbefore, hsmall,
    hholds⟩ := h
  obtain ⟨remainder, hremainder⟩ : ∃ r, b.length = i.inOffset + r := ⟨b.length - i.inOffset, by omega⟩
  have hrest : b.length - i.inOffset = remainder := by omega
  unfold Inflater.refillInput Inflater.getBytesRaw
  rw [hhandle, hbuffer]
  dsimp only [deref, ok_bind]
  rw [if_pos hoffset, hrest, Buffer.copy_ok (by dsimp only; omega) (by omega), ok_bind]
  dsimp only
  rw [Buffer.write_ok (by dsimp only; omega)]
  refine ⟨_, _, rfl, ⟨rfl, rfl, rfl, rfl⟩, rfl, rfl, hinc, rfl, hlength, Nat.zero_le _, ?_, ?_,
    ?_, hsize, ?_, hsmall, ?_⟩
  · show f.filePos + min i.inOffset (file.length - f.filePos) ≤
      start + (f.track.base + i.inOffset) + b.length
    omega
  · show f.filePos + min i.inOffset (file.length - f.filePos) =
      start + (f.track.base + i.inOffset) + b.length ∨
        file.length ≤ f.filePos + min i.inOffset (file.length - f.filePos)
    lia
  · intro k _ hk hin
    have hk : k < b.length := hk
    have hin : start + (f.track.base + i.inOffset) + k < file.length := hin
    show (if remainder ≤ k ∧ k < remainder + min i.inOffset (file.length - f.filePos)
      then file.byte (f.filePos + (k - remainder))
      else if 0 ≤ k ∧ k < 0 + remainder then b.data (i.inOffset + (k - 0)) else raw k) =
        file.byte (start + (f.track.base + i.inOffset) + k)
    by_cases hnew : remainder ≤ k
    · rw [if_pos (by lia)]
      congr 1
      omega
    · rw [if_neg (by lia), if_pos (by lia), hdata _ (by lia) (by lia) (by lia)]
      congr 1
      omega
  · show i.inDataSize ≤ 8 * (f.track.base + i.inOffset + 0)
    omega
  · intro hin
    have hin : start + (f.track.base + i.inOffset) + 0 ≤ file.length := hin
    exact hholds (by omega)

/-- **The check for input overflow**: behind it there is a byte in front of the margin. -/
theorem checkInput (h : Follows file start f b i) (raw : Nat → UInt8) :
    ∃ g b' i', f.checkInput raw i = .ok (g, i') ∧ SameCodes f g ∧ g.blockType = f.blockType ∧
      Follows file start g b' i' ∧ i'.inOffset < i'.inLength ∧ i' = { i with inOffset := i'.inOffset } := by
  unfold Inflater.checkInput
  split
  · obtain ⟨g, b', hrefill, hsame, hblock, hg⟩ := h.refillInput raw
    rw [hrefill]
    exact ⟨g, b', _, rfl, hsame, hblock, hg, h.inLength.1, rfl⟩
  · case isFalse hin =>
    exact ⟨f, b, i, rfl, SameCodes.refl f, rfl, h, Nat.not_le.1 hin, rfl⟩

end Follows

/-! ## The fields and the locals -/

namespace Inflater

/-- The locals that `LOAD_IN` sets when the buffer is `b`. -/
def input (f : Inflater) (b : Buffer UInt8) : In :=
  { inLength := b.length - 4, inOffset := f.inOffset, inDataSize := f.inDataSize, inData := f.inData }

theorem loadIn_eq {file : File} {start : Nat} {f : Inflater} {b : Buffer UInt8}
    (h : Follows file start f b (f.input b)) : f.loadIn = .ok (f.input b) := by
  obtain ⟨hpos, hlength, hfits⟩ := h.inLength
  have hsub : sub32 b.length EXTRA_INPUT_BYTES = b.length - 4 := by
    apply sub32_eq
    · show 4 ≤ b.length
      omega
    · exact hfits
  unfold loadIn
  rw [h.inBuffer, h.incremental, if_pos rfl]
  show (pure { inLength := sub32 b.length EXTRA_INPUT_BYTES
               inOffset := f.inOffset
               inDataSize := f.inDataSize
               inData := f.inData } : Except MemFault In) = _
  rw [hsub]
  rfl

theorem input_storeIn {f : Inflater} {b : Buffer UInt8} {i : In} (h : i.inLength + 4 = b.length) :
    (f.storeIn i).input b = i := by
  have hlength : b.length - 4 = i.inLength := by omega
  unfold input storeIn
  rw [hlength]

end Inflater

end FroggyKVM.Inflate
