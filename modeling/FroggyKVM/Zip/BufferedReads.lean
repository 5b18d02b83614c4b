/-
# FroggyKVM.Zip.BufferedReads — buffered reads are plain reads, but for lost seeks.

The position is spread over `file_pos`, `count` and `index`; as long as the buffer holds the bytes in
front of `file_pos`, a read gives what the file has from there on, wherever others have left its
handle.  **A seek from the current position is lost when the buffer is empty, and a seek to a
position before the file is taken for one.**
-/
import FroggyKVM.Lib.Lts
import FroggyKVM.Zip.BufferedFile

namespace FroggyKVM.Zip

/-! ## A plain file -/

namespace OsFile

/-- `n` bytes from a position on. -/
def bytesFrom (f : OsFile) (pos n : Nat) : List UInt8 := List.ofFn fun k : Fin n => f.byte (pos + k)

/-- How many of `num` bytes there are. -/
def available (f : OsFile) (num : Int) : Nat := min num.toNat (f.length - f.pos)

def advance (f : OsFile) (n : Nat) : OsFile := { f with pos := f.pos + n }

/-- The file after a read of up to `num` bytes, and the bytes. -/
def take (f : OsFile) (num : Int) : OsFile × List UInt8 :=
  (f.advance (f.available num), f.bytesFrom f.pos (f.available num))

@[simp] theorem bytesFrom_length (f : OsFile) (pos n : Nat) : (f.bytesFrom pos n).length = n :=
  List.length_ofFn

theorem bytesFrom_add (f : OsFile) (pos n m : Nat) :
    f.bytesFrom pos (n + m) = f.bytesFrom pos n ++ f.bytesFrom (pos + n) m := by
  unfold bytesFrom
  rw [List.ofFn_add]
  congr 2
  funext k
  show f.byte (pos + (n + k)) = f.byte (pos + n + k)
  rw [Nat.add_assoc]

theorem take_none {f : OsFile} {num : Int} (h : f.available num = 0) : f.take num = (f, []) := by
  unfold take
  rw [h]
  rfl

/-- A read in two parts. -/
theorem take_split {f : OsFile} {num : Int} {n : Nat} (hn : (n : Int) ≤ num)
    (hlen : f.pos + n ≤ max f.pos f.length) :
    f.take num = (((f.advance n).take (num - n)).1,
      f.bytesFrom f.pos n ++ ((f.advance n).take (num - n)).2) := by
  have havailable : f.available num = n + (f.advance n).available (num - n) := by
    unfold available advance
    dsimp only
    lia
  unfold take
  rw [havailable, bytesFrom_add]
  unfold advance
  rw [Nat.add_assoc]
  rfl

end OsFile

/-! ## What the buffer holds -/

/-- The buffer holds the bytes in front of `file_pos`, and the position is inside. -/
structure Inside (b : BufferedFile) (f : OsFile) : Prop where
  eof : b.atEof = false
  index : 0 ≤ b.index ∧ b.index ≤ b.count
  count : 0 < b.count ∧ b.count ≤ b.bufferSize
  filePos : b.count ≤ b.filePos ∧ b.filePos ≤ b.fileSize
  pos : (f.pos : Int) = b.lastUnreadFilePos
  data : ∀ k : Nat, (k : Int) < b.count →
    b.dataBuffer.data k = f.byte ((b.filePos - b.count).toNat + k)

/-- The buffer is empty; `file_pos` is the position, or both are behind the end. -/
structure Outside (b : BufferedFile) (f : OsFile) : Prop where
  index : b.index = 0
  count : b.count ≤ 0
  filePos : 0 ≤ b.filePos
  pos : (f.pos : Int) = b.filePos ∨ b.fileSize ≤ f.pos ∧ b.fileSize ≤ b.filePos
  eof : b.atEof = true → b.fileSize ≤ b.filePos
  more : b.atEof = false → b.count = 0

/-- The buffer belongs to the file. -/
structure Over (b : BufferedFile) (f : OsFile) : Prop where
  length : b.filePointer.length = f.length
  byte : b.filePointer.byte = f.byte
  size : b.fileSize = f.length
  buffer : b.bufferSize = b.dataBuffer.length
  room : 0 < b.bufferSize

/-- The file behind the buffer is `f`, at its position. -/
structure Rep (b : BufferedFile) (f : OsFile) : Prop extends Over b f where
  window : Inside b f ∨ Outside b f

variable {b : BufferedFile} {f : OsFile}

/-! ## Reading -/

/-- A read of the buffer, from inside. -/
theorem copyOut_ok (ho : Over b f) (hi : Inside b f) {num : Int} (hnum : 0 < num) :
    ∃ n : Nat, (n : Int) = min num (b.count - b.index) ∧
      b.copyOut num = .ok ({ b with index := b.index + n }, f.bytesFrom f.pos n) := by
  obtain ⟨heof, ⟨hlow, hhigh⟩, ⟨hpos, hroom⟩, ⟨hcount, hsize⟩, hlast, hdata⟩ := hi
  obtain ⟨n, hn⟩ : ∃ n : Nat, (n : Int) = min num (b.count - b.index) :=
    ⟨(min num (b.count - b.index)).toNat, Int.toNat_of_nonneg (by omega)⟩
  refine ⟨n, hn, ?_⟩
  have hread : (if num > b.count - b.index then b.count - b.index else num) = n := by
    split
    · omega
    · omega
  unfold BufferedFile.copyOut
  dsimp only
  rw [hread]
  by_cases hzero : (n : Int) = 0
  · obtain rfl : n = 0 := by omega
    have hindex : b.index + ((0 : Nat) : Int) = b.index := Int.add_zero _
    rw [if_pos hzero, hindex]
    rfl
  · have hslice : b.dataBuffer.slice b.index.toNat n = .ok (f.bytesFrom f.pos n) := by
      have hbuffer := ho.buffer
      rw [Buffer.slice_ok (by omega)]
      unfold OsFile.bytesFrom
      congr 2
      funext k
      have hk := k.isLt
      rw [hdata (b.index.toNat + k) (by omega)]
      unfold BufferedFile.lastUnreadFilePos at hlast
      congr 1
      omega
    rw [if_neg hzero, if_pos ⟨hlow, by omega⟩, Int.toNat_natCast, hslice, ok_bind]
    rfl

/-- What is read from inside leaves the position inside. -/
theorem Inside.advance (hi : Inside b f) {n : Nat} (hn : (n : Int) ≤ b.count - b.index) :
    Inside { b with index := b.index + n } (f.advance n) := by
  obtain ⟨heof, ⟨hlow, hhigh⟩, hcount, hfile, hlast, hdata⟩ := hi
  refine ⟨heof, ⟨?_, ?_⟩, hcount, hfile, ?_, hdata⟩
  · show 0 ≤ b.index + n
    omega
  · show b.index + n ≤ b.count
    omega
  · unfold BufferedFile.lastUnreadFilePos at hlast ⊢
    show ((f.pos + n : Nat) : Int) = b.filePos - (b.count - (b.index + n))
    omega

/-- Nothing in the buffer is left to read, and there may be more. -/
structure Spent (b : BufferedFile) (f : OsFile) : Prop where
  eof : b.atEof = false
  filePos : 0 ≤ b.filePos
  pos : (f.pos : Int) = b.filePos ∨ b.fileSize ≤ f.pos ∧ b.fileSize ≤ b.filePos

/-- The next read has bytes to copy, or it is at the end. -/
def Ready (b : BufferedFile) : Prop := b.atEof = true ∨ b.index < b.count

/-- A seek of the plain file to a position that there is. -/
theorem seek_target {target : Nat} {offset : Int} {origin : Origin}
    (h : (target : Int) = f.destination offset origin) :
    (f.seek offset origin).1 = { f with pos := target } := by
  unfold OsFile.seek
  rw [← h, if_neg (by omega), Int.toNat_natCast]

theorem seek_set {f : OsFile} {offset : Int} (h : 0 ≤ offset) :
    (f.seek offset .SEEK_SET).1 = { f with pos := offset.toNat } :=
  seek_target (Int.toNat_of_nonneg h)

/-- **Refilling**: the buffer gets the bytes from the position on, wherever the handle was, or the
position is at the end. -/
theorem refillBuffer_ok (fails : Bool) (ho : Over b f) (hs : Spent b f) :
    ∃ b', b.refillBuffer fails = .ok b' ∧ Rep b' f ∧ Ready b' := by
  obtain ⟨heof, hfile, hpos⟩ := hs
  obtain ⟨hlength, hbyte, hsize, hbuffer, hroom⟩ := ho
  have hread : ∀ n : Int, n = (if b.bufferSize > b.fileSize - b.filePos then
      b.fileSize - b.filePos else b.bufferSize) → n ≤ b.bufferSize ∧ n ≤ b.fileSize - b.filePos ∧
        (n = b.bufferSize ∨ n = b.fileSize - b.filePos) := by
    rintro n rfl
    split
    · exact ⟨by omega, by omega, .inr rfl⟩
    · exact ⟨by omega, by omega, .inl rfl⟩
  unfold BufferedFile.refillBuffer
  rw [if_neg (by rw [heof]; exact Bool.false_ne_true)]
  dsimp only
  rw [seek_set hfile]
  generalize hn : (if b.bufferSize > b.fileSize - b.filePos then
      b.fileSize - b.filePos else b.bufferSize) = n
  obtain ⟨hle, hrest, hwhich⟩ := hread n hn.symm
  unfold OsFile.read
  by_cases hneg : n < 0
  · -- behind the end
    rw [if_pos hneg, ok_bind]
    have hcount : (if fails then (-1 : Int) else 0) ≤ 0 ∧ -1 ≤ (if fails then (-1 : Int) else 0) := by
      split
      · decide
      · decide
    refine ⟨_, rfl, ⟨⟨hlength, hbyte, hsize, hbuffer, hroom⟩, .inr ?_⟩, .inl ?_⟩
    · refine ⟨rfl, hcount.1, ?_, .inr ⟨?_, ?_⟩, fun _ => ?_, ?_⟩
      · show 0 ≤ b.filePos + (if fails then (-1 : Int) else 0)
        lia
      · show b.fileSize ≤ f.pos
        omega
      · show b.fileSize ≤ b.filePos + (if fails then (-1 : Int) else 0)
        omega
      · show b.fileSize ≤ b.filePos + (if fails then (-1 : Int) else 0)
        lia
      · intro hmore
        simp [heof, hcount.1] at hmore
    · simp [heof, hcount.1]
  · obtain ⟨m, rfl⟩ : ∃ m : Nat, n = m := ⟨n.toNat, (Int.toNat_of_nonneg (by omega)).symm⟩
    have havail : min m (b.filePointer.length - b.filePos.toNat) = m := by omega
    rw [if_neg hneg]
    dsimp only
    rw [Int.toNat_natCast, havail, Buffer.write_ok (by omega), ok_bind, pure_eq_ok, ok_bind]
    by_cases hzero : m = 0
    · subst hzero
      refine ⟨_, rfl, ⟨⟨hlength, hbyte, hsize, hbuffer, hroom⟩, .inr ?_⟩, .inl ?_⟩
      · refine ⟨rfl, Int.le_refl 0, ?_, ?_, fun _ => ?_, fun _ => rfl⟩
        · show 0 ≤ b.filePos + ((0 : Nat) : Int)
          omega
        · show (f.pos : Int) = b.filePos + ((0 : Nat) : Int) ∨
            b.fileSize ≤ f.pos ∧ b.fileSize ≤ b.filePos + ((0 : Nat) : Int)
          lia
        · show b.fileSize ≤ b.filePos + ((0 : Nat) : Int)
          lia
      · show (b.atEof || decide (((0 : Nat) : Int) ≤ 0)) = true
        simp
    · refine ⟨_, rfl, ⟨⟨hlength, hbyte, hsize, hbuffer, hroom⟩, .inl ?_⟩, .inr ?_⟩
      · refine ⟨?_, ⟨Int.le_refl 0, Int.natCast_nonneg m⟩, ⟨?_, hle⟩, ⟨?_, ?_⟩, ?_, ?_⟩
        · show (b.atEof || decide ((m : Int) ≤ 0)) = false
          rw [heof, Bool.false_or, decide_eq_false_iff_not]
          omega
        · show 0 < (m : Int)
          omega
        · show (m : Int) ≤ b.filePos + m
          omega
        · show b.filePos + m ≤ b.fileSize
          omega
        · show (f.pos : Int) = b.filePos + m - (m - 0)
          lia
        · intro k hk
          have hk : (k : Int) < m := hk
          show (if 0 ≤ k ∧ k < 0 + m then b.filePointer.byte (b.filePos.toNat + (k - 0)) else _) =
            f.byte ((b.filePos + m - m).toNat + k)
          rw [if_pos (by lia), hbyte, Nat.sub_zero, Int.add_sub_cancel]
      · show (0 : Int) < m
        omega

theorem Inside.spent (hi : Inside b f) (h : b.index = b.count) : Spent b f := by
  have hpos := hi.pos
  unfold BufferedFile.lastUnreadFilePos at hpos
  refine ⟨hi.eof, ?_, .inl (by omega)⟩
  have hcount := hi.count
  have hfile := hi.filePos
  omega

theorem Outside.spent (ho : Outside b f) (heof : b.atEof = false) : Spent b f :=
  ⟨heof, ho.filePos, ho.pos⟩

/-- At the end there is nothing to read. -/
theorem Rep.available_eof (h : Rep b f) (heof : b.atEof = true) (num : Int) :
    f.available num = 0 := by
  have hsize := h.size
  unfold OsFile.available
  rcases h.window with hi | ho
  · rw [hi.eof] at heof
    cases heof
  · have hend := ho.eof heof
    have hpos := ho.pos
    lia

/-- A round that copies `n` bytes, with the buffer spent and refilled if more are wanted. -/
theorem copyOut_spent (h : Rep b f) (heof : b.atEof = false) {num : Int} (hnum : 0 < num) :
    ∃ (n : Nat) (b₁ : BufferedFile), (n : Int) ≤ num ∧ f.pos + n ≤ max f.pos f.length ∧
      b.copyOut num = .ok (b₁, f.bytesFrom f.pos n) ∧ Rep b₁ (f.advance n) ∧
      (b.index < b.count → 0 < n) ∧ ((n : Int) < num → Spent b₁ (f.advance n)) := by
  rcases h.window with hi | ho
  · obtain ⟨n, hn, hcopy⟩ := copyOut_ok h.toOver hi hnum
    have hadvance := @Inside.advance b f hi n (by omega)
    have hsize := h.size
    have hindex := hi.index
    have hfile := hi.filePos
    have hpos := hi.pos
    unfold BufferedFile.lastUnreadFilePos at hpos
    refine ⟨n, _, by omega, by omega, hcopy, ⟨?_, .inl hadvance⟩, fun _ => by omega, fun hlt => ?_⟩
    · exact ⟨h.length, h.byte, h.size, h.buffer, h.room⟩
    · apply hadvance.spent
      show b.index + n = b.count
      omega
  · have hcount := ho.more heof
    have hindex := ho.index
    refine ⟨0, b, by omega, by omega, ?_, ?_, fun _ => by omega, fun _ => ?_⟩
    · unfold BufferedFile.copyOut
      dsimp only
      rw [hcount, hindex, if_pos (show num > 0 - 0 by omega)]
      rfl
    · exact h
    · exact ho.spent heof

/-- **The loop reads what the file has from the position on.** -/
theorem getLoop_ok (fails : Bool) {fuel : Nat} {num : Int} (h : Rep b f) (hfuel : num.toNat < fuel)
    (hready : 0 < num → ¬ Ready b → num.toNat + 1 < fuel) (totalRead : Int) (buffer : List UInt8) :
    ∃ b', b.getLoop fails fuel num totalRead buffer =
        .ok (b', totalRead + (f.take num).2.length, buffer ++ (f.take num).2) ∧
      Rep b' (f.take num).1 := by
  induction fuel generalizing b f num totalRead buffer with
  | zero => omega
  | succ fuel ih =>
    unfold BufferedFile.getLoop
    by_cases hgo : b.atEof = false ∧ num > 0
    · obtain ⟨heof, hnum⟩ := hgo
      obtain ⟨n, b₁, hn, hinside, hcopy, hrep₁, hpos, hspent⟩ := copyOut_spent h heof hnum
      rw [if_pos ⟨heof, hnum⟩, hcopy, ok_bind]
      dsimp only
      rw [OsFile.bytesFrom_length]
      have hsplit := OsFile.take_split hn hinside
      have hresult : ∀ xs : List UInt8, totalRead + n + xs.length =
          totalRead + ((f.bytesFrom f.pos n ++ xs).length : Nat) := by
        intro xs
        rw [List.length_append, OsFile.bytesFrom_length]
        omega
      rw [hsplit]
      dsimp only
      rw [← hresult, ← List.append_assoc]
      by_cases hmore : num - n > 0
      · obtain ⟨b₂, hrefill, hrep₂, hready₂⟩ :=
          refillBuffer_ok fails hrep₁.toOver (hspent (by omega))
        have hleft : (num - n).toNat < fuel := by
          by_cases hzero : n = 0
          · have hno : ¬ Ready b := by
              rintro (hend | hlt)
              · rw [heof] at hend
                cases hend
              · exact absurd (hpos hlt) (by omega)
            have := hready hnum hno
            lia
          · omega
        rw [if_pos hmore, hrefill, ok_bind]
        exact ih hrep₂ hleft (fun _ hno => absurd hready₂ hno) _ _
      · rw [if_neg hmore, ok_bind]
        exact ih hrep₁ (by lia) (fun hlt => absurd hlt hmore) _ _
    · have hnone : f.available num = 0 := by
        by_cases heof : b.atEof = true
        · exact h.available_eof heof num
        · have hle : num ≤ 0 := by
            rw [Bool.not_eq_true] at heof
            by_contra hlt
            exact hgo ⟨heof, by omega⟩
          unfold OsFile.available
          omega
      rw [if_neg hgo, OsFile.take_none hnone]
      exact ⟨b, by rw [List.length_nil, List.append_nil, Int.natCast_zero, Int.add_zero], h⟩

/-- **A buffered read is a plain read.** -/
theorem getBytes_ok (fails : Bool) (h : Rep b f) (num : Int) :
    ∃ b', b.getBytes fails num = .ok (b', (f.take num).2.length, (f.take num).2) ∧
      Rep b' (f.take num).1 := by
  obtain ⟨b', hloop, hrep⟩ := @getLoop_ok b f fails (num.toNat + 2) num h (by omega)
    (fun _ _ => by omega) 0 []
  refine ⟨b', ?_, hrep⟩
  rw [Int.zero_add, List.nil_append] at hloop
  exact hloop

/-! ## Seeking -/

/-- The position that a seek asks for. -/
def BufferedFile.target (b : BufferedFile) (offset : Int) : Origin → Int
  | .SEEK_SET => offset
  | .SEEK_CUR => b.lastUnreadFilePos + offset
  | .SEEK_END => b.fileSize + offset

/-- A seek that is not lost: to a position that is not negative and fits, and not from the current
position when the buffer is empty, unless it goes nowhere. -/
structure Kept (b : BufferedFile) (offset : Int) (origin : Origin) : Prop where
  target : 0 ≤ b.target offset origin ∧ b.target offset origin < 2147483648
  current : origin = .SEEK_CUR → 0 < b.count ∨ offset = 0

theorem seek_length (f : OsFile) (offset : Int) (origin : Origin) :
    (f.seek offset origin).1.length = f.length ∧ (f.seek offset origin).1.byte = f.byte := by
  unfold OsFile.seek
  split
  · exact ⟨rfl, rfl⟩
  · exact ⟨rfl, rfl⟩

/-- **Out of the buffer**: it is empty, and `file_pos` is the position. -/
theorem flush_rep (ho : Over b f) (hfile : 0 ≤ b.filePos) {pos : Nat}
    (hpos : (pos : Int) = b.filePos ∨ b.fileSize ≤ pos ∧ b.fileSize ≤ b.filePos) (offset : Int)
    (origin : Origin) : Rep (b.flush offset origin).1 { f with pos := pos } := by
  obtain ⟨hlength, hbyte⟩ := seek_length b.filePointer offset origin
  refine ⟨⟨hlength.trans ho.length, hbyte.trans ho.byte, ho.size, ho.buffer, ho.room⟩, .inr ?_⟩
  refine ⟨rfl, Int.le_refl 0, hfile, hpos, ?_, fun _ => rfl⟩
  intro heof
  have hend : (b.atEof && !decide (b.filePos < b.fileSize)) = true := heof
  rw [Bool.and_eq_true, Bool.not_eq_true', decide_eq_false_iff_not] at hend
  exact Int.not_lt.1 hend.2

/-- **In the buffer**: only the index moves. -/
theorem Inside.move (hi : Inside b f) {i : Int} (hlow : 0 ≤ i) (hhigh : i ≤ b.count) {pos : Nat}
    (hpos : (pos : Int) = b.filePos - (b.count - i)) :
    Inside { b with index := i } { f with pos := pos } :=
  ⟨hi.eof, ⟨hlow, hhigh⟩, hi.count, hi.filePos, hpos, hi.data⟩

theorem Rep.seekCurrent (h : Rep b f) (hlen : f.length < 2147483648) {offset : Int}
    (hk : Kept b offset .SEEK_CUR) :
    Rep (b.seek offset .SEEK_CUR).1 (f.seek offset .SEEK_CUR).1 := by
  obtain ⟨⟨hnonneg, hfits⟩, hcurrent⟩ := hk
  have hsize := h.size
  unfold BufferedFile.target BufferedFile.lastUnreadFilePos at hnonneg hfits
  dsimp only at hnonneg hfits
  rcases h.window with hi | ho
  · obtain ⟨heof, ⟨hlow, hhigh⟩, ⟨hcount, hroom⟩, ⟨hfile, hfile'⟩, hpos, hdata⟩ := hi
    unfold BufferedFile.lastUnreadFilePos at hpos
    obtain ⟨pos, hto⟩ : ∃ pos : Nat, (pos : Int) = f.pos + offset :=
      ⟨(f.pos + offset).toNat, Int.toNat_of_nonneg (by omega)⟩
    have hsum : i32 (offset + b.index) = offset + b.index := i32_of_range (by omega)
    have hsum' : i32 (b.index + offset) = b.index + offset := i32_of_range (by omega)
    have hrest : i32 (offset - (b.count - b.index)) = offset - (b.count - b.index) :=
      i32_of_range (by lia)
    have hnew : i32 (b.filePos + (offset - (b.count - b.index))) =
        b.filePos + (offset - (b.count - b.index)) := i32_of_range (by omega)
    rw [seek_target hto]
    unfold BufferedFile.seek
    dsimp only
    rw [if_pos hcount, hsum, hsum', hrest, hnew]
    split
    case isTrue hbuffer =>
      refine ⟨⟨h.length, h.byte, h.size, h.buffer, h.room⟩, .inl ?_⟩
      exact Inside.move ⟨heof, ⟨hlow, hhigh⟩, ⟨hcount, hroom⟩, ⟨hfile, hfile'⟩, hpos, hdata⟩
        (by lia) (by lia) (by lia)
    case isFalse =>
      refine @flush_rep { b with filePos := b.filePos + (offset - (b.count - b.index)) } f
        ⟨h.length, h.byte, h.size, h.buffer, h.room⟩ ?_ pos (.inl ?_) _ _
      · show 0 ≤ b.filePos + (offset - (b.count - b.index))
        lia
      · show (pos : Int) = b.filePos + (offset - (b.count - b.index))
        omega
  · have hcount := ho.count
    have hstay : offset = 0 := by
      rcases hcurrent rfl with hpos | hzero
      · omega
      · exact hzero
    subst hstay
    rw [@seek_target f f.pos 0 .SEEK_CUR (Int.add_zero _).symm]
    unfold BufferedFile.seek
    dsimp only
    rw [if_neg (by omega)]
    exact flush_rep h.toOver ho.filePos ho.pos _ _

theorem Rep.seekSet (h : Rep b f) {offset : Int} (hk : 0 ≤ offset) :
    Rep (b.seek offset .SEEK_SET).1 (f.seek offset .SEEK_SET).1 := by
  obtain ⟨pos, rfl⟩ : ∃ pos : Nat, offset = pos := ⟨offset.toNat, (Int.toNat_of_nonneg hk).symm⟩
  rw [@seek_target f pos pos .SEEK_SET rfl]
  unfold BufferedFile.seek
  dsimp only
  split
  case isTrue hbuffer =>
    rcases h.window with hi | ho
    · refine ⟨⟨h.length, h.byte, h.size, h.buffer, h.room⟩, .inl ?_⟩
      exact hi.move (by omega) (by omega) (by omega)
    · have hcount := ho.count
      omega
  case isFalse =>
    exact @flush_rep { b with filePos := pos } f ⟨h.length, h.byte, h.size, h.buffer, h.room⟩
      (Int.natCast_nonneg pos) pos (.inl rfl) _ _

theorem Rep.seekEnd (h : Rep b f) (hlen : f.length < 2147483648) {offset : Int} (hend : offset ≤ 0)
    (hk : 0 ≤ b.fileSize + offset) :
    Rep (b.seek offset .SEEK_END).1 (f.seek offset .SEEK_END).1 := by
  have hsize := h.size
  obtain ⟨pos, hpos⟩ : ∃ pos : Nat, (pos : Int) = f.length + offset :=
    ⟨(f.length + offset).toNat, Int.toNat_of_nonneg (by omega)⟩
  have hnew : i32 (b.fileSize + offset) = b.fileSize + offset := i32_of_range (by omega)
  rw [@seek_target f pos offset .SEEK_END hpos]
  unfold BufferedFile.seek
  dsimp only
  rw [hnew]
  split
  case isTrue hbuffer =>
    rcases h.window with hi | ho
    · have hfile := hi.filePos
      refine ⟨⟨h.length, h.byte, h.size, h.buffer, h.room⟩, .inl ?_⟩
      exact hi.move (by omega) (by omega) (by omega)
    · have hcount := ho.count
      omega
  case isFalse =>
    refine @flush_rep { b with filePos := b.fileSize + offset } f
      ⟨h.length, h.byte, h.size, h.buffer, h.room⟩ hk pos (.inl ?_) _ _
    show (pos : Int) = b.fileSize + offset
    omega

/-! ## Runs -/

/-- What is done with a file, and what a read gives. -/
inductive Event where
  | seek (offset : Int) (origin : Origin)
  | getBytes (num result : Int) (bytes : List UInt8)
  /-- Others move the handle. -/
  | others (pos : Nat)

/-- The buffered file; seeks from the start are to positions within it, and those from the end do
not go behind it. -/
def BufferedFile.Step (fails : Bool) (b : BufferedFile) : Event → BufferedFile → Prop
  | .seek offset origin, b' =>
    (origin = .SEEK_SET → 0 ≤ offset ∧ offset ≤ b.fileSize) ∧ (origin = .SEEK_END → offset ≤ 0) ∧
      (b.seek offset origin).1 = b'
  | .getBytes num result bytes, b' => b.getBytes fails num = .ok (b', result, bytes)
  | .others pos, b' => { b with filePointer := { b.filePointer with pos := pos } } = b'

/-- The plain file, whose position is its own. -/
def OsFile.Step (f : OsFile) : Event → OsFile → Prop
  | .seek offset origin, f' => (f.seek offset origin).1 = f'
  | .getBytes num result bytes, f' => f.take num = (f', bytes) ∧ result = bytes.length
  | .others _, f' => f = f'

/-- Seeks are not lost. -/
def Meets (b : BufferedFile) : Event → Prop
  | .seek offset origin => Kept b offset origin
  | _ => True

theorem Rep.others (h : Rep b f) (pos : Nat) :
    Rep { b with filePointer := { b.filePointer with pos := pos } } f := by
  refine ⟨⟨h.length, h.byte, h.size, h.buffer, h.room⟩, ?_⟩
  rcases h.window with hi | ho
  · exact .inl ⟨hi.eof, hi.index, hi.count, hi.filePos, hi.pos, hi.data⟩
  · exact .inr ⟨ho.index, ho.count, ho.filePos, ho.pos, ho.eof, ho.more⟩

/-- The relation between the two files, for sizes that fit. -/
def Same (b : BufferedFile) (f : OsFile) : Prop := Rep b f ∧ f.length < 2147483648

theorem opened_same {f : OsFile} (hlen : f.length < 2147483648) (raw : Nat → UInt8) :
    Same (.opened f raw) { f with pos := 0 } := by
  refine ⟨⟨⟨rfl, rfl, rfl, rfl, Int.natCast_pos.2 (Nat.zero_lt_succ 4095)⟩, .inr ?_⟩, hlen⟩
  exact ⟨rfl, Int.le_refl 0, Int.le_refl 0, .inl rfl, nofun, fun _ => rfl⟩

/-- **One step**: the plain file does the same. -/
theorem Same.step {fails : Bool} {e : Event} {b' : BufferedFile} (h : Same b f)
    (hstep : Lts.Guarded (BufferedFile.Step fails) Meets b e b') :
    ∃ f', f.Step e f' ∧ Same b' f' := by
  obtain ⟨hrep, hlen⟩ := h
  obtain ⟨hmeets, hstep⟩ := hstep
  cases e with
  | seek offset origin =>
    obtain ⟨hset, hend, rfl⟩ := hstep
    have hlen' : (f.seek offset origin).1.length < 2147483648 := by
      rw [(seek_length f offset origin).1]
      exact hlen
    refine ⟨_, rfl, ?_, hlen'⟩
    cases origin with
    | SEEK_SET => exact hrep.seekSet (hset rfl).1
    | SEEK_CUR => exact hrep.seekCurrent hlen hmeets
    | SEEK_END => exact hrep.seekEnd hlen (hend rfl) hmeets.target.1
  | getBytes num result bytes =>
    obtain ⟨b₁, hget, hrep₁⟩ := getBytes_ok fails hrep num
    obtain ⟨rfl, hrest⟩ := Prod.mk.inj (Except.ok.inj (hget.symm.trans hstep))
    obtain ⟨rfl, rfl⟩ := Prod.mk.inj hrest
    exact ⟨_, ⟨rfl, rfl⟩, hrep₁, hlen⟩
  | others pos =>
    obtain rfl := hstep
    exact ⟨f, rfl, hrep.others pos, hlen⟩

/-- **Buffered reads are plain reads** in every run without a lost seek, and no read fails. -/
theorem buffered_reads {fails : Bool} {f : OsFile} (hlen : f.length < 2147483648)
    {raw : Nat → UInt8} {es : List Event} {b : BufferedFile}
    (hrun : Lts.Run (Lts.Guarded (BufferedFile.Step fails) Meets) (.opened f raw) es b) :
    (∃ f', Lts.Run OsFile.Step { f with pos := 0 } es f') ∧
      ∀ num, ∃ b' result bytes, b.Step fails (.getBytes num result bytes) b' := by
  have hsim : ∀ b f e b', Same b f → Lts.Guarded (BufferedFile.Step fails) Meets b e b' →
      ∃ f', OsFile.Step f e f' ∧ Same b' f' := fun _ _ _ _ h hstep => h.step hstep
  obtain ⟨f', hrun', hrep, -⟩ := hrun.simulation hsim (opened_same hlen raw)
  refine ⟨⟨f', hrun'⟩, fun num => ?_⟩
  obtain ⟨b', hget, -⟩ := getBytes_ok fails hrep num
  exact ⟨b', _, _, hget⟩

/-! ## A lost seek -/

/-- A file whose bytes count. -/
def countingFile : OsFile := { length := 10, byte := fun k => UInt8.ofNat k, pos := 0 }

/-- **A seek by 5 in a file that has just been opened is lost**: the next byte read is the first. -/
theorem lost_seek : ∃ b, Lts.Run (BufferedFile.Step true) (.opened countingFile fun _ => 0)
    [.seek 5 .SEEK_CUR, .getBytes 1 1 [0]] b ∧
    ¬ ∃ f, Lts.Run OsFile.Step countingFile [.seek 5 .SEEK_CUR, .getBytes 1 1 [0]] f := by
  refine ⟨_, .cons ⟨nofun, nofun, rfl⟩ (.cons rfl (.nil _)), ?_⟩
  rintro ⟨f, hrun⟩
  cases hrun with
  | cons hseek hrest =>
    cases hrest with
    | cons hread _ =>
      obtain rfl := hseek
      have hbytes := (Prod.mk.inj hread.1).2
      exact absurd hbytes (by decide)

/-- A read, a seek within the buffer, and another read. -/
theorem buffered_reads_counting : ∃ b,
    Lts.Run (Lts.Guarded (BufferedFile.Step true) Meets) (.opened countingFile fun _ => 0)
      [.getBytes 2 2 [0, 1], .others 7, .seek 3 .SEEK_CUR, .getBytes 9 5 [5, 6, 7, 8, 9]] b ∧
    ((∃ f', Lts.Run OsFile.Step { countingFile with pos := 0 }
      [.getBytes 2 2 [0, 1], .others 7, .seek 3 .SEEK_CUR, .getBytes 9 5 [5, 6, 7, 8, 9]] f') ∧
      ∀ num, ∃ b' result bytes, b.Step true (.getBytes num result bytes) b') := by
  have hrun : Lts.Run (Lts.Guarded (BufferedFile.Step true) Meets) (.opened countingFile fun _ => 0)
      [.getBytes 2 2 [0, 1], .others 7, .seek 3 .SEEK_CUR, .getBytes 9 5 [5, 6, 7, 8, 9]] _ :=
    .cons ⟨trivial, rfl⟩ (.cons ⟨trivial, rfl⟩
      (.cons ⟨⟨by decide, fun _ => .inl (by decide)⟩, nofun, nofun, rfl⟩
        (.cons ⟨trivial, rfl⟩ (.nil _))))
  exact ⟨_, hrun, buffered_reads (by decide) hrun⟩

end FroggyKVM.Zip
