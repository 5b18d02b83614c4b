/-
# FroggyKVM.Zip.EndFound — when the backward search for the end header is exact.

A byte of the signature rules out all the places up to the one it would belong to, so no header is
missed (`no_end_between`).  A window holds what the pointer can still need (`Shows`).  **The search
finds the last header unless a window starts less than a step above the smallest offset**: then the
window is moved by less than the pointer has left it, and the byte in front of it is read.
-/
import FroggyKVM.Zip.BufferedReads
import FroggyKVM.Zip.EndSearch

namespace FroggyKVM.Zip

/-! ## End headers of a file -/

namespace OsFile

def shAt (f : OsFile) (p : Nat) : Nat := (f.byte p).toNat + 256 * (f.byte (p + 1)).toNat

def lgAt (f : OsFile) (p : Nat) : Nat := f.shAt p + 65536 * f.shAt (p + 2)

/-- The four bytes of a signature. -/
def signatureAt (f : OsFile) (p b₂ b₃ : Nat) : Prop :=
  (f.byte p).toNat = 80 ∧ (f.byte (p + 1)).toNat = 75 ∧ (f.byte (p + 2)).toNat = b₂ ∧
    (f.byte (p + 3)).toNat = b₃

instance (f : OsFile) (p b₂ b₃ : Nat) : Decidable (f.signatureAt p b₂ b₃) :=
  inferInstanceAs (Decidable (_ ∧ _ ∧ _ ∧ _))

/-- An end header: the signature, and a comment that reaches to the end of the file. -/
def IsEnd (f : OsFile) (p : Nat) : Prop :=
  f.signatureAt p 5 6 ∧ p + ENDHDRSIZ + f.shAt (p + 20) = f.length

instance (f : OsFile) (p : Nat) : Decidable (f.IsEnd p) := inferInstanceAs (Decidable (_ ∧ _))

/-- The smallest offset of an end header that is looked for. -/
def firstEnd (f : OsFile) : Nat := max 76 (f.length - 65557)

/-- How far a byte of the file makes the search go back. -/
def step (f : OsFile) (q : Nat) : Nat := EndScan.skip (f.byte q).toNat

/-- A local header at an offset that is not negative as a signed number. -/
def hasLocalHeader (f : OsFile) (p : Nat) : Bool :=
  decide (p < 2147483648 ∧ p + 4 ≤ f.length ∧ f.signatureAt p 3 4)

theorem step_bounds (f : OsFile) (q : Nat) : 1 ≤ f.step q ∧ f.step q ≤ 4 := by
  unfold step EndScan.skip
  split
  · decide
  · split
    · decide
    · split
      · decide
      · decide

/-- **No header is missed**: none begins at a byte that is passed over. -/
theorem no_end_between {f : OsFile} {p q : Nat} (hq : ¬ f.IsEnd q) (hp : q < p + f.step q)
    (hle : p ≤ q) : ¬ f.IsEnd p := by
  intro hend
  have hend' := hend
  obtain ⟨⟨h₀, h₁, h₂, h₃⟩, -⟩ := hend'
  obtain ⟨d, rfl⟩ : ∃ d, q = p + d := ⟨q - p, by omega⟩
  unfold step EndScan.skip at hp
  -- the byte under the pointer is the one at place `d` of the signature
  obtain rfl | rfl | rfl | rfl | hd : d = 0 ∨ d = 1 ∨ d = 2 ∨ d = 3 ∨ 4 ≤ d := by omega
  · exact hq hend
  · rw [h₁] at hp
    simp at hp
  · rw [h₂] at hp
    simp at hp
  · rw [h₃] at hp
    simp at hp
  · split at hp
    · omega
    · split at hp
      · omega
      · split at hp
        · omega
        · omega

theorem IsEnd.le {f : OsFile} {p : Nat} (h : f.IsEnd p) : p + 22 ≤ f.length := by
  have hlen := h.2
  unfold ENDHDRSIZ at hlen
  omega

end OsFile

theorem minOffset_eq (f : OsFile) : EndScan.minOffset f.length = f.firstEnd := by
  unfold EndScan.minOffset OsFile.firstEnd LOCHDRSIZ CENHDRSIZ ENDHDRSIZ
  split
  · omega
  · omega

/-! ## Readers -/

/-- What a read at a position leaves in a buffer. -/
def filled (f : OsFile) (buffer : Buffer UInt8) (pos n : Nat) : Buffer UInt8 :=
  { buffer with data := fun k => if k < n then f.byte (pos + k) else buffer.data k }

theorem write_filled (f : OsFile) {buffer : Buffer UInt8} {pos n : Nat} (h : n ≤ buffer.length)
    {g : Nat → UInt8} (hg : ∀ k, k < n → g k = f.byte (pos + k)) :
    buffer.write 0 n g = .ok (filled f buffer pos n) := by
  rw [Buffer.write_ok (by omega)]
  unfold filled
  congr 2
  funext k
  by_cases hk : k < n
  · rw [if_pos (by omega), if_pos hk, Nat.sub_zero, hg k hk]
  · rw [if_neg (by omega), if_neg hk]

/-- Not from the current position, and not behind the end. -/
def FromEnds (offset : Int) (origin : Origin) : Prop :=
  origin = .SEEK_SET ∨ origin = .SEEK_END ∧ offset ≤ 0

theorem FromEnds.destination {offset : Int} {origin : Origin} (h : FromEnds offset origin)
    (f : OsFile) (pos : Nat) :
    ({ f with pos := pos } : OsFile).destination offset origin = f.destination offset origin := by
  rcases h with rfl | ⟨rfl, -⟩
  · rfl
  · rfl

/-- The reader reads the file `f`; `At x pos` when the position is `pos`. -/
structure Reads {F : Type} (r : FileReader F) (f : OsFile) (At : F → Nat → Prop) : Prop where
  size : ∀ {x pos}, At x pos → r.size x = f.length
  seek : ∀ {x pos}, At x pos → ∀ {offset origin}, FromEnds offset origin → ∀ {goal : Nat},
    f.destination offset origin = goal →
      0 ≤ (r.seek x offset origin).2 ∧ At (r.seek x offset origin).1 goal
  refused : ∀ {x pos}, At x pos → ∀ {offset origin}, FromEnds offset origin →
    f.destination offset origin < 0 → (r.seek x offset origin).2 < 0
  read : ∀ {x pos}, At x pos → ∀ {buffer : Buffer UInt8} {n : Nat}, n ≤ buffer.length →
    ∃ x', r.read x buffer n = .ok (x', filled f buffer pos (min n (f.length - pos)),
      (min n (f.length - pos) : Nat)) ∧ At x' (pos + min n (f.length - pos))

section Fetch
variable {F : Type} {r : FileReader F} {f : OsFile} {At : F → Nat → Prop} {x : F} {pos n : Nat}
  {buffer : Buffer UInt8} {offset : Int} {origin : Origin}

/-- What there is, is read. -/
theorem Reads.fetch_some (hr : Reads r f At) (hx : At x pos) (hfrom : FromEnds offset origin) {goal : Nat}
    (hgoal : f.destination offset origin = goal) (hlen : goal + n ≤ f.length) (hroom : n ≤ buffer.length) :
    ∃ x', r.fetch x buffer offset origin n = .ok (some (x', filled f buffer goal n)) ∧
      At x' (goal + n) := by
  obtain ⟨hresult, hat⟩ := hr.seek hx hfrom hgoal
  obtain ⟨x', hread, hat'⟩ := hr.read hat hroom
  have havail : min n (f.length - goal) = n := by omega
  rw [havail] at hread hat'
  refine ⟨x', ?_, hat'⟩
  unfold FileReader.fetch
  dsimp only
  rw [if_neg (Int.not_lt.2 hresult), hread, ok_bind]
  dsimp only
  rw [if_pos rfl]
  rfl

/-- What is not there whole, is not. -/
theorem Reads.fetch_none (hr : Reads r f At) (hx : At x pos) (hfrom : FromEnds offset origin)
    (hout : f.destination offset origin < 0 ∨ (f.length : Int) < f.destination offset origin + n)
    (hn : 0 < n) (hroom : n ≤ buffer.length) : r.fetch x buffer offset origin n = .ok none := by
  unfold FileReader.fetch
  dsimp only
  by_cases hneg : f.destination offset origin < 0
  · rw [if_pos (hr.refused hx hfrom hneg)]
  · obtain ⟨goal, hgoal⟩ := Int.eq_ofNat_of_zero_le (Int.not_lt.1 hneg)
    obtain ⟨hresult, hat⟩ := hr.seek hx hfrom hgoal
    obtain ⟨x', hread, -⟩ := hr.read hat hroom
    rw [if_neg (Int.not_lt.2 hresult), hread, ok_bind]
    dsimp only
    rw [if_neg (by omega)]
    rfl

end Fetch

/-- `getJarInfo` reads the file itself. -/
theorem OsFile.reader_reads (f : OsFile) :
    Reads OsFile.reader f fun x pos => x = { f with pos := pos } := by
  refine ⟨?_, ?_, ?_, ?_⟩
  · rintro x pos rfl
    rfl
  · rintro x pos rfl offset origin hfrom goal hgoal
    unfold OsFile.reader OsFile.seek
    dsimp only
    rw [hfrom.destination, hgoal, if_neg (by omega), Int.toNat_natCast]
    exact ⟨Int.natCast_nonneg goal, rfl⟩
  · rintro x pos rfl offset origin hfrom hneg
    unfold OsFile.reader OsFile.seek
    dsimp only
    rw [hfrom.destination, if_pos hneg]
    exact Int.negSucc_lt_zero 0
  · rintro x pos rfl buffer n hroom
    refine ⟨_, ?_, rfl⟩
    unfold OsFile.reader OsFile.read
    dsimp only
    rw [if_neg (by omega), Int.toNat_natCast, write_filled f (by omega) fun _ _ => rfl, ok_bind]
    rfl

/-! ## Reading through a buffer -/

theorem flush_result (b : BufferedFile) (offset : Int) (origin : Origin) :
    (b.flush offset origin).2 = (b.filePointer.seek offset origin).2 := rfl

/-- The result of a buffered seek is negative when the position is. -/
theorem Rep.seek_result {b : BufferedFile} {f : OsFile} (h : Rep b f) {offset : Int} {origin : Origin}
    (hfrom : FromEnds offset origin) :
    (b.seek offset origin).2 < 0 ↔ f.destination offset origin < 0 := by
  have hflush : ∀ b₁ : BufferedFile, b₁.filePointer = b.filePointer →
      ((b₁.flush offset origin).2 < 0 ↔ f.destination offset origin < 0) := by
    intro b₁ hsame
    have hdest : b.filePointer.destination offset origin = f.destination offset origin := by
      rcases hfrom with rfl | ⟨rfl, -⟩
      · rfl
      · show (b.filePointer.length : Int) + offset = f.length + offset
        rw [h.length]
    rw [flush_result, hsame, ← hdest]
    unfold OsFile.seek
    split
    case isTrue hneg => exact iff_of_true (Int.negSucc_lt_zero 0) hneg
    case isFalse hneg => exact iff_of_false hneg hneg
  have hsize := h.size
  rcases hfrom with rfl | ⟨rfl, hend⟩
  · unfold BufferedFile.seek
    dsimp only
    split
    case isTrue hbuffer =>
      have hwindow : b.count ≤ b.filePos := by
        rcases h.window with hi | ho
        · exact hi.filePos.1
        · have hcount := ho.count
          omega
      exact iff_of_false (Int.lt_irrefl 0) (by show ¬ offset < 0; omega)
    case isFalse => exact hflush _ rfl
  · unfold BufferedFile.seek
    dsimp only
    split
    case isTrue hbuffer =>
      exact iff_of_false (Int.lt_irrefl 0) (by show ¬ (f.length : Int) + offset < 0; omega)
    case isFalse => exact hflush _ rfl

/-- `find_end_of_central_header` reads it through a buffer. -/
theorem BufferedFile.reader_reads (fails : Bool) {f : OsFile} (hlen : f.length < 2147483648) :
    Reads (BufferedFile.reader fails) f fun b pos => Rep b { f with pos := pos } := by
  refine ⟨fun h => h.size, ?_, ?_, ?_⟩
  · intro b pos h offset origin hfrom goal hgoal
    have hresult := h.seek_result hfrom
    rw [hfrom.destination, hgoal] at hresult
    refine ⟨Int.not_lt.1 fun hneg => absurd (hresult.1 hneg) (by omega), ?_⟩
    have hsize := h.size
    rcases hfrom with rfl | ⟨rfl, hend⟩
    · have hgoal' : offset = goal := hgoal
      have hseek := @Rep.seekSet _ _ h offset (by omega)
      rw [@seek_target { f with pos := pos } goal offset .SEEK_SET hgoal'.symm] at hseek
      exact hseek
    · have hgoal' : (f.length : Int) + offset = goal := hgoal
      have hseek := h.seekEnd hlen hend (by rw [hsize]; show 0 ≤ (f.length : Int) + offset; omega)
      rw [@seek_target { f with pos := pos } goal offset .SEEK_END hgoal'.symm] at hseek
      exact hseek
  · intro b pos h offset origin hfrom hneg
    apply (h.seek_result hfrom).2
    rw [hfrom.destination]
    exact hneg
  · intro b pos h buffer n hroom
    obtain ⟨b', hget, hrep⟩ := getBytes_ok fails h n
    have hbytes : (({ f with pos := pos } : OsFile).take n).2 =
        f.bytesFrom pos (min n (f.length - pos)) := by
      unfold OsFile.take OsFile.available
      dsimp only
      rw [Int.toNat_natCast]
      rfl
    rw [hbytes, OsFile.bytesFrom_length] at hget
    refine ⟨b', ?_, hrep⟩
    unfold BufferedFile.reader
    dsimp only
    rw [hget, ok_bind]
    dsimp only
    rw [OsFile.bytesFrom_length, write_filled f (by omega), ok_bind]
    · rfl
    · intro k hk
      unfold OsFile.bytesFrom
      rw [List.getD_eq_getElem _ _ (by rw [List.length_ofFn]; exact hk), List.getElem_ofFn]

/-! ## The window -/

/-- The window begins at `c`, `q` is looked at, and what a header at or in front of `q` needs of the
window is there. -/
structure Shows {F : Type} (f : OsFile) (At : F → Nat → Prop) (size c : Nat) (q : Int)
    (s : EndScan F) : Prop where
  file : ∃ pos, At s.file pos
  length : s.length = f.length
  size : s.buffer.length = size
  currentOffset : s.currentOffset = c
  bp : s.bp = q - c
  data : ∀ k : Nat, (c : Int) + k < q + ENDHDRSIZ → s.buffer.data k = f.byte (c + k)

section Window
variable {F : Type} {r : FileReader F} {f : OsFile} {At : F → Nat → Prop} {size c q : Nat}
  {s : EndScan F}

theorem Shows.byteAt (h : Shows f At size c q s) (hc : c ≤ q) (hq : q + 22 ≤ c + size) {n : Nat}
    (hn : n < 22) : s.byteAt n = .ok (f.byte (q + n)).toNat := by
  have hbp := h.bp
  have hsize := h.size
  obtain ⟨k, rfl⟩ : ∃ k, q = c + k := ⟨q - c, by omega⟩
  unfold EndScan.byteAt
  have hindex : (s.bp + n).toNat = k + n := by omega
  rw [if_pos (by omega), hindex, Buffer.get_ok (by omega), ok_bind, pure_eq_ok,
    h.data (k + n) (by unfold ENDHDRSIZ; omega), Nat.add_assoc]

theorem Shows.sh (h : Shows f At size c q s) (hc : c ≤ q) (hq : q + 22 ≤ c + size) {n : Nat}
    (hn : n < 21) : s.sh n = .ok (f.shAt (q + n)) := by
  unfold EndScan.sh
  rw [h.byteAt hc hq (by omega), ok_bind, h.byteAt hc hq (by omega), ok_bind]
  rfl

theorem Shows.lg (h : Shows f At size c q s) (hc : c ≤ q) (hq : q + 22 ≤ c + size) {n : Nat}
    (hn : n < 19) : s.lg n = .ok (f.lgAt (q + n)) := by
  unfold EndScan.lg
  rw [h.sh hc hq (by omega), ok_bind, h.sh hc hq (by omega), ok_bind]
  rfl

theorem Shows.isSignature (h : Shows f At size c q s) (hc : c ≤ q) (hq : q + 22 ≤ c + size) :
    s.isSignature = .ok (decide ((f.byte (q + 1)).toNat = 75 ∧ (f.byte (q + 2)).toNat = 5 ∧
      (f.byte (q + 3)).toNat = 6)) := by
  unfold EndScan.isSignature
  rw [h.byteAt hc hq (by omega), ok_bind]
  by_cases h₁ : (f.byte (q + 1)).toNat = 75
  · rw [if_pos h₁, h.byteAt hc hq (by omega), ok_bind]
    by_cases h₂ : (f.byte (q + 2)).toNat = 5
    · rw [if_pos h₂, h.byteAt hc hq (by omega), ok_bind]
      simp [h₁, h₂]
    · rw [if_neg h₂]
      simp [h₂]
  · rw [if_neg h₁]
    simp [h₁]

/-- **A header is recognised.** -/
theorem Shows.header (h : Shows f At size c q s) (hc : c ≤ q) (hq : q + 22 ≤ c + size)
    (hbyte : (f.byte q).toNat = 80) :
    s.header = .ok (if f.IsEnd q then
      some (.header s.file q (f.lgAt (q + 12)) (f.lgAt (q + 16))) else none) := by
  unfold EndScan.header
  rw [h.isSignature hc hq, ok_bind]
  by_cases hsig : (f.byte (q + 1)).toNat = 75 ∧ (f.byte (q + 2)).toNat = 5 ∧
      (f.byte (q + 3)).toNat = 6
  · have hpos : s.currentOffset + s.bp = q := by
      rw [h.currentOffset, h.bp]
      omega
    rw [if_pos (decide_eq_true hsig), h.sh hc hq (by omega), ok_bind, hpos, h.length]
    by_cases hlen : q + ENDHDRSIZ + f.shAt (q + 20) = f.length
    · have hend : f.IsEnd q := ⟨⟨hbyte, hsig⟩, hlen⟩
      rw [if_pos (by lia), h.lg hc hq (by lia), ok_bind, h.lg hc hq (by lia), ok_bind,
        if_pos hend]
      rfl
    · rw [if_neg (by omega), if_neg fun hend => hlen hend.2]
      rfl
  · rw [if_neg (by simp [hsig]), if_neg fun hend => hsig hend.1.2]
    rfl

/-- **The window is moved**: it begins where the smallest offset or the room in it says, and what
is behind the pointer is still there. -/
theorem Shows.moveWindow (hr : Reads r f At) {q : Int} (h : Shows f At size c q s) (hsize : 44 ≤ size)
    (hlow : (c : Int) ≤ q + 4) (hhigh : q < c) (hlen : c ≤ f.length) (hmin : f.firstEnd < c) :
    ∃ s', s.moveWindow r = .ok (.ok s') ∧
      Shows f At size (max f.firstEnd (q - (size - 22)).toNat) q s' := by
  obtain ⟨⟨pos, hat⟩, hlength, hroom, hoffset, hbp, hdata⟩ := h
  have hfirst : 76 ≤ f.firstEnd := Nat.le_max_left _ _
  have hoff : EndScan.minOffset s.length = f.firstEnd := by rw [hlength, minOffset_eq]
  unfold EndScan.moveWindow
  dsimp only
  rw [hoff, if_neg (by omega)]
  generalize f.firstEnd = first at hmin hfirst ⊢
  obtain ⟨count, hcount⟩ : ∃ count : Nat, (count : Int) =
      if s.currentOffset - first > s.buffer.length - ENDHDRSIZ + -s.bp
      then s.buffer.length - ENDHDRSIZ + -s.bp else s.currentOffset - first := by
    refine ⟨_, Int.toNat_of_nonneg ?_⟩
    unfold ENDHDRSIZ
    split
    · omega
    · omega
  have hnew : c = max first (q - (size - 22)).toNat + count ∧ 0 < count ∧
      (count : Int) + q + 22 ≤ c + size := by
    unfold ENDHDRSIZ at hcount
    split at hcount
    · omega
    · omega
  generalize max first (q - (size - 22)).toNat = c' at hnew ⊢
  obtain ⟨rfl, hpos, hle⟩ := hnew
  rw [← hcount, if_pos ⟨by omega, by omega⟩, Int.toNat_natCast,
    Buffer.copy_ok (by omega) (by omega), ok_bind]
  obtain ⟨x', hfetch, hat'⟩ := @Reads.fetch_some _ r f At s.file pos count
    ⟨s.buffer.length, fun k =>
      if count ≤ k ∧ k < count + (s.buffer.length - count) then s.buffer.data (0 + (k - count))
      else s.buffer.data k⟩
    (s.currentOffset - count) .SEEK_SET hr hat (.inl rfl) c'
    (show s.currentOffset - count = c' by omega) hlen (show count ≤ s.buffer.length by omega)
  rw [hfetch, ok_bind]
  refine ⟨_, rfl, ⟨_, hat'⟩, hlength, hroom, ?_, ?_, ?_⟩
  · show s.currentOffset - count = c'
    omega
  · show s.bp + count = q - c'
    omega
  · intro k hk
    show (if k < count then f.byte (c' + k)
      else if count ≤ k ∧ k < count + (s.buffer.length - count) then s.buffer.data (0 + (k - count))
      else s.buffer.data k) = f.byte (c' + k)
    unfold ENDHDRSIZ at hk hdata
    by_cases hnewer : k < count
    · rw [if_pos hnewer]
    · obtain ⟨m, rfl⟩ : ∃ m, k = count + m := ⟨k - count, by omega⟩
      rw [if_neg hnewer, if_pos (by omega), Nat.zero_add, Nat.add_sub_cancel_left,
        hdata m (by omega), Nat.add_assoc]

end Window

/-! ## The search -/

/-- Going back from `q` with the window at `c`, a window of `size` bytes always holds what is looked
at: a header is found, or what is in front of the smallest offset is passed over from a window that
begins there or before. -/
inductive StaysFrom (size : Nat) (f : OsFile) : Nat → Nat → Prop
  | found {c q : Nat} (hend : f.IsEnd q) : StaysFrom size f c q
  | inside {c q : Nat} (hback : c + f.step q ≤ q) (hrest : StaysFrom size f c (q - f.step q)) :
      StaysFrom size f c q
  | givesUp {c q : Nat} (hleft : q < c + f.step q) (hfirst : c ≤ f.firstEnd) : StaysFrom size f c q
  | moves {c q : Nat} (hleft : q < c + f.step q) (hmore : f.firstEnd + f.step q ≤ q)
      (hrest : StaysFrom size f (max f.firstEnd (q - f.step q - (size - 22))) (q - f.step q)) :
      StaysFrom size f c q

/-- Going back from the last place for a header. -/
def Stays (size : Nat) (f : OsFile) : Prop :=
  f.length < 22 ∨ StaysFrom size f (f.length - 22) (f.length - 22)

/-- What the search is to end with: the last header, or there is none to be found. -/
def Right {F : Type} (f : OsFile) (At : F → Nat → Prop) : Outcome F → Prop
  | .header file endpos endsiz endoff => (∃ pos, At file pos) ∧ ∃ p : Nat, endpos = p ∧ f.IsEnd p ∧
      (∀ p', p < p' → ¬ f.IsEnd p') ∧ endsiz = f.lgAt (p + 12) ∧ endoff = f.lgAt (p + 16)
  | .nothingLeft => 22 ≤ f.length ∧ ∀ p, f.firstEnd ≤ p → ¬ f.IsEnd p
  | .cannotRead => f.length < 22

section Search
variable {F : Type} {r : FileReader F} {f : OsFile} {At : F → Nat → Prop} {size c q : Nat}
  {s : EndScan F}

theorem Shows.stepBack {q' : Int} (h : Shows f At size c q s) (hle : q' ≤ q) {k : Nat}
    (hk : q' = q - k) : Shows f At size c q' { s with bp := s.bp - k } := by
  obtain ⟨hfile, hlength, hroom, hoffset, hbp, hdata⟩ := h
  refine ⟨hfile, hlength, hroom, hoffset, ?_, fun n hn => hdata n (by omega)⟩
  show s.bp - k = q' - c
  omega

/-- What a round does with a byte that no header begins at. -/
theorem Shows.round_next (h : Shows f At size c q s) (hc : c ≤ q) (hq : q + 22 ≤ c + size)
    (hend : ¬ f.IsEnd q) :
    s.round r = if s.bp - f.step q < 0
      then ({ s with bp := s.bp - f.step q } : EndScan F).moveWindow r
      else .ok (.ok { s with bp := s.bp - f.step q }) := by
  unfold EndScan.round
  rw [h.byteAt hc hq (by omega), ok_bind, Nat.add_zero]
  by_cases hbyte : (f.byte q).toNat = 80
  · rw [if_pos hbyte, h.header hc hq hbyte, if_neg hend, ok_bind]
    rfl
  · rw [if_neg hbyte, pure_eq_ok, ok_bind]
    rfl

theorem Shows.round_found (h : Shows f At size c q s) (hc : c ≤ q) (hq : q + 22 ≤ c + size)
    (hend : f.IsEnd q) :
    s.round r = .ok (.error (.header s.file q (f.lgAt (q + 12)) (f.lgAt (q + 16)))) := by
  unfold EndScan.round
  rw [h.byteAt hc hq (by omega), ok_bind, Nat.add_zero, if_pos hend.1.1, h.header hc hq hend.1.1,
    if_pos hend, ok_bind]
  rfl

/-- In front of the window nothing can be read. -/
theorem loop_outside {fuel : Nat} (hfuel : 0 < fuel) (hbp : s.bp < 0) :
    EndScan.loop r fuel s = .error .outOfRange := by
  obtain ⟨fuel, rfl⟩ : ∃ n, fuel = n + 1 := ⟨fuel - 1, by omega⟩
  have hbyte : s.byteAt 0 = .error .outOfRange := if_neg (by omega)
  unfold EndScan.loop EndScan.round
  rw [hbyte]
  rfl

/-- **The loop** finds the last header, or it gives up when there is none, or it leaves the
window. -/
theorem loop_ends (hr : Reads r f At) (hsize : 44 ≤ size) {fuel : Nat} (hfuel : q < fuel)
    (h : Shows f At size c q s) (hc : c ≤ q) (hq : q + 22 ≤ c + size) (hlen : q + 22 ≤ f.length)
    (habove : ∀ p, q < p → ¬ f.IsEnd p) :
    (StaysFrom size f c q ∧ ∃ o, EndScan.loop r fuel s = .ok o ∧ Right f At o) ∨
      (¬ StaysFrom size f c q ∧ EndScan.loop r fuel s = .error .outOfRange) := by
  induction fuel generalizing s c q with
  | zero => omega
  | succ fuel ih =>
    unfold EndScan.loop
    by_cases hend : f.IsEnd q
    · rw [h.round_found hc hq hend, ok_bind]
      exact .inl ⟨.found hend, _, rfl, h.file, q, rfl, hend, habove, rfl, rfl⟩
    · obtain ⟨hpos, hfour⟩ := f.step_bounds q
      have hnone : ∀ p, q < p + f.step q → ¬ f.IsEnd p := by
        intro p hp
        by_cases hle : p ≤ q
        · exact OsFile.no_end_between hend hp hle
        · exact habove p (by omega)
      have hbp := h.bp
      rw [h.round_next hc hq hend]
      by_cases hin : c + f.step q ≤ q
      · -- still in the window
        have hback : ((q - f.step q : Nat) : Int) = q - f.step q := by lia
        have hnext := ih (by omega) (h.stepBack (by omega) hback) (by omega) (by omega) (by omega)
          fun p hp => hnone p (by omega)
        rw [if_neg (by omega), ok_bind]
        rcases hnext with ⟨hstays, hres⟩ | ⟨hno, hres⟩
        · exact .inl ⟨.inside hin hstays, hres⟩
        · refine .inr ⟨?_, hres⟩
          rintro (hfound | ⟨-, hrest⟩ | ⟨hleft, -⟩ | ⟨hleft, -, -⟩)
          · exact hend hfound
          · exact hno hrest
          · omega
          · omega
      · have hnew := @Shows.stepBack _ f At size c q s (q - f.step q) h (by omega) _ rfl
        rw [if_pos (by omega)]
        by_cases hmin : f.firstEnd < c
        · obtain ⟨s', hmove, hs'⟩ := hnew.moveWindow hr hsize (by lia) (by lia) (by lia) hmin
          rw [hmove, ok_bind]
          by_cases hmore : f.firstEnd + f.step q ≤ q
          · have hstart : ((q : Int) - f.step q - (size - 22)).toNat =
                q - f.step q - (size - 22) := by lia
            have hback : (q : Int) - f.step q = (q - f.step q : Nat) := by omega
            rw [hstart, hback] at hs'
            have hroom : max f.firstEnd (q - f.step q - (size - 22)) ≤ q - f.step q ∧
                q - f.step q + 22 ≤ max f.firstEnd (q - f.step q - (size - 22)) + size := by
              generalize f.firstEnd = first at hmore ⊢
              lia
            have hnext := ih (by omega) hs' hroom.1 hroom.2 (by omega)
              fun p hp => hnone p (by omega)
            rcases hnext with ⟨hstays, hres⟩ | ⟨hno, hres⟩
            · exact .inl ⟨.moves (by omega) hmore hstays, hres⟩
            · refine .inr ⟨?_, hres⟩
              rintro (hfound | ⟨hback, -⟩ | ⟨-, hfirst⟩ | ⟨-, -, hrest⟩)
              · exact hend hfound
              · omega
              · omega
              · exact hno hrest
          · -- the window begins at the smallest offset, and the pointer is in front of it
            have hbp' := hs'.bp
            refine .inr ⟨?_, loop_outside (by omega) (by omega)⟩
            rintro (hfound | ⟨hback, -⟩ | ⟨-, hfirst⟩ | ⟨-, hmore', -⟩)
            · exact hend hfound
            · omega
            · omega
            · exact hmore hmore'
        · have hstop : ({ s with bp := s.bp - f.step q } : EndScan F).moveWindow r =
              .ok (.error .nothingLeft) := by
            unfold EndScan.moveWindow
            dsimp only
            rw [h.length, minOffset_eq, h.currentOffset, if_pos (by omega)]
          rw [hstop, ok_bind]
          refine .inl ⟨.givesUp (by lia) (by lia), _, rfl, by lia, fun p hp => ?_⟩
          exact hnone p (by lia)

/-- **The search** ends right as long as it stays in its window, else it leaves the window. -/
theorem search_ends (hr : Reads r f At) (hsize : 44 ≤ size) (raw : Nat → UInt8) {x : F} {pos : Nat}
    (hx : At x pos) :
    (Stays size f ∧ ∃ o, searchEndHeader r size raw x = .ok o ∧ Right f At o) ∨
      (¬ Stays size f ∧ searchEndHeader r size raw x = .error .outOfRange) := by
  unfold searchEndHeader
  have hfrom : FromEnds (-(ENDHDRSIZ : Int)) .SEEK_END := .inr ⟨rfl, by decide⟩
  have hroom : ENDHDRSIZ ≤ (Buffer.mk size raw).length := by
    show 22 ≤ size
    omega
  by_cases hlen : f.length < 22
  · have hout : f.destination (-(ENDHDRSIZ : Int)) .SEEK_END < 0 := by
      show (f.length : Int) + -22 < 0
      omega
    rw [hr.fetch_none hx hfrom (.inl hout) (by decide) hroom, ok_bind]
    exact .inl ⟨.inl hlen, _, rfl, hlen⟩
  · have hgoal : f.destination (-(ENDHDRSIZ : Int)) .SEEK_END = (f.length - 22 : Nat) := by
      show (f.length : Int) + -22 = (f.length - 22 : Nat)
      omega
    obtain ⟨x', hfetch, hat⟩ := @Reads.fetch_some _ r f At x pos ENDHDRSIZ _ _ _ hr hx hfrom _ hgoal
      (by show f.length - 22 + 22 ≤ f.length; omega) hroom
    have hshows : Shows f At size (f.length - 22) (f.length - 22 : Nat)
        { file := x'
          length := r.size x
          buffer := filled f ⟨size, raw⟩ (f.length - 22) ENDHDRSIZ
          currentOffset := r.size x - ENDHDRSIZ
          bp := 0 } := by
      refine ⟨⟨_, hat⟩, hr.size hx, rfl, ?_, ?_, fun k hk => ?_⟩
      · show r.size x - (22 : Nat) = (f.length - 22 : Nat)
        rw [hr.size hx]
        omega
      · exact (Int.sub_self _).symm
      · exact if_pos (by unfold ENDHDRSIZ at hk ⊢; omega)
    have hfuel : f.length - 22 < (r.size x).toNat + 1 := by
      rw [hr.size hx]
      omega
    rw [hfetch, ok_bind]
    rcases loop_ends hr hsize hfuel hshows (Nat.le_refl _) (by omega) (by omega)
      (fun p hp hend => absurd hend.le (by omega)) with ⟨hstays, hres⟩ | ⟨hno, hres⟩
    · exact .inl ⟨.inr hstays, hres⟩
    · refine .inr ⟨?_, hres⟩
      rintro (hshort | hstays)
      · exact hlen hshort
      · exact hno hstays

/-- The test for a local header is right. -/
theorem localHeader_ok (hr : Reads r f At) {x : F} {pos : Nat} (hx : At x pos) {p : Nat}
    (hp : p < 4294967296) : r.localHeader x p = .ok (f.hasLocalHeader p) := by
  unfold FileReader.localHeader OsFile.hasLocalHeader
  have hroom : 4 ≤ (Buffer.mk 4 fun _ => (0 : UInt8)).length := Nat.le_refl 4
  by_cases hin : p < 2147483648 ∧ p + 4 ≤ f.length
  · obtain ⟨hsmall, hlen⟩ := hin
    have hgoal : f.destination (i32 p) .SEEK_SET = p := i32_of_range (by omega)
    obtain ⟨x', hfetch, hat⟩ := @Reads.fetch_some _ r f At x pos 4 _ _ _ hr hx (.inl rfl) _ hgoal
      hlen hroom
    have hget : ∀ k, k < 4 → (filled f ⟨4, fun _ => 0⟩ p 4).get k = .ok (f.byte (p + k)) := by
      intro k hk
      rw [Buffer.get_ok hk]
      exact congrArg Except.ok (if_pos hk)
    have hfetch' : r.fetch x ⟨4, fun _ => 0⟩ (i32 p) .SEEK_SET 4 =
        .ok (some (x', filled f ⟨4, fun _ => 0⟩ p 4)) := hfetch
    rw [hfetch', ok_bind]
    dsimp only
    rw [hget 0 (by decide), ok_bind, hget 1 (by decide), ok_bind, hget 2 (by decide), ok_bind,
      hget 3 (by decide), ok_bind, pure_eq_ok]
    unfold OsFile.signatureAt
    simp only [hsmall, hlen, true_and, ← UInt8.toNat_inj]
    rfl
  · have hout : f.destination (i32 p) .SEEK_SET < 0 ∨
        (f.length : Int) < f.destination (i32 p) .SEEK_SET + (4 : Nat) := by
      show i32 p < 0 ∨ (f.length : Int) < i32 p + (4 : Nat)
      rw [i32, Int.bmod_def]
      split
      · omega
      · omega
    have hfetch : r.fetch x ⟨4, fun _ => 0⟩ (i32 p) .SEEK_SET 4 = .ok none :=
      @Reads.fetch_none _ r f At x pos 4 _ _ _ hr hx (.inl rfl) hout (by decide) hroom
    rw [hfetch, ok_bind, decide_eq_false fun h => hin ⟨h.1, h.2.1⟩]
    rfl

end Search

/-! ## The two functions -/

/-- `JarInfo` for a header. -/
def jarInfoAt (f : OsFile) (p : Nat) : JarInfo :=
  let locOffset := locOffset p (f.lgAt (p + 12)) (f.lgAt (p + 16))
  if f.hasLocalHeader locOffset then
    { cenOffset := cenOffset p (f.lgAt (p + 12)), locOffset := locOffset }
  else { status := -2 }

/-- The result of `find_end_of_central_header` for a header. -/
def centralAt (f : OsFile) (p : Nat) : Bool × Option (Nat × Nat) :=
  let locOffset := locOffset p (f.lgAt (p + 12)) (f.lgAt (p + 16))
  (true, if f.hasLocalHeader locOffset then
    some (cenOffset p (f.lgAt (p + 12)), locOffset) else none)

/-- A search that ends without a fault finds the last header from the smallest offset on, and none
where there is none. -/
def Exact {α : Type} (f : OsFile) (result : Except MemFault α) (header : Nat → α) (none : α) : Prop :=
  ∃ a, result = .ok a ∧
    (∀ p, f.firstEnd ≤ p → f.IsEnd p → (∀ p', f.IsEnd p' → p' ≤ p) → a = header p) ∧
    ((∀ p, ¬ f.IsEnd p) → a = none)

theorem locOffset_lt (endpos : Int) (endsiz endoff : Nat) :
    locOffset endpos endsiz endoff < 4294967296 := by
  unfold locOffset unsignedLong
  omega

/-- The last header is the one that is found. -/
theorem last_unique {f : OsFile} {p q : Nat} (hp : f.IsEnd p) (hlast : ∀ p', p < p' → ¬ f.IsEnd p')
    (hq : f.IsEnd q) (hlast' : ∀ p', f.IsEnd p' → p' ≤ q) : q = p :=
  Nat.le_antisymm (Nat.not_lt.1 fun hlt => hlast q hlt hq) (hlast' p hp)

theorem getJarInfo_ends (raw : Nat → UInt8) (f : OsFile) :
    (Stays 44 f ∧ Exact f (getJarInfo raw f) (jarInfoAt f)
      { status := if f.length < ENDHDRSIZ then -1 else -3 }) ∨
      (¬ Stays 44 f ∧ getJarInfo raw f = .error .outOfRange) := by
  have hr := OsFile.reader_reads f
  unfold getJarInfo
  rcases @search_ends _ _ f _ 44 hr (Nat.le_refl 44) raw f f.pos rfl with
    ⟨hstays, o, hsearch, hright⟩ | ⟨hno, hsearch⟩
  · have hsearch' : searchEndHeader OsFile.reader (ENDHDRSIZ * 2) raw f = .ok o := hsearch
    rw [hsearch', ok_bind]
    refine .inl ⟨hstays, ?_⟩
    cases o with
    | header file endpos endsiz endoff =>
      obtain ⟨⟨pos, hat⟩, p, rfl, hend, hlast, rfl, rfl⟩ := hright
      dsimp only
      rw [localHeader_ok hr hat (locOffset_lt ..), ok_bind]
      refine ⟨_, rfl, fun q _ hq hlast' => ?_, fun hnone => absurd hend (hnone p)⟩
      rw [last_unique hend hlast hq hlast']
      rfl
    | nothingLeft =>
      refine ⟨_, rfl, fun q hfirst hq _ => absurd hq (hright.2 q hfirst), fun _ => ?_⟩
      rw [if_neg (by unfold ENDHDRSIZ; exact Nat.not_lt.2 hright.1)]
    | cannotRead =>
      have hshort : f.length < ENDHDRSIZ := hright
      refine ⟨_, rfl, fun q _ hq _ => ?_, fun _ => ?_⟩
      · exact absurd hq.le (Nat.not_le.2 (Nat.lt_of_lt_of_le hshort (Nat.le_add_left 22 q)))
      · rw [if_pos hshort, if_pos hshort]
  · have hsearch' : searchEndHeader OsFile.reader (ENDHDRSIZ * 2) raw f = .error .outOfRange := hsearch
    rw [hsearch']
    exact .inr ⟨hno, rfl⟩

theorem findEndOfCentralHeader_ends (fails : Bool) (raw array : Nat → UInt8) {f : OsFile}
    (hlen : f.length < 2147483648) :
    (Stays 64 f ∧ Exact f (findEndOfCentralHeader fails raw (.opened f array)) (centralAt f)
      (false, none)) ∨
      (¬ Stays 64 f ∧ findEndOfCentralHeader fails raw (.opened f array) = .error .outOfRange) := by
  have hr := BufferedFile.reader_reads fails hlen
  unfold findEndOfCentralHeader
  rcases search_ends hr (show 44 ≤ 64 by decide) raw (opened_same hlen array).1 with
    ⟨hstays, o, hsearch, hright⟩ | ⟨hno, hsearch⟩
  · have hsearch' : searchEndHeader (BufferedFile.reader fails) TMPBUFFERSIZE raw (.opened f array) =
        .ok o := hsearch
    rw [hsearch', ok_bind]
    refine .inl ⟨hstays, ?_⟩
    cases o with
    | header file endpos endsiz endoff =>
      obtain ⟨⟨pos, hat⟩, p, rfl, hend, hlast, rfl, rfl⟩ := hright
      dsimp only
      rw [localHeader_ok hr hat (locOffset_lt ..), ok_bind]
      refine ⟨_, rfl, fun q _ hq hlast' => ?_, fun hnone => absurd hend (hnone p)⟩
      rw [last_unique hend hlast hq hlast']
      rfl
    | nothingLeft =>
      exact ⟨_, rfl, fun q hfirst hq _ => absurd hq (hright.2 q hfirst), fun _ => rfl⟩
    | cannotRead =>
      have hshort : f.length < 22 := hright
      exact ⟨_, rfl, fun q _ hq _ => absurd hq.le (by omega), fun _ => rfl⟩
  · have hsearch' : searchEndHeader (BufferedFile.reader fails) TMPBUFFERSIZE raw (.opened f array) =
        .error .outOfRange := hsearch
    rw [hsearch']
    exact .inr ⟨hno, rfl⟩

/-- **Both searches are exact** as long as they stay in their windows, and only then. -/
theorem endSearch_exact_iff {f : OsFile} (hlen : f.length < 2147483648) :
    ((∀ raw, Exact f (getJarInfo raw f) (jarInfoAt f)
        { status := if f.length < ENDHDRSIZ then -1 else -3 }) ∧
      ∀ fails raw array, Exact f (findEndOfCentralHeader fails raw (.opened f array)) (centralAt f)
        (false, none)) ↔ Stays 44 f ∧ Stays 64 f := by
  constructor
  · rintro ⟨hjar, hcentral⟩
    refine ⟨?_, ?_⟩
    · rcases getJarInfo_ends (fun _ => 0) f with ⟨hstays, -⟩ | ⟨-, hfault⟩
      · exact hstays
      · obtain ⟨a, hok, -⟩ := hjar fun _ => 0
        exact nomatch hfault.symm.trans hok
    · rcases findEndOfCentralHeader_ends true (fun _ => 0) (fun _ => 0) hlen with
        ⟨hstays, -⟩ | ⟨-, hfault⟩
      · exact hstays
      · obtain ⟨a, hok, -⟩ := hcentral true (fun _ => 0) fun _ => 0
        exact nomatch hfault.symm.trans hok
  · rintro ⟨hjar, hcentral⟩
    refine ⟨fun raw => ?_, fun fails raw array => ?_⟩
    · rcases getJarInfo_ends raw f with ⟨-, hexact⟩ | ⟨hno, -⟩
      · exact hexact
      · exact absurd hjar hno
    · rcases findEndOfCentralHeader_ends fails raw array hlen with ⟨-, hexact⟩ | ⟨hno, -⟩
      · exact hexact
      · exact absurd hcentral hno

/-- A file of 98 bytes that ends with an end header without a comment. -/
def endOnly : OsFile where
  length := 98
  byte k := if k = 76 then 80 else if k = 77 then 75 else if k = 78 then 5 else if k = 79 then 6 else 0
  pos := 0

theorem endSearch_exact_endOnly : (Stays 44 endOnly ∧ Stays 64 endOnly) ∧
    (((∀ raw, Exact endOnly (getJarInfo raw endOnly) (jarInfoAt endOnly)
        { status := if endOnly.length < ENDHDRSIZ then -1 else -3 }) ∧
      ∀ fails raw array, Exact endOnly (findEndOfCentralHeader fails raw (.opened endOnly array))
        (centralAt endOnly) (false, none)) ↔ Stays 44 endOnly ∧ Stays 64 endOnly) :=
  ⟨⟨.inr (.found (by decide)), .inr (.found (by decide))⟩, endSearch_exact_iff (by decide)⟩

/-- A file of 99 zeros. -/
def zeros : OsFile := { length := 99, byte := fun _ => 0, pos := 0 }

/-- The first window begins one above the smallest offset, and the pointer goes back by 4. -/
theorem not_stays_zeros (size : Nat) : ¬ Stays size zeros := by
  rintro (hshort | ⟨hend⟩ | ⟨hback, -⟩ | ⟨-, hfirst⟩ | ⟨-, hmore, -⟩)
  · exact absurd hshort (by decide)
  · exact absurd hend (by decide)
  · exact absurd hback (by decide)
  · exact absurd hfirst (by decide)
  · exact absurd hmore (by decide)

/-- **In a file of 99 zeros** both searches read in front of their windows. -/
theorem zeros_outside : (∀ raw, ¬ Exact zeros (getJarInfo raw zeros) (jarInfoAt zeros)
        { status := if zeros.length < ENDHDRSIZ then -1 else -3 }) ∧
      ∀ fails raw array, ¬ Exact zeros (findEndOfCentralHeader fails raw (.opened zeros array))
        (centralAt zeros) (false, none) := by
  refine ⟨?_, ?_⟩
  · rintro raw ⟨a, hok, -⟩
    rcases getJarInfo_ends raw zeros with ⟨hstays, -⟩ | ⟨-, hfault⟩
    · exact not_stays_zeros 44 hstays
    · exact nomatch hfault.symm.trans hok
  · rintro fails raw array ⟨a, hok, -⟩
    rcases findEndOfCentralHeader_ends fails raw array (show zeros.length < 2147483648 by decide) with
      ⟨hstays, -⟩ | ⟨-, hfault⟩
    · exact not_stays_zeros 64 hstays
    · exact nomatch hfault.symm.trans hok

end FroggyKVM.Zip
