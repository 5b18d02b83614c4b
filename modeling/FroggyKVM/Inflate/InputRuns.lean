/-
# FroggyKVM.Inflate.InputRuns — the input of the inflater in incremental mode.

Between the steps the input follows the file, and the offset has not gone further than the reads in
front of the next check can bear (`AtPoint`).  One lemma for each function says that it keeps this.
-/
import FroggyKVM.Inflate.Delivered
import FroggyKVM.Inflate.LookAhead

namespace FroggyKVM.Inflate

open Deflate Canonical

/-! ## Between the steps -/

/-- The locals for the input at a point. -/
def inputAt (f : Inflater) (b : Buffer UInt8) : Point → In
  | .codeLengthCode d _ => d.input
  | .codeLengths d _ _ _ => d.input
  | .huffman _ i _ => i
  | _ => f.input b

/-- What holds of the offset and of the codes at a point. -/
def AtPoint (f : Inflater) (i : In) : Point → Prop
  | .tables => f.blockType = .dynaHuffman ∧ i.inOffset ≤ i.inLength
  | .codeLengthCode d k => f.blockType = .dynaHuffman ∧ 4 ≤ d.hclen ∧ d.hlit ≤ 288 ∧ d.hdist ≤ 32 ∧
      i.inOffset ≤ i.inLength + 2 ∧ (0 < k → i.inOffset < i.inLength)
  | .codeLengths d _ _ _ => f.blockType = .dynaHuffman ∧ d.hlit ≤ 288 ∧ d.hdist ≤ 32 ∧
      i.inOffset < i.inLength
  | .huffman fixed _ _ => f.blockType ≠ .noCompression ∧ (fixed = false → f.Coded)
  | _ => f.blockType = .noCompression → i.inOffset ≤ i.inLength

/-- The tables there are decode the codes of the block. -/
structure TablesOk (f : Inflater) : Prop where
  lengths : ∀ table, f.lengthBuffer = some table →
    Fits 15 f.track.litLens ∧ Decodes f.track.litLens table
  distances : ∀ table, f.distanceBuffer = some table →
    Fits 15 f.track.distLens ∧ Decodes f.track.distLens table

/-- Unless an error has been returned, the input follows the file. -/
structure Good (file : File) (start : Nat) (r : Inflater × Point) : Prop where
  tables : TablesOk r.1
  input : r.2 ≠ .returned .error → ∃ b, Follows file start r.1 b (inputAt r.1 b r.2) ∧
    AtPoint r.1 (inputAt r.1 b r.2) r.2

variable {file : File} {start : Nat} {f g : Inflater} {b : Buffer UInt8} {i : In}
  {raw : Nat → UInt8}

theorem TablesOk.congr (h : TablesOk f) (hsame : SameCodes f g) : TablesOk g := by
  refine ⟨fun table htable => ?_, fun table htable => ?_⟩
  · rw [hsame.litLens]
    exact h.lengths table (hsame.lengthBuffer ▸ htable)
  · rw [hsame.distLens]
    exact h.distances table (hsame.distanceBuffer ▸ htable)

theorem Inflater.Coded.congr (h : f.Coded) (hsame : SameCodes f g) : g.Coded := by
  obtain ⟨⟨t, ht, hlit⟩, ⟨t', ht', hdist⟩⟩ := h
  refine ⟨⟨t, hsame.lengthBuffer.trans ht, ?_⟩, ⟨t', hsame.distanceBuffer.trans ht', ?_⟩⟩
  · rw [hsame.litLens]
    exact hlit
  · rw [hsame.distLens]
    exact hdist

/-- An error is returned. -/
theorem Good.error (h : TablesOk f) : Good file start (f, .returned .error) :=
  ⟨h, fun hne => absurd rfl hne⟩

/-- The locals are stored, and the function returns. -/
theorem Good.stored (htables : TablesOk f) (h : Follows file start f b i)
    (hblock : f.blockType ≠ .noCompression) (outOffset : Nat) :
    Good file start ((f.storeIn i).storeOut outOffset, .returned .more) := by
  have hinput : ((f.storeIn i).storeOut outOffset).input b = i :=
    @Inflater.input_storeIn f b i h.inLength.2.1
  refine ⟨htables.congr ⟨rfl, rfl, rfl, rfl⟩, fun _ => ⟨b, ?_, fun hno => absurd hno hblock⟩⟩
  show Follows file start _ b (((f.storeIn i).storeOut outOffset).input b)
  rw [hinput]
  exact h.congr ⟨rfl, rfl, rfl, rfl, rfl⟩

/-! ## Stored blocks -/

theorem mod_eight_le (n : Nat) : n &&& 7 = n % 8 := Nat.and_two_pow_sub_one_eq_mod n 3

/-- The header of a stored block, in front of which the offset is at most at the margin. -/
theorem Follows.storedHeader (h : Follows file start f b i) (hlow : i.inOffset ≤ i.inLength) :
    ∃ i', (i.dumpBits (i.inDataSize &&& 7)).needBits b 32 = .ok i' ∧ Follows file start f b i' ∧
      i'.inDataSize = 32 := by
  have hsize := h.size
  have hlength := h.inLength
  have hdump : i.inDataSize &&& 7 ≤ i.inDataSize := Nat.and_le_left
  have hleft : (i.dumpBits (i.inDataSize &&& 7)).inDataSize = i.inDataSize - i.inDataSize % 8 :=
    congrArg _ (mod_eight_le _)
  have hoffset : (i.dumpBits (i.inDataSize &&& 7)).inOffset = i.inOffset := rfl
  have hfollows := h.dumpBits hdump
  have hbytes : 8 * bytesFor (i.dumpBits (i.inDataSize &&& 7)).inDataSize 32 =
      32 - (i.inDataSize - i.inDataSize % 8) := by
    unfold bytesFor
    omega
  refine ⟨_, In.needBits_ok hfollows.small (.inr ⟨rfl, by omega⟩) (by omega), ?_, ?_⟩
  · apply hfollows.take
    · omega
    · omega
  · show (i.dumpBits (i.inDataSize &&& 7)).inDataSize +
      8 * bytesFor (i.dumpBits (i.inDataSize &&& 7)).inDataSize 32 = 32
    omega

/-- **The bytes of a stored block** that the buffer lacks are those behind it in the file. -/
theorem copyStored_good (htables : TablesOk f) (h : Follows file start f b i)
    (hempty : i.inDataSize = 0) (out : Buffer UInt8) (outOffset length : Nat) :
    Returns (f.copyStored b out i outOffset length) fun r =>
      Good file start (r.1, .returned r.2) := by
  have hoffset := h.inOffset
  have hmore := h.more
  unfold Inflater.copyStored
  dsimp only
  split
  · case isTrue hdeficit =>
    have hcopied : length - (length - (b.length - i.inOffset)) = b.length - i.inOffset := by omega
    generalize length - (b.length - i.inOffset) = deficit at hdeficit hcopied
    unfold Inflater.getBytesRaw
    rw [h.fileHandle]
    refine Returns.bind (Q := fun r => r.2.2 = min deficit (file.length - f.filePos) ∧
      r.1 = { f with filePos := f.filePos + min deficit (file.length - f.filePos) }) ?_ ?_
    · exact Returns.bind_any fun dest => Returns.pure ⟨rfl, by rw [h.fileHandle]⟩
    · rintro ⟨g, out', n⟩ ⟨rfl, rfl⟩
      dsimp only
      split
      · exact Returns.pure (Good.error (htables.congr ⟨rfl, rfl, rfl, rfl⟩))
      · case isFalse hall =>
        refine Returns.bind_any fun out'' => Returns.pure ?_
        have hread : min deficit (file.length - f.filePos) = deficit := by omega
        rw [hcopied, hread]
        refine @Good.stored file start _ b _ ?_ ?_ ?_ _
        · exact htables.congr ⟨rfl, rfl, rfl, rfl⟩
        · exact h.skip hempty (by omega) (.inr ⟨by omega, by omega⟩) rfl rfl rfl rfl rfl
        · exact nofun
  · case isFalse hdeficit =>
    have hnone : length - (b.length - i.inOffset) = 0 := by omega
    rw [hnone]
    refine Returns.bind (Q := fun r => r.2.2 = 0 ∧ r.1 = f) (Returns.pure ⟨rfl, rfl⟩) ?_
    rintro ⟨g, out', n⟩ ⟨rfl, rfl⟩
    dsimp only
    rw [if_neg (by omega)]
    refine Returns.bind_any fun out'' => Returns.pure ?_
    refine @Good.stored file start _ b _ ?_ ?_ ?_ _
    · exact htables.congr ⟨rfl, rfl, rfl, rfl⟩
    · exact h.skip hempty (by omega) (.inl rfl) rfl rfl rfl rfl rfl
    · exact nofun

/-- A step that starts with the fields: what is behind `LOAD_IN`. -/
theorem returns_loadIn {α : Type} {P : α → Prop} {k : In → Except MemFault α}
    (h : Follows file start f b (f.input b)) (hk : Returns (k (f.input b)) P) :
    Returns (f.loadIn >>= k) P := by
  rw [Inflater.loadIn_eq h]
  exact hk

theorem returns_deref {α β : Type} {P : α → Prop} {x : Option (Buffer β)} {c : Buffer β}
    {k : Buffer β → Except MemFault α} (hx : x = some c) (hk : Returns (k c) P) :
    Returns (deref x >>= k) P := by
  rw [hx]
  exact hk

theorem inflateStored_good (htables : TablesOk f) (h : Follows file start f b (f.input b))
    (hlow : (f.input b).inOffset ≤ (f.input b).inLength) :
    Returns (f.inflateStored raw) fun r => Good file start (r.1, .returned r.2) := by
  unfold Inflater.inflateStored
  refine returns_loadIn h (returns_deref h.inBuffer (Returns.bind_any fun out => ?_))
  obtain ⟨i', hneed, hfollows, hsize⟩ := h.storedHeader hlow
  rw [hneed]
  show Returns (if _ then _ else _) _
  have hfollows' := (hfollows.dumpBits (show 16 ≤ i'.inDataSize by omega)).dumpBits
    (show 16 ≤ i'.inDataSize - 16 by omega)
  have hempty : ((i'.dumpBits 16).dumpBits 16).inDataSize = 0 := by
    show i'.inDataSize - 16 - 16 = 0
    omega
  split
  · exact Returns.pure (Good.error htables)
  · split
    · refine Returns.bind_any ?_
      rintro ⟨out', outOffset⟩
      dsimp only
      refine copyStored_good ?_ ?_ hempty out' outOffset _
      · exact htables.congr ⟨rfl, rfl, rfl, rfl⟩
      · exact hfollows'.congr ⟨rfl, rfl, rfl, rfl, rfl⟩
    · exact copyStored_good htables hfollows' hempty out f.outOffset _

/-! ## Compressed blocks -/

/-- A symbol takes at most 15 bits. -/
theorem nextLitxlen_dumps {fixed : Bool} (hc : fixed = false → f.Coded) (hsmall : i.Small)
    (hsize : 15 ≤ i.inDataSize) :
    Returns (f.nextLitxlen fixed i) fun r => ∀ s i', r = some (s, i') →
      ∃ l, l ≤ 15 ∧ i' = i.dumpBits l := by
  rintro r hnext s i' rfl
  cases fixed with
  | true =>
    unfold Inflater.nextLitxlen at hnext
    rw [if_pos rfl] at hnext
    obtain ⟨code, -, hnext⟩ := ok_of_bind hnext
    obtain ⟨-, rfl⟩ := Prod.mk.inj (Option.some.inj (Except.ok.inj hnext))
    exact ⟨_, Nat.le_trans (Inflater.fixedLitxlen_bits code) (by decide), rfl⟩
  | false =>
    obtain ⟨-, -, hfits, -⟩ := (hc rfl).lengths
    obtain ⟨-, rfl⟩ := (hc rfl).litxlen_symbol (In.From.refl hsmall (Buffer.mk 0 fun _ => 0).data) hsize hnext
    exact ⟨_, hfits.len_le s, rfl⟩

theorem nextDistance_dumps {fixed : Bool} (hc : fixed = false → f.Coded) (hsmall : i.Small)
    (hsize : 15 ≤ i.inDataSize) :
    Returns (f.nextDistance fixed i) fun r => ∀ t i', r = some (t, i') →
      ∃ l, l ≤ 15 ∧ i' = i.dumpBits l := by
  rintro r hnext t i' rfl
  cases fixed with
  | true =>
    unfold Inflater.nextDistance at hnext
    rw [if_pos rfl] at hnext
    obtain ⟨d0, -, hnext⟩ := ok_of_bind hnext
    obtain ⟨-, rfl⟩ := Prod.mk.inj (Option.some.inj (Except.ok.inj hnext))
    exact ⟨5, by decide, rfl⟩
  | false =>
    obtain ⟨-, -, hfits, -⟩ := (hc rfl).distances
    obtain ⟨-, rfl⟩ := (hc rfl).distance_symbol (In.From.refl hsmall (Buffer.mk 0 fun _ => 0).data) hsize hnext
    exact ⟨_, hfits.len_le t, rfl⟩

/-- Numbers of extra bits. -/
theorem lookup_le {table : List Nat} {most : Nat} (h : ∀ x ∈ table, x ≤ most) (k : Nat) :
    Returns (lookup table k) (· ≤ most) := by
  intro x hx
  unfold lookup at hx
  split at hx
  · case _ y hy =>
    obtain rfl := Except.ok.inj hx
    exact h _ (List.mem_of_getElem? hy)
  · cases hx

theorem nextIteration_good (htables : TablesOk f) (h : Follows file start f b i) {fixed : Bool}
    (hblock : f.blockType ≠ .noCompression) (hc : fixed = false → f.Coded) (bufferFull : Bool)
    (outOffset : Nat) : Good file start (f.nextIteration fixed bufferFull i outOffset) := by
  unfold Inflater.nextIteration
  split
  · exact Good.stored htables h hblock outOffset
  · exact ⟨htables, fun _ => ⟨b, h, hblock, hc⟩⟩

/-- The state of an iteration when the output has got a new buffer. -/
theorem nextIteration_good' (htables : TablesOk f) (h : Follows file start f b i) {fixed : Bool}
    (hblock : f.blockType ≠ .noCompression) (hc : fixed = false → f.Coded) (out : Buffer UInt8)
    (bufferFull : Bool) (outOffset : Nat) : Good file start
      ({ f with outBuffer := some out }.nextIteration fixed bufferFull i outOffset) := by
  refine @nextIteration_good file start _ b i ?_ ?_ fixed ?_ (fun hf => ?_) bufferFull outOffset
  · exact htables.congr ⟨rfl, rfl, rfl, rfl⟩
  · exact h.congr ⟨rfl, rfl, rfl, rfl, rfl⟩
  · exact hblock
  · exact (hc hf).congr ⟨rfl, rfl, rfl, rfl⟩

theorem putMatch_good (htables : TablesOk f) (h : Follows file start f b i) {fixed : Bool}
    (hblock : f.blockType ≠ .noCompression) (hc : fixed = false → f.Coded)
    (hsize : 5 ≤ i.inDataSize) (out : Buffer UInt8) (outOffset litxlen : Nat) :
    Returns (f.putMatch b out fixed i outOffset litxlen) (Good file start) := by
  unfold Inflater.putMatch
  refine Returns.bind_any fun length => ?_
  refine Returns.bind (lookup_le (show ∀ x ∈ llExtraBits, x ≤ 5 by decide) _) fun moreBits hmore => ?_
  have hdumped := h.dumpBits (Nat.le_trans hmore hsize)
  refine Returns.bind (hdumped.needBits (show MAX_BITS ≤ 24 by decide)) ?_
  rintro i₁ ⟨-, hsize₁, h₁⟩
  refine Returns.bind (nextDistance_dumps hc h₁.small hsize₁) fun r hr => ?_
  split
  · exact Returns.pure (Good.error htables)
  · case _ d0 i₂ =>
    obtain ⟨l, hl, rfl⟩ := hr d0 i₂ rfl
    have h₂ := h₁.dumpBits (Nat.le_trans hl hsize₁)
    split
    · exact Returns.pure (Good.error htables)
    · refine Returns.bind (h₂.needBits (show MAX_ZIP_EXTRA_DISTANCE_BITS ≤ 24 by decide)) ?_
      rintro i₃ ⟨-, hsize₃, h₃⟩
      refine Returns.bind_any fun distance => ?_
      refine Returns.bind (lookup_le (show ∀ x ∈ distExtraBits, x ≤ 13 by decide) _)
        fun moreBits' hmore' => ?_
      have h₄ := h₃.dumpBits (Nat.le_trans hmore' hsize₃)
      dsimp only
      split
      · exact Returns.pure (Good.error htables)
      · split
        · exact Returns.pure (Good.error htables)
        · refine Returns.bind_any fun out' => Returns.pure ?_
          exact nextIteration_good' htables h₄ hblock hc out' _ _

theorem putLiteral_good (htables : TablesOk f) (h : Follows file start f b i) {fixed : Bool}
    (hblock : f.blockType ≠ .noCompression) (hc : fixed = false → f.Coded) (out : Buffer UInt8)
    (outOffset litxlen : Nat) :
    Returns (f.putLiteral out fixed i outOffset litxlen) (Good file start) := by
  unfold Inflater.putLiteral
  dsimp only
  split
  · exact Returns.pure (Good.error htables)
  · refine Returns.bind_any fun out' => Returns.pure ?_
    exact nextIteration_good' htables h hblock hc out' _ _

/-- **An iteration** keeps the input at the file. -/
theorem inflateHuffman_good (htables : TablesOk f) (h : Follows file start f b i) {fixed : Bool}
    (hblock : f.blockType ≠ .noCompression) (hc : fixed = false → f.Coded) (outOffset : Nat) :
    Returns (f.inflateHuffman raw fixed i outOffset) (Good file start) := by
  unfold Inflater.inflateHuffman
  split
  · obtain ⟨g, b', hrefill, hsame, hblock', hg⟩ := h.refillInput raw
    rw [hrefill]
    refine Returns.pure ?_
    exact Good.stored (htables.congr hsame) hg (hblock' ▸ hblock) outOffset
  · refine returns_deref h.inBuffer (Returns.bind_any fun out => ?_)
    refine Returns.bind (h.needBits (show MAX_BITS + MAX_ZIP_EXTRA_LENGTH_BITS ≤ 24 by decide)) ?_
    rintro i₁ ⟨-, hsize₁, h₁⟩
    have hsize₁ : 20 ≤ i₁.inDataSize := hsize₁
    refine Returns.bind (nextLitxlen_dumps hc h₁.small (by omega)) fun r hr => ?_
    split
    · exact Returns.pure (Good.error htables)
    · case _ litxlen i₂ =>
      obtain ⟨l, hl, rfl⟩ := hr litxlen i₂ rfl
      have h₂ := h₁.dumpBits (show l ≤ i₁.inDataSize by omega)
      split
      · exact putLiteral_good htables h₂ hblock hc out outOffset litxlen
      · split
        · refine Returns.pure ?_
          refine @Good.stored file start _ b _ ?_ ?_ ?_ outOffset
          · exact htables.congr ⟨rfl, rfl, rfl, rfl⟩
          · exact h₂.congr ⟨rfl, rfl, rfl, rfl, rfl⟩
          · exact nofun
        · split
          · exact Returns.pure (Good.error htables)
          · apply putMatch_good htables h₂ hblock hc
            show 5 ≤ i₁.inDataSize - l
            omega

/-! ## Headers and code lengths -/

theorem nextBits_lt (i : In) (j : Nat) : i.nextBits j < 2 ^ j := Nat.mod_lt _ (Nat.two_pow_pos j)

/-- The bytes that a few bits take. -/
theorem Follows.needBits_few (h : Follows file start f b i) {j most : Nat} (hj : j ≤ 24)
    (hmost : j + 7 ≤ 8 * most + 7) :
    Returns (i.needBits b j) fun i' => Follows file start f b i' ∧ j ≤ i'.inDataSize ∧
      i'.inLength = i.inLength ∧ i'.inOffset ≤ i.inOffset + most := by
  refine (h.needBits hj).mono ?_
  rintro i' ⟨rfl, hsize, hfollows⟩
  refine ⟨hfollows, hsize, rfl, ?_⟩
  show i.inOffset + bytesFor i.inDataSize j ≤ i.inOffset + most
  unfold bytesFor
  omega

/-- The check of the input, and what comes behind it. -/
theorem Follows.returns_checkInput {α : Type} {P : α → Prop} (h : Follows file start f b i)
    (htables : TablesOk f) {k : Inflater × In → Except MemFault α}
    (hk : ∀ g b' i', TablesOk g → g.blockType = f.blockType → Follows file start g b' i' →
      i'.inOffset < i'.inLength → i'.inDataSize = i.inDataSize → Returns (k (g, i')) P) :
    Returns (f.checkInput raw i >>= k) P := by
  obtain ⟨g, b', i', hcheck, hsame, hblock, hg, hlow, hi'⟩ := h.checkInput raw
  rw [hcheck]
  refine hk g b' i' (htables.congr hsame) hblock hg hlow ?_
  rw [hi']

theorem decodeHeader_good (htables : TablesOk f) (h : Follows file start f b (f.input b))
    (hblock : f.blockType = .dynaHuffman) (hlow : (f.input b).inOffset ≤ (f.input b).inLength) :
    Returns f.decodeHeader (Good file start) := by
  unfold Inflater.decodeHeader
  refine returns_loadIn h (returns_deref h.inBuffer ?_)
  refine Returns.bind (h.needBits_few (show 14 ≤ 24 by decide) (show 14 + 7 ≤ 8 * 2 + 7 by decide)) ?_
  rintro i ⟨hi, hsize, hlength, hoffset⟩
  refine Returns.pure ⟨htables, fun _ => ⟨b, ?_, hblock, ?_, ?_, ?_, ?_, ?_⟩⟩
  · exact ((hi.dumpBits (show 5 ≤ i.inDataSize by omega)).dumpBits
      (show 5 ≤ i.inDataSize - 5 by omega)).dumpBits (show 4 ≤ i.inDataSize - 5 - 5 by omega)
  · exact Nat.le_add_right 4 _
  · have hlt := nextBits_lt i 5
    show 257 + i.nextBits 5 ≤ 288
    omega
  · have hlt := nextBits_lt (i.dumpBits 5) 5
    show 1 + (i.dumpBits 5).nextBits 5 ≤ 32
    omega
  · show i.inOffset ≤ i.inLength + 2
    omega
  · exact fun hlt => absurd hlt (Nat.lt_irrefl 0)

theorem decodeCodeLengthCode_good (htables : TablesOk f) {d : Dynamic} {k : Nat}
    (h : Follows file start f b d.input) (hat : AtPoint f d.input (.codeLengthCode d k))
    (heuristic : Bool) :
    Returns (f.decodeCodeLengthCode raw heuristic d k) (Good file start) := by
  obtain ⟨hblock, hclen, hlit, hdist, hoffset, hlater⟩ := hat
  unfold Inflater.decodeCodeLengthCode
  split
  · refine returns_deref h.inBuffer ?_
    refine Returns.bind (h.needBits_few (show 3 ≤ 24 by decide) (show 3 + 7 ≤ 8 * 1 + 7 by decide)) ?_
    rintro i ⟨hi, hsize, -, -⟩
    refine hi.returns_checkInput htables fun g b' i' hg hblock' hi' hlow hsize' => ?_
    refine Returns.bind_any fun idx => Returns.bind_any fun codelen => Returns.pure ?_
    refine ⟨hg, fun _ => ⟨b', hi'.dumpBits (by omega), hblock'.trans hblock, hclen, hlit, hdist, ?_, ?_⟩⟩
    · show i'.inOffset ≤ i'.inLength + 2
      omega
    · exact fun _ => hlow
  · case isFalse hend =>
    refine Returns.bind_any fun lens => Returns.bind_any fun ccodes => Returns.pure ?_
    exact ⟨htables, fun _ => ⟨b, h, hblock, hlit, hdist, hlater (by omega)⟩⟩

theorem repeatLength_good (htables : TablesOk f) {d : Dynamic} (h : Follows file start f b i)
    (hblock : f.blockType = .dynaHuffman) (hlit : d.hlit ≤ 288) (hdist : d.hdist ≤ 32)
    (hlow : i.inOffset < i.inLength) (hsize : 7 ≤ i.inDataSize) {val : Nat} (hval : val ≤ 18)
    (lens : List Nat) (ccodes : Buffer Nat) (codePtr : Nat) :
    Returns (f.repeatLength d lens ccodes codePtr val i) (Good file start) := by
  have hbits : (if val = 18 then 7 else val - 14) ≤ 7 := by
    split
    · exact Nat.le_refl 7
    · omega
  have h' := h.dumpBits (Nat.le_trans hbits hsize)
  unfold Inflater.repeatLength
  dsimp only
  split
  · split
    · exact Returns.pure (Good.error htables)
    · refine Returns.bind_any fun previous => Returns.bind_any fun codelen => Returns.pure ?_
      exact ⟨htables, fun _ => ⟨b, h', hblock, hlit, hdist, hlow⟩⟩
  · exact Returns.pure ⟨htables, fun _ => ⟨b, h', hblock, hlit, hdist, hlow⟩⟩

/-- An entry of a table takes at most 15 bits. -/
theorem getEntry_dumps (i : In) (table : Buffer Nat) :
    Returns (i.getEntry table) fun r => ∀ s i', r = some (s, i') →
      ∃ l, l ≤ 15 ∧ i' = i.dumpBits l := by
  unfold In.getEntry
  refine Returns.bind_any fun huff => ?_
  split
  · exact Returns.pure fun s i' h => nomatch h
  · refine Returns.pure fun s i' h => ?_
    obtain ⟨-, rfl⟩ := Prod.mk.inj (Option.some.inj h)
    exact ⟨_, Nat.and_le_right, rfl⟩

/-- The code lengths of a block are those of codes. -/
def CodesFit (d : Dynamic) : Prop :=
  (∀ lens, d.codelen.slice 0 d.hlit = .ok lens → Fits 15 lens) ∧
    ∀ lens, d.codelen.slice d.hlit d.hdist = .ok lens → Fits 15 lens

theorem makeCodeTable_ok {lens : List Nat} (hfits : Fits 15 lens) (heuristic : Bool)
    {maxQuickBits : Nat} (hquick : 1 ≤ maxQuickBits ∧ maxQuickBits ≤ 14)
    (hsmall : lens.length * 2 ^ (14 - maxQuickBits) + 2 ^ maxQuickBits ≤ 9728)
    (hcount : lens.length ≤ 288) :
    Returns (makeCodeTable heuristic lens maxQuickBits) (Decodes lens) := by
  obtain ⟨table, hmake, hd⟩ := makeCodeTable_decodes hfits hquick hsmall (by omega) heuristic
  intro table' hmake'
  obtain rfl := Except.ok.inj (hmake.symm.trans hmake')
  exact hd

theorem decodeCodeLengths_good (htables : TablesOk f) {d : Dynamic} {lens : List Nat}
    {ccodes : Buffer Nat} {codePtr : Nat} (h : Follows file start f b d.input)
    (hat : AtPoint f d.input (.codeLengths d lens ccodes codePtr))
    (hcodes : d.hlit + d.hdist ≤ codePtr → CodesFit d) (heuristic : Bool) :
    Returns (f.decodeCodeLengths raw heuristic d lens ccodes codePtr) (Good file start) := by
  obtain ⟨hblock, hlit, hdist, hlow⟩ := hat
  unfold Inflater.decodeCodeLengths
  split
  · refine returns_deref h.inBuffer ?_
    refine Returns.bind (h.needBits_few (show MAX_BITS + 7 ≤ 24 by decide)
      (show MAX_BITS + 7 + 7 ≤ 8 * 3 + 7 by decide)) ?_
    rintro i ⟨hi, hsize, -, -⟩
    have hsize : 22 ≤ i.inDataSize := hsize
    refine Returns.bind (getEntry_dumps i ccodes) fun r hr => ?_
    split
    · exact Returns.pure (Good.error htables)
    · case _ val i₁ =>
      obtain ⟨l, hl, rfl⟩ := hr val i₁ rfl
      have hi₁ := hi.dumpBits (show l ≤ i.inDataSize by omega)
      have hleft : (i.dumpBits l).inDataSize = i.inDataSize - l := rfl
      refine hi₁.returns_checkInput htables fun g b' i' hg hblock' hi' hlow' hsize' => ?_
      dsimp only
      split
      · refine Returns.bind_any fun codelen => Returns.pure ?_
        exact ⟨hg, fun _ => ⟨b', hi', hblock'.trans hblock, hlit, hdist, hlow'⟩⟩
      · split
        · exact repeatLength_good hg hi' (hblock'.trans hblock) hlit hdist hlow' (by omega)
            ‹_› lens ccodes codePtr
        · exact Returns.pure (Good.error hg)
  · case isFalse hend =>
    obtain ⟨hfits, hfits'⟩ := hcodes (by omega)
    refine Returns.bind (Q := fun xs => xs.length = d.hlit ∧ Fits 15 xs)
      (fun xs hxs => ⟨Buffer.length_of_slice hxs, hfits xs hxs⟩) ?_
    rintro litLens ⟨hlitLength, hlitFits⟩
    refine Returns.bind (makeCodeTable_ok hlitFits heuristic
      (show 1 ≤ MAX_QUICK_LXL ∧ MAX_QUICK_LXL ≤ 14 by decide) (by
        show litLens.length * 2 ^ 5 + 2 ^ 9 ≤ 9728
        omega) (by omega)) fun lcodes hlcodes => ?_
    refine Returns.bind (Q := fun xs => xs.length = d.hdist ∧ Fits 15 xs)
      (fun xs hxs => ⟨Buffer.length_of_slice hxs, hfits' xs hxs⟩) ?_
    rintro distLens ⟨hdistLength, hdistFits⟩
    refine Returns.bind (makeCodeTable_ok hdistFits heuristic
      (show 1 ≤ MAX_QUICK_CXD ∧ MAX_QUICK_CXD ≤ 14 by decide) (by
        show distLens.length * 2 ^ 8 + 2 ^ 6 ≤ 9728
        omega) (by omega)) fun dcodes hdcodes => ?_
    refine Returns.pure ⟨⟨?_, ?_⟩, fun _ => ⟨b, ?_, fun hno => ?_⟩⟩
    · intro table htable
      obtain rfl := Option.some.inj htable
      exact ⟨hlitFits, hlcodes⟩
    · intro table htable
      obtain rfl := Option.some.inj htable
      exact ⟨hdistFits, hdcodes⟩
    · have hinput : (f.storeIn d.input).input b = d.input :=
        @Inflater.input_storeIn f b d.input h.inLength.2.1
      show Follows file start _ b ((f.storeIn d.input).input b)
      rw [hinput]
      exact h.congr ⟨rfl, rfl, rfl, rfl, rfl⟩
    · have hno : f.blockType = .noCompression := hno
      rw [hblock] at hno
      cases hno

/-! ## The machine -/

theorem blockHeader_good (htables : TablesOk f) (h : Follows file start f b (f.input b)) :
    Returns (f.blockHeader raw) (Good file start) := by
  unfold Inflater.blockHeader
  refine returns_loadIn h (h.returns_checkInput htables fun g b' i hg _ hi hlow _ => ?_)
  refine returns_deref hi.inBuffer ?_
  refine Returns.bind (hi.needBits_few (show 3 ≤ 24 by decide) (show 3 + 7 ≤ 8 * 1 + 7 by decide)) ?_
  rintro i' ⟨hi', hsize, hlength, hoffset⟩
  have hdumped := hi'.dumpBits hsize
  have hstored : ∀ g₁ : Inflater, SameInput g g₁ → SameCodes g g₁ →
      Good file start (g₁.storeIn (i'.dumpBits 3), .switch) ∧ (g₁.blockType = .dynaHuffman →
        Good file start (g₁.storeIn (i'.dumpBits 3), .tables)) := by
    intro g₁ hsame hcodes
    have hinput : (g₁.storeIn (i'.dumpBits 3)).input b' = i'.dumpBits 3 :=
      @Inflater.input_storeIn g₁ b' (i'.dumpBits 3) hdumped.inLength.2.1
    have hle : ((g₁.storeIn (i'.dumpBits 3)).input b').inOffset ≤
        ((g₁.storeIn (i'.dumpBits 3)).input b').inLength := by
      rw [hinput]
      show i'.inOffset ≤ i'.inLength
      omega
    have hfollows : Follows file start (g₁.storeIn (i'.dumpBits 3)) b'
        ((g₁.storeIn (i'.dumpBits 3)).input b') := by
      rw [hinput]
      exact (hdumped.congr hsame).congr ⟨rfl, rfl, rfl, rfl, rfl⟩
    have htables' : TablesOk (g₁.storeIn (i'.dumpBits 3)) :=
      (hg.congr hcodes).congr ⟨rfl, rfl, rfl, rfl⟩
    refine ⟨⟨htables', fun _ => ⟨b', hfollows, fun _ => ?_⟩⟩, fun hdyna => ⟨htables', fun _ =>
      ⟨b', hfollows, hdyna, ?_⟩⟩⟩
    · exact hle
    · exact hle
  refine Returns.pure ?_
  obtain ⟨hswitch, htable⟩ := hstored { g with
    lastBlock := g.lastBlock || decide (i'.nextBits 3 % 2 = 1)
    blockType := BlockType.ofBits (i'.nextBits 3 >>> 1) } ⟨rfl, rfl, rfl, rfl, rfl⟩ ⟨rfl, rfl, rfl, rfl⟩
  dsimp only
  split
  · case isTrue hdyna => exact htable hdyna
  · exact hswitch

/-- The `switch` of `do_inflate`. -/
theorem doInflate_good (hgood : Good file start (f, .switch)) :
    Returns (f.doInflate raw) (Good file start) := by
  obtain ⟨htables, hinput⟩ := hgood
  obtain ⟨b, hfollows, hat⟩ := hinput nofun
  have h : Follows file start f b (f.input b) := hfollows
  unfold Inflater.doInflate
  split
  · case _ hblock =>
    split
    · refine Returns.ok ⟨htables, fun _ => ⟨b, h, fun hno => ?_⟩⟩
      have hno : f.blockType = .noCompression := hno
      rw [hblock] at hno
      cases hno
    · exact blockHeader_good htables h
  · exact Returns.ok (Good.error htables)
  · case _ hblock =>
    refine Returns.bind (inflateStored_good htables h (hat hblock)) fun r hr => ?_
    exact Returns.pure hr
  · case _ hblock =>
    refine returns_loadIn h (Returns.bind_any fun _ => Returns.pure ?_)
    have hcompressed : f.blockType ≠ .noCompression := fun hno => nomatch hblock.symm.trans hno
    exact ⟨htables, fun _ => ⟨b, h, hcompressed, nofun⟩⟩
  · case _ hblock =>
    refine Returns.bind (Q := fun c => f.lengthBuffer = some c) ?_ fun lcodes hl => ?_
    · intro c hc
      cases hbuffer : f.lengthBuffer with
      | none => rw [hbuffer] at hc; cases hc
      | some c' => rw [hbuffer] at hc; exact congrArg some (Except.ok.inj hc)
    · refine Returns.bind (Q := fun c => f.distanceBuffer = some c) ?_ fun dcodes hd => ?_
      · intro c hc
        cases hbuffer : f.distanceBuffer with
        | none => rw [hbuffer] at hc; cases hc
        | some c' => rw [hbuffer] at hc; exact congrArg some (Except.ok.inj hc)
      · refine returns_loadIn h (Returns.bind_any fun _ => Returns.pure ?_)
        have hcompressed : f.blockType ≠ .noCompression := fun hno => nomatch hblock.symm.trans hno
        refine ⟨htables, fun _ => ⟨b, h, hcompressed, fun _ => ?_⟩⟩
        exact ⟨⟨lcodes, hl, htables.lengths lcodes hl⟩, ⟨dcodes, hd, htables.distances dcodes hd⟩⟩

/-- What the callers of `do_inflate` do leaves the input alone. -/
theorem Good.caller (h : Good file start (f, .switch)) {point : Point}
    (hpoint : ∀ b, inputAt g b point = g.input b)
    (hat : ∀ i, AtPoint g i point ↔ (g.blockType = .noCompression → i.inOffset ≤ i.inLength))
    (hsame : SameInput f g) (hcodes : SameCodes f g) (hblock : g.blockType = f.blockType)
    (hinput : ∀ b, g.input b = f.input b) : Good file start (g, point) := by
  obtain ⟨htables, hfollows⟩ := h
  obtain ⟨b, hb, hswitch⟩ := hfollows nofun
  refine ⟨htables.congr hcodes, fun _ => ⟨b, ?_, ?_⟩⟩
  · show Follows file start g b (inputAt g b point)
    rw [hpoint, hinput]
    exact hb.congr hsame
  · apply (hat _).2
    rw [hpoint, hinput, hblock]
    exact hswitch

theorem deliver_good (h : Good file start (f, .switch)) (count : Nat) (dest : List UInt8) :
    Returns (f.deliver raw count dest) fun m => Good file start (m.inflater, m.point) := by
  unfold Inflater.deliver
  refine Returns.bind_any fun out => ?_
  dsimp only
  split
  · refine Returns.bind_any fun bytes => Returns.pure ?_
    exact h.caller (fun _ => rfl) (fun _ => Iff.rfl) ⟨rfl, rfl, rfl, rfl, rfl⟩ ⟨rfl, rfl, rfl, rfl⟩ rfl
      fun _ => rfl
  · refine Returns.bind_any fun bytes => ?_
    split
    · refine Returns.bind_any fun newOutBuffer => Returns.pure ?_
      exact h.caller (fun _ => rfl) (fun _ => Iff.rfl) ⟨rfl, rfl, rfl, rfl, rfl⟩ ⟨rfl, rfl, rfl, rfl⟩ rfl
        fun _ => rfl
    · refine Returns.pure ?_
      exact h.caller (fun _ => rfl) (fun _ => Iff.rfl) ⟨rfl, rfl, rfl, rfl, rfl⟩ ⟨rfl, rfl, rfl, rfl⟩ rfl
        fun _ => rfl

/-- A machine whose input follows the file. -/
def Machine.Good (file : File) (start : Nat) (m : Machine) : Prop :=
  Inflate.Good file start (m.inflater, m.point)

/-- The stream is well formed as far as the step from `m` looks at it: no error has been returned,
and code lengths are those of codes. -/
structure Machine.WellFormed (m : Machine) : Prop where
  noError : m.point ≠ .returned .error
  codes : ∀ d lens ccodes codePtr, m.point = .codeLengths d lens ccodes codePtr →
    d.hlit + d.hdist ≤ codePtr → CodesFit d

/-- **A step of the machine.** -/
theorem Machine.tick_good {m : Machine} (heuristic : Bool) (h : m.Good file start)
    (hwell : m.WellFormed) : Returns (m.tick heuristic raw) (Machine.Good file start) := by
  have goOn : ∀ {x : Except MemFault (Inflater × Point)}, Returns x (Inflate.Good file start) →
      Returns (do
        let r ← x
        return { m with inflater := r.1, point := r.2 }) (Machine.Good file start) := fun hx =>
    Returns.bind hx fun r hr => Returns.pure hr
  obtain ⟨hnoError, hcodes⟩ := hwell
  unfold Machine.Good at h
  obtain ⟨b, hfollows, hat⟩ := h.input hnoError
  unfold Machine.tick
  dsimp only
  split
  case h_1 status result hpoint => exact Returns.ok h
  case h_2 hpoint =>
    rw [hpoint] at h
    exact goOn (doInflate_good h)
  case h_3 hpoint =>
    rw [hpoint] at hfollows hat
    exact goOn (decodeHeader_good h.tables hfollows hat.1 hat.2)
  case h_4 d k hpoint =>
    rw [hpoint] at hfollows hat
    exact goOn (decodeCodeLengthCode_good h.tables hfollows hat heuristic)
  case h_5 d lens ccodes codePtr hpoint =>
    rw [hpoint] at hfollows hat
    exact goOn (decodeCodeLengths_good h.tables hfollows hat (hcodes d lens ccodes codePtr hpoint)
      heuristic)
  case h_6 fixed i outOffset hpoint =>
    rw [hpoint] at hfollows hat
    exact goOn (inflateHuffman_good h.tables hfollows hat.1 hat.2 outOffset)
  case h_7 status hpoint =>
    have hswitch : Inflate.Good file start (m.inflater, .switch) := by
      rw [hpoint] at hfollows hat
      exact ⟨h.tables, fun _ => ⟨b, hfollows, hat⟩⟩
    have hsame : ∀ {point : Point}, (∀ b, inputAt m.inflater b point = m.inflater.input b) →
        (∀ i, AtPoint m.inflater i point ↔
          (m.inflater.blockType = .noCompression → i.inOffset ≤ i.inLength)) →
        Inflate.Good file start (m.inflater, point) := fun hpoint hat =>
      hswitch.caller hpoint hat ⟨rfl, rfl, rfl, rfl, rfl⟩ (SameCodes.refl _) rfl fun _ => rfl
    split
    · exact Returns.ok hswitch
    · refine Returns.bind (checkOutput_array m.inflater _) fun point hpoint' => Returns.pure ?_
      obtain ⟨a, rfl⟩ := hpoint'
      exact hsame (fun _ => rfl) fun _ => Iff.rfl
    · exact deliver_good hswitch _ _
    · exact Returns.ok (hswitch.caller (fun _ => rfl) (fun _ => Iff.rfl) ⟨rfl, rfl, rfl, rfl, rfl⟩
        ⟨rfl, rfl, rfl, rfl⟩ rfl fun _ => rfl)
    · exact absurd hpoint hnoError

end FroggyKVM.Inflate
