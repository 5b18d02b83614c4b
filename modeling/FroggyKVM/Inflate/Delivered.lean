/-
# FroggyKVM.Inflate.Delivered — a decoder's account of the bytes that remain.

No step of `do_inflate` touches `bytes_remain`, and a request in progress has never more bytes
delivered and to deliver than remain.  **In every run in which no request fails, the bytes delivered
are those that do not remain; a request that fails makes one byte more remain.**
-/
import FroggyKVM.Inflate.FileDecoder
import FroggyKVM.Lib.Lts
import FroggyKVM.Lib.Returns

namespace FroggyKVM.Inflate

/-! ## What the steps leave alone -/

/-- The counts of `g` are those of `f`. -/
structure Keeps (f g : Inflater) : Prop where
  bytesRemain : g.bytesRemain = f.bytesRemain
  fileSize : g.fileSize = f.fileSize

theorem Keeps.refl (f : Inflater) : Keeps f f := ⟨rfl, rfl⟩

/-- The counts are kept, and the request is not over. -/
structure Works (f : Inflater) (r : Inflater × Point) : Prop where
  keeps : Keeps f r.1
  busy : ∀ status result, r.2 ≠ .idle status result

namespace Inflater

variable {f : Inflater} {raw : Nat → UInt8}

theorem getBytesRaw_keeps (dest : Buffer UInt8) (i count : Nat) :
    Returns (f.getBytesRaw dest i count) fun r => Keeps f r.1 := by
  unfold getBytesRaw
  split
  · exact Returns.bind_any fun _ => Returns.pure ⟨rfl, rfl⟩
  · exact Returns.error

theorem refillInput_keeps (processed : Nat) :
    Returns (f.refillInput raw processed) (Keeps f) := by
  unfold refillInput
  split
  · exact Returns.ok (Keeps.refl f)
  · refine Returns.bind_any fun inBuf => ?_
    split
    · refine Returns.bind_any fun newInBuffer => ?_
      refine Returns.bind (getBytesRaw_keeps newInBuffer _ processed) fun r hr => ?_
      exact Returns.pure ⟨hr.bytesRemain, hr.fileSize⟩
    · exact Returns.error

theorem checkInput_keeps (i : In) : Returns (f.checkInput raw i) fun r => Keeps f r.1 := by
  unfold checkInput
  split
  · exact Returns.bind (refillInput_keeps i.inOffset) fun g hg => Returns.pure hg
  · exact Returns.pure (Keeps.refl f)

theorem copyStored_keeps (b out : Buffer UInt8) (i : In) (outOffset length : Nat) :
    Returns (f.copyStored b out i outOffset length) fun r => Keeps f r.1 := by
  unfold copyStored
  have hnone : Returns (pure (f, out, 0) : Except MemFault _) fun r => Keeps f r.1 :=
    Returns.pure (Keeps.refl f)
  dsimp only
  -- with bytes from the file or without, the rest is the same
  split
  · refine Returns.bind (getBytesRaw_keeps out _ _) ?_
    intro r hr
    split
    · exact Returns.pure ⟨hr.bytesRemain, hr.fileSize⟩
    · exact Returns.bind_any fun _ => Returns.pure ⟨hr.bytesRemain, hr.fileSize⟩
  · refine Returns.bind hnone ?_
    intro r hr
    split
    · exact Returns.pure ⟨hr.bytesRemain, hr.fileSize⟩
    · exact Returns.bind_any fun _ => Returns.pure ⟨hr.bytesRemain, hr.fileSize⟩

theorem inflateStored_keeps : Returns (f.inflateStored raw) fun r => Keeps f r.1 := by
  unfold inflateStored
  refine Returns.bind_any fun i => Returns.bind_any fun b => Returns.bind_any fun out =>
    Returns.bind_any fun i => ?_
  dsimp only
  split
  · exact Returns.pure (Keeps.refl f)
  · split
    · refine Returns.bind_any fun r => (copyStored_keeps b r.1 _ r.2 _).mono fun s hs => ?_
      exact ⟨hs.bytesRemain, hs.fileSize⟩
    · exact copyStored_keeps b out _ f.outOffset _

theorem nextIteration_works (fixed bufferFull : Bool) (i : In) (outOffset : Nat) :
    Works f (f.nextIteration fixed bufferFull i outOffset) := by
  unfold nextIteration
  split
  · exact ⟨⟨rfl, rfl⟩, nofun⟩
  · exact ⟨Keeps.refl f, nofun⟩

theorem putLiteral_works (out : Buffer UInt8) (fixed : Bool) (i : In) (outOffset litxlen : Nat) :
    Returns (f.putLiteral out fixed i outOffset litxlen) (Works f) := by
  unfold putLiteral
  dsimp only
  split
  · exact Returns.pure ⟨Keeps.refl f, nofun⟩
  · refine Returns.bind_any fun out' => Returns.pure ?_
    have hnext := @nextIteration_works { f with outBuffer := some out' } fixed
      (decide (f.outLength out ≤ outOffset)) i (outOffset + 1)
    exact ⟨⟨hnext.keeps.bytesRemain, hnext.keeps.fileSize⟩, hnext.busy⟩

theorem putMatch_works (b out : Buffer UInt8) (fixed : Bool) (i : In) (outOffset litxlen : Nat) :
    Returns (f.putMatch b out fixed i outOffset litxlen) (Works f) := by
  unfold putMatch
  refine Returns.bind_any fun length => Returns.bind_any fun moreBits =>
    Returns.bind_any fun i => Returns.bind_any fun d => ?_
  split
  · exact Returns.pure ⟨Keeps.refl f, nofun⟩
  · split
    · exact Returns.pure ⟨Keeps.refl f, nofun⟩
    · refine Returns.bind_any fun i => Returns.bind_any fun distance =>
        Returns.bind_any fun moreBits => ?_
      dsimp only
      split
      · exact Returns.pure ⟨Keeps.refl f, nofun⟩
      · split
        · exact Returns.pure ⟨Keeps.refl f, nofun⟩
        · refine Returns.bind_any fun out' => Returns.pure ?_
          have hnext := fun full j offset =>
            @nextIteration_works { f with outBuffer := some out' } fixed full j offset
          exact ⟨⟨(hnext _ _ _).keeps.bytesRemain, (hnext _ _ _).keeps.fileSize⟩,
            (hnext _ _ _).busy⟩

theorem inflateHuffman_works (fixed : Bool) (i : In) (outOffset : Nat) :
    Returns (f.inflateHuffman raw fixed i outOffset) (Works f) := by
  unfold inflateHuffman
  split
  · refine Returns.bind (refillInput_keeps i.inOffset) fun g hg => Returns.pure ?_
    exact ⟨⟨hg.bytesRemain, hg.fileSize⟩, nofun⟩
  · refine Returns.bind_any fun b => Returns.bind_any fun out => Returns.bind_any fun i =>
      Returns.bind_any fun code => ?_
    split
    · exact Returns.pure ⟨Keeps.refl f, nofun⟩
    · split
      · exact putLiteral_works out fixed _ outOffset _
      · split
        · exact Returns.pure ⟨⟨rfl, rfl⟩, nofun⟩
        · split
          · exact Returns.pure ⟨Keeps.refl f, nofun⟩
          · exact putMatch_works b out fixed _ outOffset _

theorem decodeHeader_works : Returns f.decodeHeader (Works f) := by
  unfold decodeHeader
  refine Returns.bind_any fun i => Returns.bind_any fun b => Returns.bind_any fun i => ?_
  exact Returns.pure ⟨Keeps.refl f, nofun⟩

theorem decodeCodeLengthCode_works (heuristic : Bool) (d : Dynamic) (k : Nat) :
    Returns (f.decodeCodeLengthCode raw heuristic d k) (Works f) := by
  unfold decodeCodeLengthCode
  split
  · refine Returns.bind_any fun b => Returns.bind_any fun i =>
      Returns.bind (checkInput_keeps i) fun r hr => ?_
    refine Returns.bind_any fun idx => Returns.bind_any fun codelen => ?_
    exact Returns.pure ⟨hr, nofun⟩
  · refine Returns.bind_any fun lens => Returns.bind_any fun ccodes => ?_
    exact Returns.pure ⟨Keeps.refl f, nofun⟩

theorem repeatLength_works (d : Dynamic) (lens : List Nat) (ccodes : Buffer Nat)
    (codePtr val : Nat) (i : In) :
    Returns (f.repeatLength d lens ccodes codePtr val i) (Works f) := by
  unfold repeatLength
  dsimp only
  split
  · split
    · exact Returns.pure ⟨Keeps.refl f, nofun⟩
    · refine Returns.bind_any fun previous => Returns.bind_any fun codelen => ?_
      exact Returns.pure ⟨Keeps.refl f, nofun⟩
  · exact Returns.pure ⟨Keeps.refl f, nofun⟩

theorem decodeCodeLengths_works (heuristic : Bool) (d : Dynamic) (lens : List Nat)
    (ccodes : Buffer Nat) (codePtr : Nat) :
    Returns (f.decodeCodeLengths raw heuristic d lens ccodes codePtr) (Works f) := by
  unfold decodeCodeLengths
  split
  · refine Returns.bind_any fun b => Returns.bind_any fun i => Returns.bind_any fun code => ?_
    split
    · exact Returns.pure ⟨Keeps.refl f, nofun⟩
    · refine Returns.bind (checkInput_keeps _) fun r hr => ?_
      dsimp only
      split
      · exact Returns.bind_any fun codelen => Returns.pure ⟨hr, nofun⟩
      · split
        · refine (repeatLength_works d lens ccodes codePtr _ r.2).mono fun s hs => ?_
          exact ⟨⟨hs.keeps.bytesRemain.trans hr.bytesRemain,
            hs.keeps.fileSize.trans hr.fileSize⟩, hs.busy⟩
        · exact Returns.pure ⟨hr, nofun⟩
  · refine Returns.bind_any fun litLens => Returns.bind_any fun lcodes =>
      Returns.bind_any fun distLens => Returns.bind_any fun dcodes => ?_
    exact Returns.pure ⟨⟨rfl, rfl⟩, nofun⟩

theorem blockHeader_works : Returns (f.blockHeader raw) (Works f) := by
  unfold blockHeader
  refine Returns.bind_any fun i => Returns.bind (checkInput_keeps i) fun r hr => ?_
  refine Returns.bind_any fun b => Returns.bind_any fun i => Returns.pure ?_
  refine ⟨⟨hr.bytesRemain, hr.fileSize⟩, ?_⟩
  dsimp only
  split
  · nofun
  · nofun

/-- **No step of `do_inflate` touches the counts or ends the request.** -/
theorem doInflate_works : Returns (f.doInflate raw) (Works f) := by
  unfold doInflate
  split
  · split
    · exact Returns.ok ⟨Keeps.refl f, nofun⟩
    · exact blockHeader_works
  · exact Returns.ok ⟨Keeps.refl f, nofun⟩
  · exact Returns.bind inflateStored_keeps fun r hr => Returns.pure ⟨hr, nofun⟩
  · exact Returns.bind_any fun i => Returns.bind_any fun _ =>
      Returns.pure ⟨Keeps.refl f, nofun⟩
  · exact Returns.bind_any fun _ => Returns.bind_any fun _ => Returns.bind_any fun i =>
      Returns.bind_any fun _ => Returns.pure ⟨Keeps.refl f, nofun⟩

end Inflater

/-! ## Requests in progress -/

/-- The bytes delivered and to deliver of a request in progress are no more than remain. -/
def Pending (m : Machine) : Prop :=
  ∀ count dest, m.caller = .getBytes count dest → (∀ status result, m.point ≠ .idle status result) →
    (count : Int) + dest.length ≤ m.inflater.bytesRemain

theorem reportedBytes_nonneg (result : Int) : 0 ≤ reportedBytes result := by
  unfold reportedBytes
  split
  · assumption
  · exact Int.le_refl 0

theorem reportedBytes_natCast (n : Nat) : reportedBytes n = n := if_pos (Int.natCast_nonneg n)

theorem Machine.reported_nonneg (m : Machine) : 0 ≤ m.reported := by
  unfold Machine.reported
  split
  · exact reportedBytes_nonneg _
  · exact Int.le_refl 0

/-- A step takes from the bytes that remain what it reports, and no more than there are. -/
structure Settles (f : Inflater) (m : Machine) : Prop where
  fileSize : m.inflater.fileSize = f.fileSize
  remain : m.inflater.bytesRemain = f.bytesRemain - m.reported
  nonneg : 0 ≤ f.bytesRemain → 0 ≤ m.inflater.bytesRemain
  pending : Pending m

/-- A step that ends no request. -/
theorem Settles.of_busy {f : Inflater} {m : Machine} (hkeeps : Keeps f m.inflater)
    (hbusy : ∀ status result, m.point ≠ .idle status result) (hpending : Pending m) :
    Settles f m := by
  have hnone : m.reported = 0 := by
    unfold Machine.reported
    split
    · exact absurd ‹_› (hbusy _ _)
    · rfl
  refine ⟨hkeeps.fileSize, ?_, fun h => ?_, hpending⟩
  · rw [hnone, hkeeps.bytesRemain, Int.sub_zero]
  · rw [hkeeps.bytesRemain]
    exact h

/-- A request is over and has got `n` bytes. -/
theorem Settles.report {f : Inflater} {m : Machine} {n : Nat} {status : Status} {dest : List UInt8}
    (hfile : m.inflater.fileSize = f.fileSize)
    (hremain : m.inflater.bytesRemain = f.bytesRemain - n)
    (hpoint : m.point = .idle status (.count n dest)) (h : (n : Int) ≤ f.bytesRemain) :
    Settles f m := by
  refine ⟨hfile, ?_, fun _ => ?_, fun c d _ hbusy => absurd hpoint (hbusy _ _)⟩
  · rw [hremain, Machine.reported, hpoint]
    exact congrArg _ (reportedBytes_natCast n).symm
  · rw [hremain]
    omega

/-- **A round of the loop of `get_bytes`**: the request is over, with all the bytes it asked for, or
`do_inflate` is called for the bytes still missing. -/
theorem Inflater.deliver_settles {f : Inflater} (raw : Nat → UInt8) {count : Nat}
    {dest : List UInt8} (h : (count : Int) + dest.length ≤ f.bytesRemain) :
    Returns (f.deliver raw count dest) (Settles f) := by
  unfold Inflater.deliver
  refine Returns.bind_any fun out => ?_
  dsimp only
  split
  · refine Returns.bind_any fun bytes => Returns.pure ?_
    exact @Settles.report f _ (dest.length + count) .more (dest ++ bytes) rfl rfl rfl (by omega)
  · case isFalse hmore =>
    refine Returns.bind (fun _ h => Buffer.length_of_slice h) fun bytes hbytes => ?_
    have hpending : ∀ m : Machine, m.inflater.bytesRemain = f.bytesRemain →
        m.caller = .getBytes (count - (f.outOffset - f.outDumped)) (dest ++ bytes) →
        Pending m := by
      intro m hremain hcaller c d hcd _
      rw [hcaller] at hcd
      obtain ⟨rfl, rfl⟩ := Caller.getBytes.inj hcd
      rw [hremain, List.length_append, hbytes]
      omega
    split
    · refine Returns.bind_any fun newOutBuffer => Returns.pure ?_
      exact Settles.of_busy ⟨rfl, rfl⟩ nofun (hpending _ rfl rfl)
    · exact Returns.pure (Settles.of_busy ⟨rfl, rfl⟩ nofun (hpending _ rfl rfl))

/-- A step inside `do_inflate`. -/
theorem Works.settles {m : Machine} {r : Inflater × Point} (hr : Works m.inflater r)
    (hbusy : ∀ status result, m.point ≠ .idle status result) (h : Pending m) :
    Settles m.inflater { m with inflater := r.1, point := r.2 } := by
  refine Settles.of_busy hr.keeps hr.busy fun count dest hcaller _ => ?_
  show _ ≤ r.1.bytesRemain
  rw [hr.keeps.bytesRemain]
  exact h count dest hcaller hbusy

/-- `read_completely` ends with an array or none. -/
theorem checkOutput_array (f : Inflater) (status : Status) :
    Returns (f.checkOutput status) fun point => ∃ bytes, point = .idle status (.array bytes) := by
  unfold Inflater.checkOutput
  split
  · exact Returns.pure ⟨none, rfl⟩
  · split
    · refine Returns.bind_any fun out => Returns.bind_any fun bytes => ?_
      split
      · exact Returns.pure ⟨none, rfl⟩
      · exact Returns.pure ⟨some out, rfl⟩
    · exact Returns.pure ⟨f.outBuffer, rfl⟩

/-- **A step of the machine** that does not end a request of `get_bytes` with an error. -/
theorem Machine.tick_settles {m : Machine} (heuristic : Bool) (raw : Nat → UInt8)
    (hbusy : ∀ status result, m.point ≠ .idle status result) (h : Pending m)
    (hfine : ∀ count dest, m.caller = .getBytes count dest → m.point ≠ .returned .error) :
    Returns (m.tick heuristic raw) (Settles m.inflater) := by
  have goOn : ∀ {x : Except MemFault (Inflater × Point)}, Returns x (Works m.inflater) →
      Returns (do
        let r ← x
        return { m with inflater := r.1, point := r.2 }) (Settles m.inflater) := fun hx =>
    Returns.bind hx fun r hr => Returns.pure (hr.settles hbusy h)
  unfold Machine.tick
  dsimp only
  split
  case h_1 status result hpoint => exact absurd hpoint (hbusy status result)
  case h_2 => exact goOn Inflater.doInflate_works
  case h_3 => exact goOn Inflater.decodeHeader_works
  case h_4 d k hpoint => exact goOn (Inflater.decodeCodeLengthCode_works heuristic d k)
  case h_5 d lens ccodes codePtr hpoint =>
    exact goOn (Inflater.decodeCodeLengths_works heuristic d lens ccodes codePtr)
  case h_6 fixed i outOffset hpoint => exact goOn (Inflater.inflateHuffman_works fixed i outOffset)
  case h_7 status hpoint =>
    split
    · exact Returns.ok (@Works.settles m (m.inflater, .switch) ⟨Keeps.refl _, fun _ _ hne => Point.noConfusion hne⟩
        hbusy h)
    · refine Returns.bind (checkOutput_array m.inflater _) fun point hpoint' => Returns.pure ?_
      obtain ⟨a, rfl⟩ := hpoint'
      exact ⟨rfl, (Int.sub_zero _).symm, id, fun c d _ hbusy' => absurd rfl (hbusy' _ _)⟩
    · case _ count dest hcaller =>
      exact Inflater.deliver_settles raw (h count dest hcaller hbusy)
    · case _ count dest hcaller =>
      have hle := h count dest hcaller hbusy
      exact Returns.ok (@Settles.report _ _ dest.length .complete dest rfl rfl rfl (by omega))
    · case _ count dest hcaller => exact absurd hpoint (hfine count dest hcaller)

/-! ## The account -/

/-- Between 0 and all bytes remain, the others have been delivered, and the last request was for no
more than remained. -/
structure Accounted (s : Session) : Prop where
  nonneg : 0 ≤ s.decoder.bytesRemain
  le_fileSize : s.decoder.bytesRemain ≤ s.decoder.fileSize
  delivered : s.delivered = s.decoder.fileSize - s.decoder.bytesRemain
  asked : s.asked ≤ s.remained

/-- The invariant of the runs without a failure. -/
structure Sound (s : Session) : Prop extends Accounted s where
  pending : ∀ m, s.decoder = .inflater m → Pending m

theorem limit_le (bytesRemain : Int) (count : Nat) : limit bytesRemain count ≤ bytesRemain := by
  unfold limit
  split
  · exact Int.le_refl _
  · omega

theorem limit_nonneg {bytesRemain : Int} (h : 0 ≤ bytesRemain) (count : Nat) :
    0 ≤ limit bytesRemain count := by
  unfold limit
  split
  · exact h
  · exact Int.natCast_nonneg count

/-- What has settled is accounted for. -/
theorem Settles.sound {s s' : Session} {m m' : Machine} (hs : Sound s)
    (hd : s.decoder = .inflater m) (hd' : s'.decoder = .inflater m')
    (hm : Settles m.inflater m') (hdelivered : s'.delivered = s.delivered + m'.reported)
    (hasked : s'.asked ≤ s'.remained) : Sound s' := by
  have hnonneg := hs.nonneg
  have hle := hs.le_fileSize
  have hbytes := hs.delivered
  rw [hd] at hnonneg hle hbytes
  have hfile : s'.decoder.fileSize = m.inflater.fileSize := by
    rw [hd']
    exact hm.fileSize
  have hremain : s'.decoder.bytesRemain = m.inflater.bytesRemain - m'.reported := by
    rw [hd']
    exact hm.remain
  have hrest : 0 ≤ s'.decoder.bytesRemain := by
    rw [hd']
    exact hm.nonneg hnonneg
  have hreported := m'.reported_nonneg
  refine ⟨⟨hrest, ?_, ?_, hasked⟩, ?_⟩
  · rw [hremain, hfile]
    exact Int.le_trans (Int.sub_le_self _ hreported) hle
  · rw [hdelivered, hremain, hfile, hbytes]
    show m.inflater.fileSize - m.inflater.bytesRemain + m'.reported = _
    omega
  · intro m₁ hm₁
    obtain rfl : m' = m₁ := Decoder.inflater.inj (hd'.symm.trans hm₁)
    exact hm.pending

/-- A read of a stored entry that does not fail. -/
theorem Sound.read {heuristic : Bool} {s s' : Session} {d : FileDecoder} {count : Nat}
    {raw : Nat → UInt8} {bytesRead : Int} (hs : Sound s) (hd : s.decoder = .stored d)
    (hread : 0 ≤ bytesRead ∧ bytesRead ≤ max 0 (limit d.bytesRemain count))
    (hnext : s.next heuristic (.getBytes count raw bytesRead) = .ok s') : Sound s' := by
  obtain ⟨hnonneg, hle, hbytes, -⟩ := hs.toAccounted
  rw [hd] at hnonneg hle hbytes
  change 0 ≤ d.bytesRemain at hnonneg
  change d.bytesRemain ≤ d.fileSize at hle
  change s.delivered = d.fileSize - d.bytesRemain at hbytes
  unfold Session.next at hnext
  rw [hd] at hnext
  obtain rfl := Except.ok.inj hnext
  have hlimit := limit_le d.bytesRemain count
  have hreported : reportedBytes bytesRead = bytesRead := if_pos hread.1
  refine ⟨⟨?_, ?_, ?_, hlimit⟩, fun _ hm => nomatch hm⟩
  · show 0 ≤ d.bytesRemain - bytesRead
    omega
  · show d.bytesRemain - bytesRead ≤ d.fileSize
    omega
  · show s.delivered + reportedBytes bytesRead = d.fileSize - (d.bytesRemain - bytesRead)
    omega

/-- A request to an inflater. -/
theorem Sound.request {heuristic : Bool} {s s' : Session} {m : Machine} {count : Nat}
    {raw : Nat → UInt8} {bytesRead : Int} (hs : Sound s) (hd : s.decoder = .inflater m)
    (hnext : s.next heuristic (.getBytes count raw bytesRead) = .ok s') : Sound s' := by
  have hnonneg := hs.nonneg
  rw [hd] at hnonneg
  change 0 ≤ m.inflater.bytesRemain at hnonneg
  have hlimit := limit_le m.inflater.bytesRemain count
  have hlimit' := limit_nonneg hnonneg count
  unfold Session.next at hnext
  rw [hd] at hnext
  obtain ⟨m', hm', hnext⟩ := ok_of_bind hnext
  obtain rfl := Except.ok.inj hnext
  unfold Machine.getBytes at hm'
  dsimp only at hm'
  rw [if_pos hlimit'] at hm'
  have hsettles := @Inflater.deliver_settles m.inflater raw
    (limit m.inflater.bytesRemain count).toNat [] (by
      rw [Int.toNat_of_nonneg hlimit', List.length_nil]
      omega) m' hm'
  exact hsettles.sound hs hd rfl rfl hlimit

/-- A step of an inflater. -/
theorem Sound.tick {heuristic : Bool} {s s' : Session} {m : Machine} {raw : Nat → UInt8}
    (hs : Sound s) (hd : s.decoder = .inflater m)
    (hbusy : ∀ status result, m.point ≠ .idle status result)
    (hfine : ∀ count dest, m.caller = .getBytes count dest → m.point ≠ .returned .error)
    (hnext : s.next heuristic (.step raw) = .ok s') : Sound s' := by
  unfold Session.next at hnext
  rw [hd] at hnext
  obtain ⟨m', hm', hnext⟩ := ok_of_bind hnext
  obtain rfl := Except.ok.inj hnext
  have hsettles := Machine.tick_settles heuristic raw hbusy (hs.pending m hd) hfine m' hm'
  exact hsettles.sound hs hd rfl rfl hs.asked

/-- An exception. -/
theorem Sound.exception {heuristic : Bool} {s s' : Session} {f : Inflater} (hs : Sound s)
    (hremain : f.bytesRemain = s.decoder.bytesRemain) (hfile : f.fileSize = s.decoder.fileSize)
    (hnext : s.next heuristic (.exception f) = .ok s') : Sound s' := by
  unfold Session.next at hnext
  cases hd : s.decoder with
  | stored d =>
    rw [hd] at hnext
    obtain rfl := Except.ok.inj hnext
    exact hs
  | inflater m =>
    rw [hd] at hnext hremain hfile
    obtain rfl := Except.ok.inj hnext
    refine Settles.sound hs hd rfl ⟨hfile, ?_, ?_, ?_⟩ (Int.add_zero _).symm hs.asked
    · show f.bytesRemain = m.inflater.bytesRemain - 0
      rw [Int.sub_zero]
      exact hremain
    · intro h
      show 0 ≤ f.bytesRemain
      exact hremain ▸ h
    · intro count dest _ hbusy
      exact absurd rfl (hbusy _ _)

/-- **A step that does not fail keeps the account.** -/
theorem Sound.step {heuristic : Bool} {s s' : Session} {c : Call} (hs : Sound s)
    (hstep : s.Step heuristic c s') (hfine : ¬ s.Fails c) : Sound s' := by
  obtain ⟨hlegal, hnext⟩ := hstep
  cases c with
  | getBytes count raw bytesRead =>
    cases hd : s.decoder with
    | stored d =>
      unfold Session.Legal at hlegal
      rw [hd] at hlegal
      rcases hlegal with hfail | hread
      · exact absurd ⟨d, hd, hfail⟩ hfine
      · exact hs.read hd hread hnext
    | inflater m => exact hs.request hd hnext
  | step raw =>
    obtain ⟨m, hd, hbusy⟩ := hlegal
    refine hs.tick hd hbusy (fun count dest hcaller herr => ?_) hnext
    exact hfine ⟨m, count, dest, hd, hcaller, herr⟩
  | exception f => exact hs.exception hlegal.1 hlegal.2 hnext

/-- **A request that fails leaves one byte more than there is.** -/
theorem not_accounted_of_fails {heuristic : Bool} {s s' : Session} {c : Call} (hs : Accounted s)
    (hstep : s.Step heuristic c s') (hfail : s.Fails c) : ¬ Accounted s' := by
  intro hs'
  have hbytes := hs.delivered
  have hbytes' := hs'.delivered
  obtain ⟨-, hnext⟩ := hstep
  cases c with
  | getBytes count raw bytesRead =>
    obtain ⟨d, hd, rfl⟩ := hfail
    simp only [Session.next, hd] at hnext
    obtain rfl := Except.ok.inj hnext
    rw [hd] at hbytes
    have hbytes' : s.delivered + 0 = d.fileSize - (d.bytesRemain - -1) := hbytes'
    have hbytes : s.delivered = d.fileSize - d.bytesRemain := hbytes
    omega
  | step raw =>
    obtain ⟨m, count, dest, hd, hcaller, hpoint⟩ := hfail
    have htick : m.tick heuristic raw = .ok { m with
        inflater := { m.inflater with bytesRemain := m.inflater.bytesRemain - -1 }
        point := .idle .error (.count (-1) dest) } := by
      unfold Machine.tick
      rw [hpoint, hcaller]
      rfl
    simp only [Session.next, hd, htick] at hnext
    obtain rfl := Except.ok.inj hnext
    rw [hd] at hbytes
    have hbytes' : s.delivered + 0 = m.inflater.fileSize - (m.inflater.bytesRemain - -1) := hbytes'
    have hbytes : s.delivered = m.inflater.fileSize - m.inflater.bytesRemain := hbytes
    omega
  | exception f => exact hfail

/-! ## Runs -/

/-- The steps that do not fail. -/
def Session.SafeStep (heuristic : Bool) : Session → Call → Session → Prop :=
  Lts.Guarded (Session.Step heuristic) fun s c => ¬ s.Fails c

theorem Starts.sound {s : Session} (h : Starts s) (hsize : 0 ≤ s.decoder.fileSize) : Sound s := by
  obtain ⟨hdelivered, hasked, hremained⟩ := h.fresh
  refine ⟨⟨?_, ?_, ?_, ?_⟩, ?_⟩
  · rw [h.remain]
    exact hsize
  · exact Int.le_of_eq h.remain
  · rw [hdelivered, h.remain, Int.sub_self]
  · rw [hasked, hremained]
  · intro m hm count dest _ hbusy
    obtain ⟨status, result, hidle⟩ := h.idle m hm
    exact absurd hidle (hbusy status result)

theorem Sound.run {heuristic : Bool} {s s' : Session} {cs : List Call}
    (hrun : Lts.Run (Session.SafeStep heuristic) s cs s') (h : Sound s) : Sound s' :=
  hrun.invariant (fun _ _ _ hs hstep => hs.step hstep.2 hstep.1) h

theorem Session.Step.unique {heuristic : Bool} (s : Session) (c : Call) (s' s'' : Session)
    (h : s.Step heuristic c s') (h' : s.Step heuristic c s'') : s' = s'' :=
  Except.ok.inj (h.2.symm.trans h'.2)

/-- The decoder keeps its account in all states that the run goes through. -/
def AccountedAlong (heuristic : Bool) (s₀ : Session) (cs : List Call) : Prop :=
  ∀ pre s, pre <+: cs → Lts.Run (Session.Step heuristic) s₀ pre s → Accounted s

/-- No step of a run that keeps the account fails. -/
theorem safe_of_accounted {heuristic : Bool} {s s' : Session} {cs : List Call}
    (hrun : Lts.Run (Session.Step heuristic) s cs s') (h : AccountedAlong heuristic s cs) :
    Lts.Run (Session.SafeStep heuristic) s cs s' := by
  induction hrun with
  | nil s => exact .nil s
  | @cons s s₁ s' c cs hs hrest ih =>
    have hhere : Accounted s := h [] s (List.nil_prefix) (.nil s)
    have hthere : Accounted s₁ :=
      h [c] s₁ (List.prefix_append [c] cs) (.cons hs (.nil s₁))
    refine .cons ⟨fun hfail => not_accounted_of_fails hhere hs hfail hthere, hs⟩ (ih ?_)
    intro pre s₂ hpre hrun₂
    exact h (c :: pre) s₂ (List.cons_prefix_cons.2 ⟨rfl, hpre⟩) (.cons hs hrun₂)

/-! ## A stream that is no deflate stream -/

/-- A block of type 3. -/
def brokenFile : File := { length := 1, byte := fun _ => 7 }

def brokenInflater : Option Inflater :=
  allocate (some brokenFile) 0 1 1 0 true fun _ => 0

/-- The decoder of a stored entry of `size` bytes. -/
def storedSession (size : Int) : Session := { decoder := .stored (.allocate 0 size) }

theorem storedSession_starts (size : Int) : Starts (storedSession size) :=
  ⟨rfl, (fun _ hm => nomatch hm), rfl, rfl, rfl⟩

/-- **After one request two bytes remain of an entry with one.** -/
theorem broken_not_accounted : ∃ f, brokenInflater = some f ∧
    Starts { decoder := .inflater { inflater := f } } ∧
    ¬ AccountedAlong false { decoder := .inflater { inflater := f } }
      [.getBytes 1 (fun _ => 0) 0, .step fun _ => 0, .step fun _ => 0, .step fun _ => 0] := by
  refine ⟨_, rfl, ⟨rfl, ?_, rfl, rfl, rfl⟩, fun h => ?_⟩
  · rintro m hm
    obtain rfl := Decoder.inflater.inj hm
    exact ⟨_, _, rfl⟩
  · have hend := h _ _ (List.prefix_refl _)
      (.cons ⟨⟨_, _, rfl⟩, rfl⟩ (.cons ⟨⟨_, rfl, nofun⟩, rfl⟩
        (.cons ⟨⟨_, rfl, nofun⟩, rfl⟩ (.cons ⟨⟨_, rfl, nofun⟩, rfl⟩ (.nil _)))))
    exact absurd hend.le_fileSize (by decide)

/-- **When a decoder keeps its account in a run**: when its size is not negative and no step of the
run fails. -/
theorem accountedAlong_iff {heuristic : Bool} {s s' : Session} {cs : List Call} (hstart : Starts s)
    (hrun : Lts.Run (Session.Step heuristic) s cs s') :
    AccountedAlong heuristic s cs ↔
      0 ≤ s.decoder.fileSize ∧ Lts.Run (Session.SafeStep heuristic) s cs s' := by
  constructor
  · intro h
    have hfirst : Accounted s := h [] s List.nil_prefix (.nil s)
    refine ⟨?_, safe_of_accounted hrun h⟩
    rw [← hstart.remain]
    exact hfirst.nonneg
  · rintro ⟨hsize, hsafe⟩ pre s₁ ⟨rest, rfl⟩ hpre
    obtain ⟨s₂, hsafe', -⟩ := hsafe.append_inv
    have hsame : s₂ = s₁ :=
      Lts.Run.unique Session.Step.unique (hsafe'.mono fun _ _ _ h => h.2) hpre
    subst hsame
    exact ((hstart.sound hsize).run hsafe').toAccounted

/-- Five bytes asked of a stored entry of three. -/
theorem accountedAlong_iff_stored :
    AccountedAlong false (storedSession 3) [.getBytes 5 (fun _ => 0) 3] ↔
      0 ≤ (storedSession 3).decoder.fileSize ∧
        Lts.Run (Session.SafeStep false) (storedSession 3) [.getBytes 5 (fun _ => 0) 3]
          { decoder := .stored { filePos := 3, fileSize := 3, bytesRemain := 0 }
            delivered := 3
            asked := 3
            remained := 3 } :=
  accountedAlong_iff (storedSession_starts 3)
    (.cons ⟨.inr ⟨by decide, by decide⟩, rfl⟩ (.nil _))

end FroggyKVM.Inflate
