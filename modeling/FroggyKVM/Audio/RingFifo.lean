/-
# FroggyKVM.Audio.RingFifo — the PCM ring buffer between `gb300_audio_write` and `gb300_audio_read`.

The ring holds 4096 stereo frames; head and tail count samples, and equal indices mean that it is
empty.  `gb300_audio_write` never looks at the tail.  **While every write leaves one frame free, the
ring is a FIFO**: what has been accepted is what has been delivered, and behind it what is pending.
-/
import FroggyKVM.Audio.Frames
import FroggyKVM.Lib.Ring

namespace FroggyKVM.Audio

variable {σ : Type}

/-! ## Writing -/

/-- The loop of `gb300_audio_write`. -/
def writeSamples : List Int → Mixer σ → Mixer σ
  | [], g => g
  | x :: xs, g => writeSamples xs
      { g with ring := g.ring.set g.head x, head := (g.head + 1) % AUDIO_RING_SIZE }

/-- `gb300_audio_write`: the number of frames accepted. -/
def gb300AudioWrite (samples : Option (List Int)) (numFrames : Int) (g : Mixer σ) :
    Int × Mixer σ :=
  match samples with
  | none => (0, g)
  | some samples =>
    if numFrames ≤ 0 then (0, g)
    else (numFrames, writeSamples (samples.take (i32 (numFrames * 2)).toNat) g)

/-! ## Frames of the ring -/

/-- `AUDIO_BUFFER_SIZE`, in frames. -/
def AUDIO_BUFFER_SIZE : Nat := 4096

/-- The first `n` stereo frames of interleaved samples. -/
def framesOf (samples : List Int) (n : Nat) : List (Int × Int) :=
  (List.range n).map fun i => (samples.getD (2 * i) 0, samples.getD (2 * i + 1) 0)

/-- Head and tail stay on the boundaries of frames, inside the ring. -/
structure Mixer.RingInv (g : Mixer σ) : Prop where
  ring : g.ring.length = AUDIO_RING_SIZE
  head : g.head < AUDIO_RING_SIZE ∧ g.head % 2 = 0
  tail : g.tail < AUDIO_RING_SIZE ∧ g.tail % 2 = 0

/-- The number of frames between tail and head. -/
def Mixer.pendingCount (g : Mixer σ) : Nat :=
  (g.head + AUDIO_RING_SIZE - g.tail) % AUDIO_RING_SIZE / 2

/-- The frames that have been written and not been read. -/
def Mixer.pendingFrames (g : Mixer σ) : List (Int × Int) :=
  ringContents (framesOf g.ring AUDIO_BUFFER_SIZE) (g.tail / 2) g.pendingCount

theorem framesOf_length (samples : List Int) (n : Nat) : (framesOf samples n).length = n := by
  rw [framesOf, List.length_map, List.length_range]

theorem framesOf_getElem {samples : List Int} {n i : Nat} (hi : i < n) :
    (framesOf samples n)[i]? = some (samples.getD (2 * i) 0, samples.getD (2 * i + 1) 0) := by
  rw [framesOf, List.getElem?_map, List.getElem?_range hi]
  rfl

theorem SameOutput.ringInv {g g' : Mixer σ} (h : SameOutput g g') (hg : g.RingInv) : g'.RingInv :=
  ⟨h.ring ▸ hg.ring, h.head ▸ hg.head, h.tail ▸ hg.tail⟩

theorem SameOutput.pendingFrames {g g' : Mixer σ} (h : SameOutput g g') :
    g'.pendingFrames = g.pendingFrames := by
  unfold Mixer.pendingFrames Mixer.pendingCount
  rw [h.ring, h.head, h.tail]

/-! ## One frame -/

/-- Two samples stored at the head. -/
def Mixer.pushFrame (g : Mixer σ) (f : Int × Int) : Mixer σ :=
  { g with
    ring := (g.ring.set g.head f.1).set (g.head + 1) f.2
    head := (g.head + 2) % AUDIO_RING_SIZE }

/-- The frame slots behind a push. -/
theorem framesOf_set {ring : List Int} (hring : ring.length = AUDIO_RING_SIZE) {k : Nat}
    (hk : k < AUDIO_BUFFER_SIZE) (f : Int × Int) :
    framesOf ((ring.set (2 * k) f.1).set (2 * k + 1) f.2) AUDIO_BUFFER_SIZE =
      (framesOf ring AUDIO_BUFFER_SIZE).set k f := by
  have hsize : AUDIO_RING_SIZE = 8192 := rfl
  have hframes : AUDIO_BUFFER_SIZE = 4096 := rfl
  apply List.ext_getElem?
  intro i
  by_cases hi : i < AUDIO_BUFFER_SIZE
  · rw [framesOf_getElem hi, List.getElem?_set, framesOf_length]
    by_cases hki : k = i
    · subst hki
      rw [if_pos rfl, if_pos hk]
      congr 1
      refine Prod.ext ?_ ?_
      · show List.getD _ (2 * k) 0 = f.1
        rw [List.getD_eq_getElem?_getD, List.getElem?_set_ne (by omega),
          List.getElem?_set_self (by omega)]
        rfl
      · show List.getD _ (2 * k + 1) 0 = f.2
        rw [List.getD_eq_getElem?_getD,
          List.getElem?_set_self (by rw [List.length_set]; omega)]
        rfl
    · rw [if_neg hki, framesOf_getElem hi]
      have hother : ∀ j, j ≠ 2 * k → j ≠ 2 * k + 1 →
          ((ring.set (2 * k) f.1).set (2 * k + 1) f.2).getD j 0 = ring.getD j 0 := by
        intro j hj hj'
        rw [List.getD_eq_getElem?_getD, List.getD_eq_getElem?_getD,
          List.getElem?_set_ne (Ne.symm hj'), List.getElem?_set_ne (Ne.symm hj)]
      rw [hother (2 * i) (by omega) (by omega), hother (2 * i + 1) (by omega) (by omega)]
  · rw [List.getElem?_eq_none (by rw [framesOf_length]; lia),
      List.getElem?_eq_none (by rw [List.length_set, framesOf_length]; lia)]

/-- **A frame is stored behind the pending ones**, if one more is free. -/
theorem Mixer.RingInv.push {g : Mixer σ} (hg : g.RingInv) (f : Int × Int)
    (hroom : g.pendingCount + 1 < AUDIO_BUFFER_SIZE) :
    (g.pushFrame f).RingInv ∧ (g.pushFrame f).pendingFrames = g.pendingFrames ++ [f] ∧
      (g.pushFrame f).pendingCount = g.pendingCount + 1 := by
  obtain ⟨hring, ⟨hhead, heven⟩, htail⟩ := hg
  have hhead : g.head < 8192 := hhead
  have htail' : g.tail < 8192 ∧ g.tail % 2 = 0 := htail
  have hroom : (g.head + 8192 - g.tail) % 8192 / 2 + 1 < 4096 := hroom
  have hcount : (g.pushFrame f).pendingCount = g.pendingCount + 1 := by
    show ((g.head + 2) % 8192 + 8192 - g.tail) % 8192 / 2 =
      (g.head + 8192 - g.tail) % 8192 / 2 + 1
    lia
  have hslot : ringSlot AUDIO_BUFFER_SIZE (g.tail / 2) g.pendingCount = g.head / 2 := by
    show (if g.tail / 2 + (g.head + 8192 - g.tail) % 8192 / 2 < 4096
      then g.tail / 2 + (g.head + 8192 - g.tail) % 8192 / 2
      else g.tail / 2 + (g.head + 8192 - g.tail) % 8192 / 2 - 4096) = g.head / 2
    split <;> lia
  refine ⟨⟨?_, ⟨Nat.mod_lt _ (by decide), ?_⟩, htail⟩, ?_, hcount⟩
  · show ((g.ring.set g.head f.1).set (g.head + 1) f.2).length = _
    rw [List.length_set, List.length_set, hring]
  · show (g.head + 2) % 8192 % 2 = 0
    lia
  · have hset := framesOf_set hring (show g.head / 2 < 4096 by omega) f
    rw [show 2 * (g.head / 2) = g.head by omega] at hset
    show ringContents (framesOf ((g.ring.set g.head f.1).set (g.head + 1) f.2) AUDIO_BUFFER_SIZE)
      (g.tail / 2) (g.pushFrame f).pendingCount = _
    rw [hcount, hset, ← hslot]
    have hlength := framesOf_length g.ring AUDIO_BUFFER_SIZE
    have hpush := ringContents_push
      (show g.tail / 2 < (framesOf g.ring AUDIO_BUFFER_SIZE).length by
        rw [hlength]
        show g.tail / 2 < 4096
        omega)
      (show g.pendingCount < (framesOf g.ring AUDIO_BUFFER_SIZE).length by
        rw [hlength]
        show (g.head + 8192 - g.tail) % 8192 / 2 < 4096
        omega) f
    rw [hlength] at hpush
    exact hpush

/-- **A frame is taken from the front.** -/
theorem Mixer.RingInv.pop {g : Mixer σ} (hg : g.RingInv) :
    (ringFrame g).2.RingInv ∧ g.pendingFrames =
      (if g.tail ≠ g.head then [(ringFrame g).1] else []) ++ (ringFrame g).2.pendingFrames := by
  unfold ringFrame
  by_cases hsome : g.tail ≠ g.head
  · obtain ⟨hring, hhead, ⟨htail, htaileven⟩⟩ := hg
    have hhead' : g.head < 8192 ∧ g.head % 2 = 0 := hhead
    have htail : g.tail < 8192 := htail
    rw [if_pos hsome, if_pos hsome]
    have hnext : (g.tail + 1) % AUDIO_RING_SIZE = g.tail + 1 := by
      show (g.tail + 1) % 8192 = g.tail + 1
      omega
    simp only [hnext]
    refine ⟨⟨hring, hhead, Nat.mod_lt _ (by decide), ?_⟩, ?_⟩
    · show (g.tail + 1 + 1) % 8192 % 2 = 0
      omega
    · obtain ⟨count, hcount⟩ : ∃ count, (g.head + 8192 - g.tail) % 8192 / 2 = count + 1 :=
        ⟨(g.head + 8192 - g.tail) % 8192 / 2 - 1, by lia⟩
      have hless : (g.head + 8192 - (g.tail + 1 + 1) % 8192) % 8192 / 2 = count := by lia
      have hlength := framesOf_length g.ring AUDIO_BUFFER_SIZE
      have hfirst := @ringContents_succ _ _ (framesOf g.ring AUDIO_BUFFER_SIZE) (g.tail / 2) count
        (by
          rw [hlength]
          show g.tail / 2 < 4096
          lia)
        (by
          rw [hlength]
          show count < 4096
          omega)
      have hslot : ringSlot AUDIO_BUFFER_SIZE (g.tail / 2) 1 = (g.tail + 1 + 1) % 8192 / 2 := by
        show (if g.tail / 2 + 1 < 4096 then g.tail / 2 + 1 else g.tail / 2 + 1 - 4096) = _
        split <;> lia
      have hget : (framesOf g.ring AUDIO_BUFFER_SIZE).getD (g.tail / 2) default =
          (g.ring.getD g.tail 0, g.ring.getD (g.tail + 1) 0) := by
        have hlt : g.tail / 2 < AUDIO_BUFFER_SIZE := by
          show g.tail / 2 < 4096
          omega
        rw [List.getD_eq_getElem?_getD, framesOf_getElem hlt,
          show 2 * (g.tail / 2) = g.tail by omega]
        rfl
      rw [hlength, hslot, hget] at hfirst
      show ringContents _ (g.tail / 2) ((g.head + 8192 - g.tail) % 8192 / 2) = _ ++
        ringContents _ ((g.tail + 1 + 1) % 8192 / 2)
          ((g.head + 8192 - (g.tail + 1 + 1) % 8192) % 8192 / 2)
      rw [hcount, hless, hfirst]
      rfl
  · rw [if_neg hsome, if_neg hsome]
    exact ⟨hg, rfl⟩

/-! ## Calls -/

theorem writeSamples_append (xs ys : List Int) : ∀ g : Mixer σ,
    writeSamples (xs ++ ys) g = writeSamples ys (writeSamples xs g) := by
  induction xs with
  | nil => exact fun _ => rfl
  | cons x xs ih => exact fun g => ih _

/-- Two samples are a frame. -/
theorem Mixer.RingInv.write_pair {g : Mixer σ} (hg : g.RingInv) (l r : Int) :
    writeSamples [l, r] g = g.pushFrame (l, r) := by
  have hhead : g.head < 8192 ∧ g.head % 2 = 0 := hg.head
  have hnext : (g.head + 1) % AUDIO_RING_SIZE = g.head + 1 := by
    show (g.head + 1) % 8192 = g.head + 1
    omega
  unfold writeSamples writeSamples writeSamples Mixer.pushFrame
  simp only [hnext]

/-- **A write** stores its frames behind the pending ones, if they leave one frame free. -/
theorem Mixer.RingInv.write {g : Mixer σ} (hg : g.RingInv) {samples : List Int} {n : Nat}
    (hn : 2 * n ≤ samples.length) (hroom : g.pendingCount + n < AUDIO_BUFFER_SIZE) :
    (writeSamples (samples.take (2 * n)) g).RingInv ∧
      (writeSamples (samples.take (2 * n)) g).pendingFrames =
        g.pendingFrames ++ framesOf samples n ∧
      (writeSamples (samples.take (2 * n)) g).pendingCount = g.pendingCount + n := by
  induction n with
  | zero => exact ⟨hg, (List.append_nil _).symm, rfl⟩
  | succ n ih =>
    obtain ⟨hinv, hpending, hcount⟩ := ih (by omega) (by omega)
    have htake : samples.take (2 * (n + 1)) =
        samples.take (2 * n) ++ [samples.getD (2 * n) 0, samples.getD (2 * n + 1) 0] := by
      have hget : ∀ i, i < samples.length → samples[i]?.toList = [samples.getD i 0] := by
        intro i hi
        rw [List.getD_eq_getElem?_getD, List.getElem?_eq_getElem hi]
        rfl
      rw [show 2 * (n + 1) = 2 * n + 1 + 1 by omega, List.take_add_one, List.take_add_one,
        List.append_assoc, hget _ (by omega), hget _ (by omega)]
      rfl
    rw [htake, writeSamples_append, hinv.write_pair]
    obtain ⟨hinv', hpending', hcount'⟩ := hinv.push
      (samples.getD (2 * n) 0, samples.getD (2 * n + 1) 0) (by rw [hcount]; omega)
    refine ⟨hinv', ?_, by rw [hcount', hcount]; rfl⟩
    rw [hpending', hpending, List.append_assoc, framesOf, framesOf, List.range_succ, List.map_append]
    rfl

/-- The frame that the next frame of a call takes from the ring. -/
def Mixer.taken (g : Mixer σ) : Option (Int × Int) :=
  if g.tail ≠ g.head then some (ringFrame g).1 else none

/-- **A call delivers the oldest frames** and leaves the others. -/
theorem Mixer.RingInv.frames : ∀ (n : Nat) {g : Mixer σ}, g.RingInv →
    (readLoop n g).2.RingInv ∧
      g.pendingFrames = (frameStates n g).filterMap Mixer.taken ++ (readLoop n g).2.pendingFrames
  | 0, _, hg => ⟨hg, rfl⟩
  | n + 1, g, hg => by
    obtain ⟨hinv, hpending⟩ := hg.pop
    obtain ⟨hring, hhead, htail⟩ := mixFrame_ring g
    have hsameRing : (ringFrame g).2.ring = g.ring ∧ (ringFrame g).2.head = g.head := by
      unfold ringFrame
      split <;> exact ⟨rfl, rfl⟩
    have hinv' : (mixFrame g).2.RingInv := by
      refine ⟨?_, ?_, ?_⟩
      · rw [hring]
        exact hg.ring
      · rw [hhead]
        exact hg.head
      · rw [htail]
        exact hinv.tail
    have hpending' : (mixFrame g).2.pendingFrames = (ringFrame g).2.pendingFrames := by
      unfold Mixer.pendingFrames Mixer.pendingCount
      rw [hring, hhead, htail, hsameRing.1, hsameRing.2]
    obtain ⟨hend, hrest⟩ := Mixer.RingInv.frames n hinv'
    refine ⟨hend, ?_⟩
    show _ = List.filterMap Mixer.taken (g :: frameStates n (mixFrame g).2) ++
      (readLoop n (mixFrame g).2).2.pendingFrames
    rw [hpending, ← hpending', hrest, ← List.append_assoc]
    congr 1
    by_cases hsome : g.tail ≠ g.head
    · have htaken : g.taken = some (ringFrame g).1 := if_pos hsome
      rw [if_pos hsome, List.filterMap_cons_some htaken, List.singleton_append]
    · have htaken : g.taken = none := if_neg hsome
      rw [if_neg hsome, List.filterMap_cons_none htaken, List.nil_append]

/-- The frames that a call takes from the ring, in order. -/
def Mixer.delivered (env : Env σ) (g : Mixer σ) (numFrames : Int) : List (Int × Int) :=
  (readStates env numFrames g).filterMap Mixer.taken

theorem Mixer.RingInv.read {g : Mixer σ} (hg : g.RingInv) (env : Env σ) (numFrames : Int) :
    (gb300AudioRead env numFrames g).2.RingInv ∧
      g.pendingFrames =
        g.delivered env numFrames ++ (gb300AudioRead env numFrames g).2.pendingFrames := by
  obtain ⟨g', hsame, hstates, hafter⟩ := gb300AudioRead_cases env numFrames g
  obtain ⟨hend, hpending⟩ := (hsame.ringInv hg).frames numFrames.toNat
  refine ⟨hafter.ringInv hend, ?_⟩
  rw [hafter.pendingFrames, Mixer.delivered, hstates, ← hpending, hsame.pendingFrames]

/-! ## Runs -/

/-- What happens to the ring, with what is accepted and what is delivered. -/
inductive RingEvent where
  | write (samples : Option (List Int)) (numFrames : Int) (accepted : List (Int × Int))
  | read (numFrames : Int) (delivered : List (Int × Int))
  /-- a native player call -/
  | call (op : AudioOp)

namespace RingEvent

def accepted : RingEvent → List (Int × Int)
  | .write _ _ frames => frames
  | _ => []

def delivered : RingEvent → List (Int × Int)
  | .read _ frames => frames
  | _ => []

end RingEvent

/-- The writes, with a buffer of as many samples as the frames have, the reads, and the native
player calls. -/
def Mixer.RingStep (env : Env σ) (g : Mixer σ) (e : RingEvent) (g' : Mixer σ) : Prop :=
  match e with
  | .write samples numFrames accepted =>
    (∀ s, samples = some s → 2 * numFrames ≤ s.length) ∧ numFrames < 2147483648 ∧
      accepted = framesOf (samples.getD []) (gb300AudioWrite samples numFrames g).1.toNat ∧
      g' = (gb300AudioWrite samples numFrames g).2
  | .read numFrames delivered =>
    delivered = g.delivered env numFrames ∧ g' = (gb300AudioRead env numFrames g).2
  | .call op => (∀ n, op ≠ .audioRead n) ∧ g.step env op = .ok g'

/-- The frames of a write and those pending leave one frame of the ring free. -/
def Mixer.Fits (g : Mixer σ) : RingEvent → Prop
  | .write (some _) numFrames _ => g.pendingCount + numFrames < AUDIO_BUFFER_SIZE
  | _ => True

/-- **A step** puts what is accepted behind what is pending, and takes what is delivered from its
front. -/
theorem Mixer.RingInv.step {env : Env σ} {g g' : Mixer σ} {e : RingEvent} (hg : g.RingInv)
    (hfits : g.Fits e) (hstep : g.RingStep env e g') :
    g'.RingInv ∧ g.pendingFrames ++ e.accepted = e.delivered ++ g'.pendingFrames := by
  cases e with
  | write samples numFrames accepted =>
    obtain ⟨hbuffer, -, rfl, rfl⟩ := hstep
    have hnothing : ∀ s : List Int, g.pendingFrames ++ framesOf s 0 = g.pendingFrames := fun s =>
      List.append_nil _
    unfold gb300AudioWrite
    split
    · exact ⟨hg, hnothing _⟩
    · rename_i s
      split
      · exact ⟨hg, hnothing _⟩
      · case isFalse hpos =>
        have hroom : (g.pendingCount : Int) + numFrames < 4096 := hfits
        have hn : (i32 (numFrames * 2)).toNat = 2 * numFrames.toNat := by
          rw [i32_of_range (by omega)]
          omega
        have hlength := hbuffer s rfl
        obtain ⟨hinv, hpending, -⟩ := hg.write (n := numFrames.toNat)
          (show 2 * numFrames.toNat ≤ s.length by omega) (by
          show g.pendingCount + numFrames.toNat < 4096
          omega)
        rw [hn]
        exact ⟨hinv, hpending.symm⟩
  | read numFrames delivered =>
    obtain ⟨rfl, rfl⟩ := hstep
    obtain ⟨hinv, hpending⟩ := hg.read env numFrames
    refine ⟨hinv, ?_⟩
    show g.pendingFrames ++ [] = _
    rw [List.append_nil]
    exact hpending
  | call op =>
    have hsame := Mixer.step_sameOutput hstep.1 hstep.2
    refine ⟨hsame.ringInv hg, ?_⟩
    show g.pendingFrames ++ [] = [] ++ g'.pendingFrames
    rw [List.append_nil, List.nil_append, hsame.pendingFrames]

/-- **The ring is a lossless FIFO** in every run whose writes leave a frame free: what was pending
and what has been accepted is, in order, what has been delivered and what is still pending, and head
and tail are on frames of the ring. -/
theorem Mixer.ring_fifo {env : Env σ} {g g' : Mixer σ} {es : List RingEvent} (hg : g.RingInv)
    (hrun : Lts.Run (Lts.Guarded (Mixer.RingStep env) Mixer.Fits) g es g') :
    g'.RingInv ∧ g.pendingFrames ++ es.flatMap RingEvent.accepted =
      es.flatMap RingEvent.delivered ++ g'.pendingFrames := by
  induction hrun with
  | nil g =>
    refine ⟨hg, ?_⟩
    show g.pendingFrames ++ [] = [] ++ g.pendingFrames
    rw [List.append_nil, List.nil_append]
  | cons hstep _ ih =>
    obtain ⟨hinv, hpending⟩ := hg.step hstep.1 hstep.2
    obtain ⟨hend, hrest⟩ := ih hinv
    refine ⟨hend, ?_⟩
    rw [List.flatMap_cons, List.flatMap_cons, ← List.append_assoc, hpending, List.append_assoc,
      hrest, List.append_assoc]

/-- The ring behind `gb300_audio_init`. -/
theorem Mixer.ringInv_init : ({} : Mixer σ).RingInv :=
  ⟨List.length_replicate, ⟨show 0 < 8192 by decide, rfl⟩, ⟨show 0 < 8192 by decide, rfl⟩⟩

/-- Two frames. -/
theorem Mixer.ring_fifo_two : ∃ g' : Mixer Unit,
    Lts.Run (Lts.Guarded (Mixer.RingStep plainEnv) Mixer.Fits) {}
      [.write (some [1, 2, 3, 4]) 2 [(1, 2), (3, 4)]] g' ∧
    g'.pendingFrames = [(1, 2), (3, 4)] := by
  have hstep : ({} : Mixer Unit).RingStep plainEnv (.write (some [1, 2, 3, 4]) 2 [(1, 2), (3, 4)])
      (gb300AudioWrite (some [1, 2, 3, 4]) 2 {}).2 := by
    refine ⟨fun s hs => ?_, by decide, by decide, rfl⟩
    obtain rfl := Option.some.inj hs
    decide
  have hfits : ({} : Mixer Unit).Fits (.write (some [1, 2, 3, 4]) 2 [(1, 2), (3, 4)]) := by
    show ((0 : Nat) : Int) + 2 < 4096
    decide
  refine ⟨_, .cons ⟨hfits, hstep⟩ (.nil _), ?_⟩
  obtain ⟨-, hpending⟩ := Mixer.ring_fifo Mixer.ringInv_init (.cons ⟨hfits, hstep⟩ (.nil _))
  exact hpending.symm

/-- What a write does to the indices, whether it fits or not. -/
theorem writeSamples_indices (xs : List Int) : ∀ {g : Mixer σ}, g.head < AUDIO_RING_SIZE →
    (writeSamples xs g).head = (g.head + xs.length) % AUDIO_RING_SIZE ∧
      (writeSamples xs g).tail = g.tail ∧ (writeSamples xs g).ring.length = g.ring.length := by
  induction xs with
  | nil => exact fun h => ⟨(Nat.mod_eq_of_lt h).symm, rfl, rfl⟩
  | cons x xs ih =>
    intro g _
    obtain ⟨hhead, htail, hring⟩ := @ih
      { g with ring := g.ring.set g.head x, head := (g.head + 1) % AUDIO_RING_SIZE }
      (Nat.mod_lt _ (by decide))
    refine ⟨?_, htail, hring.trans (List.length_set ..)⟩
    show (writeSamples xs _).head = _
    rw [hhead, Nat.mod_add_mod, List.length_cons, Nat.add_assoc, Nat.add_comm 1]

/-- **A write of a whole ring is lost**: the head comes back to the tail, and the ring is empty. -/
theorem Mixer.ring_overrun : ¬ ∀ (es : List RingEvent) (g' : Mixer Unit),
    Lts.Run (Mixer.RingStep plainEnv) {} es g' →
      es.flatMap RingEvent.accepted = es.flatMap RingEvent.delivered ++ g'.pendingFrames := by
  intro hfifo
  obtain ⟨samples, hsamples⟩ : ∃ samples : List Int, samples.length = 8192 :=
    ⟨List.replicate 8192 1, List.length_replicate⟩
  have hwrite : gb300AudioWrite (some samples) 4096 ({} : Mixer Unit) =
      (4096, writeSamples samples {}) := by
    unfold gb300AudioWrite
    dsimp only
    rw [if_neg (by decide), List.take_of_length_le]
    rw [hsamples]
    decide
  obtain ⟨hhead, htail, hring⟩ :=
    writeSamples_indices samples (show ({} : Mixer Unit).head < 8192 by decide)
  rw [hsamples] at hhead
  generalize writeSamples samples ({} : Mixer Unit) = g at hwrite hhead htail hring
  have hhead : g.head = 0 := hhead
  have htail : g.tail = 0 := htail
  have hempty : g.pendingFrames = [] := by
    unfold Mixer.pendingFrames Mixer.pendingCount
    rw [hhead, htail]
    rfl
  have hinv : g.RingInv := by
    refine ⟨hring.trans List.length_replicate, ?_, ?_⟩
    · rw [hhead]
      exact ⟨show 0 < 8192 by decide, rfl⟩
    · rw [htail]
      exact ⟨show 0 < 8192 by decide, rfl⟩
  have hstep : ({} : Mixer Unit).RingStep plainEnv
      (.write (some samples) 4096 (framesOf samples 4096)) g := by
    refine ⟨fun s hs => ?_, by decide, ?_, ?_⟩
    · obtain rfl := Option.some.inj hs
      rw [hsamples]
      decide
    · rw [hwrite]
      rfl
    · rw [hwrite]
  have hrun : Lts.Run (Mixer.RingStep plainEnv) {}
      [.write (some samples) 4096 (framesOf samples 4096),
        .read 4096 (g.delivered plainEnv 4096)] (gb300AudioRead plainEnv 4096 g).2 :=
    .cons hstep (.cons ⟨rfl, rfl⟩ (.nil _))
  have hlost := congrArg List.length (hfifo _ _ hrun)
  have hread := congrArg List.length (hinv.read plainEnv 4096).2
  rw [hempty, List.length_append, List.length_nil] at hread
  simp only [List.flatMap_cons, List.flatMap_nil, List.length_append, RingEvent.accepted,
    RingEvent.delivered, framesOf_length, List.length_nil] at hlost
  omega

end FroggyKVM.Audio
