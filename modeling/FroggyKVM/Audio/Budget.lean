/-
# FroggyKVM.Audio.Budget — accounting of the PCM and raw-data budgets.

`g_wav_pcm_total` and `g_wav_raw_total` are meant to be the bytes held by all players.  Every
function on one player is shown to change the totals by exactly what it changes in that player
(`Settles`), and the sums over the table follow.  The one function that does not settle its account
is the rewind inside `wav_topup_midi`, which forgets the frames of the finished stream; and a stream
whose player was re-decoded as stereo is topped up at half its price.  `Mixer.ReadSettles` is the
condition on the state before a mixer call that neither happens.
-/
import FroggyKVM.Audio.Mixer
import FroggyKVM.Lib.Returns

namespace FroggyKVM.Audio

open Finset

variable {σ : Type}

/-! ## What a player holds -/

/-- `pcmFrames * channels * 2` for a player with decoded samples. -/
def WavPlayer.pcmBytes (p : WavPlayer) : Int :=
  if p.pcm.isSome then p.pcmFrames * p.channels * 2 else 0

/-- `rawLen` for a player with source data. -/
def WavPlayer.rawBytes (p : WavPlayer) : Int :=
  if p.raw.isSome then p.rawLen else 0

/-- The lengths of absent buffers are zero. -/
def WavPlayer.Tidy (p : WavPlayer) : Prop :=
  (p.raw = none → p.rawLen = 0) ∧ (p.pcm = none → p.pcmFrames = 0)

/-- Both totals are the sums over the player table. -/
def Mixer.Balanced (g : Mixer σ) : Prop :=
  g.pcmTotal = ∑ i, (g.wav i).pcmBytes ∧ g.rawTotal = ∑ i, (g.wav i).rawBytes

/-- The invariant behind `Balanced`. -/
def Mixer.BudgetInv (g : Mixer σ) : Prop :=
  g.Balanced ∧ ∀ i, (g.wav i).Tidy

/-- `c'` differs from `c` in its totals by exactly what its player gained. -/
structure Settles (c c' : Cell σ) : Prop where
  pcm : c'.pcmTotal - c.pcmTotal = c'.p.pcmBytes - c.p.pcmBytes
  raw : c'.rawTotal - c.rawTotal = c'.p.rawBytes - c.p.rawBytes
  tidy : c'.p.Tidy

theorem Settles.trans {a b c : Cell σ} (h : Settles a b) (h' : Settles b c) : Settles a c where
  pcm := by have := h.pcm; have := h'.pcm; omega
  raw := by have := h.raw; have := h'.raw; omega
  tidy := h'.tidy

/-- A function that keeps the totals and the buffers of a tidy player settles. -/
theorem Settles.of_same {c c' : Cell σ} (hc : c.p.Tidy)
    (ht : c'.pcmTotal = c.pcmTotal ∧ c'.rawTotal = c.rawTotal)
    (hp : c'.p.raw = c.p.raw ∧ c'.p.rawLen = c.p.rawLen ∧ c'.p.pcm = c.p.pcm ∧
      c'.p.pcmFrames = c.p.pcmFrames ∧ (c.p.pcm.isSome → c'.p.channels = c.p.channels)) :
    Settles c c' := by
  obtain ⟨h₁, h₂, h₃, h₄, h₅⟩ := hp
  refine ⟨?_, ?_, ?_⟩
  · rw [ht.1]
    unfold WavPlayer.pcmBytes
    rw [h₃, h₄]
    split
    · rw [h₅ ‹_›]; omega
    · omega
  · simp [WavPlayer.rawBytes, ht.2, h₁, h₂]
  · simpa [WavPlayer.Tidy, h₁, h₂, h₃, h₄] using hc

theorem Settles.refl {c : Cell σ} (hc : c.p.Tidy) : Settles c c :=
  .of_same hc ⟨rfl, rfl⟩ ⟨rfl, rfl, rfl, rfl, fun _ => rfl⟩

/-! ## Sums over the player table -/

theorem sum_update (w : Fin WAV_MAX_PLAYERS → WavPlayer) (i : Fin WAV_MAX_PLAYERS)
    (p : WavPlayer) (f : WavPlayer → Int) :
    ∑ j, f (Function.update w i p j) = ∑ j, f (w j) + (f p - f (w i)) := by
  have hupd : ∀ j, f (Function.update w i p j) = Function.update (fun j => f (w j)) i (f p) j := by
    intro j
    rcases eq_or_ne j i with rfl | h
    · simp
    · simp [h]
  simp only [hupd]
  rw [Finset.sum_update_of_mem (mem_univ i),
    ← Finset.add_sum_erase univ (fun j => f (w j)) (mem_univ i), Finset.sdiff_singleton_eq_erase]
  omega

theorem Mixer.BudgetInv.setCell {g : Mixer σ} (hg : g.BudgetInv) {i : Fin WAV_MAX_PLAYERS}
    {c : Cell σ} (h : Settles (g.cell i) c) : (g.setCell i c).BudgetInv := by
  obtain ⟨⟨hp, hr⟩, ht⟩ := hg
  refine ⟨⟨?_, ?_⟩, ?_⟩
  · have := h.pcm
    simp only [Mixer.setCell, Mixer.cell] at this ⊢
    rw [sum_update, ← hp]
    omega
  · have := h.raw
    simp only [Mixer.setCell, Mixer.cell] at this ⊢
    rw [sum_update, ← hr]
    omega
  · intro j
    rcases eq_or_ne j i with rfl | hj
    · simpa [Mixer.setCell] using h.tidy
    · simpa [Mixer.setCell, hj] using ht j

/-- The fields of a player that the budgets depend on are the same. -/
def WavPlayer.SameBuffers (p q : WavPlayer) : Prop :=
  q.raw = p.raw ∧ q.rawLen = p.rawLen ∧ q.pcm = p.pcm ∧ q.pcmFrames = p.pcmFrames ∧
    q.channels = p.channels

theorem Mixer.BudgetInv.modify {g : Mixer σ} (hg : g.BudgetInv) {i : Fin WAV_MAX_PLAYERS}
    {f : WavPlayer → WavPlayer} (hf : (g.wav i).SameBuffers (f (g.wav i))) :
    (g.modify i f).BudgetInv := by
  obtain ⟨h₁, h₂, h₃, h₄, h₅⟩ := hf
  exact hg.setCell (i := i) (c := { g.cell i with p := f (g.wav i) })
    (.of_same (hg.2 i) ⟨rfl, rfl⟩ ⟨h₁, h₂, h₃, h₄, fun _ => h₅⟩)

/-! ## Every function on one player settles -/

theorem wavUnload_settles (c : Cell σ) : Settles c (wavUnload c) := by
  refine ⟨?_, ?_, by simp [wavUnload, WavPlayer.Tidy]⟩
  · simp only [wavUnload, WavPlayer.pcmBytes]
    split <;> simp
  · simp only [wavUnload, WavPlayer.rawBytes]
    split <;> simp

theorem dropRaw_settles {c : Cell σ} (hc : c.p.Tidy) : Settles c (dropRaw c) := by
  unfold dropRaw
  split
  · refine ⟨by simp [WavPlayer.pcmBytes], ?_, ?_⟩
    · simp [WavPlayer.rawBytes, *]
    · exact ⟨fun _ => rfl, hc.2⟩
  · exact .refl hc

theorem bufferingData_settles (env : Env σ) (buf : List UInt8) (bytes : Int) {c : Cell σ}
    (hc : c.p.Tidy) : Settles c (bufferingData env buf bytes c) := by
  unfold bufferingData
  simp only
  generalize (if (buf.length : Int) > bytes then bytes else (buf.length : Int)) = len
  split_ifs with hpcm _ _ _
  · exact .refl hc
  · refine ⟨by simp [WavPlayer.pcmBytes], ?_, ?_⟩
    · have h0 := hc.1
      simp only [WavPlayer.rawBytes]
      cases hraw : c.p.raw with
      | none => simp [h0 hraw]
      | some d => simp
    · exact ⟨by simp, hc.2⟩
  · exact .of_same hc ⟨rfl, rfl⟩ ⟨rfl, rfl, rfl, rfl, fun _ => rfl⟩
  · exact .of_same hc ⟨rfl, rfl⟩ ⟨rfl, rfl, rfl, rfl, fun _ => rfl⟩
  · exact .refl hc

/-- Rendering into a mono player is paid for frame by frame. -/
theorem midiStreamRender_settles (env : Env σ) (frames : Int) {c : Cell σ} (hc : c.p.Tidy)
    (hch : c.p.channels = 1) : Settles c (midiStreamRender env frames c).1 := by
  have hsame : Settles c { c with heap := c.heap + 1 } :=
    .of_same hc ⟨rfl, rfl⟩ ⟨rfl, rfl, rfl, rfl, fun _ => rfl⟩
  unfold midiStreamRender
  cases c.p.midi with
  | none => exact .refl hc
  | some ms =>
    simp only
    split_ifs
    all_goals first
      | exact .refl hc
      | exact hsame
      | skip
    all_goals
      refine ⟨?_, by simp [WavPlayer.rawBytes], ?_⟩
      · have h0 : c.p.pcm.isNone → c.p.pcmFrames = 0 := by
          intro h; exact hc.2 (by simpa using h)
        cases hpcm : c.p.pcm with
        | none => simp [WavPlayer.pcmBytes, hch, hpcm, h0 (by simp [hpcm])]
        | some _ => simp [WavPlayer.pcmBytes, hch, hpcm]; omega
      · exact ⟨hc.1, by simp⟩

theorem renderPrefix_settles (env : Env σ) (ms : MidiStream) {c : Cell σ} (hc : c.p.Tidy)
    (hch : c.p.channels = 1) : Settles c (renderPrefix env ms c) := by
  have hrender : ∀ pre loop, Settles c
      { (midiStreamRender env pre c).1 with
        p := { (midiStreamRender env pre c).1.p with loopMidi := loop } } := by
    intro pre loop
    have h := midiStreamRender_settles env pre hc hch
    exact h.trans (.of_same h.tidy ⟨rfl, rfl⟩ ⟨rfl, rfl, rfl, rfl, fun _ => rfl⟩)
  unfold renderPrefix
  simp only
  split_ifs
  all_goals first
    | exact hrender _ _
    | exact .refl hc

/-- `midi_stream_open` makes the player mono before it renders; there are no samples yet. -/
theorem midiStreamOpen_settles (env : Env σ) {c : Cell σ} (hc : c.p.Tidy) (hpcm : c.p.pcm = none) :
    Returns (midiStreamOpen env c) fun r => Settles c r.1 := by
  apply midiStreamOpen_rule
  · intro heap
    exact .of_same hc ⟨rfl, rfl⟩ ⟨rfl, rfl, rfl, rfl, fun _ => rfl⟩
  · intro ms heap probed fl dur
    have hopen : Settles c
        (Cell.withStream { c with heap := heap, flProbed := probed, fl := fl } ms) :=
      .of_same hc ⟨rfl, rfl⟩ ⟨rfl, rfl, rfl, rfl, fun h => by simp [hpcm] at h⟩
    have hrender := hopen.trans (renderPrefix_settles env ms hopen.tidy rfl)
    exact hrender.trans (.of_same hrender.tidy ⟨rfl, rfl⟩ ⟨rfl, rfl, rfl, rfl, fun _ => rfl⟩)

/-- Both WAV decoders pay four bytes for each stereo frame. -/
theorem wavFinish_settles (env : Env σ) (src : Int → Except Fault (Int × Int))
    (totalFrames rate : Int) {c : Cell σ} (hc : c.p.Tidy) (hpcm : c.p.pcm = none) :
    Returns (wavFinish env src totalFrames rate c) fun r => Settles c r.1 := by
  have hrefl : ∀ b, Returns (pure (c, b) : Except Fault (Cell σ × Bool)) fun r => Settles c r.1 :=
    fun _ => .pure (.refl hc)
  have hheap : ∀ b, Returns (pure ({ c with heap := c.heap + 1 }, b) : Except Fault (Cell σ × Bool))
      fun r => Settles c r.1 :=
    fun _ => .pure (.of_same hc ⟨rfl, rfl⟩ ⟨rfl, rfl, rfl, rfl, fun _ => rfl⟩)
  -- the fresh buffer of `n` stereo frames is charged to the total
  have hnew : ∀ (pcm : List Int) (n dur : Int), Settles c { c with
      heap := c.heap + 1, pcmTotal := c.pcmTotal + n * 4
      p := { c.p with pcm := some pcm, pcmFrames := n, channels := 2, durationMs := dur } } := by
    intro pcm n dur
    refine ⟨?_, by simp [WavPlayer.rawBytes], ⟨hc.1, by simp⟩⟩
    simp [WavPlayer.pcmBytes, hpcm]
    omega
  unfold wavFinish
  simp only
  split_ifs
  all_goals first
    | exact hrefl _
    | exact hheap _
    | exact .bind_any fun pcm => .pure (hnew pcm _ _)

theorem wavDecode_settles (env : Env σ) {c : Cell σ} (hc : c.p.Tidy) (hpcm : c.p.pcm = none) :
    Returns (wavDecode env c) fun r => Settles c r.1 := by
  have hheap : ∀ heap, Settles c { c with heap := heap } := fun _ =>
    .of_same hc ⟨rfl, rfl⟩ ⟨rfl, rfl, rfl, rfl, fun _ => rfl⟩
  apply wavDecode_rule
  · exact hheap
  · intro heap src totalFrames rate
    have hfinish := wavFinish_settles env src totalFrames rate (hheap heap).tidy hpcm
    exact hfinish.mono fun _ h => (hheap heap).trans h

theorem bufferingEnd_settles (env : Env σ) {c : Cell σ} (hc : c.p.Tidy) :
    Returns (bufferingEnd env c) (Settles c) := by
  unfold bufferingEnd
  split
  · rename_i d _ hpcm
    split
    · exact .bind (midiStreamOpen_settles env hc hpcm) fun _ h =>
        .pure (h.trans (dropRaw_settles h.tidy))
    · exact .bind (wavDecode_settles env hc hpcm) fun _ h =>
        .pure (h.trans (dropRaw_settles h.tidy))
  · exact .pure (dropRaw_settles hc)

theorem buffering_settles (env : Env σ) (buf : Option (List UInt8)) (bytes : Int) {c : Cell σ}
    (hc : c.p.Tidy) : Returns (buffering env buf bytes c) (Settles c) := by
  unfold buffering
  split
  · exact bufferingEnd_settles env hc
  · split
    · split
      · exact .ok (bufferingData_settles env _ bytes hc)
      · exact .ok (.refl hc)
    · exact .ok (.refl hc)

theorem term_settles (c : Cell σ) : Settles c (term c) :=
  (wavUnload_settles c).trans (.of_same (wavUnload_settles c).tidy ⟨rfl, rfl⟩
    ⟨rfl, rfl, rfl, rfl, fun _ => rfl⟩)

/-! ## Every call keeps the invariant -/

theorem nInit_budgetInv {g : Mixer σ} (hg : g.BudgetInv) : (nInit g).BudgetInv := by
  unfold nInit
  split
  · exact hg
  · rename_i h _
    have h₁ : (g.setCell h (wavUnload (g.cell h))).BudgetInv := hg.setCell (wavUnload_settles _)
    have h₂ := h₁.setCell (i := h) (c := { Mixer.cell (g.setCell h (wavUnload (g.cell h))) h with
        p := { used := true, volume := 100 } })
      ⟨by simp [Mixer.cell, Mixer.setCell, wavUnload, WavPlayer.pcmBytes],
        by simp [Mixer.cell, Mixer.setCell, wavUnload, WavPlayer.rawBytes],
        by simp [WavPlayer.Tidy]⟩
    exact h₂

theorem Mixer.onHandle_budgetInv {g : Mixer σ} (hg : g.BudgetInv) (handle : Int)
    {f : Cell σ → Except Fault (Cell σ)} (hf : ∀ c, c.p.Tidy → Returns (f c) (Settles c)) :
    Returns (g.onHandle handle f) Mixer.BudgetInv := by
  unfold Mixer.onHandle
  split
  · exact .ok hg
  · rename_i i _
    exact .map ((hf (g.cell i) (hg.2 i)).mono fun _ h => hg.setCell h)

theorem nStart_sameBuffers (p : WavPlayer) : p.SameBuffers (nStart p) := by
  unfold nStart
  simp only
  split_ifs <;> exact ⟨rfl, rfl, rfl, rfl, rfl⟩

theorem mixPlayer_sameBuffers (p : WavPlayer) : p.SameBuffers (mixPlayer p).2.2 := by
  unfold mixPlayer
  simp only
  split
  · exact ⟨rfl, rfl, rfl, rfl, rfl⟩
  · split_ifs <;> exact ⟨rfl, rfl, rfl, rfl, rfl⟩

theorem Mixer.onPlayer_budgetInv {g : Mixer σ} (hg : g.BudgetInv) (handle : Int)
    {f : WavPlayer → WavPlayer} (hf : ∀ p, WavPlayer.SameBuffers p (f p)) :
    (g.onPlayer handle f).BudgetInv := by
  unfold Mixer.onPlayer
  split
  · exact hg
  · exact hg.modify (hf _)

/-! ## The mixer call -/

/-- Globals that no total depends on. -/
theorem Mixer.BudgetInv.congr {g g' : Mixer σ} (hg : g.BudgetInv) (hw : g'.wav = g.wav)
    (hp : g'.pcmTotal = g.pcmTotal) (hr : g'.rawTotal = g.rawTotal) : g'.BudgetInv := by
  unfold Mixer.BudgetInv Mixer.Balanced
  rw [hw, hp, hr]
  exact hg

theorem wavMixFrame_budgetInv {g : Mixer σ} (hg : g.BudgetInv) : (wavMixFrame g).2.BudgetInv := by
  unfold wavMixFrame
  generalize ((0, 0) : Int × Int) = m
  generalize List.finRange WAV_MAX_PLAYERS = players
  induction players generalizing g m with
  | nil => exact hg
  | cons i is ih => exact ih (hg.modify (mixPlayer_sameBuffers _)) _

theorem readLoop_budgetInv :
    ∀ (n : Nat) {g : Mixer σ}, g.BudgetInv → (readLoop n g).2.BudgetInv
  | 0, _, hg => hg
  | n + 1, g, hg => by
    have hring : (ringFrame g).2.BudgetInv := by
      unfold ringFrame
      split
      · exact hg.congr rfl rfl rfl
      · exact hg
    rw [readLoop_succ]
    exact readLoop_budgetInv n (wavMixFrame_budgetInv (hring.congr rfl rfl rfl))

/-- The state of a player before a mixer call in which `wav_topup_midi` keeps its account: the
player is not rewound, and if its stream is extended, the player is mono. -/
def WavPlayer.TopupSettles (p : WavPlayer) : Prop :=
  p.topupCandidate → p.rewinds = false ∧
    (p.channels = 1 ∨ p.midi.all (·.done) ∨
      WAV_PCM_RATE * 2 ≤ p.pcmFrames - p.pos)

instance (p : WavPlayer) : Decidable p.TopupSettles := inferInstanceAs (Decidable (_ → _))

theorem topupPlayer_budgetInv (env : Env σ) {g : Mixer σ} (hg : g.BudgetInv)
    (i : Fin WAV_MAX_PLAYERS) (hi : (g.wav i).TopupSettles) :
    (topupPlayer env g i).BudgetInv := by
  unfold topupPlayer
  split
  case isFalse => exact hg
  case isTrue hcand =>
    obtain ⟨hrew, hch⟩ := hi hcand
    simp only [hrew, Bool.false_eq_true, if_false]
    split
    · exact hg
    · rename_i ms hms
      split_ifs with hcond hrem
      all_goals try exact hg
      all_goals
        have hmono : (g.cell i).p.channels = 1 := by
          rcases hch with h | h | h
          · exact h
          · simp [hms] at h; simp [h] at hcond
          · omega
        have hnew := fun chunk =>
          hg.setCell (midiStreamRender_settles env chunk (hg.2 i) hmono)
        exact (hnew _).congr rfl rfl rfl

/-- `wav_topup_midi` touches no other player while it works on one. -/
theorem topupPlayer_other (env : Env σ) (g : Mixer σ) {i j : Fin WAV_MAX_PLAYERS} (h : j ≠ i) :
    (topupPlayer env g i).wav j = g.wav j := by
  unfold topupPlayer
  simp only
  split_ifs
  all_goals (try split) <;> (try split_ifs) <;> simp [Mixer.setCell, Mixer.modify, h]

theorem wavTopupMidi_budgetInv (env : Env σ) {g : Mixer σ} (hg : g.BudgetInv)
    (h : ∀ i, (g.wav i).TopupSettles) : (wavTopupMidi env g).BudgetInv := by
  unfold wavTopupMidi
  have hnodup := List.nodup_finRange WAV_MAX_PLAYERS
  replace h : ∀ i ∈ List.finRange WAV_MAX_PLAYERS, (g.wav i).TopupSettles := fun i _ => h i
  generalize List.finRange WAV_MAX_PLAYERS = players at hnodup h ⊢
  -- the players still to come are as they were before the call
  induction players generalizing g with
  | nil => exact hg
  | cons i is ih =>
    obtain ⟨hni, hnodup⟩ := List.nodup_cons.1 hnodup
    refine ih (topupPlayer_budgetInv env hg i (h i (by simp))) hnodup fun j hj => ?_
    rw [topupPlayer_other env g (by rintro rfl; exact hni hj)]
    exact h j (by simp [hj])

theorem gb300AudioRead_budgetInv (env : Env σ) (n : Int) {g : Mixer σ} (hg : g.BudgetInv)
    (h : n > 0 → ∀ i, (g.wav i).TopupSettles) : (gb300AudioRead env n g).2.BudgetInv := by
  unfold gb300AudioRead
  split
  · exact hg
  · rename_i hn
    exact readLoop_budgetInv _ (wavTopupMidi_budgetInv env (hg.congr rfl rfl rfl) (h (by omega)))

/-! ## Runs -/

/-- The condition on a call: a mixer call finds every player in a state it can settle. -/
def Mixer.CallSettles (g : Mixer σ) : AudioOp → Prop
  | .audioRead n => n > 0 → ∀ i, (g.wav i).TopupSettles
  | _ => True

instance (g : Mixer σ) : (op : AudioOp) → Decidable (g.CallSettles op)
  | .audioRead _ => inferInstanceAs (Decidable (_ → _))
  | .nInit | .nBuffering .. | .nFlushBuffer _ | .nStart _ | .nStop _ | .nPause _ | .nResume _
  | .nSetMediaTime .. | .nTerm _ => inferInstanceAs (Decidable True)

theorem Mixer.step_budgetInv (env : Env σ) {g : Mixer σ} (hg : g.BudgetInv) (op : AudioOp)
    (h : g.CallSettles op) : Returns (g.step env op) Mixer.BudgetInv := by
  cases op with
  | nInit => exact .ok (nInit_budgetInv hg)
  | nBuffering hd buf bytes =>
    exact g.onHandle_budgetInv hg hd fun _ hc => buffering_settles env buf bytes hc
  | nFlushBuffer hd => exact g.onHandle_budgetInv hg hd fun _ hc => .ok (dropRaw_settles hc)
  | nStart hd => exact .ok (g.onPlayer_budgetInv hg hd nStart_sameBuffers)
  | nStop hd => exact .ok (g.onPlayer_budgetInv hg hd fun _ => ⟨rfl, rfl, rfl, rfl, rfl⟩)
  | nPause hd => exact .ok (g.onPlayer_budgetInv hg hd fun _ => ⟨rfl, rfl, rfl, rfl, rfl⟩)
  | nResume hd => exact .ok (g.onPlayer_budgetInv hg hd fun _ => ⟨rfl, rfl, rfl, rfl, rfl⟩)
  | nSetMediaTime hd ms =>
    exact .ok (g.onPlayer_budgetInv hg hd fun _ => ⟨rfl, rfl, rfl, rfl, rfl⟩)
  | nTerm hd => exact g.onHandle_budgetInv hg hd fun c _ => .ok (term_settles c)
  | audioRead n => exact .ok (gb300AudioRead_budgetInv env n hg h)

/-- The mixer at start-up holds nothing. -/
theorem Mixer.budgetInv_initial : ({} : Mixer σ).BudgetInv := by
  refine ⟨⟨?_, ?_⟩, fun i => ⟨fun _ => rfl, fun _ => rfl⟩⟩
  · simp [WavPlayer.pcmBytes]
  · simp [WavPlayer.rawBytes]

/-- What `nTerm` leaves of a player. -/
def WavPlayer.Terminated (p : WavPlayer) : Prop := p.used = false ∧ p.raw = none ∧ p.pcm = none

theorem Mixer.Balanced.of_terminated {g : Mixer σ} (hg : g.Balanced)
    (h : ∀ i, (g.wav i).Terminated) : g.pcmTotal = 0 ∧ g.rawTotal = 0 := by
  obtain ⟨hp, hr⟩ := hg
  have hpcm : ∀ i, (g.wav i).pcmBytes = 0 := fun i => by simp [WavPlayer.pcmBytes, (h i).2.2]
  have hraw : ∀ i, (g.wav i).rawBytes = 0 := fun i => by simp [WavPlayer.rawBytes, (h i).2.1]
  simp only [hpcm, sum_const_zero] at hp
  simp only [hraw, sum_const_zero] at hr
  exact ⟨hp, hr⟩

/-- A type 0 file with one track of division 1: a note-off after two ticks, then end of track.  At
the default tempo it lasts a second, of which the load-time prefix renders 512 frames. -/
def loopingSmf : List UInt8 := [
  0x4D, 0x54, 0x68, 0x64, 0, 0, 0, 6, 0, 0, 0, 1, 0, 1,
  0x4D, 0x54, 0x72, 0x6B, 0, 0, 0, 8, 2, 0x80, 60, 0, 0, 0xFF, 0x2F, 0]

/-- Load the file into a player. -/
def loadLooping : List AudioOp :=
  [.nInit, .nBuffering 1 (some loopingSmf) 30, .nBuffering 1 none (-1)]

instance (g : Mixer σ) : Decidable g.Balanced := inferInstanceAs (Decidable (_ ∧ _))

instance (p : WavPlayer) : Decidable p.Terminated := inferInstanceAs (Decidable (_ ∧ _))

end FroggyKVM.Audio
