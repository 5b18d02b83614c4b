/-
# FroggyKVM.Audio.Pacing — how many frames a poll feeds to the frontend (`platform_gb300/platform.c`).

`gb300_poll_events` turns the microseconds since `last_audio_time` into frames and moves that time
on by the length of the frames, both rounded down.  A poll never gets ahead of the clock and feeds
at most 1024 frames.  **What the frames add up to follows the clock as long as the frames due are at
most 1024 and last a whole number of microseconds**, which 441 frames do and fewer do not.
-/
import FroggyKVM.Audio.Frames

namespace FroggyKVM.Audio

variable {σ : Type}

/-! ## A poll -/

/-- The state of the audio part of `gb300_poll_events`. -/
structure Poller (σ : Type) where
  lastAudioTime : Nat := 0
  mixer : Mixer σ := {}

/-- The clock and `last_audio_time` are `uint64_t`. -/
def u64 (x : Int) : Nat := (x % 18446744073709551616).toNat

/-- The audio part of `gb300_poll_events` at time `now`: the batch for the frontend. -/
def Poller.poll (env : Env σ) (now : Nat) (p : Poller σ) : List (Int × Int) × Poller σ :=
  let last := if p.lastAudioTime = 0 ∨ now < p.lastAudioTime then now else p.lastAudioTime
  let delta := i64 ((now : Int) - last)
  -- the debt is dropped if the game was frozen
  let (last, delta) := if delta > 100000 then (now, 0) else (last, delta)
  if delta ≥ 20000 then
    let frames := i32 (Int.tdiv (delta * 22050) 1000000)
    if frames > 0 then
      let (frames, last) :=
        if frames > 1024 then (1024, u64 (now - Int.tdiv (1024 * 1000000) 22050)) else (frames, last)
      let r := gb300AudioRead env frames p.mixer
      (r.1, { lastAudioTime := u64 (last + Int.tdiv (frames * 1000000) 22050), mixer := r.2 })
    else ([], { p with lastAudioTime := last })
  else ([], { p with lastAudioTime := last })

theorem frameStates_length : ∀ (n : Nat) (g : Mixer σ), (frameStates n g).length = n
  | 0, _ => rfl
  | n + 1, g => congrArg (· + 1) (frameStates_length n (mixFrame g).2)

/-- A call produces the frames it is asked for. -/
theorem gb300AudioRead_length (env : Env σ) (n : Int) (g : Mixer σ) :
    (gb300AudioRead env n g).1.length = n.toNat := by
  rw [gb300AudioRead_frames, List.length_map, readStates, frameStates_length]

/-- The time that a poll counts from. -/
def Poller.base (p : Poller σ) (now : Nat) : Nat :=
  if p.lastAudioTime = 0 ∨ now < p.lastAudioTime then now else p.lastAudioTime

theorem Poller.base_le (p : Poller σ) (now : Nat) : p.base now ≤ now := by
  unfold Poller.base
  split
  · exact Nat.le_refl now
  · case isFalse h => omega

/-- The whole frames in the time since then. -/
def Poller.framesDue (p : Poller σ) (now : Nat) : Nat := (now - p.base now) * 22050 / 1000000

/-- **What a poll does**: nothing, drop what is due, feed what is due, or feed 1024 frames and drop
the rest. -/
theorem Poller.poll_cases (env : Env σ) (p : Poller σ) {now : Nat}
    (hnow : now < 18446744073709551616) :
    (p.framesDue now < 441 ∧ (p.poll env now).1.length = 0 ∧
      (p.poll env now).2.lastAudioTime = p.base now) ∨
    (441 ≤ p.framesDue now ∧ p.framesDue now ≤ 1024 ∧
      (p.poll env now).1.length = p.framesDue now ∧
      (p.poll env now).2.lastAudioTime = p.base now + p.framesDue now * 1000000 / 22050) ∨
    (1024 < p.framesDue now ∧ (p.poll env now).1.length = 1024 ∧
      (p.poll env now).2.lastAudioTime = now) ∨
    (1024 < p.framesDue now ∧ (p.poll env now).1.length = 0 ∧
      ((p.poll env now).2.lastAudioTime = now ∨
        (p.poll env now).2.lastAudioTime = p.base now)) := by
  have hbase := p.base_le now
  unfold Poller.framesDue Poller.poll
  rw [← Poller.base]
  generalize p.base now = base at hbase
  obtain ⟨delta, rfl⟩ := Nat.exists_eq_add_of_le hbase
  have hdelta : ((base + delta : Nat) : Int) - base = delta := by omega
  dsimp only
  rw [hdelta, Nat.add_sub_cancel_left]
  rcases Nat.lt_or_ge delta 9223372036854775808 with hsmall | hlarge
  · rw [i64_of_range (by omega)]
    by_cases hfrozen : (delta : Int) > 100000
    · rw [if_pos hfrozen]
      exact .inr (.inr (.inr ⟨by omega, rfl, .inl rfl⟩))
    · rw [if_neg hfrozen]
      dsimp only
      by_cases hlong : (delta : Int) ≥ 20000
      · have hframes : i32 (Int.tdiv ((delta : Int) * 22050) 1000000) =
            ((delta * 22050 / 1000000 : Nat) : Int) := by
          rw [Int.tdiv_eq_ediv_of_nonneg (by omega), i32_of_range (by omega)]
          omega
        rw [if_pos hlong, hframes, if_pos (by omega)]
        by_cases hmany : ((delta * 22050 / 1000000 : Nat) : Int) > 1024
        · rw [if_pos hmany]
          have hwindow : Int.tdiv (1024 * 1000000) 22050 = 46439 := by decide
          dsimp only
          rw [hwindow, gb300AudioRead_length]
          refine .inr (.inr (.inl ⟨by omega, rfl, ?_⟩))
          unfold u64
          omega
        · rw [if_neg hmany]
          have hwhole : delta * 22050 / 1000000 * 1000000 ≤ delta * 22050 := Nat.div_mul_le_self ..
          have hdue : 441 ≤ delta * 22050 / 1000000 := by omega
          obtain ⟨frames, hdef⟩ : ∃ frames, delta * 22050 / 1000000 = frames := ⟨_, rfl⟩
          rw [hdef] at hwhole hdue hmany ⊢
          dsimp only
          rw [gb300AudioRead_length, Int.tdiv_eq_ediv_of_nonneg (by omega)]
          refine .inr (.inl ⟨hdue, by omega, by omega, ?_⟩)
          have hcast : (frames : Int) * 1000000 / 22050 = (frames * 1000000 / 22050 : Nat) := by
            simp only [Int.natCast_ediv, Int.natCast_mul, Nat.cast_ofNat]
          have hadvance : frames * 1000000 / 22050 ≤ delta := by omega
          rw [hcast]
          generalize frames * 1000000 / 22050 = advance at hadvance
          unfold u64
          omega
      · rw [if_neg hlong]
        exact .inl ⟨by omega, rfl, rfl⟩
  · -- so large a difference is negative as an `int64_t`
    rw [i64_of_upper (by omega),
      if_neg (show ¬ (delta : Int) - 18446744073709551616 > 100000 by omega)]
    dsimp only
    rw [if_neg (show ¬ (delta : Int) - 18446744073709551616 ≥ 20000 by omega)]
    exact .inr (.inr (.inr ⟨by omega, rfl, .inr rfl⟩))

/-! ## Runs -/

/-- The poller and the clock value it saw last. -/
structure Paced (σ : Type) where
  poller : Poller σ
  clock : Nat

/-- The clock does not go back, and moves by less than the window of 1024 frames; the batch is what
the poll feeds. -/
def Paced.Step (env : Env σ) (s : Paced σ) (e : Nat × List (Int × Int)) (s' : Paced σ) : Prop :=
  s.clock ≤ e.1 ∧ e.1 < 18446744073709551616 ∧ (e.1 - s.clock) * 22050 < 1024000000 ∧
    (e.2, s'.poller) = s.poller.poll env e.1 ∧ s'.clock = e.1

/-- The frames due are at most 1024; they are too few to be fed, or 441 or 882. -/
def Paced.Meets (s : Paced σ) (e : Nat × List (Int × Int)) : Prop :=
  s.poller.framesDue e.1 ≤ 1024 ∧
    (s.poller.framesDue e.1 < 441 ∨ 441 ∣ s.poller.framesDue e.1)

/-- The frames that a run feeds. -/
def framesFed (es : List (Nat × List (Int × Int))) : Nat := (es.map fun e => e.2.length).sum

/-- `last_audio_time` is not ahead of the clock. -/
def Paced.Behind (s : Paced σ) : Prop := s.poller.lastAudioTime ≤ s.clock

theorem Paced.Behind.step {env : Env σ} {s s' : Paced σ} {e : Nat × List (Int × Int)}
    (hstep : s.Step env e s') : s'.Behind ∧ e.2.length ≤ 1024 := by
  obtain ⟨-, hnow, -, hpoll, hclock⟩ := hstep
  have hbatch : e.2 = (s.poller.poll env e.1).1 := congrArg Prod.fst hpoll
  have hnext : s'.poller = (s.poller.poll env e.1).2 := congrArg Prod.snd hpoll
  have hbase := s.poller.base_le e.1
  unfold Paced.Behind
  rw [hclock, hnext, hbatch]
  rcases s.poller.poll_cases env hnow with ⟨-, hlength, hlast⟩ | ⟨-, hfew, hlength, hlast⟩ |
      ⟨-, hlength, hlast⟩ | ⟨-, hlength, hlast⟩
  · omega
  · refine ⟨?_, by omega⟩
    have hwhole : s.poller.framesDue e.1 * 1000000 ≤ (e.1 - s.poller.base e.1) * 22050 :=
      Nat.div_mul_le_self ..
    lia
  · omega
  · rcases hlast with hlast | hlast <;> omega

/-- The frames fed since `start`, with the time not yet fed and a time lost at the beginning, are
the time that has passed. -/
structure Paced.OnTime (start : Nat) (s : Paced σ) (fed : Nat) : Prop where
  behind : s.Behind
  fresh : s.poller.lastAudioTime = 0 → fed = 0 ∧ s.clock = start
  paced : s.poller.lastAudioTime ≠ 0 → ∃ lost, lost * 22050 < 1024000000 ∧
    s.clock - s.poller.lastAudioTime < 20000 ∧
    fed * 1000000 + (s.clock - s.poller.lastAudioTime + lost) * 22050 = (s.clock - start) * 22050 ∧
    start ≤ s.clock

/-- **A poll that meets the condition** keeps the account exact. -/
theorem Paced.OnTime.step {env : Env σ} {start fed : Nat} {s s' : Paced σ}
    {e : Nat × List (Int × Int)} (h : s.OnTime start fed) (hmeets : s.Meets e)
    (hstep : s.Step env e s') : s'.OnTime start (fed + e.2.length) := by
  have hbehind := (Paced.Behind.step hstep).1
  obtain ⟨hmono, hnow, hgap, hpoll, hclock⟩ := hstep
  obtain ⟨hmost, hwhole⟩ := hmeets
  have hbatch : e.2 = (s.poller.poll env e.1).1 := congrArg Prod.fst hpoll
  have hnext : s'.poller = (s.poller.poll env e.1).2 := congrArg Prod.snd hpoll
  have hold : s.poller.lastAudioTime ≤ s.clock := h.behind
  have hcases := s.poller.poll_cases env hnow
  rw [← hbatch, ← hnext] at hcases
  have hdue : s.poller.framesDue e.1 = (e.1 - s.poller.base e.1) * 22050 / 1000000 := rfl
  by_cases hfresh : s.poller.lastAudioTime = 0
  · -- the first poll with a clock that is not 0 starts the account
    obtain ⟨hfed, hstart⟩ := h.fresh hfresh
    have hbase : s.poller.base e.1 = e.1 := if_pos (.inl hfresh)
    rw [hbase, Nat.sub_self] at hdue
    rw [hbase] at hcases
    clear hbase
    generalize s.poller.framesDue e.1 = due at *
    rcases hcases with ⟨-, hlength, hlast⟩ | ⟨hmany, -⟩ | ⟨hmany, -⟩ | ⟨hmany, -⟩
    · refine ⟨hbehind, fun hzero => ⟨by omega, by omega⟩, fun _ => ⟨e.1 - start, ?_, ?_, ?_, ?_⟩⟩
      · rw [← hstart]
        exact hgap
      · omega
      · rw [hclock, hlast, hlength, hfed]
        omega
      · omega
    · omega
    · omega
    · omega
  · obtain ⟨lost, hlost, hrest, haccount, hstart⟩ := h.paced hfresh
    have hbase : s.poller.base e.1 = s.poller.lastAudioTime := if_neg (by omega)
    rw [hbase] at hdue hcases
    clear hbase
    generalize s.poller.framesDue e.1 = due at *
    -- the time since the last poll, that not yet fed, and that since the start
    obtain ⟨gap, hgap⟩ := Nat.exists_eq_add_of_le hmono
    have hsince : e.1 - s.poller.lastAudioTime = s.clock - s.poller.lastAudioTime + gap := by
      rw [hgap, Nat.sub_add_comm hold]
    have htotal : e.1 - start = s.clock - start + gap := by rw [hgap, Nat.sub_add_comm hstart]
    rw [hsince] at hdue
    generalize s.clock - s.poller.lastAudioTime = since at *
    generalize s.clock - start = total at *
    rcases hcases with ⟨hfew, hlength, hlast⟩ | ⟨hmany, -, hlength, hlast⟩ | ⟨hmany, -⟩ | ⟨hmany, -⟩
    · refine ⟨hbehind, fun hzero => absurd (hlast.symm.trans hzero) hfresh,
        fun _ => ⟨lost, hlost, ?_, ?_, ?_⟩⟩
      · omega
      · rw [hclock, hlast, hlength, hsince, htotal]
        linarith only [haccount]
      · omega
    · obtain ⟨m, hm⟩ : 441 ∣ due := hwhole.resolve_left (by omega)
      have hadvance : due * 1000000 / 22050 = 20000 * m := by omega
      rw [hadvance] at hlast
      refine ⟨hbehind, fun hzero => absurd hzero (by omega), fun _ => ⟨lost, hlost, ?_, ?_, ?_⟩⟩
      · omega
      · obtain ⟨rest, hrest'⟩ := Nat.exists_eq_add_of_le (show 20000 * m ≤ since + gap by omega)
        have hleft : e.1 - (s.poller.lastAudioTime + 20000 * m) = rest := by
          rw [← Nat.sub_sub, hsince, hrest', Nat.add_sub_cancel_left]
        rw [hclock, hlast, hlength, hleft, htotal]
        linarith only [haccount, hrest', hm]
      · omega
    · omega
    · omega

/-- **Audio pacing does not drift** in a run that meets the condition: the frames fed differ from
those of the time that has passed by less than 1465, however many polls there were.  In every run
`last_audio_time` stays behind the clock and a poll feeds at most 1024 frames. -/
theorem Paced.no_drift {env : Env σ} {s : Paced σ} {es : List (Nat × List (Int × Int))} {p : Poller σ}
    {start : Nat} (hp : p.lastAudioTime = 0)
    (hrun : Lts.Run (Lts.Guarded (Paced.Step env) Paced.Meets) { poller := p, clock := start } es s) :
    s.Behind ∧ (∀ e ∈ es, e.2.length ≤ 1024) ∧
      framesFed es * 1000000 ≤ (s.clock - start) * 22050 ∧
      (s.clock - start) * 22050 < (framesFed es + 1465) * 1000000 := by
  have hgeneral : ∀ {s₀ : Paced σ} {es : List (Nat × List (Int × Int))} {s : Paced σ},
      Lts.Run (Lts.Guarded (Paced.Step env) Paced.Meets) s₀ es s → ∀ fed, s₀.OnTime start fed →
        s.OnTime start (fed + framesFed es) ∧ ∀ e ∈ es, e.2.length ≤ 1024 := by
    intro s₀ es s hrun
    induction hrun with
    | nil => exact fun fed h => ⟨h, fun e he => nomatch he⟩
    | cons hstep _ ih =>
      intro fed h
      obtain ⟨hend, hbatches⟩ := ih _ (h.step hstep.1 hstep.2)
      refine ⟨?_, fun e he => ?_⟩
      · rw [framesFed, List.map_cons, List.sum_cons, ← Nat.add_assoc]
        exact hend
      · rcases List.mem_cons.1 he with rfl | he
        · exact (Paced.Behind.step hstep.2).2
        · exact hbatches e he
  have hinit : ({ poller := p, clock := start } : Paced σ).OnTime start 0 :=
    ⟨hp.trans_le (Nat.zero_le start), fun _ => ⟨rfl, rfl⟩, fun hno => absurd hp hno⟩
  obtain ⟨⟨hbehind, hfresh, hpaced⟩, hbatches⟩ := hgeneral hrun 0 hinit
  rw [Nat.zero_add] at hfresh hpaced
  refine ⟨hbehind, hbatches, ?_⟩
  by_cases hzero : s.poller.lastAudioTime = 0
  · obtain ⟨hfed, hclock⟩ := hfresh hzero
    rw [hfed, hclock]
    lia
  · obtain ⟨lost, hlost, hrest, haccount, -⟩ := hpaced hzero
    lia

/-- The first poll takes the time and feeds nothing. -/
theorem Paced.first_step (env : Env σ) {p : Poller σ} (hp : p.lastAudioTime = 0) {now : Nat}
    (hnow : now < 18446744073709551616) :
    ∃ (batch : List (Int × Int)) (s : Paced σ),
      ({ poller := p, clock := now } : Paced σ).Step env (now, batch) s ∧
        ({ poller := p, clock := now } : Paced σ).Meets (now, batch) ∧ batch.length = 0 ∧
        s.poller.lastAudioTime = now ∧ s.clock = now := by
  have hbase : p.base now = now := if_pos (.inl hp)
  have hdue : p.framesDue now = 0 := by
    unfold Poller.framesDue
    rw [hbase, Nat.sub_self]
  have hstep : ({ poller := p, clock := now } : Paced σ).Step env (now, (p.poll env now).1)
      { poller := (p.poll env now).2, clock := now } := by
    refine ⟨Nat.le_refl now, hnow, ?_, rfl, rfl⟩
    show (now - now) * 22050 < 1024000000
    rw [Nat.sub_self]
    decide
  refine ⟨_, _, hstep, ⟨?_, .inl ?_⟩, ?_, ?_, rfl⟩
  · exact Nat.le_trans (Nat.le_of_eq hdue) (by decide)
  · exact Nat.lt_of_le_of_lt (Nat.le_of_eq hdue) (by decide)
  · rcases p.poll_cases env hnow with h | h | h | h <;> omega
  · rcases p.poll_cases env hnow with h | h | h | h
    · exact h.2.2.trans hbase
    · omega
    · omega
    · omega

/-- A poll at the start and one 20000 microseconds later, which feeds 441 frames. -/
theorem Paced.no_drift_exact : ∃ (es : List (Nat × List (Int × Int))) (s : Paced Unit),
    Lts.Run (Lts.Guarded (Paced.Step plainEnv) Paced.Meets) { poller := {}, clock := 1 } es s ∧
      es.length = 2 ∧ s.clock = 20001 ∧ framesFed es * 1000000 ≤ (s.clock - 1) * 22050 ∧
      (s.clock - 1) * 22050 < (framesFed es + 1465) * 1000000 := by
  obtain ⟨batch, s, hfirst, hmeets, -, hlast, hclock⟩ :=
    Paced.first_step plainEnv (p := ({} : Poller Unit)) rfl (show 1 < 18446744073709551616 by decide)
  have hbase : s.poller.base 20001 = 1 := by
    unfold Poller.base
    rw [hlast]
    rfl
  have hdue : s.poller.framesDue 20001 = 441 := by
    unfold Poller.framesDue
    rw [hbase]
  have hsecond : s.Step plainEnv (20001, (s.poller.poll plainEnv 20001).1)
      { poller := (s.poller.poll plainEnv 20001).2, clock := 20001 } := by
    refine ⟨?_, show 20001 < 18446744073709551616 by decide, ?_, rfl, rfl⟩
    · show s.clock ≤ 20001
      omega
    · show (20001 - s.clock) * 22050 < 1024000000
      omega
  have hmeets' : s.Meets (20001, (s.poller.poll plainEnv 20001).1) :=
    ⟨Nat.le_trans (Nat.le_of_eq hdue) (by decide), .inr ⟨1, hdue⟩⟩
  have hrun : Lts.Run (Lts.Guarded (Paced.Step plainEnv) Paced.Meets)
      { poller := ({} : Poller Unit), clock := 1 } _ _ :=
    .cons ⟨hmeets, hfirst⟩ (.cons ⟨hmeets', hsecond⟩ (.nil _))
  obtain ⟨-, -, hlow, hhigh⟩ := Paced.no_drift rfl hrun
  exact ⟨_, _, hrun, rfl, rfl, hlow, hhigh⟩

/-! ## Drift -/

/-- 20046 microseconds are due 442 frames, which last a third of a microsecond longer than
`last_audio_time` is moved. -/
theorem Paced.drift_step (env : Env σ) {s : Paced σ} (hlast : s.poller.lastAudioTime ≠ 0)
    (hclock : s.clock ≤ s.poller.lastAudioTime + 1)
    (hbehind : s.poller.lastAudioTime ≤ s.clock)
    (hnow : s.poller.lastAudioTime + 20046 < 18446744073709551616) :
    ∃ (batch : List (Int × Int)) (s' : Paced σ),
      s.Step env (s.poller.lastAudioTime + 20046, batch) s' ∧ batch.length = 442 ∧
        s'.poller.lastAudioTime = s.poller.lastAudioTime + 20045 ∧
        s'.clock = s.poller.lastAudioTime + 20046 := by
  have hbase : s.poller.base (s.poller.lastAudioTime + 20046) = s.poller.lastAudioTime :=
    if_neg (by omega)
  have hdue : s.poller.framesDue (s.poller.lastAudioTime + 20046) = 442 := by
    unfold Poller.framesDue
    rw [hbase, Nat.add_sub_cancel_left]
  have hstep : s.Step env
      (s.poller.lastAudioTime + 20046, (s.poller.poll env (s.poller.lastAudioTime + 20046)).1)
      { poller := (s.poller.poll env (s.poller.lastAudioTime + 20046)).2,
        clock := s.poller.lastAudioTime + 20046 } := by
    refine ⟨?_, hnow, ?_, rfl, rfl⟩
    · show s.clock ≤ s.poller.lastAudioTime + 20046
      lia
    · show (s.poller.lastAudioTime + 20046 - s.clock) * 22050 < 1024000000
      omega
  rcases s.poller.poll_cases env hnow with ⟨hfew, -⟩ | ⟨-, -, hlength, hnext⟩ | ⟨hmany, -⟩ | ⟨hmany, -⟩
  · omega
  · rw [hdue, hbase] at hnext
    rw [hdue] at hlength
    exact ⟨_, _, hstep, hlength, hnext, rfl⟩
  · omega
  · omega

/-- **Audio pacing drifts**: every poll of 20045 microseconds feeds 442 frames, 7750 millionths of a
frame more than the time that has passed. -/
theorem Paced.drifts : ∀ n : Nat, 20045 * n + 20047 < 18446744073709551616 →
    ∃ (es : List (Nat × List (Int × Int))) (s : Paced Unit),
      Lts.Run (Paced.Step plainEnv) { poller := {}, clock := 1 } es s ∧ es.length = n + 2 ∧
        framesFed es * 1000000 + 22050 = (s.clock - 1) * 22050 + 7750 * (n + 1) := by
  intro n hn
  have hgeneral : ∀ (n : Nat) (s : Paced Unit), s.poller.lastAudioTime ≠ 0 →
      s.clock ≤ s.poller.lastAudioTime + 1 → s.poller.lastAudioTime ≤ s.clock →
      s.poller.lastAudioTime + 20045 * n + 20046 < 18446744073709551616 →
      ∃ (es : List (Nat × List (Int × Int))) (s' : Paced Unit),
        Lts.Run (Paced.Step plainEnv) s es s' ∧ es.length = n + 1 ∧ framesFed es = 442 * (n + 1) ∧
          s'.clock = s.poller.lastAudioTime + 20045 * n + 20046 := by
    intro n
    induction n with
    | zero =>
      intro s hlast hclock hbehind hnow
      obtain ⟨batch, s', hstep, hlength, -, hclock'⟩ :=
        Paced.drift_step plainEnv hlast hclock hbehind (by omega)
      exact ⟨_, s', .cons hstep (.nil _), rfl, hlength, hclock'⟩
    | succ n ih =>
      intro s hlast hclock hbehind hnow
      obtain ⟨batch, s', hstep, hlength, hlast', hclock'⟩ :=
        Paced.drift_step plainEnv hlast hclock hbehind (by omega)
      obtain ⟨es, s'', hrun, hpolls, hfed, hend⟩ := ih s' (by omega) (by omega) (by omega) (by omega)
      refine ⟨_, s'', .cons hstep hrun, ?_, ?_, by omega⟩
      · rw [List.length_cons, hpolls]
      · rw [framesFed, List.map_cons, List.sum_cons, hlength]
        show 442 + framesFed es = _
        omega
  obtain ⟨batch, s₁, hfirst, -, hbatch, hlast, hclock⟩ :=
    Paced.first_step plainEnv (p := ({} : Poller Unit)) rfl (show 1 < 18446744073709551616 by decide)
  obtain ⟨es, s, hrun, hpolls, hfed, hend⟩ :=
    hgeneral n s₁ (by omega) (by omega) (by omega) (by omega)
  refine ⟨_, s, .cons hfirst hrun, ?_, ?_⟩
  · rw [List.length_cons, hpolls]
  · have htotal : framesFed ((1, batch) :: es) = 442 * (n + 1) := by
      rw [framesFed, List.map_cons, List.sum_cons, hbatch, Nat.zero_add]
      exact hfed
    rw [htotal, hend, hlast]
    omega

/-- **No bound on the drift** holds for all runs, not even one of a million million frames. -/
theorem Paced.drift_unbounded : ¬ ∃ bound ≤ 1000000000000, ∀ (es : List (Nat × List (Int × Int)))
    (s : Paced Unit), Lts.Run (Paced.Step plainEnv) { poller := {}, clock := 1 } es s →
      framesFed es * 1000000 ≤ (s.clock - 1) * 22050 + bound * 1000000 := by
  rintro ⟨bound, hbound, hall⟩
  obtain ⟨es, s, hrun, -, hdrift⟩ := Paced.drifts 200000000000000 (by decide)
  have hfed := hall es s hrun
  lia

end FroggyKVM.Audio
