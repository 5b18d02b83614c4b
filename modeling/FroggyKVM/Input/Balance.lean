/-
# FroggyKVM.Input.Balance — every key press is released.

What a button's events look like is a function of the masks alone: `activeKey` is the key chosen
when a held button went down.  The log of one button is a sequence of taps, and the pending press
of its active key; the counts, the alternation and the behaviour of the modifiers follow.
-/
import FroggyKVM.Input.Poll

namespace FroggyKVM.Input

variable (cfg : Config)

/-! ## The key a button stands for -/

/-- The key chosen when `btn` goes down in a poll with mask `m`.  A modifier has none. -/
def pressKey (m : Mask) (btn : Button) : JavacallKey :=
  if cfg.enableCombos then
    if btn.isModifier then .invalid
    else
      match if m.has .select then cfg.selectCombo btn else none with
      | some jk => jk
      | none =>
        match if m.has .start then cfg.startCombo btn else none with
        | some jk => jk
        | none => cfg.jkey btn
  else cfg.jkey btn

/-- The active keys after mask `cur`, when they were `act` after mask `prev`. -/
def activeAfter (prev cur : Mask) (act : Button → JavacallKey) (btn : Button) : JavacallKey :=
  if cur.has btn then if prev.has btn then act btn else pressKey cfg cur btn else .invalid

/-- The last mask, and the key each held button went down with. -/
def history (masks : List Mask) : Mask × (Button → JavacallKey) :=
  masks.foldl (fun s m => (m, activeAfter cfg s.1 m s.2)) (0, fun _ => .invalid)

/-- The last mask polled. -/
def lastMask (masks : List Mask) : Mask := masks.getLastD 0

/-- The active mapping of a button: the key it was pressed as, if it is held. -/
def activeKey (masks : List Mask) : Button → JavacallKey := (history cfg masks).2

theorem history_concat (masks : List Mask) (m : Mask) :
    history cfg (masks ++ [m]) =
      (m, activeAfter cfg (history cfg masks).1 m (history cfg masks).2) := by
  simp [history, List.foldl_append]

theorem history_fst (masks : List Mask) : (history cfg masks).1 = lastMask masks := by
  induction masks using List.reverseRecOn with
  | nil => rfl
  | append_singleton masks m _ => simp [history_concat, lastMask]

/-! ## The events of one poll -/

/-- The combo targets of a modifier. -/
def Config.comboOf : Button → Button → Option JavacallKey
  | .select => cfg.selectCombo
  | .start => cfg.startCombo
  | _ => fun _ => none

/-- The button goes down and has a combo target. -/
def usesCombo (prev cur : Mask) (combo : Button → Option JavacallKey) (btn : Button) : Bool :=
  cur.has btn && !prev.has btn && (combo btn).isSome

/-- A combo button of modifier `M` goes down between two masks. -/
def comboPressed (M : Button) (prev cur : Mask) : Bool :=
  Button.all.any (usesCombo prev cur (cfg.comboOf M))

/-- `s_select_*` or `s_start_*`. -/
def InputState.modifier (st : InputState) : Button → Modifier
  | .select => st.select
  | .start => st.start
  | _ => {}

/-- The events of one button in one poll. -/
def pollEvents (prev cur : Mask) (act : JavacallKey) (used : Bool) (btn : Button) :
    List KeyEvent :=
  if cur.has btn == prev.has btn then []
  else if cfg.enableCombos && btn.isModifier then
    if cur.has btn || used then [] else tap btn (cfg.jkey btn)
  else if cur.has btn then notify btn (pressKey cfg cur btn) .keyPressed
  else notify btn act .keyReleased

theorem xor_has (cur prev : Mask) (btn : Button) :
    (cur ^^^ prev : Mask).has btn = !(cur.has btn == prev.has btn) := by
  unfold Mask.has
  rw [BitVec.getLsbD_xor]
  cases cur.getLsbD btn.pspBit <;> cases prev.getLsbD btn.pspBit <;> rfl

/-- Buttons that are up, and modifiers of combos, have no active key; without combos a held button
has its own. -/
structure Chosen (prev : Mask) (act : Button → JavacallKey) : Prop where
  up : ∀ btn, prev.has btn = false → act btn = .invalid
  modifier : cfg.enableCombos = true → ∀ btn, btn.isModifier = true → act btn = .invalid
  plain : cfg.enableCombos = false → ∀ btn, prev.has btn = true → act btn = cfg.jkey btn

/-- With combos, the tracked modifiers and the active keys are what the masks say. -/
structure Tracks (prev : Mask) (act : Button → JavacallKey) (st : InputState) : Prop where
  last : st.lastButtons = prev
  select : cfg.enableCombos = true → st.select.held = prev.has .select
  start : cfg.enableCombos = true → st.start.held = prev.has .start
  active : cfg.enableCombos = true → ∀ btn, st.activeJkey btn = act btn

/-- What the loop over the buttons keeps between the masks `prev` and `cur`: the buttons in
`todo` are still as they were. -/
structure Looping (prev cur : Mask) (act : Button → JavacallKey) (rest : List Button)
    (s : PollLoop) : Prop where
  select : s.st.select.held = cur.has .select
  start : s.st.start.held = cur.has .start
  todo : ∀ btn, btn ∈ rest → s.st.activeJkey btn = act btn
  done : ∀ btn, btn ∉ rest → s.st.activeJkey btn = activeAfter cfg prev cur act btn

variable {cfg}

theorem notify_button {btn : Button} {jk : JavacallKey} {type : KeypressType} {e : KeyEvent}
    (h : e ∈ notify btn jk type) : e.button = btn := by
  unfold notify at h
  split at h
  · rw [List.mem_singleton.1 h]
  · cases h

theorem tap_button {btn : Button} {jk : JavacallKey} {e : KeyEvent} (h : e ∈ tap btn jk) :
    e.button = btn := by
  rcases List.mem_append.1 h with h | h <;> exact notify_button h

theorem pollEvents_button {prev cur : Mask} {act : JavacallKey} {used : Bool} {btn : Button}
    {e : KeyEvent} (h : e ∈ pollEvents cfg prev cur act used btn) : e.button = btn := by
  unfold pollEvents at h
  split_ifs at h with _ _ _ _
  · cases h
  · cases h
  · exact tap_button h
  · exact notify_button h
  · exact notify_button h

/-! ## One iteration of the loop over the buttons -/

/-- A combo button of a held modifier went down: the modifier has been used. -/
def Modifier.use (m : Modifier) (combo : Bool) : Modifier :=
  { m with comboUsed := m.comboUsed || (m.held && combo) }

theorem Modifier.use_false (m : Modifier) : m.use false = m := by
  simp [Modifier.use]

theorem Modifier.use_not_held {m : Modifier} (h : m.held = false) (combo : Bool) :
    m.use combo = m := by
  obtain ⟨held, used⟩ := m
  simp_all [Modifier.use]

theorem Modifier.use_held {m : Modifier} (h : m.held = true) :
    m.use true = { m with comboUsed := true } := by
  simp [Modifier.use, h]

theorem Modifier.use_use (m : Modifier) (c d : Bool) : (m.use c).use d = m.use (c || d) := by
  simp [Modifier.use, Bool.or_assoc, Bool.and_or_distrib_left]

/-- No button is in combos of both modifiers. -/
theorem startCombo_eq_none {btn : Button} {jk : JavacallKey} (h : cfg.selectCombo btn = some jk) :
    cfg.startCombo btn = none := by
  cases btn <;> first | rfl | cases h

theorem pollButton_pressed {changed cur : Mask} {s : PollLoop} {btn : Button}
    (hmod : btn.isModifier = false) (hchanged : changed.has btn = true)
    (hcur : cur.has btn = true) (hcombo : cfg.enableCombos = true)
    (hsel : s.st.select.held = cur.has .select) (hsta : s.st.start.held = cur.has .start) :
    pollButton cfg changed cur s btn =
      { st := { s.st with
          select := s.st.select.use (cfg.selectCombo btn).isSome
          start := s.st.start.use (cfg.startCombo btn).isSome
          activeJkey := Function.update s.st.activeJkey btn (pressKey cfg cur btn) }
        events := s.events ++ notify btn (pressKey cfg cur btn) .keyPressed } := by
  unfold pollButton pressKey
  rw [← hsel, ← hsta]
  cases hs : cfg.selectCombo btn with
  | none =>
    cases ht : cfg.startCombo btn with
    | none => simp [hmod, hchanged, hcur, hcombo, Modifier.use_false]
    | some jk =>
      cases hh : s.st.start.held <;>
        simp [hmod, hchanged, hcur, hcombo, hh, Modifier.use_false, Modifier.use_held,
          Modifier.use_not_held]
  | some jk =>
    have ht := startCombo_eq_none hs
    cases hh : s.st.select.held <;>
      simp [hmod, hchanged, hcur, hcombo, hh, ht, Modifier.use_false, Modifier.use_held,
        Modifier.use_not_held]

theorem pollButton_released {changed cur : Mask} {s : PollLoop} {btn : Button}
    (hmod : btn.isModifier = false) (hchanged : changed.has btn = true)
    (hcur : cur.has btn = false) :
    pollButton cfg changed cur s btn =
      { st := { s.st with activeJkey := Function.update s.st.activeJkey btn .invalid }
        events := s.events ++ notify btn (s.st.activeJkey btn) .keyReleased } := by
  simp [pollButton, hmod, hchanged, hcur]

theorem pollButton_idle {changed cur : Mask} {s : PollLoop} {btn : Button}
    (h : btn.isModifier = true ∨ changed.has btn = false) :
    pollButton cfg changed cur s btn = s := by
  rcases h with h | h <;> simp [pollButton, h]

/-- The loop reaches a button whose events and active key are due. -/
structure LoopStep (prev cur : Mask) (act : Button → JavacallKey) (rest btns : List Button)
    (s s' : PollLoop) : Prop where
  looping : Looping cfg prev cur act rest s'
  events : s'.events = s.events ++ btns.flatMap fun btn =>
    if btn.isModifier then [] else pollEvents cfg prev cur (act btn) false btn
  select : s'.st.select = s.st.select.use (btns.any (usesCombo prev cur cfg.selectCombo))
  start : s'.st.start = s.st.start.use (btns.any (usesCombo prev cur cfg.startCombo))

theorem modifier_no_combo {btn : Button} (h : btn.isModifier = true) :
    cfg.selectCombo btn = none ∧ cfg.startCombo btn = none := by
  cases btn <;> first | exact ⟨rfl, rfl⟩ | cases h

theorem pollButton_step (hcombo : cfg.enableCombos = true) {prev cur : Mask}
    {act : Button → JavacallKey} (hchosen : Chosen cfg prev act)
    {btn : Button} {rest : List Button} (hnew : btn ∉ rest) {s : PollLoop}
    (h : Looping cfg prev cur act (btn :: rest) s) :
    @LoopStep cfg prev cur act rest [btn] s (pollButton cfg (cur ^^^ prev) cur s btn) := by
  have hact : s.st.activeJkey btn = act btn := h.todo btn List.mem_cons_self
  have hkeep : ∀ jk, activeAfter cfg prev cur act btn = jk →
      ∀ c, (c ∈ rest → Function.update s.st.activeJkey btn jk c = act c) ∧
        (c ∉ rest → Function.update s.st.activeJkey btn jk c = activeAfter cfg prev cur act c) := by
    intro jk hjk c
    by_cases hc : c = btn
    · subst hc
      rw [Function.update_self]
      exact ⟨fun hmem => absurd hmem hnew, fun _ => hjk.symm⟩
    · rw [Function.update_of_ne hc]
      exact ⟨fun hmem => h.todo c (List.mem_cons_of_mem _ hmem),
        fun hmem => h.done c (by simp [hc, hmem])⟩
  have hidle : activeAfter cfg prev cur act btn = act btn →
      Looping cfg prev cur act rest s := by
    intro hjk
    have hself : Function.update s.st.activeJkey btn (act btn) = s.st.activeJkey := by
      rw [← hact, Function.update_eq_self]
    have hk := hkeep (act btn) hjk
    rw [hself] at hk
    exact ⟨h.select, h.start, fun c => (hk c).1, fun c => (hk c).2⟩
  by_cases hmod : btn.isModifier = true
  · -- step 2 passes over the modifiers
    obtain ⟨hsel, hsta⟩ := @modifier_no_combo cfg btn hmod
    rw [pollButton_idle (.inl hmod)]
    refine ⟨hidle ?_, by simp [hmod], ?_, ?_⟩
    · simp [activeAfter, pressKey, hmod, hcombo, hchosen.modifier hcombo btn hmod]
    · simp [usesCombo, hsel, Modifier.use_false]
    · simp [usesCombo, hsta, Modifier.use_false]
  · have hmod : btn.isModifier = false := by simpa using hmod
    by_cases hsame : cur.has btn = prev.has btn
    · rw [pollButton_idle (.inr (by simp [xor_has, hsame]))]
      refine ⟨hidle ?_, by simp [hmod, pollEvents, hsame], ?_, ?_⟩
      · cases hp : prev.has btn with
        | true => simp [activeAfter, hsame, hp]
        | false => simp [activeAfter, hsame, hp, hchosen.up btn hp]
      · simp [usesCombo, hsame, Modifier.use_false]
      · simp [usesCombo, hsame, Modifier.use_false]
    · have hchanged : (cur ^^^ prev : Mask).has btn = true := by simp [xor_has, hsame]
      cases hcur : cur.has btn with
      | true =>
        have hprev : prev.has btn = false := by simpa [hcur] using hsame
        rw [pollButton_pressed hmod hchanged hcur hcombo h.select h.start]
        have hk := hkeep (pressKey cfg cur btn) (by simp [activeAfter, hcur, hprev])
        refine ⟨⟨h.select, h.start, fun c => (hk c).1, fun c => (hk c).2⟩, ?_, ?_, ?_⟩
        · simp [hmod, pollEvents, hcur, hprev]
        · simp [usesCombo, hcur, hprev]
        · simp [usesCombo, hcur, hprev]
      | false =>
        have hprev : prev.has btn = true := by simpa [hcur] using hsame
        rw [pollButton_released hmod hchanged hcur]
        have hk := hkeep .invalid (by simp [activeAfter, hcur])
        refine ⟨⟨h.select, h.start, fun c => (hk c).1, fun c => (hk c).2⟩, ?_, ?_, ?_⟩
        · simp [hmod, pollEvents, hcur, hprev, hact]
        · simp [usesCombo, hcur, Modifier.use_false]
        · simp [usesCombo, hcur, Modifier.use_false]

/-- The loop over the buttons. -/
theorem pollButtons (hcombo : cfg.enableCombos = true) {prev cur : Mask}
    {act : Button → JavacallKey} (hchosen : Chosen cfg prev act) {btns : List Button}
    (hnodup : btns.Nodup) {s : PollLoop} (h : Looping cfg prev cur act btns s) :
    @LoopStep cfg prev cur act [] btns s
      (btns.foldl (pollButton cfg (cur ^^^ prev) cur) s) := by
  induction btns generalizing s with
  | nil => exact ⟨h, by simp, (Modifier.use_false _).symm, (Modifier.use_false _).symm⟩
  | cons btn rest ih =>
    obtain ⟨hnew, hrest⟩ := List.nodup_cons.1 hnodup
    have hstep := pollButton_step hcombo hchosen hnew h
    have hloop := ih hrest hstep.looping
    refine ⟨hloop.looping, ?_, ?_, ?_⟩
    · rw [List.foldl_cons, hloop.events, hstep.events]
      simp
    · rw [List.foldl_cons, hloop.select, hstep.select, Modifier.use_use]
      simp
    · rw [List.foldl_cons, hloop.start, hstep.start, Modifier.use_use]
      simp

/-! ## One poll -/

/-- The modifier after step 1. -/
theorem trackModifier_fst {btn : Button} {prev cur : Mask} {m : Modifier} :
    (trackModifier cfg btn (cur ^^^ prev) cur m).1 =
      if cur.has btn == prev.has btn then m else { held := cur.has btn } := by
  unfold trackModifier
  rw [xor_has]
  cases hc : cur.has btn <;> cases hp : prev.has btn <;> simp

theorem trackModifier_snd (hcombo : cfg.enableCombos = true) {btn : Button}
    (hmod : btn.isModifier = true) {prev cur : Mask} {m : Modifier} (act : JavacallKey) :
    (trackModifier cfg btn (cur ^^^ prev) cur m).2 =
      pollEvents cfg prev cur act m.comboUsed btn := by
  unfold trackModifier pollEvents
  rw [xor_has]
  cases hc : cur.has btn <;> cases hp : prev.has btn <;> simp [hcombo, hmod]

theorem Chosen.after {prev cur : Mask} {act : Button → JavacallKey} (h : Chosen cfg prev act) :
    Chosen cfg cur (activeAfter cfg prev cur act) where
  up btn hup := by simp [activeAfter, hup]
  modifier hcombo btn hmod := by
    unfold activeAfter
    split_ifs
    · exact h.modifier hcombo btn hmod
    · simp [pressKey, hcombo, hmod]
    · rfl
  plain hcombo btn hdown := by
    unfold activeAfter
    rw [if_pos hdown]
    split_ifs with hprev
    · exact h.plain hcombo btn hprev
    · simp [pressKey, hcombo]

/-- The part of a log that belongs to one button. -/
def eventsOf (btn : Button) (log : List KeyEvent) : List KeyEvent :=
  log.filter fun e => e.button = btn

theorem eventsOf_append (btn : Button) (l₁ l₂ : List KeyEvent) :
    eventsOf btn (l₁ ++ l₂) = eventsOf btn l₁ ++ eventsOf btn l₂ := List.filter_append ..

theorem eventsOf_self {btn : Button} {l : List KeyEvent} (h : ∀ e ∈ l, e.button = btn) :
    eventsOf btn l = l := List.filter_eq_self.2 (by simpa using h)

theorem eventsOf_other {btn c : Button} {l : List KeyEvent} (h : ∀ e ∈ l, e.button = c)
    (hne : btn ≠ c) : eventsOf btn l = [] :=
  List.filter_eq_nil_iff.2 fun e he => by simpa [h e he] using hne.symm

theorem eventsOf_flatMap {f : Button → List KeyEvent} (hf : ∀ c, ∀ e ∈ f c, e.button = c)
    (btn : Button) : eventsOf btn (Button.all.flatMap f) = f btn := by
  have key : ∀ l : List Button, l.Nodup →
      eventsOf btn (l.flatMap f) = if btn ∈ l then f btn else [] := by
    intro l hl
    induction l with
    | nil => rfl
    | cons c l ih =>
      obtain ⟨hc, hl⟩ := List.nodup_cons.1 hl
      rw [List.flatMap_cons, eventsOf_append, ih hl]
      by_cases hbtn : btn = c
      · subst hbtn
        rw [eventsOf_self (hf btn), if_neg hc, if_pos List.mem_cons_self, List.append_nil]
      · rw [eventsOf_other (hf c) hbtn]
        simp [hbtn]
  rw [key _ (by decide), if_pos (by cases btn <;> decide)]

/-- What one poll does to the state and to the log of each button. -/
structure Polled (prev cur : Mask) (act : Button → JavacallKey) (st : InputState)
    (r : InputState × List KeyEvent) : Prop where
  tracks : Tracks cfg cur (activeAfter cfg prev cur act) r.1
  events : ∀ btn, eventsOf btn r.2 =
    pollEvents cfg prev cur (act btn) (st.modifier btn).comboUsed btn
  modifier : cfg.enableCombos = true → ∀ M, M.isModifier = true → r.1.modifier M =
    (if cur.has M == prev.has M then st.modifier M else { held := cur.has M }).use
      (comboPressed cfg M prev cur)

theorem activeAfter_self {cur : Mask} {act : Button → JavacallKey} (h : Chosen cfg cur act) :
    activeAfter cfg cur cur act = act := by
  funext btn
  unfold activeAfter
  cases hc : cur.has btn with
  | true => rfl
  | false => simp [h.up btn hc]

theorem comboPressed_self (M : Button) (cur : Mask) : comboPressed cfg M cur cur = false := by
  simp [comboPressed, usesCombo]

theorem poll_plain (hcombo : cfg.enableCombos = false) {st : InputState} {prev cur : Mask}
    {act : Button → JavacallKey} (hchosen : Chosen cfg prev act) (hlast : st.lastButtons = prev)
    (hne : cur ^^^ prev ≠ 0) :
    @Polled cfg prev cur act st (gb300InputPoll cfg st cur) := by
  have hpoll : gb300InputPoll cfg st cur = ({ st with lastButtons := cur },
      Button.all.flatMap fun btn =>
        if (cur ^^^ prev : Mask).has btn then
          notify btn (cfg.jkey btn) (if cur.has btn then .keyPressed else .keyReleased)
        else []) := by
    simp only [gb300InputPoll, hlast, if_neg hne, hcombo, Bool.not_false, if_true]
  have hno : cfg.enableCombos ≠ true := by simp [hcombo]
  rw [hpoll]
  refine ⟨⟨rfl, fun h => absurd h hno, fun h => absurd h hno, fun h => absurd h hno⟩, ?_,
    fun h => absurd h hno⟩
  intro btn
  rw [eventsOf_flatMap]
  · unfold pollEvents
    rw [xor_has]
    cases hc : cur.has btn <;> cases hp : prev.has btn <;>
      simp [hcombo, pressKey, hchosen.plain hcombo, hp]
  · intro c e he
    split at he
    · exact notify_button he
    · cases he

theorem poll_combos (hcombo : cfg.enableCombos = true) {st : InputState} {prev cur : Mask}
    {act : Button → JavacallKey} (h : Tracks cfg prev act st) (hchosen : Chosen cfg prev act)
    (hne : cur ^^^ prev ≠ 0) :
    @Polled cfg prev cur act st (gb300InputPoll cfg st cur) := by
  have hheld : ∀ {btn : Button} {m : Modifier}, m.held = prev.has btn →
      (if cur.has btn == prev.has btn then m else { held := cur.has btn }).held = cur.has btn := by
    intro btn m hm
    by_cases hc : cur.has btn = prev.has btn <;> simp [hc, hm]
  set s₀ : PollLoop :=
    { st := { st with select := (trackModifier cfg .select (cur ^^^ prev) cur st.select).1
                      start := (trackModifier cfg .start (cur ^^^ prev) cur st.start).1 }
      events := (trackModifier cfg .select (cur ^^^ prev) cur st.select).2 ++
        (trackModifier cfg .start (cur ^^^ prev) cur st.start).2 } with hs₀
  have hsel : s₀.st.select = if cur.has .select == prev.has .select then st.select
      else { held := cur.has .select } := trackModifier_fst
  have hsta : s₀.st.start = if cur.has .start == prev.has .start then st.start
      else { held := cur.has .start } := trackModifier_fst
  have hloop : Looping cfg prev cur act Button.all s₀ := by
    refine ⟨?_, ?_, fun btn _ => h.active hcombo btn, ?_⟩
    · rw [hsel, hheld (h.select hcombo)]
    · rw [hsta, hheld (h.start hcombo)]
    · intro btn hbtn
      exact absurd (by cases btn <;> decide) hbtn
  have hrun := pollButtons hcombo hchosen (by decide) hloop
  have hpoll : gb300InputPoll cfg st cur =
      ({ (Button.all.foldl (pollButton cfg (cur ^^^ prev) cur) s₀).st with lastButtons := cur },
        (Button.all.foldl (pollButton cfg (cur ^^^ prev) cur) s₀).events) := by
    simp only [gb300InputPoll, h.last, if_neg hne, hcombo, Bool.not_true, Bool.false_eq_true,
      if_false, hs₀]
  rw [hpoll]
  refine ⟨⟨rfl, fun _ => hrun.looping.select, fun _ => hrun.looping.start,
    fun _ btn => hrun.looping.done btn (by simp)⟩, ?_, ?_⟩
  · intro btn
    dsimp only
    rw [hrun.events, eventsOf_append, hs₀, eventsOf_append,
      trackModifier_snd hcombo rfl (act .select), trackModifier_snd hcombo rfl (act .start),
      eventsOf_flatMap]
    · have hother : ∀ {c : Button}, btn ≠ c → ∀ used,
          eventsOf btn (pollEvents cfg prev cur (act c) used c) = [] :=
        fun hne used => eventsOf_other (fun e he => pollEvents_button he) hne
      have hself : ∀ used, eventsOf btn (pollEvents cfg prev cur (act btn) used btn) =
          pollEvents cfg prev cur (act btn) used btn :=
        fun used => eventsOf_self fun e he => pollEvents_button he
      cases btn <;>
        simp only [hother, hself, Button.isModifier, InputState.modifier, ne_eq, reduceCtorEq,
          not_false_eq_true, List.nil_append, List.append_nil, decide_true, decide_false,
          Bool.or_false, Bool.or_true, Bool.false_eq_true, if_true, if_false]
    · intro c e he
      split at he
      · cases he
      · exact pollEvents_button he
  · intro _ M hM
    cases M with
    | select => exact hrun.select.trans (by rw [hsel]; rfl)
    | start => exact hrun.start.trans (by rw [hsta]; rfl)
    | _ => cases hM

theorem gb300InputPoll_polled {st : InputState} {prev : Mask} {act : Button → JavacallKey}
    (h : Tracks cfg prev act st) (hchosen : Chosen cfg prev act) (cur : Mask) :
    @Polled cfg prev cur act st (gb300InputPoll cfg st cur) := by
  by_cases hne : cur ^^^ prev = 0
  · obtain rfl : cur = prev := BitVec.xor_eq_zero_iff.1 hne
    have hpoll : gb300InputPoll cfg st cur = (st, []) := by
      simp only [gb300InputPoll, h.last, if_pos hne]
    rw [hpoll]
    refine ⟨by rwa [activeAfter_self hchosen], fun btn => ?_, fun _ M _ => ?_⟩
    · simp [pollEvents, eventsOf]
    · simp [comboPressed_self, Modifier.use_false]
  · cases hcombo : cfg.enableCombos with
    | true => exact poll_combos hcombo h hchosen hne
    | false => exact poll_plain hcombo hchosen h.last hne

/-! ## Runs -/

variable (cfg) in
theorem run_concat (masks : List Mask) (m : Mask) :
    run cfg (masks ++ [m]) = ((gb300InputPoll cfg (run cfg masks).1 m).1,
      (run cfg masks).2 ++ (gb300InputPoll cfg (run cfg masks).1 m).2) := by
  simp [run, List.foldl_append]

variable (cfg) in
theorem activeKey_concat (masks : List Mask) (m : Mask) :
    activeKey cfg (masks ++ [m]) = activeAfter cfg (lastMask masks) m (activeKey cfg masks) := by
  rw [activeKey, history_concat, history_fst]
  rfl

theorem lastMask_concat (masks : List Mask) (m : Mask) : lastMask (masks ++ [m]) = m := by
  simp [lastMask]

variable (cfg) in
theorem chosen_history (masks : List Mask) :
    Chosen cfg (lastMask masks) (activeKey cfg masks) := by
  induction masks using List.reverseRecOn with
  | nil => exact ⟨fun _ _ => rfl, fun _ _ _ => rfl, fun _ btn h => by cases btn <;> cases h⟩
  | append_singleton masks m ih =>
    rw [lastMask_concat, activeKey_concat]
    exact ih.after

variable (cfg) in
theorem run_tracks (masks : List Mask) :
    Tracks cfg (lastMask masks) (activeKey cfg masks) (run cfg masks).1 := by
  induction masks using List.reverseRecOn with
  | nil => exact ⟨rfl, fun _ => rfl, fun _ => rfl, fun _ _ => rfl⟩
  | append_singleton masks m ih =>
    rw [lastMask_concat, activeKey_concat, run_concat]
    exact (gb300InputPoll_polled ih (chosen_history cfg masks) m).tracks

variable (cfg) in
/-- The poll of `m` after `masks`. -/
theorem run_polled (masks : List Mask) (m : Mask) :
    @Polled cfg (lastMask masks) m (activeKey cfg masks) (run cfg masks).1
      (gb300InputPoll cfg (run cfg masks).1 m) :=
  gb300InputPoll_polled (run_tracks cfg masks) (chosen_history cfg masks) m

variable (cfg) in
theorem eventsOf_run_concat (masks : List Mask) (m : Mask) (btn : Button) :
    eventsOf btn (run cfg (masks ++ [m])).2 = eventsOf btn (run cfg masks).2 ++
      pollEvents cfg (lastMask masks) m (activeKey cfg masks btn)
        ((run cfg masks).1.modifier btn).comboUsed btn := by
  rw [run_concat, eventsOf_append, (run_polled cfg masks m).events]

/-! ## The log of one button -/

/-- Complete taps, and the press of the active key. -/
def TapsThen (btn : Button) (act : JavacallKey) (l : List KeyEvent) : Prop :=
  ∃ ks : List JavacallKey, l = ks.flatMap (tap btn) ++ notify btn act .keyPressed

theorem notify_invalid (btn : Button) (type : KeypressType) : notify btn .invalid type = [] := rfl

/-- **One poll keeps the shape of a button's log.** -/
theorem TapsThen.poll {prev cur : Mask} {act : Button → JavacallKey} (hchosen : Chosen cfg prev act)
    {btn : Button} {l : List KeyEvent} (h : TapsThen btn (act btn) l) (used : Bool) :
    TapsThen btn (activeAfter cfg prev cur act btn)
      (l ++ pollEvents cfg prev cur (act btn) used btn) := by
  obtain ⟨ks, rfl⟩ := h
  unfold pollEvents activeAfter
  cases hc : cur.has btn <;> cases hp : prev.has btn
  · -- up before and after
    exact ⟨ks, by simp [hchosen.up btn hp]⟩
  · -- released
    cases hcm : cfg.enableCombos && btn.isModifier with
    | false =>
      refine ⟨ks ++ [act btn], ?_⟩
      simp [tap, notify_invalid]
    | true =>
      obtain ⟨hcombo, hmod⟩ := Bool.and_eq_true_iff.1 hcm
      rw [hchosen.modifier hcombo btn hmod]
      cases used with
      | false => exact ⟨ks ++ [cfg.jkey btn], by simp [notify_invalid]⟩
      | true => exact ⟨ks, by simp⟩
  · -- pressed
    rw [hchosen.up btn hp, notify_invalid]
    refine ⟨ks, ?_⟩
    cases hcm : cfg.enableCombos && btn.isModifier with
    | false => simp
    | true =>
      obtain ⟨hcombo, hmod⟩ := Bool.and_eq_true_iff.1 hcm
      simp [hcombo, hmod, pressKey, notify_invalid]
  · -- held
    exact ⟨ks, by simp⟩

variable (cfg) in
theorem tapsThen_run (masks : List Mask) (btn : Button) :
    TapsThen btn (activeKey cfg masks btn) (eventsOf btn (run cfg masks).2) := by
  induction masks using List.reverseRecOn with
  | nil => exact ⟨[], rfl⟩
  | append_singleton masks m ih =>
    rw [eventsOf_run_concat, activeKey_concat]
    exact ih.poll (chosen_history cfg masks) _

/-- Presses and releases take turns, and a release has the key of its press. -/
def Alternates : List KeyEvent → Prop
  | [] => True
  | [e] => e.type = .keyPressed
  | e :: e' :: es =>
    e.type = .keyPressed ∧ e'.type = .keyReleased ∧ e'.key = e.key ∧ Alternates es

theorem TapsThen.alternates {btn : Button} {act : JavacallKey} {l : List KeyEvent}
    (h : TapsThen btn act l) : Alternates l := by
  obtain ⟨ks, rfl⟩ := h
  induction ks with
  | nil =>
    rw [List.flatMap_nil, List.nil_append, notify]
    split
    · exact rfl
    · exact trivial
  | cons jk ks ih =>
    rw [List.flatMap_cons, List.append_assoc, tap, notify, notify]
    split
    · exact ⟨rfl, rfl, rfl, ih⟩
    · exact ih

/-! ## Counting -/

/-- How often key `k` was pressed. -/
def presses (k : JavacallKey) (log : List KeyEvent) : Nat :=
  log.countP fun e => e.key = k && e.type = .keyPressed

/-- How often key `k` was released. -/
def releases (k : JavacallKey) (log : List KeyEvent) : Nat :=
  log.countP fun e => e.key = k && e.type = .keyReleased

theorem presses_append (k : JavacallKey) (l₁ l₂ : List KeyEvent) :
    presses k (l₁ ++ l₂) = presses k l₁ + presses k l₂ := List.countP_append

theorem releases_append (k : JavacallKey) (l₁ l₂ : List KeyEvent) :
    releases k (l₁ ++ l₂) = releases k l₁ + releases k l₂ := List.countP_append

theorem presses_notify (k : JavacallKey) (btn : Button) (jk : JavacallKey) (type : KeypressType) :
    presses k (notify btn jk type) =
      if jk = k ∧ jk ≠ .invalid ∧ type = .keyPressed then 1 else 0 := by
  unfold presses notify
  by_cases hjk : jk = .invalid <;> simp [hjk, List.countP_cons]

theorem releases_notify (k : JavacallKey) (btn : Button) (jk : JavacallKey)
    (type : KeypressType) : releases k (notify btn jk type) =
      if jk = k ∧ jk ≠ .invalid ∧ type = .keyReleased then 1 else 0 := by
  unfold releases notify
  by_cases hjk : jk = .invalid <;> simp [hjk, List.countP_cons]

theorem TapsThen.presses_eq {btn : Button} {act : JavacallKey} {l : List KeyEvent}
    (h : TapsThen btn act l) (k : JavacallKey) :
    presses k l = releases k l + if act = k ∧ act ≠ .invalid then 1 else 0 := by
  obtain ⟨ks, rfl⟩ := h
  have htaps : presses k (ks.flatMap (tap btn)) = releases k (ks.flatMap (tap btn)) := by
    induction ks with
    | nil => rfl
    | cons jk ks ih =>
      rw [List.flatMap_cons, presses_append, releases_append, ih, tap, presses_append,
        releases_append]
      simp [presses_notify, releases_notify]
  rw [presses_append, releases_append, htaps, presses_notify, releases_notify]
  simp

/-- Every event belongs to one button. -/
theorem countP_eventsOf (p : KeyEvent → Bool) (log : List KeyEvent) :
    log.countP p = (Button.all.map fun btn => (eventsOf btn log).countP p).sum := by
  induction log with
  | nil => rfl
  | cons e log ih =>
    have hcons : ∀ btn, (eventsOf btn (e :: log)).countP p =
        (eventsOf btn log).countP p + if btn = e.button ∧ p e = true then 1 else 0 := by
      intro btn
      by_cases hbtn : btn = e.button
      · subst hbtn
        simp [eventsOf, List.countP_cons]
      · simp [eventsOf, hbtn, Ne.symm hbtn]
    have hone : (Button.all.map fun btn => if btn = e.button ∧ p e = true then 1 else 0).sum =
        if p e = true then 1 else 0 := by
      cases e.button <;> cases p e <;> rfl
    rw [List.countP_cons, ih, ← hone, ← List.sum_map_add]
    simp only [hcons]

variable (cfg) in
/-- The held buttons whose active mapping is `k`. -/
def holding (masks : List Mask) (k : JavacallKey) : List Button :=
  Button.all.filter fun btn => (lastMask masks).has btn && activeKey cfg masks btn = k

variable (cfg) in
theorem presses_run (masks : List Mask) {k : JavacallKey} (hk : k ≠ .invalid) :
    presses k (run cfg masks).2 = releases k (run cfg masks).2 + (holding cfg masks k).length := by
  have hcount : (holding cfg masks k).length =
      (Button.all.map fun btn => if activeKey cfg masks btn = k ∧ activeKey cfg masks btn ≠ .invalid
        then 1 else 0).sum := by
    have hheld : ∀ btn, ((lastMask masks).has btn && decide (activeKey cfg masks btn = k)) =
        decide (activeKey cfg masks btn = k ∧ activeKey cfg masks btn ≠ .invalid) := by
      intro btn
      by_cases hact : activeKey cfg masks btn = k
      · cases hup : (lastMask masks).has btn with
        | true => simp [hact, hk]
        | false => exact absurd (hact ▸ (chosen_history cfg masks).up btn hup) hk
      · simp [hact]
    rw [holding, ← List.countP_eq_length_filter]
    simp only [hheld]
    generalize Button.all = l
    induction l with
    | nil => rfl
    | cons btn l ih =>
      rw [List.countP_cons, ih, List.map_cons, List.sum_cons, Nat.add_comm]
      simp
  unfold presses releases
  rw [countP_eventsOf, countP_eventsOf, hcount, ← List.sum_map_add]
  congr 2
  funext btn
  exact (tapsThen_run cfg masks btn).presses_eq k

/-! ## Modifiers -/

variable (cfg) in
/-- One of the combo buttons of `M` goes down during the polls of `hold`, which follow `prev`. -/
def comboIn (M : Button) : Mask → List Mask → Bool
  | _, [] => false
  | prev, m :: ms => comboPressed cfg M prev m || comboIn M m ms

theorem comboIn_concat (M : Button) (prev : Mask) (ms : List Mask) (m : Mask) :
    comboIn cfg M prev (ms ++ [m]) =
      (comboIn cfg M prev ms || comboPressed cfg M (ms.getLastD prev) m) := by
  induction ms generalizing prev with
  | nil => simp [comboIn]
  | cons m' ms ih =>
    rw [List.cons_append, comboIn, comboIn, ih, Bool.or_assoc, List.getLastD_cons]

theorem lastMask_append (pre ms : List Mask) :
    lastMask (pre ++ ms) = ms.getLastD (lastMask pre) := by
  induction ms using List.reverseRecOn with
  | nil => simp
  | append_singleton ms m _ => simp [lastMask, ← List.append_assoc]

/-- While combos are enabled a held modifier emits nothing and remembers its combos. -/
theorem hold_combos (hcombo : cfg.enableCombos = true) {M : Button} (hM : M.isModifier = true)
    {pre hold : List Mask} (hpre : (lastMask pre).has M = false)
    (hhold : ∀ m ∈ hold, m.has M = true) :
    eventsOf M (run cfg (pre ++ hold)).2 = eventsOf M (run cfg pre).2 ∧
      (hold ≠ [] → (run cfg (pre ++ hold)).1.modifier M =
        { held := true, comboUsed := comboIn cfg M (lastMask pre) hold }) := by
  induction hold using List.reverseRecOn with
  | nil => exact ⟨by rw [List.append_nil], fun h => absurd rfl h⟩
  | append_singleton ms m ih =>
    obtain ⟨hlog, hmodifier⟩ := ih fun m' hm' => hhold m' (by simp [hm'])
    have hm : m.has M = true := hhold m (by simp)
    rw [← List.append_assoc]
    constructor
    · rw [eventsOf_run_concat, hlog]
      simp [pollEvents, hcombo, hM, hm]
    · intro _
      rw [run_concat, (run_polled cfg (pre ++ ms) m).modifier hcombo M hM, lastMask_append,
        comboIn_concat, hm]
      rcases List.eq_nil_or_concat ms with rfl | ⟨ms', m', rfl⟩
      · -- the poll that presses the modifier
        simp [hpre, comboIn, Modifier.use]
      · have hm' : m'.has M = true := hhold m' (by simp)
        rw [hmodifier (by simp)]
        simp [hm', Modifier.use]

/-- Without combos a held modifier has been pressed like any other button. -/
theorem hold_plain (hcombo : cfg.enableCombos = false) {btn : Button} {pre hold : List Mask}
    (hpre : (lastMask pre).has btn = false) (hhold : ∀ m ∈ hold, m.has btn = true)
    (hne : hold ≠ []) : eventsOf btn (run cfg (pre ++ hold)).2 =
      eventsOf btn (run cfg pre).2 ++ notify btn (cfg.jkey btn) .keyPressed := by
  induction hold using List.reverseRecOn with
  | nil => exact absurd rfl hne
  | append_singleton ms m ih =>
    have hm : m.has btn = true := hhold m (by simp)
    rw [← List.append_assoc, eventsOf_run_concat, lastMask_append]
    rcases List.eq_nil_or_concat ms with rfl | ⟨ms', m', rfl⟩
    · simp [pollEvents, hcombo, hm, hpre, pressKey]
    · have hm' : m'.has btn = true := hhold m' (by simp)
      rw [ih (fun a ha => hhold a (List.mem_append_left _ ha)) (by simp)]
      simp [pollEvents, hm, hm']

/-- **A modifier held and released emits one tap, unless it was used in a combo.** -/
theorem modifier_tap {M : Button} (hM : M.isModifier = true) {pre hold : List Mask} {m : Mask}
    (hpre : (lastMask pre).has M = false) (hne : hold ≠ []) (hhold : ∀ m ∈ hold, m.has M = true)
    (hm : m.has M = false) :
    eventsOf M (run cfg (pre ++ hold ++ [m])).2 = eventsOf M (run cfg pre).2 ++
      if cfg.enableCombos && comboIn cfg M (lastMask pre) hold then [] else tap M (cfg.jkey M) := by
  obtain ⟨hold', m', rfl⟩ : ∃ hold' m', hold = hold' ++ [m'] := by
    rcases List.eq_nil_or_concat hold with rfl | h
    · exact absurd rfl hne
    · simpa [List.concat_eq_append] using h
  have hm' : m'.has M = true := hhold m' (by simp)
  have hlast : lastMask (pre ++ (hold' ++ [m'])) = m' := by simp [lastMask, ← List.append_assoc]
  rw [eventsOf_run_concat, hlast]
  cases hcombo : cfg.enableCombos with
  | true =>
    obtain ⟨hlog, hmodifier⟩ := hold_combos hcombo hM hpre hhold
    rw [hlog, hmodifier hne]
    cases comboIn cfg M (lastMask pre) (hold' ++ [m']) <;> simp [pollEvents, hm, hm', hcombo, hM]
  | false =>
    have hact : activeKey cfg (pre ++ (hold' ++ [m'])) M = cfg.jkey M :=
      (chosen_history cfg _).plain hcombo M (by rw [hlast, hm'])
    rw [hold_plain hcombo hpre hhold hne, hact]
    simp [pollEvents, hm, hm', hcombo, tap]

/-! ## Balance -/

/-- **Key events are balanced.**  After every run of polls: the events of each button alternate; a
key has been pressed once more often than released for each held button whose active mapping it is,
so as often when no button is held; and a modifier that was held and released has emitted a tap of
its key, if it has one, or nothing if it was used in a combo. -/
theorem keyEvents_balanced (cfg : Config) (masks : List Mask) :
    (∀ btn, Alternates (eventsOf btn (run cfg masks).2)) ∧
    (∀ k, k ≠ .invalid → presses k (run cfg masks).2 =
      releases k (run cfg masks).2 + (holding cfg masks k).length) ∧
    ((∀ btn, (lastMask masks).has btn = false) →
      ∀ k, presses k (run cfg masks).2 = releases k (run cfg masks).2) ∧
    (∀ M pre hold m, M.isModifier = true → masks = pre ++ hold ++ [m] →
      (lastMask pre).has M = false → hold ≠ [] → (∀ m' ∈ hold, m'.has M = true) →
      m.has M = false →
      eventsOf M (run cfg masks).2 = eventsOf M (run cfg pre).2 ++
        if cfg.enableCombos && comboIn cfg M (lastMask pre) hold then []
        else if cfg.jkey M = .invalid then []
        else [⟨M, cfg.jkey M, .keyPressed⟩, ⟨M, cfg.jkey M, .keyReleased⟩]) := by
  refine ⟨fun btn => (tapsThen_run cfg masks btn).alternates, fun k hk => presses_run cfg masks hk,
    ?_, ?_⟩
  · intro hup k
    by_cases hk : k = .invalid
    · unfold presses releases
      rw [countP_eventsOf, countP_eventsOf (fun e => e.key = k && e.type = .keyReleased)]
      congr 2
      funext btn
      have hcount := (tapsThen_run cfg masks btn).presses_eq k
      rw [if_neg (by rintro ⟨h, h'⟩; exact h' (h.trans hk)), Nat.add_zero] at hcount
      exact hcount
    · rw [presses_run cfg masks hk]
      simp [holding, hup]
  · rintro M pre hold m hM rfl hpre hne hhold hm
    rw [modifier_tap hM hpre hne hhold hm]
    congr 2
    by_cases hjk : cfg.jkey M = .invalid <;> simp [tap, notify, hjk]

/-- SELECT mapped to `NONE`. -/
def selectNone : Config :=
  { Config.initial with jkey := fun btn => if btn = .select then .invalid else btn.defaultJkey }

/-- A modifier without a key emits no tap. -/
theorem modifier_tap_none :
    ¬ ∀ (cfg : Config) (M : Button) (pre hold : List Mask) (m : Mask), M.isModifier = true →
      (lastMask pre).has M = false → hold ≠ [] → (∀ m' ∈ hold, m'.has M = true) →
      m.has M = false → comboIn cfg M (lastMask pre) hold = false →
      ∃ k, eventsOf M (run cfg (pre ++ hold ++ [m])).2 = eventsOf M (run cfg pre).2 ++
        [⟨M, k, .keyPressed⟩, ⟨M, k, .keyReleased⟩] := by
  intro h
  have hheld : ∀ m' ∈ [(1 : Mask)], m'.has .select = true := by simp [Mask.has, Button.pspBit]
  obtain ⟨k, hk⟩ := h selectNone .select [] [1] 0 rfl rfl (by simp) hheld rfl rfl
  have hnone := @modifier_tap selectNone .select rfl [] [1] 0 rfl (by simp) hheld rfl
  have htap : tap .select (selectNone.jkey .select) = [] := rfl
  rw [htap, ite_self, List.append_nil] at hnone
  rw [hnone] at hk
  have hlen := congrArg List.length hk
  simp at hlen

end FroggyKVM.Input
