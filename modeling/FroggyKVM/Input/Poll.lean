/-
# FroggyKVM.Input.Poll — from button masks to key events (`platform_gb300/input.c`).

`gb300_input_poll` compares a button mask with the previous one and emits key events.  SELECT and
START are modifiers while combos are enabled: they emit nothing on their own until they are
released, and then a tap unless they took part in a combo.  An event is logged together with the
button it comes from, which `javanotify_key_event` is not told.
-/
import Mathlib

namespace FroggyKVM.Input

/-! ## Keys and buttons -/

/-- The `javacall_key` values that `input.c` uses. -/
inductive JavacallKey where
  | invalid
  | digit (n : Fin 10)
  | asterisk | pound | space
  | up | down | left | right | select
  | soft1 | soft2 | clear | send | fin
  | gameA | gameB | gameC | gameD
  deriving DecidableEq, Repr

/-- `javacall_keypress_type`. -/
inductive KeypressType where
  | keyPressed
  | keyReleased
  deriving DecidableEq, Repr

/-- The entries of `btn_configs`. -/
inductive Button where
  | up | down | left | right | a | b | x | y | l | r | select | start
  deriving DecidableEq, Repr

/-- The order of the table. -/
def Button.all : List Button := [.up, .down, .left, .right, .a, .b, .x, .y, .l, .r, .select, .start]

/-- The bit number of `psp_bit`. -/
def Button.pspBit : Button → Nat
  | .select => 0
  | .start => 3
  | .up => 4
  | .right => 5
  | .down => 6
  | .left => 7
  | .l => 8
  | .r => 9
  | .y => 12
  | .b => 13
  | .a => 14
  | .x => 15

/-- `default_jkey`. -/
def Button.defaultJkey : Button → JavacallKey
  | .up => .digit 2
  | .down => .digit 8
  | .left => .digit 4
  | .right => .digit 6
  | .a => .digit 5
  | .b => .digit 3
  | .x => .digit 0
  | .y => .digit 1
  | .l => .soft1
  | .r => .soft2
  | .select => .asterisk
  | .start => .pound

/-- `bit == PSP_CTRL_SELECT || bit == PSP_CTRL_START`. -/
def Button.isModifier (btn : Button) : Bool := btn = .select || btn = .start

/-- What `gb300_input_load_config` sets: the `current_jkey` of each button, the combo targets, and
whether there are combos.  The file may assign any key to any of them. -/
structure Config where
  jkey : Button → JavacallKey := Button.defaultJkey
  enableCombos : Bool := true
  comboSelectUp : JavacallKey := .up
  comboSelectDown : JavacallKey := .down
  comboSelectLeft : JavacallKey := .left
  comboSelectRight : JavacallKey := .right
  comboStartY : JavacallKey := .digit 1
  comboStartX : JavacallKey := .digit 3
  comboStartB : JavacallKey := .digit 7
  comboStartA : JavacallKey := .digit 9

/-- Without a keymap file. -/
def Config.initial : Config := {}

/-- The target of SELECT with this button, if there is one. -/
def Config.selectCombo (cfg : Config) : Button → Option JavacallKey
  | .up => some cfg.comboSelectUp
  | .down => some cfg.comboSelectDown
  | .left => some cfg.comboSelectLeft
  | .right => some cfg.comboSelectRight
  | _ => none

/-- The target of START with this button, if there is one. -/
def Config.startCombo (cfg : Config) : Button → Option JavacallKey
  | .y => some cfg.comboStartY
  | .x => some cfg.comboStartX
  | .b => some cfg.comboStartB
  | .a => some cfg.comboStartA
  | _ => none

/-- A `uint32_t` of `psp_bit`s. -/
abbrev Mask := BitVec 32

/-- `buttons & btn_configs[i].psp_bit`. -/
def Mask.has (m : Mask) (btn : Button) : Bool := m.getLsbD btn.pspBit

/-! ## Polling -/

/-- `s_select_held` and `s_select_combo_used`, or the same for START. -/
structure Modifier where
  held : Bool := false
  comboUsed : Bool := false
  deriving DecidableEq, Repr

/-- The file-scope state; the defaults are what `gb300_input_init` sets. -/
structure InputState where
  lastButtons : Mask := 0
  select : Modifier := {}
  start : Modifier := {}
  activeJkey : Button → JavacallKey := fun _ => .invalid

/-- A call of `javanotify_key_event`, and the button it is for. -/
structure KeyEvent where
  button : Button
  key : JavacallKey
  type : KeypressType
  deriving DecidableEq, Repr

/-- `if (jk != JAVACALL_KEY_INVALID) javanotify_key_event(jk, type)`. -/
def notify (btn : Button) (jk : JavacallKey) (type : KeypressType) : List KeyEvent :=
  if jk ≠ .invalid then [⟨btn, jk, type⟩] else []

/-- A press followed by a release. -/
def tap (btn : Button) (jk : JavacallKey) : List KeyEvent :=
  notify btn jk .keyPressed ++ notify btn jk .keyReleased

/-- Step 1 of the poll for the modifier `btn`. -/
def trackModifier (cfg : Config) (btn : Button) (changed current : Mask) (m : Modifier) :
    Modifier × List KeyEvent :=
  if changed.has btn then
    if current.has btn then ({ held := true, comboUsed := false }, [])
    else ({ held := false, comboUsed := false }, if m.comboUsed then [] else tap btn (cfg.jkey btn))
  else (m, [])

/-- What the loop of step 2 carries. -/
structure PollLoop where
  st : InputState
  events : List KeyEvent := []

/-- The body of step 2 for button `btn`. -/
def pollButton (cfg : Config) (changed current : Mask) (s : PollLoop) (btn : Button) : PollLoop :=
  if btn.isModifier then s
  else if changed.has btn then
    if current.has btn then
      let (jk, st) :=
        match if s.st.select.held then cfg.selectCombo btn else none with
        | some jk => (jk, { s.st with select := { s.st.select with comboUsed := true } })
        | none =>
          match if s.st.start.held then cfg.startCombo btn else none with
          | some jk => (jk, { s.st with start := { s.st.start with comboUsed := true } })
          | none => (cfg.jkey btn, s.st)
      { st := { st with activeJkey := Function.update st.activeJkey btn jk }
        events := s.events ++ notify btn jk .keyPressed }
    else
      { st := { s.st with activeJkey := Function.update s.st.activeJkey btn .invalid }
        events := s.events ++ notify btn (s.st.activeJkey btn) .keyReleased }
  else s

/-- `gb300_input_poll`. -/
def gb300InputPoll (cfg : Config) (st : InputState) (current : Mask) :
    InputState × List KeyEvent :=
  let changed := current ^^^ st.lastButtons
  if changed = 0 then (st, [])
  else if !cfg.enableCombos then
    ({ st with lastButtons := current },
      Button.all.flatMap fun btn =>
        if changed.has btn then
          notify btn (cfg.jkey btn) (if current.has btn then .keyPressed else .keyReleased)
        else [])
  else
    let (select, tapped) := trackModifier cfg .select changed current st.select
    let (start, tapped') := trackModifier cfg .start changed current st.start
    let s := Button.all.foldl (pollButton cfg changed current)
      { st := { st with select := select, start := start }, events := tapped ++ tapped' }
    ({ s.st with lastButtons := current }, s.events)

/-- The state and the log after a sequence of polls that starts at `gb300_input_init`. -/
def run (cfg : Config) (masks : List Mask) : InputState × List KeyEvent :=
  masks.foldl
    (fun s m => let r := gb300InputPoll cfg s.1 m; (r.1, s.2 ++ r.2))
    ({}, [])

end FroggyKVM.Input
