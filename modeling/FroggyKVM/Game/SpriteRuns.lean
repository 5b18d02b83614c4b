/-
# FroggyKVM.Game.SpriteRuns — sprites whose positions are `int`s, and what calls leave of them.

The sums of `Sprite` wrap.  Reducing a result once is the same as reducing every sum on the way to it,
so an `int` call is the exact call followed by `wrap`, and a run of `int` calls is the image of an
exact run (`Run.exact`).  Two slips show in such runs: `setTransform` moves the sprite before it
refuses a value, and a copy takes the default frame sequence of its original for a custom one.
-/
import FroggyKVM.Lib.MachineInt
import FroggyKVM.Game.Sprite

namespace FroggyKVM.Game

/-! ## Reducing sums -/

/-- The corner of a rectangle, reduced. -/
def Rect.wrap (r : Rect) : Rect := { r with x := i32 r.x, y := i32 r.y }

namespace Sprite

/-- The coordinates that sums are stored in, reduced. -/
def wrap (s : Sprite) : Sprite :=
  { s with x := i32 s.x, y := i32 s.y, tCollisionRect := s.tCollisionRect.wrap }

theorem wrap_wrap (s : Sprite) : s.wrap.wrap = s.wrap := by
  unfold wrap Rect.wrap
  simp only [i32_i32]

/-- All but the coordinates. -/
def rest (s : Sprite) : Sprite :=
  { s with x := 0, y := 0, tCollisionRect := { s.tCollisionRect with x := 0, y := 0 } }

theorem wrap_eq {s t : Sprite} (hrest : s.rest = t.rest) (hx : i32 s.x = i32 t.x)
    (hy : i32 s.y = i32 t.y) (hrect : s.tCollisionRect.wrap = t.tCollisionRect.wrap) :
    s.wrap = t.wrap := by
  have heq : ∀ s : Sprite, s.wrap =
      { s.rest with x := i32 s.x, y := i32 s.y, tCollisionRect := s.tCollisionRect.wrap } :=
    fun _ => rfl
  rw [heq s, heq t, hrest, hx, hy, hrect]

theorem wrap_tCollisionRect (s : Sprite) : s.wrap.tCollisionRect.wrap = s.tCollisionRect.wrap :=
  congrArg tCollisionRect (wrap_wrap s)

/-! ## Calls on `int`s -/

/-- An operation that changes nothing when it throws. -/
def outcome (s : Sprite) : Except Throwable Sprite → Option Throwable × Sprite
  | .ok s' => (none, s')
  | .error e => (some e, s)

/-- The exception of a call, if there is one, and the sprite it leaves. -/
def call (s : Sprite) : Call → Option Throwable × Sprite
  | .setFrame sequenceIndex => s.outcome (s.setFrame sequenceIndex)
  | .setFrameSequence sequence => s.outcome (s.setFrameSequence sequence)
  | .setImage image frameWidth frameHeight => s.outcome (s.setImage image frameWidth frameHeight)
  | .defineCollisionRectangle x y width height =>
    s.outcome (s.defineCollisionRectangle x y width height)
  | .setTransform transform =>
    (if (Transform.ofInt transform).isSome then none else some .illegalArgument,
      s.setTransform transform)
  | c => (none, s.exec c)

theorem outcome_snd (s : Sprite) (r : Except Throwable Sprite) : (s.outcome r).2 = s.orUnchanged r := by
  cases r <;> rfl

theorem call_snd (s : Sprite) (c : Call) : (s.call c).2 = s.exec c := by
  cases c with
  | setFrame | setFrameSequence | setImage | defineCollisionRectangle => exact outcome_snd _ _
  | _ => rfl

/-- A call with every sum reduced. -/
def callInt (s : Sprite) (c : Call) : Option Throwable × Sprite := ((s.call c).1, (s.call c).2.wrap)

/-- `Sprite(Sprite)` with every sum reduced. -/
def copyInt (s : Sprite) : Except Throwable Sprite := s.copy.map wrap

/-- The sprites a program can hold. -/
inductive Run : Sprite → Prop
  | ofImage (image : Image) : Run (ofImage image)
  | ofFrames {image : Image} {frameWidth frameHeight : Int} {s : Sprite}
      (h : ofFrames image frameWidth frameHeight = .ok s) : Run s
  | copy {s c : Sprite} (hs : Run s) (h : s.copyInt = .ok c) : Run c
  | call {s : Sprite} (hs : Run s) (c : Call) : Run (s.callInt c).2

/-! ## An `int` run is the image of an exact run -/

theorem initFrames_wrap (image : Image) (frameWidth frameHeight : Int) :
    (initFrames image frameWidth frameHeight).wrap = initFrames image frameWidth frameHeight := rfl

/-- A sum and a difference, with the first summand reduced. -/
theorem i32_add_sub (x a b : Int) : i32 (i32 x + a - b) = i32 (x + a - b) := by
  rw [add_sub_assoc, i32_i32_add, ← add_sub_assoc]

theorem wrap_setTransformImpl (s : Sprite) (transform : Option Transform) :
    (s.wrap.setTransformImpl transform).wrap = (s.setTransformImpl transform).wrap := by
  cases transform with
  | none => exact wrap_eq rfl (i32_add_sub _ _ _) (i32_add_sub _ _ _) (wrap_tCollisionRect s)
  | some t => exact wrap_eq rfl (i32_add_sub _ _ _) (i32_add_sub _ _ _) rfl

/-- Two results that an `int` call does not tell apart. -/
theorem ok_wrap_eq {s t : Sprite} (hrest : s.rest = t.rest) (hx : i32 s.x = i32 t.x)
    (hy : i32 s.y = i32 t.y) (hrect : s.tCollisionRect.wrap = t.tCollisionRect.wrap) :
    (Except.ok s : Except Throwable Sprite).map wrap = (Except.ok t).map wrap :=
  congrArg Except.ok (wrap_eq hrest hx hy hrect)

theorem wrap_setImage (s : Sprite) (image : Image) (frameWidth frameHeight : Int) :
    (s.wrap.setImage image frameWidth frameHeight).map wrap =
      (s.setImage image frameWidth frameHeight).map wrap := by
  by_cases hcuts : Cuts image frameWidth frameHeight
  · unfold setImage
    rw [if_neg (not_not.2 hcuts), if_neg (not_not.2 hcuts)]
    by_cases hsame : s.srcFrameWidth = frameWidth ∧ s.srcFrameHeight = frameHeight
    · dsimp only
      rw [if_neg (not_not.2 hsame), if_neg (not_not.2 (show s.wrap.srcFrameWidth = frameWidth ∧
        s.wrap.srcFrameHeight = frameHeight from hsame))]
      exact ok_wrap_eq rfl (i32_i32 _) (i32_i32 _) (wrap_tCollisionRect s)
    · dsimp only
      rw [if_pos hsame, if_pos (show ¬ (s.wrap.srcFrameWidth = frameWidth ∧
        s.wrap.srcFrameHeight = frameHeight) from hsame)]
      exact ok_wrap_eq rfl (i32_add_sub _ _ _) (i32_add_sub _ _ _) rfl
  · unfold setImage
    rw [if_pos hcuts, if_pos hcuts]

theorem orUnchanged_wrap {s t : Sprite} {r r' : Except Throwable Sprite}
    (hr : r.map wrap = r'.map wrap) (hs : s.wrap = t.wrap) :
    (s.orUnchanged r).wrap = (t.orUnchanged r').wrap := by
  cases r with
  | ok a =>
    cases r' with
    | ok b => exact Except.ok.inj hr
    | error e => cases hr
  | error e =>
    cases r' with
    | ok b => cases hr
    | error e' => exact hs

/-- A check that looks at no coordinate. -/
theorem checked_wrap {p : Prop} [Decidable p] {e : Throwable} {r r' : Except Throwable Sprite}
    (h : r.map wrap = r'.map wrap) :
    (if p then .error e else r).map wrap = (if p then .error e else r').map wrap := by
  by_cases hp : p
  · rw [if_pos hp, if_pos hp]
  · rw [if_neg hp, if_neg hp]
    exact h

/-- The coordinates that went into a call may have been reduced before. -/
theorem wrap_exec (s : Sprite) (c : Call) : (s.wrap.exec c).wrap = (s.exec c).wrap := by
  have hkept := wrap_tCollisionRect s
  cases c with
  | setTransform transform => exact wrap_setTransformImpl s _
  | setImage image frameWidth frameHeight =>
    apply orUnchanged_wrap _ (wrap_wrap s)
    exact wrap_setImage s image frameWidth frameHeight
  | defineCollisionRectangle x y width height =>
    apply orUnchanged_wrap _ (wrap_wrap s)
    exact checked_wrap (ok_wrap_eq rfl (i32_add_sub _ _ _) (i32_add_sub _ _ _) rfl)
  | setFrame sequenceIndex =>
    apply orUnchanged_wrap _ (wrap_wrap s)
    exact checked_wrap (ok_wrap_eq rfl (i32_i32 _) (i32_i32 _) hkept)
  | setFrameSequence sequence =>
    apply orUnchanged_wrap _ (wrap_wrap s)
    cases sequence with
    | none => exact ok_wrap_eq rfl (i32_i32 _) (i32_i32 _) hkept
    | some sequence =>
      apply checked_wrap
      exact checked_wrap (ok_wrap_eq rfl (i32_i32 _) (i32_i32 _) hkept)
  | move dx dy => exact wrap_eq rfl (i32_i32_add _ _) (i32_i32_add _ _) hkept
  | setRefPixelPosition x y | setPosition x y => exact wrap_eq rfl rfl rfl hkept
  | _ => exact wrap_eq rfl (i32_i32 _) (i32_i32 _) hkept

/-- A default sequence shows the frames in their order. -/
def DefaultInOrder (s : Sprite) : Prop :=
  s.customSequenceDefined = false → s.frameSequence = (List.range s.numberFrames.toNat).map Int.ofNat

theorem initializeFrames_inOrder {s : Sprite} {image : Image} {fWidth fHeight : Int}
    (h : Cuts image fWidth fHeight) (maintain : Bool) :
    (s.initializeFrames image fWidth fHeight maintain).DefaultInOrder := by
  intro hc
  have hc' : s.customSequenceDefined = false := hc
  have hlen : (frameOrigins image fWidth fHeight).length = (frameCount image fWidth fHeight).toNat := by
    have hlen := h.length
    omega
  simp only [initializeFrames, hc', hlen, Bool.false_eq_true, if_false]

theorem orUnchanged_inOrder {s : Sprite} {r : Except Throwable Sprite} (h : s.DefaultInOrder)
    (hr : ∀ s', r = .ok s' → s'.DefaultInOrder) : (s.orUnchanged r).DefaultInOrder := by
  cases r with
  | ok s' => exact hr s' rfl
  | error e => exact h

theorem exec_inOrder {s : Sprite} (h : s.DefaultInOrder) (c : Call) : (s.exec c).DefaultInOrder := by
  cases c with
  | setFrame sequenceIndex =>
    apply orUnchanged_inOrder h
    intro s' hs
    rw [setFrame] at hs
    split at hs
    · cases hs
    · cases hs
      exact h
  | setFrameSequence sequence =>
    apply orUnchanged_inOrder h
    intro s' hs
    cases sequence with
    | none =>
      cases hs
      intro _
      rfl
    | some sequence =>
      rw [setFrameSequence] at hs
      split at hs
      · cases hs
      · split at hs
        · cases hs
        · cases hs
          intro hc
          cases hc
  | setImage image frameWidth frameHeight =>
    apply orUnchanged_inOrder h
    intro s' hs
    rw [setImage] at hs
    split at hs
    · cases hs
    · rename_i hcuts
      rw [not_not] at hcuts
      dsimp only at hs
      split at hs
      · cases hs
        exact @initializeFrames_inOrder { s with
          width := frameWidth, height := frameHeight
          customSequenceDefined := s.customSequenceDefined &&
            decide (¬ frameCount image frameWidth frameHeight < s.numberFrames) } _ _ _ hcuts true
      · cases hs
        exact initializeFrames_inOrder hcuts _
  | defineCollisionRectangle x y width height =>
    apply orUnchanged_inOrder h
    intro s' hs
    rw [defineCollisionRectangle] at hs
    split at hs
    · cases hs
    · cases hs
      exact h
  | setTransform transform =>
    rw [exec, setTransform]
    cases Transform.ofInt transform with
    | none => exact h
    | some t => exact h
  | _ => exact h

theorem copy_frames_wrap {s : Sprite} (h : s.Ok) :
    s.wrap.copyInt = .ok { s.wrap with customSequenceDefined := true } := by
  have hframes : s.wrap.FramesOk := { h.toFramesOk with }
  have hbounds := h.bounds
  rw [copyInt, copy_frames hframes]
  apply congrArg Except.ok
  apply Sprite.ext
  case x => exact i32_i32 _
  case y => exact i32_i32 _
  case width => exact (congrArg Bounds.width hbounds).symm
  case height => exact (congrArg Bounds.height hbounds).symm
  case tCollisionRect => exact (congrArg (fun b => b.rect.wrap) hbounds).symm
  all_goals rfl

/-- **An `int` run is the image of an exact one.** -/
theorem Run.exact {s : Sprite} (h : Run s) :
    ∃ E : Sprite, Reachable E ∧ E.DefaultInOrder ∧ s = E.wrap := by
  induction h with
  | ofImage image =>
    refine ⟨Sprite.ofImage image, .ofImage image, ?_, (initFrames_wrap _ _ _).symm⟩
    exact initializeFrames_inOrder (cuts_self image) false
  | @ofFrames image frameWidth frameHeight s h =>
    refine ⟨s, .ofFrames h, ?_⟩
    rw [Sprite.ofFrames] at h
    split at h
    · cases h
      exact ⟨initializeFrames_inOrder (by assumption) false, (initFrames_wrap _ _ _).symm⟩
    · cases h
  | copy _ h ih =>
    obtain ⟨E, hE, -, rfl⟩ := ih
    refine ⟨{ E with customSequenceDefined := true }, .copy hE (copy_eq hE.ok), ?_, ?_⟩
    · intro hc
      cases hc
    · rw [copy_frames_wrap hE.ok] at h
      cases h
      rfl
  | call _ c ih =>
    obtain ⟨E, hE, hinOrder, rfl⟩ := ih
    refine ⟨E.exec c, .exec hE c, exec_inOrder hinOrder c, ?_⟩
    rw [callInt, call_snd]
    exact wrap_exec E c

/-! ## The reference pixel and throwing calls -/

/-- `getRefPixelX` and `getRefPixelY` on `int`s. -/
def refPixel (s : Sprite) : Int × Int := (i32 s.getRefPixelX, i32 s.getRefPixelY)

/-- A call that throws, if it does, leaves the sprite alone: all calls do, but a refused `setTransform`
moves the sprite by the offset of its reference pixel. -/
def StaysOnThrow (s : Sprite) : Call → Prop
  | .setTransform transform => (Transform.ofInt transform).isSome ∨
      i32 (s.getTransformedPtX s.dRefX s.dRefY (some s.tCurrentTransformation)) = 0 ∧
      i32 (s.getTransformedPtY s.dRefX s.dRefY (some s.tCurrentTransformation)) = 0
  | _ => True

theorem refPixel_wrap (s : Sprite) : s.wrap.refPixel = s.refPixel := by
  unfold refPixel
  exact Prod.ext (i32_i32_add _ _) (i32_i32_add _ _)

theorem refPixel_setTransform (s : Sprite) (transform : Int) :
    (s.callInt (.setTransform transform)).2.refPixel = s.refPixel ↔
      s.StaysOnThrow (.setTransform transform) := by
  rw [callInt, call_snd, exec, refPixel_wrap, setTransform, StaysOnThrow]
  cases Transform.ofInt transform with
  | some t =>
    refine iff_of_true ?_ (Or.inl rfl)
    unfold refPixel
    exact Prod.ext (congrArg i32 (Int.sub_add_cancel _ _)) (congrArg i32 (Int.sub_add_cancel _ _))
  | none =>
    -- the value that is no transform has the offset 0
    have hx := i32_add_eq_iff s.getRefPixelX
      (s.getTransformedPtX s.dRefX s.dRefY (some s.tCurrentTransformation))
    have hy := i32_add_eq_iff s.getRefPixelY
      (s.getTransformedPtY s.dRefX s.dRefY (some s.tCurrentTransformation))
    have hmoved : (s.setTransformImpl none).refPixel =
        (i32 (s.getRefPixelX + s.getTransformedPtX s.dRefX s.dRefY (some s.tCurrentTransformation)),
          i32 (s.getRefPixelY +
            s.getTransformedPtY s.dRefX s.dRefY (some s.tCurrentTransformation))) := by
      have hzero : ∀ a b : Int, a + b - 0 + b = a + b + b := by
        intro a b
        omega
      exact Prod.ext (congrArg i32 (hzero _ _)) (congrArg i32 (hzero _ _))
    rw [hmoved, refPixel, Prod.mk.injEq, hx, hy]
    simp

theorem refPixel_setImage (s : Sprite) (image : Image) (frameWidth frameHeight : Int) :
    (s.callInt (.setImage image frameWidth frameHeight)).2.refPixel = s.refPixel := by
  rw [callInt, call_snd, exec, refPixel_wrap, setImage]
  split
  · rfl
  · dsimp only
    split
    · unfold refPixel
      exact Prod.ext (congrArg i32 (Int.sub_add_cancel _ _)) (congrArg i32 (Int.sub_add_cancel _ _))
    · rename_i hsame
      rw [not_not] at hsame
      obtain ⟨rfl, rfl⟩ := hsame
      rfl

/-! ## Copies -/

/-- The sprite as its copy holds it. -/
def asCustom (s : Sprite) : Sprite := { s with customSequenceDefined := true }

/-- `setImage` with more frames than before: here the flag decides. -/
def Grows (s : Sprite) : Call → Prop
  | .setImage image frameWidth frameHeight =>
    Cuts image frameWidth frameHeight ∧ s.numberFrames < frameCount image frameWidth frameHeight
  | _ => False

/-- A call after which the flag does not depend on what it was. -/
def Settles (s : Sprite) : Call → Prop
  | .setImage image frameWidth frameHeight =>
    Cuts image frameWidth frameHeight ∧ frameCount image frameWidth frameHeight < s.numberFrames
  | .setFrameSequence none => True
  | .setFrameSequence (some sequence) =>
    0 < sequence.length ∧ ∀ e ∈ sequence, 0 ≤ e ∧ e < s.numberFrames
  | _ => False

/-- No `setImage` brings more frames while the sprite shows its default sequence and the flag has not
been settled. -/
def KeepsFlag (s : Sprite) : List Call → Prop
  | [] => True
  | c :: calls =>
    s.customSequenceDefined = true ∨ s.Settles c ∨ ¬ s.Grows c ∧ (s.callInt c).2.KeepsFlag calls

/-- What a program sees of a list of calls: the exceptions, and the sprite but for the flag, which
`setImage` alone reads. -/
def trace (s : Sprite) : List Call → List (Option Throwable × Sprite)
  | [] => []
  | c :: calls => ((s.callInt c).1, (s.callInt c).2.asCustom) :: (s.callInt c).2.trace calls

/-- The sprite `setImage` leaves, when the frames fit: `maintain` and `custom` are its two flags. -/
def reimage (s : Sprite) (image : Image) (frameWidth frameHeight : Int) (maintain custom : Bool) :
    Sprite :=
  let s' := { s with customSequenceDefined := custom }
  if ¬ (s.srcFrameWidth = frameWidth ∧ s.srcFrameHeight = frameHeight) then
    let s' := { s' with width := frameWidth, height := frameHeight }
    let s' := (s'.initializeFrames image frameWidth frameHeight maintain).initCollisionRectBounds
    (s'.setRefPixelPosition s.getRefPixelX s.getRefPixelY).computeTransformedBounds
      s.tCurrentTransformation
  else
    s'.initializeFrames image frameWidth frameHeight maintain

theorem setImage_cuts {s : Sprite} {image : Image} {frameWidth frameHeight : Int}
    (h : Cuts image frameWidth frameHeight) :
    s.setImage image frameWidth frameHeight = .ok (s.reimage image frameWidth frameHeight
      (¬ frameCount image frameWidth frameHeight < s.numberFrames)
      (s.customSequenceDefined && ¬ frameCount image frameWidth frameHeight < s.numberFrames)) := by
  rw [setImage, if_neg (not_not.2 h)]
  exact (apply_ite Except.ok _ _ _).symm

theorem reimage_asCustom (s : Sprite) (image : Image) (frameWidth frameHeight : Int)
    (maintain custom : Bool) :
    s.asCustom.reimage image frameWidth frameHeight maintain custom =
      s.reimage image frameWidth frameHeight maintain custom := rfl

/-- What the flag is for. -/
theorem reimage_flag {s : Sprite} {image : Image} {frameWidth frameHeight : Int}
    (h : Cuts image frameWidth frameHeight) (maintain custom : Bool) :
    s.reimage image frameWidth frameHeight maintain custom =
      { s.reimage image frameWidth frameHeight maintain true with
        customSequenceDefined := custom
        frameSequence := if custom then s.frameSequence
          else (List.range (frameCount image frameWidth frameHeight).toNat).map Int.ofNat } := by
  have hlen : (frameOrigins image frameWidth frameHeight).length =
      (frameCount image frameWidth frameHeight).toNat := by
    have hlen := h.length
    omega
  unfold reimage
  dsimp only
  rw [← hlen]
  split <;> rfl

section Flag

variable {s : Sprite} {c : Call}

/-- A check that does not look at the flag. -/
theorem outcome_checked {p : Prop} [Decidable p] {e : Throwable} {r r' : Except Throwable Sprite}
    (h : ¬ p → s.asCustom.outcome r = ((s.outcome r').1, (s.outcome r').2.asCustom)) :
    s.asCustom.outcome (if p then .error e else r) =
      ((s.outcome (if p then .error e else r')).1,
        (s.outcome (if p then .error e else r')).2.asCustom) := by
  by_cases hp : p
  · rw [if_pos hp, if_pos hp]
    rfl
  · rw [if_neg hp, if_neg hp]
    exact h hp

theorem call_settled (h : s.Settles c) : s.asCustom.call c = s.call c := by
  cases c with
  | setImage image frameWidth frameHeight =>
    obtain ⟨hcuts, hfewer⟩ := h
    have hflag : ∀ b : Bool,
        (b && decide (¬ frameCount image frameWidth frameHeight < s.numberFrames)) = false := by
      intro b
      simp [hfewer]
    rw [call, call, setImage_cuts hcuts, setImage_cuts hcuts, hflag, reimage_asCustom]
    have hflag' := hflag s.asCustom.customSequenceDefined
    rw [show s.asCustom.numberFrames = s.numberFrames from rfl, hflag']
    rfl
  | setFrameSequence sequence =>
    cases sequence with
    | none => rfl
    | some sequence =>
      have hlen : ¬ sequence.length < 1 := by
        have hlen := h.1
        omega
      have hany : ¬ (sequence.any fun e => e < 0 ∨ e ≥ s.numberFrames) = true := by
        intro hbad
        obtain ⟨e, he, hbad⟩ := List.any_eq_true.1 hbad
        have hseq := h.2 e he
        rw [decide_eq_true_eq] at hbad
        omega
      rw [call, call, setFrameSequence, setFrameSequence, if_neg hlen, if_neg hlen, if_neg hany]
      rw [if_neg (show ¬ (sequence.any fun e => e < 0 ∨ e ≥ s.asCustom.numberFrames) = true from hany)]
      rfl
  | _ => cases h

/-- With the default sequence and no more frames than before, a copy goes along. -/
theorem call_kept (hflag : s.customSequenceDefined = false) (hinOrder : s.DefaultInOrder)
    (hs : ¬ s.Settles c) (hg : ¬ s.Grows c) :
    s.asCustom.call c = ((s.call c).1, (s.call c).2.asCustom) := by
  cases c with
  | setImage image frameWidth frameHeight =>
    by_cases hcuts : Cuts image frameWidth frameHeight
    · have hcount : frameCount image frameWidth frameHeight = s.numberFrames := by
        have hfewer : ¬ frameCount image frameWidth frameHeight < s.numberFrames :=
          fun hlt => hs ⟨hcuts, hlt⟩
        have hmore : ¬ s.numberFrames < frameCount image frameWidth frameHeight :=
          fun hlt => hg ⟨hcuts, hlt⟩
        omega
      have hmaintain : ¬ frameCount image frameWidth frameHeight < s.numberFrames := by
        omega
      have hcopy : s.asCustom.setImage image frameWidth frameHeight =
          .ok (s.reimage image frameWidth frameHeight true true) := by
        rw [setImage_cuts hcuts, reimage_asCustom]
        simp [asCustom, hmaintain]
      have hself : s.setImage image frameWidth frameHeight =
          .ok (s.reimage image frameWidth frameHeight true false) := by
        rw [setImage_cuts hcuts]
        simp [hflag, hmaintain]
      rw [call, call, hcopy, hself, reimage_flag hcuts true true, reimage_flag hcuts true false,
        hinOrder hflag, hcount]
      rfl
    · rw [call, call, setImage, setImage, if_pos hcuts, if_pos hcuts]
      rfl
  | setFrameSequence sequence =>
    cases sequence with
    | none => exact absurd trivial hs
    | some sequence =>
      -- the sequence is refused, as an accepted one settles the flag
      apply outcome_checked
      intro hlen
      apply outcome_checked
      intro hany
      refine absurd ⟨by omega, fun e he => ?_⟩ hs
      have hne : ¬ (e < 0 ∨ e ≥ s.numberFrames) := fun hbad =>
        hany (List.any_eq_true.2 ⟨e, he, decide_eq_true hbad⟩)
      omega
  | setFrame sequenceIndex =>
    apply outcome_checked
    intro _
    rfl
  | defineCollisionRectangle x y width height =>
    apply outcome_checked
    intro _
    rfl
  | setTransform transform =>
    rw [call, call, setTransform, setTransform]
    cases Transform.ofInt transform with
    | none => rfl
    | some t => rfl
  | _ => rfl

/-- With the default sequence and more frames than before, a copy is left behind. -/
theorem call_grown (hflag : s.customSequenceDefined = false) (hinOrder : s.DefaultInOrder)
    (hg : s.Grows c) :
    (s.asCustom.call c).2.frameSequence.length < (s.call c).2.frameSequence.length := by
  cases c with
  | setImage image frameWidth frameHeight =>
    obtain ⟨hcuts, hmore⟩ := hg
    have hpos := hcuts.count_pos
    have hmaintain : ¬ frameCount image frameWidth frameHeight < s.numberFrames := by
      omega
    have hcopy : s.asCustom.setImage image frameWidth frameHeight =
        .ok (s.reimage image frameWidth frameHeight true true) := by
      rw [setImage_cuts hcuts, reimage_asCustom]
      simp [asCustom, hmaintain]
    have hself : s.setImage image frameWidth frameHeight =
        .ok (s.reimage image frameWidth frameHeight true false) := by
      rw [setImage_cuts hcuts]
      simp [hflag, hmaintain]
    rw [call, call, hcopy, hself, outcome, outcome, reimage_flag hcuts true true,
      reimage_flag hcuts true false, hinOrder hflag]
    simp only [if_true, Bool.false_eq_true, if_false, List.length_map, List.length_range]
    omega
  | _ => cases hg

end Flag

/-- **When a copy behaves like its original**: as long as the flag does not matter. -/
theorem trace_asCustom_iff {s : Sprite} (h : s.DefaultInOrder) (calls : List Call) :
    s.asCustom.trace calls = s.trace calls ↔ s.KeepsFlag calls := by
  induction calls generalizing s with
  | nil => exact iff_of_true rfl trivial
  | cons c calls ih =>
    cases hflag : s.customSequenceDefined with
    | true =>
      have hself : s.asCustom = s := by
        rw [asCustom, ← hflag]
      refine iff_of_true ?_ (Or.inl hflag)
      rw [hself]
    | false =>
      by_cases hs : s.Settles c
      · refine iff_of_true ?_ (Or.inr (Or.inl hs))
        rw [trace, trace, callInt, callInt, call_settled hs]
      · by_cases hg : s.Grows c
        · refine iff_of_false ?_ ?_
          · intro htrace
            have hhead := congrArg (fun r => r.2.frameSequence.length) (List.head_eq_of_cons_eq htrace)
            have hlt := call_grown hflag h hg
            exact absurd hhead (Nat.ne_of_lt hlt)
          · rintro (hbad | hbad | hbad)
            · rw [hflag] at hbad
              cases hbad
            · exact hs hbad
            · exact hbad.1 hg
        · -- both go on, the copy with the flag set
          have hcall := call_kept hflag h hs hg
          have hnext : (s.callInt c).2.DefaultInOrder := by
            rw [callInt, call_snd]
            exact exec_inOrder h c
          have hiff := ih hnext
          have hcopy : s.asCustom.callInt c = ((s.callInt c).1, (s.callInt c).2.asCustom) := by
            rw [callInt, hcall]
            rfl
          rw [trace, trace, hcopy, KeepsFlag, hflag]
          constructor
          · intro htrace
            exact Or.inr (Or.inr ⟨hg, hiff.1 (List.tail_eq_of_cons_eq htrace)⟩)
          · rintro (hbad | hbad | hkeeps)
            · cases hbad
            · exact absurd hbad hs
            · exact congrArg _ (hiff.2 hkeeps.2)

/-! ## Geometry -/

/-- The points of the frame that lie in the collision rectangle. -/
def covered (s : Sprite) : Raster Prop where
  width := s.srcFrameWidth
  height := s.srcFrameHeight
  pixel u v := s.collisionRect.Contains u v

/-- The shown frame is there, and the painted size and the transformed collision rectangle are the
images of the frame and of the collision rectangle under the current transform.  The corner of the
rectangle is stored in `int`s. -/
structure Geometry (s : Sprite) : Prop where
  index : 0 ≤ s.sequenceIndex ∧ s.sequenceIndex < s.frameSequence.length
  sequence : ∀ e ∈ s.frameSequence, 0 ≤ e ∧ e < s.numberFrames
  size : s.width = (s.tCurrentTransformation.apply s.covered).width ∧
    s.height = (s.tCurrentTransformation.apply s.covered).height
  collision : ∃ r : Rect,
    (∀ u v, r.Contains u v ↔ (s.tCurrentTransformation.apply s.covered).pixel u v) ∧
      (r.width, r.height) = (if s.tCurrentTransformation.invertedAxes
        then (s.collisionRect.height, s.collisionRect.width)
        else (s.collisionRect.width, s.collisionRect.height)) ∧
      s.tCollisionRect = r.wrap

theorem wrap_geometry {s : Sprite} (h : s.Ok) : s.wrap.Geometry where
  index := h.index
  sequence := h.sequence
  size := by
    have hsize := h.drawn_size
    rw [drawn, Transform.apply_width, Transform.apply_height] at hsize
    rw [Transform.apply_width, Transform.apply_height]
    exact ⟨hsize.1.symm, hsize.2.symm⟩
  collision := by
    have hrect : s.tCollisionRect = _ := congrArg Bounds.rect h.bounds
    refine ⟨s.tCollisionRect, ?_, ?_, rfl⟩
    · intro u v
      rw [hrect, Transform.apply_pixel]
      exact transformedBounds_contains _ _ _ _ u v
    · rw [hrect, show s.wrap.tCurrentTransformation = s.tCurrentTransformation from rfl]
      cases s.tCurrentTransformation <;> rfl

theorem outcome_throws {s : Sprite} {r : Except Throwable Sprite} {e : Throwable}
    (h : (s.outcome r).1 = some e) : (s.outcome r).2 = s := by
  cases r with
  | ok s' => cases h
  | error e' => rfl

/-- **What a throwing call leaves.** -/
theorem callInt_throws {s : Sprite} (hwrap : s.wrap = s) {c : Call} {e : Throwable}
    (h : (s.callInt c).1 = some e) : (s.callInt c).2 = s ↔ s.StaysOnThrow c := by
  have hkept : (s.call c).2 = s → (s.callInt c).2 = s := by
    intro hs
    rw [callInt, hs]
    exact hwrap
  cases c with
  | setFrame | setFrameSequence | setImage | defineCollisionRectangle =>
    exact iff_of_true (hkept (outcome_throws h)) trivial
  | setTransform transform =>
    have hnone : Transform.ofInt transform = none := by
      have hthrown : (if (Transform.ofInt transform).isSome then none
        else some Throwable.illegalArgument) = some e := h
      split at hthrown
      · cases hthrown
      · simpa using (by assumption : ¬ (Transform.ofInt transform).isSome = true)
    constructor
    · intro hs
      apply (refPixel_setTransform s transform).1
      rw [hs]
    · intro hstays
      have hzero := hstays.resolve_left (by simp [hnone])
      have hx := ((i32_add_eq_iff s.x _).2 hzero.1).trans (congrArg x hwrap)
      have hy := ((i32_add_eq_iff s.y _).2 hzero.2).trans (congrArg y hwrap)
      have hrect := congrArg tCollisionRect hwrap
      rw [callInt, call, setTransform, hnone]
      apply Sprite.ext
      case x => exact (congrArg i32 (Int.sub_zero _)).trans hx
      case y => exact (congrArg i32 (Int.sub_zero _)).trans hy
      case tCollisionRect => exact hrect
      all_goals rfl
  | _ => cases h

/-- **Sprite geometry.**  In every run the frames and the bounds fit the transform, `setTransform` and
`setImage` keep the reference pixel in place, a throwing call leaves the sprite unchanged and a copy
behaves like its original: but a refused `setTransform` moves the sprite, unless its reference pixel
has the offset 0, and a copy of a sprite with its default sequence keeps that sequence when `setImage`
brings more frames. -/
theorem sprite_geometry {s : Sprite} (h : Run s) :
    s.Geometry ∧
      (∀ transform, (s.callInt (.setTransform transform)).2.refPixel = s.refPixel ↔
        s.StaysOnThrow (.setTransform transform)) ∧
      (∀ image frameWidth frameHeight,
        (s.callInt (.setImage image frameWidth frameHeight)).2.refPixel = s.refPixel) ∧
      (∀ c e, (s.callInt c).1 = some e → ((s.callInt c).2 = s ↔ s.StaysOnThrow c)) ∧
      ∃ c, s.copyInt = .ok c ∧ ∀ calls, c.trace calls = s.trace calls ↔ s.KeepsFlag calls := by
  obtain ⟨E, hE, hinOrder, rfl⟩ := h.exact
  have hthrows : ∀ c e, (E.wrap.callInt c).1 = some e →
      ((E.wrap.callInt c).2 = E.wrap ↔ E.wrap.StaysOnThrow c) :=
    fun c e he => callInt_throws (wrap_wrap E) he
  refine ⟨wrap_geometry hE.ok, refPixel_setTransform _, refPixel_setImage _, hthrows, ?_⟩
  refine ⟨E.wrap.asCustom, copy_frames_wrap hE.ok, fun calls => ?_⟩
  exact @trace_asCustom_iff E.wrap hinOrder calls

/-- An image of `1 + n` columns and one row. -/
def strip (n : Nat) : Image where
  width := 1 + n
  height := 1
  argb _ _ := 0
  width_pos := by omega
  height_pos := by omega

/-- Two columns become two rows. -/
theorem sprite_geometry_turned :
    ((ofImage (strip 1)).callInt (.setTransform 5)).2.Geometry ∧
      ((ofImage (strip 1)).callInt (.setTransform 5)).2.height = 2 :=
  ⟨(sprite_geometry (.call (.ofImage _) _)).1, rfl⟩

/-- One pixel, whose reference pixel lies five columns to the right. -/
def offset : Sprite := ((ofImage (strip 0)).callInt (.defineReferencePixel 5 0)).2

/-- A refused `setTransform` moves the sprite, and a copy stays with one frame when `setImage` brings
a second. -/
theorem refused_moves_and_copy_left_behind :
    (Run offset ∧ (offset.callInt (.setTransform 8)).1 = some .illegalArgument ∧
        offset.x = 0 ∧ (offset.callInt (.setTransform 8)).2.x = 5) ∧
      Run (ofImage (strip 0)) ∧
        ((ofImage (strip 0)).callInt (.setImage (strip 1) 1 1)).2.frameSequence = [0, 1] ∧
        ∃ c, (ofImage (strip 0)).copyInt = .ok c ∧
          (c.callInt (.setImage (strip 1) 1 1)).2.frameSequence = [0] := by
  refine ⟨⟨.call (.ofImage _) _, ?_, ?_, ?_⟩, .ofImage _, ?_, _, rfl, ?_⟩
  all_goals decide

end Sprite

end FroggyKVM.Game
