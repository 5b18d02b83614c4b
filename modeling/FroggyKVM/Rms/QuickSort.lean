/-
# FroggyKVM.Rms.QuickSort — `RecordEnumerationImpl.QuickSort` under an arbitrary comparator.

The comparator and the record store are the application's: each may throw, and each may answer
differently every time it is asked.  The partition trusts them for its scans, but not for its
bounds: the scans stop at the ends of the segment, and the first pass either exchanges two cells,
which moves both ends inwards, or has crossed already.  So both recursive calls are on shorter
segments, whatever is answered.
-/
import FroggyKVM.Lib.Outcome
import FroggyKVM.Lib.Segment
import FroggyKVM.Rms.Enumeration

namespace FroggyKVM.Rms

open Outcome Segment

/-- `RecordComparator.PRECEDES`. -/
def PRECEDES : Int := -1

/-- What `QuickSort` asks of the record store and of the application.  `σ` is all the state they
have, `ρ` is what `getRecord` gives, and `ε` is what either throws. -/
structure Application (σ ρ ε : Type) where
  getRecord : Int → σ → Except ε ρ × σ
  compare : ρ → ρ → σ → Except ε Int × σ

/-- The array being sorted, and the indices it was used at, latest first. -/
structure Sorting (σ : Type) where
  a : List Int
  indexed : List Int := []
  app : σ

inductive SortError (ε : Type) where
  | thrown (e : ε)
  | arrayIndexOutOfBounds
  | outOfFuel
  deriving DecidableEq, Repr

abbrev SortM (σ ε : Type) : Type → Type := ExceptT (SortError ε) (StateM (Sorting σ))

variable {σ ρ ε : Type}

/-! ## The source -/

/-- A call of the application. -/
def call {α : Type} (f : σ → Except ε α × σ) : SortM σ ε α := fun s =>
  match f s.app with
  | (.ok x, w) => (.ok x, { s with app := w })
  | (.error e, w) => (.error (.thrown e), { s with app := w })

/-- `a[i]`. -/
def element (i : Int) : SortM σ ε Int := fun s =>
  match cell s.a i with
  | some recordId => (.ok recordId, { s with indexed := i :: s.indexed })
  | none => (.error .arrayIndexOutOfBounds, { s with indexed := i :: s.indexed })

/-- `a[i] = recordId`. -/
def assign (i recordId : Int) : SortM σ ε Unit := fun s =>
  match cell s.a i with
  | some _ => (.ok (), { s with a := s.a.set i.toNat recordId, indexed := i :: s.indexed })
  | none => (.error .arrayIndexOutOfBounds, { s with indexed := i :: s.indexed })

def stop {α : Type} : SortM σ ε α := fun s => (.error .outOfFuel, s)

/-- `inp_comparator.compare(recordStore.getRecord(a[i]), pivotData)`. -/
def compareAt (app : Application σ ρ ε) (pivotData : ρ) (i : Int) : SortM σ ε Int := do
  let recordId ← element i
  let data ← call (app.getRecord recordId)
  call (app.compare data pivotData)

/-- The scan from the left. -/
def scanLeft (app : Application σ ρ ε) (highIndex : Int) (pivotData : ρ) :
    Nat → Int → SortM σ ε Int
  | 0, _ => stop
  | fuel + 1, left =>
    if left < highIndex then do
      let answer ← compareAt app pivotData left
      if answer = PRECEDES then scanLeft app highIndex pivotData fuel (left + 1) else pure left
    else pure left

/-- The scan from the right. -/
def scanRight (app : Application σ ρ ε) (lowIndex : Int) (pivotData : ρ) :
    Nat → Int → SortM σ ε Int
  | 0, _ => stop
  | fuel + 1, right =>
    if right > lowIndex then do
      let answer ← compareAt app pivotData right
      if answer = FOLLOWS then scanRight app lowIndex pivotData fuel (right - 1) else pure right
    else pure right

def swap (left right : Int) : SortM σ ε Unit := do
  let tmp ← element left
  let other ← element right
  assign left other
  assign right tmp

/-- `while (left <= right)`. -/
def partition (app : Application σ ρ ε) (lowIndex highIndex : Int) (pivotData : ρ) :
    Nat → Int → Int → SortM σ ε (Int × Int)
  | 0, _, _ => stop
  | fuel + 1, left, right =>
    if left ≤ right then do
      let left ← scanLeft app highIndex pivotData fuel left
      let right ← scanRight app lowIndex pivotData fuel right
      if left ≤ right then do
        swap left right
        partition app lowIndex highIndex pivotData fuel (left + 1) (right - 1)
      else partition app lowIndex highIndex pivotData fuel left right
    else pure (left, right)

/-- An array of `int`s in a 32-bit address space has fewer than 2^30 cells, so that the sum of two of
its indices does not overflow. -/
def QuickSort (app : Application σ ρ ε) : Nat → Int → Int → SortM σ ε Unit
  | 0, _, _ => stop
  | fuel + 1, lowIndex, highIndex =>
    if highIndex > lowIndex then do
      let ind := (lowIndex + highIndex).tdiv 2
      let pivotIndex ← element ind
      let pivotData ← call (app.getRecord pivotIndex)
      let (left, right) ← partition app lowIndex highIndex pivotData fuel lowIndex highIndex
      let _ ← (if lowIndex < right then QuickSort app fuel lowIndex right else pure ())
      if left < highIndex then QuickSort app fuel left highIndex else pure ()
    else pure ()

/-! ## More fuel, same run -/

theorem stop_refines {α : Type} (x : SortM σ ε α) : Refines SortError.outOfFuel stop x :=
  Refines.of_throw fun _ => rfl

theorem scanLeft_mono (app : Application σ ρ ε) (highIndex : Int) (pivotData : ρ) :
    ∀ {fuel fuel' : Nat} (left : Int), fuel ≤ fuel' →
      Refines .outOfFuel (scanLeft app highIndex pivotData fuel left)
        (scanLeft app highIndex pivotData fuel' left)
  | 0, _, _, _ => stop_refines _
  | fuel + 1, fuel' + 1, left, h => by
    have ih := scanLeft_mono app highIndex pivotData (left + 1) (Nat.le_of_succ_le_succ h)
    refine Refines.ite ?_ (Refines.refl _)
    exact Refines.bind (Refines.refl _) fun _ => Refines.ite ih (Refines.refl _)

theorem scanRight_mono (app : Application σ ρ ε) (lowIndex : Int) (pivotData : ρ) :
    ∀ {fuel fuel' : Nat} (right : Int), fuel ≤ fuel' →
      Refines .outOfFuel (scanRight app lowIndex pivotData fuel right)
        (scanRight app lowIndex pivotData fuel' right)
  | 0, _, _, _ => stop_refines _
  | fuel + 1, fuel' + 1, right, h => by
    have ih := scanRight_mono app lowIndex pivotData (right - 1) (Nat.le_of_succ_le_succ h)
    refine Refines.ite ?_ (Refines.refl _)
    exact Refines.bind (Refines.refl _) fun _ => Refines.ite ih (Refines.refl _)

theorem partition_mono (app : Application σ ρ ε) (lowIndex highIndex : Int) (pivotData : ρ) :
    ∀ {fuel fuel' : Nat} (left right : Int), fuel ≤ fuel' →
      Refines .outOfFuel (partition app lowIndex highIndex pivotData fuel left right)
        (partition app lowIndex highIndex pivotData fuel' left right)
  | 0, _, _, _, _ => stop_refines _
  | fuel + 1, fuel' + 1, left, right, h => by
    have hle := Nat.le_of_succ_le_succ h
    refine Refines.ite ?_ (Refines.refl _)
    refine Refines.bind (scanLeft_mono app highIndex pivotData left hle) fun left => ?_
    refine Refines.bind (scanRight_mono app lowIndex pivotData right hle) fun right => ?_
    refine Refines.ite (Refines.bind (Refines.refl _) fun _ => ?_) ?_
    · exact partition_mono app lowIndex highIndex pivotData (left + 1) (right - 1) hle
    · exact partition_mono app lowIndex highIndex pivotData left right hle

theorem QuickSort_mono (app : Application σ ρ ε) :
    ∀ {fuel fuel' : Nat} (lowIndex highIndex : Int), fuel ≤ fuel' →
      Refines .outOfFuel (QuickSort app fuel lowIndex highIndex)
        (QuickSort app fuel' lowIndex highIndex)
  | 0, _, _, _, _ => stop_refines _
  | fuel + 1, fuel' + 1, lowIndex, highIndex, h => by
    have hle := Nat.le_of_succ_le_succ h
    refine Refines.ite ?_ (Refines.refl _)
    refine Refines.bind (Refines.refl _) fun pivotIndex => ?_
    refine Refines.bind (Refines.refl _) fun pivotData => ?_
    refine Refines.bind (partition_mono app _ _ pivotData _ _ hle) fun ⟨left, right⟩ => ?_
    refine Refines.bind (Refines.ite (QuickSort_mono app _ _ hle) (Refines.refl _)) fun _ => ?_
    exact Refines.ite (QuickSort_mono app _ _ hle) (Refines.refl _)

/-! ## Inside the segment, whatever is answered -/

/-- From `s` to `s'` cells of the segment changed places, and only its indices were used. -/
structure Within (lo hi : Int) (s s' : Sorting σ) : Prop where
  rearranged : Rearranged lo hi s.a s'.a
  indexed : ∃ new, s'.indexed = new ++ s.indexed ∧ ∀ i ∈ new, lo ≤ i ∧ i ≤ hi

namespace Within

variable {lo hi : Int} {s s' s'' : Sorting σ}

theorem refl (s : Sorting σ) : Within lo hi s s := ⟨.refl, [], rfl, nofun⟩

theorem trans (h : Within lo hi s s') (h' : Within lo hi s' s'') : Within lo hi s s'' := by
  obtain ⟨new, hnew, hin⟩ := h.indexed
  obtain ⟨new', hnew', hin'⟩ := h'.indexed
  refine ⟨h.rearranged.trans h'.rearranged, new' ++ new, ?_, ?_⟩
  · rw [hnew', hnew, List.append_assoc]
  · intro i hi
    rcases List.mem_append.1 hi with hi | hi
    · exact hin' i hi
    · exact hin i hi

theorem mono {lo' hi' : Int} (h : Within lo hi s s') (hlo : lo' ≤ lo) (hhi : hi ≤ hi') :
    Within lo' hi' s s' := by
  obtain ⟨new, hnew, hin⟩ := h.indexed
  refine ⟨h.rearranged.mono hlo hhi, new, hnew, fun i hi => ?_⟩
  have := hin i hi
  omega

theorem length_eq (h : Within lo hi s s') : s'.a.length = s.a.length := h.rearranged.length_eq

end Within

/-- The run stays inside the segment, and ends in a value with `Q` or in an exception of the
application's. -/
def Safe {α : Type} (lo hi : Int) (s : Sorting σ) (Q : α → Prop) :
    Except (SortError ε) α × Sorting σ → Prop :=
  Holds (fun x s' => Within lo hi s s' ∧ Q x)
    (fun e s' => Within lo hi s s' ∧ ∃ thrown, e = .thrown thrown)

namespace Safe

variable {α β : Type} {lo hi : Int} {s : Sorting σ} {P : α → Prop} {Q : β → Prop}

theorem bind {x : SortM σ ε α} {f : α → SortM σ ε β} (hx : Safe lo hi s P (x s))
    (hf : ∀ a s', Within lo hi s s' → P a → Safe lo hi s' Q (f a s')) :
    Safe lo hi s Q ((x >>= f) s) := by
  apply Holds.bind (P := fun a s' => Within lo hi s s' ∧ P a) hx
  rintro a s' ⟨hs', ha⟩
  refine (hf a s' hs' ha).mono ?_ ?_
  · exact fun b s'' h => ⟨hs'.trans h.1, h.2⟩
  · exact fun e s'' h => ⟨hs'.trans h.1, h.2⟩

theorem pure {a : α} (h : P a) : Safe lo hi s P ((Pure.pure a : SortM σ ε α) s) := ⟨.refl s, h⟩

theorem mono {lo' hi' : Int} {P' : α → Prop} {r : Except (SortError ε) α × Sorting σ}
    (h : Safe lo hi s P r) (hlo : lo' ≤ lo) (hhi : hi ≤ hi') (hP : ∀ a, P a → P' a) :
    Safe lo' hi' s P' r :=
  Holds.mono h (fun a _ h => ⟨h.1.mono hlo hhi, hP a h.2⟩)
    (fun _ _ h => ⟨h.1.mono hlo hhi, h.2⟩)

end Safe

variable {app : Application σ ρ ε} {lo hi : Int} {s : Sorting σ}

theorem call_safe {α : Type} (f : σ → Except ε α × σ) :
    Safe lo hi s (fun _ => True) (call f s : Except (SortError ε) α × Sorting σ) := by
  have hwithin (w : σ) : Within lo hi s { s with app := w } := ⟨.refl, [], rfl, nofun⟩
  unfold call
  split
  · exact ⟨hwithin _, trivial⟩
  · exact ⟨hwithin _, _, rfl⟩

theorem element_eq {i recordId : Int} (h : cell s.a i = some recordId) :
    (element i s : Except (SortError ε) Int × Sorting σ) =
      (.ok recordId, { s with indexed := i :: s.indexed }) := by
  unfold element
  rw [h]

theorem assign_eq {i old : Int} (h : cell s.a i = some old) (recordId : Int) :
    (assign i recordId s : Except (SortError ε) Unit × Sorting σ) =
      (.ok (), { s with a := s.a.set i.toNat recordId, indexed := i :: s.indexed }) := by
  unfold assign
  rw [h]

theorem element_safe {i : Int} (hlo : 0 ≤ lo) (hhi : hi < s.a.length) (hi₁ : lo ≤ i)
    (hi₂ : i ≤ hi) :
    Safe lo hi s (fun _ => True) (element i s : Except (SortError ε) Int × Sorting σ) := by
  obtain ⟨recordId, hcell⟩ := exists_cell (a := s.a) (i := i) (by omega) (by omega)
  rw [element_eq hcell]
  refine ⟨⟨.refl, [i], rfl, ?_⟩, trivial⟩
  intro k hk
  obtain rfl := List.mem_singleton.1 hk
  exact ⟨hi₁, hi₂⟩

theorem compareAt_safe {i : Int} (pivotData : ρ) (hlo : 0 ≤ lo) (hhi : hi < s.a.length)
    (hi₁ : lo ≤ i) (hi₂ : i ≤ hi) :
    Safe lo hi s (fun _ => True) (compareAt app pivotData i s) :=
  Safe.bind (element_safe hlo hhi hi₁ hi₂) fun _ _ _ _ =>
    Safe.bind (call_safe _) fun _ _ _ _ => call_safe _

/-- The three cell uses after the first leave the exchange of the two cells. -/
theorem swap_eq {left right x y : Int} (hx : cell s.a left = some x)
    (hy : cell s.a right = some y) :
    (swap left right s : Except (SortError ε) Unit × Sorting σ) =
      (.ok (), { s with a := exchange s.a left right x y
                        indexed := right :: left :: right :: left :: s.indexed }) := by
  have hset : ∃ z, cell (s.a.set left.toNat y) right = some z := by
    obtain ⟨h0, hlt⟩ := lt_of_cell hy
    refine exists_cell h0 ?_
    rw [List.length_set]
    omega
  obtain ⟨z, hz⟩ := hset
  unfold swap
  rw [bind_ok (element_eq hx)]
  rw [bind_ok (element_eq (s := { s with indexed := left :: s.indexed }) hy)]
  rw [bind_ok (assign_eq (s := { s with indexed := right :: left :: s.indexed }) hx y)]
  exact assign_eq hz x

theorem swap_safe {left right : Int} (hlo : 0 ≤ lo) (hhi : hi < s.a.length)
    (hl : lo ≤ left ∧ left ≤ hi) (hr : lo ≤ right ∧ right ≤ hi) :
    Safe lo hi s (fun _ => True) (swap left right s : Except (SortError ε) Unit × Sorting σ) := by
  obtain ⟨x, hx⟩ := exists_cell (a := s.a) (i := left) (by omega) (by omega)
  obtain ⟨y, hy⟩ := exists_cell (a := s.a) (i := right) (by omega) (by omega)
  rw [swap_eq hx hy]
  refine ⟨⟨.exchange .refl hl.1 hl.2 hr.1 hr.2 hx hy, [right, left, right, left], rfl, ?_⟩, trivial⟩
  simp only [List.mem_cons, List.not_mem_nil, or_false, forall_eq_or_imp, forall_eq]
  exact ⟨hr, hl, hr, hl⟩

theorem scanLeft_safe (app : Application σ ρ ε) (pivotData : ρ) (hlo : 0 ≤ lo) :
    ∀ (fuel : Nat) (left : Int) (s : Sorting σ), hi < s.a.length → lo ≤ left → left ≤ hi →
      hi - left < fuel →
      Safe lo hi s (fun left' => left ≤ left' ∧ left' ≤ hi) (scanLeft app hi pivotData fuel left s)
  | 0, left, s, _, _, h, hfuel => by omega
  | fuel + 1, left, s, hhi, hl, h, hfuel => by
    unfold scanLeft
    split
    · refine Safe.bind (compareAt_safe pivotData hlo hhi hl h) fun answer s' hs' _ => ?_
      split
      · have hhi' : hi < s'.a.length := hs'.length_eq ▸ hhi
        refine (scanLeft_safe app pivotData hlo fuel (left + 1) s' hhi' (by omega) (by omega)
          (by omega)).mono (Int.le_refl _) (Int.le_refl _) fun left' h' => ?_
        omega
      · exact Safe.pure ⟨Int.le_refl _, h⟩
    · exact Safe.pure ⟨Int.le_refl _, h⟩

theorem scanRight_safe (app : Application σ ρ ε) (pivotData : ρ) (hlo : 0 ≤ lo) :
    ∀ (fuel : Nat) (right : Int) (s : Sorting σ), hi < s.a.length → lo ≤ right → right ≤ hi →
      right - lo < fuel →
      Safe lo hi s (fun right' => lo ≤ right' ∧ right' ≤ right)
        (scanRight app lo pivotData fuel right s)
  | 0, right, s, _, h, _, hfuel => by omega
  | fuel + 1, right, s, hhi, h, hr, hfuel => by
    unfold scanRight
    split
    · refine Safe.bind (compareAt_safe pivotData hlo hhi h hr) fun answer s' hs' _ => ?_
      split
      · have hhi' : hi < s'.a.length := hs'.length_eq ▸ hhi
        refine (scanRight_safe app pivotData hlo fuel (right - 1) s' hhi' (by omega) (by omega)
          (by omega)).mono (Int.le_refl _) (Int.le_refl _) fun right' h' => ?_
        omega
      · exact Safe.pure ⟨h, Int.le_refl _⟩
    · exact Safe.pure ⟨h, Int.le_refl _⟩

/-- Where `partition` ends: the ends have crossed, and each moved away from its side. -/
def Crossed (lo hi : Int) (ends : Int × Int) : Prop :=
  ends.2 < ends.1 ∧ lo < ends.1 ∧ ends.1 ≤ hi + 1 ∧ lo - 1 ≤ ends.2 ∧ ends.2 < hi

theorem crossed_mk {left right : Int} (h : right < left) (h₁ : lo < left) (h₂ : left ≤ hi + 1)
    (h₃ : lo - 1 ≤ right) (h₄ : right < hi) : Crossed lo hi (left, right) := ⟨h, h₁, h₂, h₃, h₄⟩

theorem partition_crossed {pivotData : ρ} {fuel : Nat} {left right : Int} (hfuel : 0 < fuel)
    (h : right < left) : partition app lo hi pivotData fuel left right = pure (left, right) := by
  cases fuel with
  | zero => omega
  | succ fuel => exact if_neg (by omega)

/-- **A pass moves both ends**, or they have crossed. -/
theorem partition_safe (app : Application σ ρ ε) (pivotData : ρ) (hlo : 0 ≤ lo) (hlt : lo < hi) :
    ∀ (fuel : Nat) (left right : Int) (s : Sorting σ), hi < s.a.length →
      lo ≤ left → left ≤ hi + 1 → lo - 1 ≤ right → right ≤ hi →
      (left ≤ right ∨ (lo < left ∧ right < hi)) →
      hi - left + 2 < fuel → right - lo + 2 < fuel →
      Safe lo hi s (Crossed lo hi) (partition app lo hi pivotData fuel left right s)
  | 0, left, right, s, _, _, _, _, _, _, _, _ => by omega
  | fuel + 1, left, right, s, hhi, hl₁, hl₂, hr₁, hr₂, hstart, hf₁, hf₂ => by
    unfold partition
    split
    · rename_i hle
      refine Safe.bind (scanLeft_safe app pivotData hlo fuel left s hhi hl₁ (by omega) (by omega))
        fun left' s₁ hs₁ hleft' => ?_
      have hhi₁ : hi < s₁.a.length := hs₁.length_eq ▸ hhi
      refine Safe.bind (scanRight_safe app pivotData hlo fuel right s₁ hhi₁ (by omega) hr₂ (by omega))
        fun right' s₂ hs₂ hright' => ?_
      have hhi₂ : hi < s₂.a.length := hs₂.length_eq ▸ hhi₁
      split
      · refine Safe.bind (swap_safe hlo hhi₂ (by omega) (by omega)) fun _ s₃ hs₃ _ => ?_
        have hhi₃ : hi < s₃.a.length := hs₃.length_eq ▸ hhi₂
        exact partition_safe app pivotData hlo hlt fuel (left' + 1) (right' - 1) s₃ hhi₃ (by omega)
          (by omega) (by omega) (by omega) (.inr (by omega)) (by omega) (by omega)
      · -- crossed inside the segment, so the next test leaves the loop
        rename_i hcross
        rw [partition_crossed (by omega) (by omega)]
        exact Safe.pure (crossed_mk (by omega) (by omega) (by omega) (by omega) (by omega))
    · exact Safe.pure (crossed_mk (by omega) (by omega) (by omega) (by omega) (by omega))

theorem QuickSort_safe (app : Application σ ρ ε) :
    ∀ (fuel : Nat) (lo hi : Int) (s : Sorting σ), 0 ≤ lo → hi < s.a.length →
      hi - lo + 3 < fuel → 0 < fuel →
      Safe lo hi s (fun _ => True) (QuickSort app fuel lo hi s)
  | 0, _, _, _, _, _, _, h => absurd h (Nat.lt_irrefl 0)
  | fuel + 1, lo, hi, s, hlo, hhi, hfuel, _ => by
    unfold QuickSort
    split
    · rename_i hlt
      have hmid : lo ≤ (lo + hi).tdiv 2 ∧ (lo + hi).tdiv 2 ≤ hi := by
        rw [Int.tdiv_eq_ediv_of_nonneg (by omega)]
        omega
      refine Safe.bind (element_safe hlo hhi hmid.1 hmid.2) fun pivotIndex s₁ hs₁ _ => ?_
      refine Safe.bind (call_safe _) fun pivotData s₂ hs₂ _ => ?_
      have hhi₂ : hi < s₂.a.length := by rw [hs₂.length_eq, hs₁.length_eq]; exact hhi
      refine Safe.bind (partition_safe app pivotData hlo hlt fuel lo hi s₂ hhi₂ (Int.le_refl _)
        (by omega) (by omega) (Int.le_refl _) (.inl (by omega)) (by omega) (by omega)) ?_
      rintro ⟨left, right⟩ s₃ hs₃ ⟨hcross, hleft, hleft', hright, hright'⟩
      dsimp only at hcross hleft hleft' hright hright'
      have hhi₃ : hi < s₃.a.length := hs₃.length_eq ▸ hhi₂
      refine Safe.bind (P := fun _ => True) ?_ fun _ s₄ hs₄ _ => ?_
      · split
        · exact (QuickSort_safe app fuel lo right s₃ hlo (by omega) (by omega) (by omega)).mono
            (Int.le_refl _) (by omega) fun _ h => h
        · exact Safe.pure trivial
      · have hhi₄ : hi < s₄.a.length := hs₄.length_eq ▸ hhi₃
        split
        · exact (QuickSort_safe app fuel left hi s₄ (by omega) hhi₄ (by omega) (by omega)).mono
            (by omega) (Int.le_refl _) fun _ h => h
        · exact Safe.pure trivial
    · exact Safe.pure trivial

/-! ## Sorted, under a total preorder -/

/-- The answers are those of a total preorder: `x` is not behind `y` unless `FOLLOWS` says so. -/
structure TotalPreorder (compare : ρ → ρ → Int) : Prop where
  swap : ∀ x y, compare x y = PRECEDES ↔ compare y x = FOLLOWS
  trans : ∀ x y z, compare x y ≠ FOLLOWS → compare y z ≠ FOLLOWS → compare x z ≠ FOLLOWS

theorem TotalPreorder.self {compare : ρ → ρ → Int} (h : TotalPreorder compare) (x : ρ) :
    compare x x ≠ FOLLOWS ∧ compare x x ≠ PRECEDES := by
  have hne : compare x x ≠ FOLLOWS := by
    intro hf
    have hp := (h.swap x x).2 hf
    rw [hf] at hp
    cases hp
  exact ⟨hne, fun hp => hne ((h.swap x x).1 hp)⟩

/-- Whatever happens in between, the records of the array have fixed data, and the comparator has
fixed answers. -/
structure Consistent (app : Application σ ρ ε) (ids : Int → Prop) (record : Int → ρ)
    (compare : ρ → ρ → Int) : Prop where
  getRecord : ∀ recordId w, ids recordId → (app.getRecord recordId w).1 = .ok (record recordId)
  compare : ∀ x y w, (app.compare x y w).1 = .ok (compare x y)

/-- It returns, with `Q`. -/
def Yields {α : Type} (Q : α → Sorting σ → Prop) : Except (SortError ε) α × Sorting σ → Prop :=
  Holds Q fun _ _ => False

theorem Safe.yields {α : Type} {P : α → Prop} {Q : α → Sorting σ → Prop}
    {r : Except (SortError ε) α × Sorting σ} (h : Safe lo hi s P r) (h' : Yields Q r) :
    Yields (fun x s' => Within lo hi s s' ∧ P x ∧ Q x s') r :=
  (Holds.and h h').mono (fun _ _ h => ⟨h.1.1, h.1.2, h.2⟩) fun _ _ h => h.2

theorem call_yields {α : Type} {f : σ → Except ε α × σ} {x : α} (h : (f s.app).1 = .ok x) :
    Yields (fun y s' => y = x ∧ s'.a = s.a)
      (call f s : Except (SortError ε) α × Sorting σ) := by
  unfold call
  rcases hf : f s.app with ⟨r, w⟩
  rw [hf] at h
  obtain rfl : r = .ok x := h
  exact ⟨rfl, rfl⟩

section
variable {ids : Int → Prop} {record : Int → ρ} {compare : ρ → ρ → Int}

theorem compareAt_yields (hc : Consistent app ids record compare) {pivotData : ρ} {i recordId : Int}
    (hcell : cell s.a i = some recordId) (hid : ids recordId) :
    Yields (fun answer s' => answer = compare (record recordId) pivotData ∧ s'.a = s.a)
      (compareAt app pivotData i s) := by
  unfold compareAt
  rw [bind_ok (element_eq hcell)]
  refine Holds.bind (call_yields (hc.getRecord recordId _ hid)) ?_
  rintro _ s' ⟨rfl, hs'⟩
  refine (call_yields (hc.compare _ pivotData s'.app)).mono ?_ fun _ _ h => h
  exact fun answer s'' h => ⟨h.1, h.2.trans hs'⟩

/-- The scan stops at the first cell that does not precede the pivot, if there is one. -/
theorem scanLeft_yields (hc : Consistent app ids record compare) {pivotData : ρ} {j z : Int}
    (hjhi : j ≤ hi) (hz : compare (record z) pivotData ≠ PRECEDES) :
    ∀ (fuel : Nat) (left : Int) (s : Sorting σ), (∀ x ∈ s.a, ids x) → cell s.a j = some z →
      0 ≤ left → left ≤ j → hi - left < fuel →
      Yields (fun left' s' => s'.a = s.a ∧ left' ≤ j ∧
          AllOn left (left' - 1) (fun x => compare (record x) pivotData = PRECEDES) s.a ∧
          ∀ x, cell s.a left' = some x → compare (record x) pivotData ≠ PRECEDES)
        (scanLeft app hi pivotData fuel left s)
  | 0, left, s, _, _, _, h, hfuel => by omega
  | fuel + 1, left, s, hids, hj, h0, h, hfuel => by
    obtain ⟨hj0, hjlen⟩ := lt_of_cell hj
    obtain ⟨x, hx⟩ := exists_cell (a := s.a) h0 (by omega)
    have hhere : ∀ s' : Sorting σ, s'.a = s.a → compare (record x) pivotData ≠ PRECEDES →
        Yields (fun left' s' => s'.a = s.a ∧ left' ≤ j ∧
            AllOn left (left' - 1) (fun x => compare (record x) pivotData = PRECEDES) s.a ∧
            ∀ x, cell s.a left' = some x → compare (record x) pivotData ≠ PRECEDES)
          ((pure left : SortM σ ε Int) s') := by
      refine fun s' hs' hne => ⟨hs', h, AllOn.empty (by omega), fun y hy => ?_⟩
      obtain rfl : x = y := Option.some.inj (hx.symm.trans hy)
      exact hne
    unfold scanLeft
    split
    · refine Holds.bind (compareAt_yields hc hx (hids x (mem_of_cell hx))) ?_
      rintro answer s' ⟨rfl, hs'⟩
      split
      · rename_i hprec
        have hne : left ≠ j := by
          rintro rfl
          obtain rfl : x = z := Option.some.inj (hx.symm.trans hj)
          exact hz hprec
        have ih := scanLeft_yields hc hjhi hz fuel (left + 1) s' (hs' ▸ hids) (hs' ▸ hj) (by omega)
          (by omega) (by omega)
        rw [hs'] at ih
        refine ih.mono (fun left' s'' hq => ⟨hq.1, hq.2.1, hq.2.2.1.pred ?_, hq.2.2.2⟩)
          fun _ _ h => h
        intro y hy
        obtain rfl : x = y := Option.some.inj (hx.symm.trans hy)
        exact hprec
      · exact hhere s' hs' ‹_›
    · obtain rfl : left = j := by omega
      obtain rfl : x = z := Option.some.inj (hx.symm.trans hj)
      exact hhere s rfl hz

theorem scanRight_yields (hc : Consistent app ids record compare) {pivotData : ρ} {j z : Int}
    (hloj : lo ≤ j) (hz : compare (record z) pivotData ≠ FOLLOWS) :
    ∀ (fuel : Nat) (right : Int) (s : Sorting σ), (∀ x ∈ s.a, ids x) → cell s.a j = some z →
      right < s.a.length → j ≤ right → right - lo < fuel →
      Yields (fun right' s' => s'.a = s.a ∧ j ≤ right' ∧
          AllOn (right' + 1) right (fun x => compare (record x) pivotData = FOLLOWS) s.a ∧
          ∀ x, cell s.a right' = some x → compare (record x) pivotData ≠ FOLLOWS)
        (scanRight app lo pivotData fuel right s)
  | 0, right, s, _, _, _, h, hfuel => by omega
  | fuel + 1, right, s, hids, hj, hlen, h, hfuel => by
    obtain ⟨hj0, -⟩ := lt_of_cell hj
    obtain ⟨x, hx⟩ := exists_cell (a := s.a) (i := right) (by omega) hlen
    have hhere : ∀ s' : Sorting σ, s'.a = s.a → compare (record x) pivotData ≠ FOLLOWS →
        Yields (fun right' s' => s'.a = s.a ∧ j ≤ right' ∧
            AllOn (right' + 1) right (fun x => compare (record x) pivotData = FOLLOWS) s.a ∧
            ∀ x, cell s.a right' = some x → compare (record x) pivotData ≠ FOLLOWS)
          ((pure right : SortM σ ε Int) s') := by
      refine fun s' hs' hne => ⟨hs', h, AllOn.empty (by omega), fun y hy => ?_⟩
      obtain rfl : x = y := Option.some.inj (hx.symm.trans hy)
      exact hne
    unfold scanRight
    split
    · refine Holds.bind (compareAt_yields hc hx (hids x (mem_of_cell hx))) ?_
      rintro answer s' ⟨rfl, hs'⟩
      split
      · rename_i hfoll
        have hne : right ≠ j := by
          rintro rfl
          obtain rfl : x = z := Option.some.inj (hx.symm.trans hj)
          exact hz hfoll
        have ih := scanRight_yields hc hloj hz fuel (right - 1) s' (hs' ▸ hids) (hs' ▸ hj)
          (by rw [hs']; omega) (by omega) (by omega)
        rw [hs'] at ih
        refine ih.mono (fun right' s'' hq => ⟨hq.1, hq.2.1, hq.2.2.1.succ ?_, hq.2.2.2⟩)
          fun _ _ h => h
        intro y hy
        obtain rfl : x = y := Option.some.inj (hx.symm.trans hy)
        exact hfoll
      · exact hhere s' hs' ‹_›
    · obtain rfl : right = j := by omega
      obtain rfl : x = z := Option.some.inj (hx.symm.trans hj)
      exact hhere s rfl hz

/-- The cells behind the left end do not follow the pivot, those behind the right end do not precede
it, and while the ends have not crossed each scan will meet a cell that stops it. -/
structure Partitioned (lo hi : Int) (record : Int → ρ) (compare : ρ → ρ → Int) (pivotData : ρ)
    (left right : Int) (a : List Int) : Prop where
  below : AllOn lo (left - 1) (fun x => compare (record x) pivotData ≠ FOLLOWS) a
  above : AllOn (right + 1) hi (fun x => compare (record x) pivotData ≠ PRECEDES) a
  stopLeft : left ≤ right → ∃ j z, left ≤ j ∧ j ≤ hi ∧ cell a j = some z ∧
    compare (record z) pivotData ≠ PRECEDES
  stopRight : left ≤ right → ∃ j z, lo ≤ j ∧ j ≤ right ∧ cell a j = some z ∧
    compare (record z) pivotData ≠ FOLLOWS

/-- An exchange extends both sides, and its cells stop the next scans. -/
theorem Partitioned.exchange {pivotData : ρ} {left right x y : Int} {a : List Int}
    (hbelow : AllOn lo (left - 1) (fun x => compare (record x) pivotData ≠ FOLLOWS) a)
    (habove : AllOn (right + 1) hi (fun x => compare (record x) pivotData ≠ PRECEDES) a)
    (hl : lo ≤ left) (hr : right ≤ hi) (hle : left ≤ right)
    (hx : cell a left = some x) (hy : cell a right = some y)
    (hxp : compare (record x) pivotData ≠ PRECEDES) (hyp : compare (record y) pivotData ≠ FOLLOWS) :
    Partitioned lo hi record compare pivotData (left + 1) (right - 1)
      (exchange a left right x y) := by
  refine ⟨?_, ?_, fun h => ⟨right, x, by omega, hr, ?_, hxp⟩,
    fun h => ⟨left, y, hl, by omega, ?_, hyp⟩⟩
  · rw [show left + 1 - 1 = left by omega]
    exact hbelow.exchange_left hle hx hy hyp
  · rw [show right - 1 + 1 = right by omega]
    exact habove.exchange_right hle hx hy hxp
  · rw [cell_exchange hx hy, if_pos rfl]
  · rw [cell_exchange hx hy, if_neg (by omega), if_pos rfl]

theorem partition_yields (hc : Consistent app ids record compare) {pivotData : ρ} (hlo : 0 ≤ lo) :
    ∀ (fuel : Nat) (left right : Int) (s : Sorting σ), (∀ x ∈ s.a, ids x) → hi < s.a.length →
      lo ≤ left → right ≤ hi → Partitioned lo hi record compare pivotData left right s.a →
      hi - left + 2 < fuel → right - lo + 2 < fuel → 0 < fuel →
      Yields (fun ends s' => Partitioned lo hi record compare pivotData ends.1 ends.2 s'.a)
        (partition app lo hi pivotData fuel left right s)
  | 0, left, right, s, _, _, _, _, _, _, _, h => absurd h (Nat.lt_irrefl 0)
  | fuel + 1, left, right, s, hids, hhi, hl, hr, hpart, hf₁, hf₂, _ => by
    unfold partition
    split
    · rename_i hle
      obtain ⟨j, z, hlj, hjhi, hj, hz⟩ := hpart.stopLeft hle
      obtain ⟨j', z', hloj, hjr, hj', hz'⟩ := hpart.stopRight hle
      refine Holds.bind ((scanLeft_safe app pivotData hlo fuel left s hhi hl (by omega)
        (by omega)).yields (scanLeft_yields hc hjhi hz fuel left s hids hj (by omega) hlj
        (by omega))) ?_
      rintro left' s₁ ⟨-, hleft', hs₁, -, hpassed, hstop⟩
      refine Holds.bind ((scanRight_safe app pivotData hlo fuel right s₁ (hs₁ ▸ hhi)
        (by omega) hr (by omega)).yields (scanRight_yields hc hloj hz' fuel right s₁ (hs₁ ▸ hids)
        (hs₁ ▸ hj') (by rw [hs₁]; omega) hjr (by omega))) ?_
      rintro right' s₂ ⟨-, hright', hs₂, -, hpassed', hstop'⟩
      have ha : s₂.a = s.a := hs₂.trans hs₁
      rw [hs₁] at hpassed' hstop'
      have hbelow : AllOn lo (left' - 1) (fun x => compare (record x) pivotData ≠ FOLLOWS) s.a := by
        refine hpart.below.append (m := left - 1) ?_
        rw [show left - 1 + 1 = left by omega]
        intro i x h₁ h₂ hx hfoll
        have hprec : compare (record x) pivotData = PRECEDES := hpassed i x h₁ h₂ hx
        rw [hfoll] at hprec
        cases hprec
      have habove : AllOn (right' + 1) hi (fun x => compare (record x) pivotData ≠ PRECEDES) s.a := by
        refine AllOn.append (m := right) ?_ hpart.above
        intro i x h₁ h₂ hx hprec
        have hfoll : compare (record x) pivotData = FOLLOWS := hpassed' i x h₁ h₂ hx
        rw [hprec] at hfoll
        cases hfoll
      split
      · rename_i hle'
        obtain ⟨x, hx⟩ := exists_cell (a := s.a) (i := left') (by omega) (by omega)
        obtain ⟨y, hy⟩ := exists_cell (a := s.a) (i := right') (by omega) (by omega)
        rw [bind_ok (swap_eq (ha ▸ hx) (ha ▸ hy)), ha]
        have hperm := exchange_perm hx hy
        refine partition_yields hc hlo fuel (left' + 1) (right' - 1) _
          (fun x hx => hids x (hperm.mem_iff.1 hx)) ?_ (by omega) (by omega)
          (Partitioned.exchange hbelow habove (by omega) (by omega) hle' hx hy (hstop x hx)
            (hstop' y hy)) (by omega) (by omega) (by omega)
        show hi < ((exchange s.a left' right' x y).length : Int)
        rw [hperm.length_eq]
        exact hhi
      · rw [partition_crossed (by omega) (by omega)]
        show Partitioned lo hi record compare pivotData left' right' s₂.a
        rw [ha]
        exact ⟨hbelow, habove, fun h => absurd h ‹_›, fun h => absurd h ‹_›⟩
    · exact hpart

theorem QuickSort_yields (hc : Consistent app ids record compare) (ht : TotalPreorder compare) :
    ∀ (fuel : Nat) (lo hi : Int) (s : Sorting σ), (∀ x ∈ s.a, ids x) → 0 ≤ lo → hi < s.a.length →
      hi - lo + 3 < fuel → 0 < fuel →
      Yields (fun _ s' => SortedOn lo hi (fun x y => compare (record x) (record y) ≠ FOLLOWS) s'.a)
        (QuickSort app fuel lo hi s)
  | 0, _, _, _, _, _, _, _, h => absurd h (Nat.lt_irrefl 0)
  | fuel + 1, lo, hi, s, hids, hlo, hhi, hfuel, _ => by
    unfold QuickSort
    split
    · rename_i hlt
      have hmid : lo ≤ (lo + hi).tdiv 2 ∧ (lo + hi).tdiv 2 ≤ hi := by
        rw [Int.tdiv_eq_ediv_of_nonneg (by omega)]
        omega
      obtain ⟨pivotIndex, hpivot⟩ := exists_cell (a := s.a) (i := (lo + hi).tdiv 2) (by omega)
        (by omega)
      rw [bind_ok (element_eq hpivot)]
      refine Holds.bind (call_yields (hc.getRecord pivotIndex _ (hids _ (mem_of_cell hpivot)))) ?_
      rintro _ s₁ ⟨rfl, hs₁⟩
      replace hs₁ : s₁.a = s.a := hs₁
      have hself := ht.self (record pivotIndex)
      have hstart : Partitioned lo hi record compare (record pivotIndex) lo hi s₁.a := by
        rw [hs₁]
        exact ⟨AllOn.empty (by omega), AllOn.empty (by omega),
          fun _ => ⟨_, pivotIndex, hmid.1, hmid.2, hpivot, hself.2⟩,
          fun _ => ⟨_, pivotIndex, hmid.1, hmid.2, hpivot, hself.1⟩⟩
      refine Holds.bind ((partition_safe app (record pivotIndex) hlo hlt fuel lo hi s₁
        (hs₁ ▸ hhi) (Int.le_refl _) (by omega) (by omega) (Int.le_refl _) (.inl (by omega))
        (by omega) (by omega)).yields (partition_yields hc hlo fuel lo hi s₁ (hs₁ ▸ hids)
        (hs₁ ▸ hhi) (Int.le_refl _) (Int.le_refl _) hstart (by omega) (by omega) (by omega))) ?_
      rintro ⟨left, right⟩ s₂ ⟨hs₂, ⟨hcross, hleft, hleft', hright, hright'⟩, hpart⟩
      dsimp only at hcross hleft hleft' hright hright' hpart
      have hids₂ : ∀ x ∈ s₂.a, ids x := fun x hx =>
        hids x (hs₁ ▸ hs₂.rearranged.perm.mem_iff.1 hx)
      have hhi₂ : hi < s₂.a.length := by rw [hs₂.length_eq, hs₁]; exact hhi
      -- the left part, sorted or too short to sort
      refine Holds.bind (P := fun _ s' => Within lo right s₂ s' ∧
        SortedOn lo right (fun x y => compare (record x) (record y) ≠ FOLLOWS) s'.a) ?_ ?_
      · split
        · exact ((QuickSort_safe app fuel lo right s₂ hlo (by omega) (by omega)
            (by omega)).yields (QuickSort_yields hc ht fuel lo right s₂ hids₂ hlo (by omega)
            (by omega) (by omega))).mono (fun _ _ h => ⟨h.1, h.2.2⟩) fun _ _ h => h
        · exact ⟨.refl s₂, SortedOn.of_le (by omega)⟩
      rintro - s₃ ⟨hs₃, hsorted⟩
      have hids₃ : ∀ x ∈ s₃.a, ids x := fun x hx => hids₂ x (hs₃.rearranged.perm.mem_iff.1 hx)
      have hhi₃ : hi < s₃.a.length := hs₃.length_eq ▸ hhi₂
      have hbelow₃ := hpart.below.rearranged hs₃.rearranged (.inl (by omega))
      have habove₃ := hpart.above.rearranged hs₃.rearranged (.inr (.inr (by omega)))
      have hjoin : ∀ x y, compare (record x) (record pivotIndex) ≠ FOLLOWS →
          compare (record y) (record pivotIndex) ≠ PRECEDES →
          compare (record x) (record y) ≠ FOLLOWS := by
        intro x y hx hy
        apply ht.trans _ _ _ hx
        exact fun h => hy ((ht.swap _ _).2 h)
      split
      · refine ((QuickSort_safe app fuel left hi s₃ (by omega) hhi₃ (by omega)
          (by omega)).yields (QuickSort_yields hc ht fuel left hi s₃ hids₃ (by omega) hhi₃
          (by omega) (by omega))).mono ?_ fun _ _ h => h
        rintro - s₄ ⟨hs₄, -, hsorted'⟩
        exact (hsorted.rearranged hs₄.rearranged (.inl (by omega))).join hsorted'
          (hbelow₃.rearranged hs₄.rearranged (.inr (.inl (by omega))))
          (habove₃.rearranged hs₄.rearranged (.inl (by omega))) hjoin
      · exact hsorted.join (SortedOn.of_le (by omega)) hbelow₃ habove₃ hjoin
    · exact SortedOn.of_le (by omega)

end

/-! ## The whole sort -/

/-- **`QuickSort` returns or passes on an exception of the application's.**  With any answers it
uses no index outside the segment and leaves a permutation of the array; with those of a total
preorder it returns, and the segment is sorted. -/
theorem QuickSort_sorts (app : Application σ ρ ε) (lowIndex highIndex : Int) (s : Sorting σ)
    (hlow : 0 ≤ lowIndex) (hhigh : highIndex < s.a.length) :
    ∃ result s',
      (∀ fuel, (highIndex - lowIndex + 3).toNat < fuel →
        QuickSort app fuel lowIndex highIndex s = (result, s')) ∧
      (result = .ok () ∨ ∃ e, result = .error (.thrown e)) ∧
      s'.a.Perm s.a ∧
      (∃ new, s'.indexed = new ++ s.indexed ∧ ∀ i ∈ new, lowIndex ≤ i ∧ i ≤ highIndex) ∧
      ∀ (record : Int → ρ) (compare : ρ → ρ → Int),
        Consistent app (· ∈ s.a) record compare → TotalPreorder compare →
        result = .ok () ∧
        SortedOn lowIndex highIndex (fun x y => compare (record x) (record y) ≠ FOLLOWS) s'.a := by
  have hsafe := QuickSort_safe app ((highIndex - lowIndex + 3).toNat + 1) lowIndex
    highIndex s hlow hhigh (by omega) (by omega)
  have hyields := fun (record : Int → ρ) (compare : ρ → ρ → Int)
      (hc : Consistent app (· ∈ s.a) record compare) (ht : TotalPreorder compare) =>
    QuickSort_yields hc ht ((highIndex - lowIndex + 3).toNat + 1) lowIndex
    highIndex s (fun _ h => h) hlow hhigh (by omega) (by omega)
  have hmore := fun fuel (h : (highIndex - lowIndex + 3).toNat < fuel) =>
    QuickSort_mono app lowIndex highIndex h s
  revert hsafe hyields hmore
  rcases QuickSort app ((highIndex - lowIndex + 3).toNat + 1) lowIndex highIndex s with ⟨result, s'⟩
  intro hsafe hyields hmore
  have hwithin : Within lowIndex highIndex s s' := by
    cases result with
    | ok _ => exact hsafe.1
    | error e => exact hsafe.1
  have hresult : result = .ok () ∨ ∃ e, result = .error (.thrown e) := by
    cases result with
    | ok _ => exact .inl rfl
    | error e =>
      obtain ⟨thrown, rfl⟩ := hsafe.2
      exact .inr ⟨thrown, rfl⟩
  refine ⟨result, s', fun fuel hfuel => hmore fuel hfuel ?_, hresult, hwithin.rearranged.perm,
    hwithin.indexed, fun record compare hc ht => ?_⟩
  · rcases hresult with rfl | ⟨e, rfl⟩ <;> nofun
  · have := hyields record compare hc ht
    cases result with
    | ok _ => exact ⟨rfl, this⟩
    | error e => exact this.elim

/-- Records whose data are their ids, in increasing order. -/
def compareIds (x y : Int) : Int := if x < y then PRECEDES else if y < x then FOLLOWS else 0

theorem compareIds_eq_precedes (x y : Int) : compareIds x y = PRECEDES ↔ x < y := by
  unfold compareIds PRECEDES FOLLOWS
  split_ifs with h h'
  · exact ⟨fun _ => h, fun _ => rfl⟩
  · exact ⟨nofun, fun hlt => absurd hlt h⟩
  · exact ⟨nofun, fun hlt => absurd hlt h⟩

theorem compareIds_eq_follows (x y : Int) : compareIds x y = FOLLOWS ↔ y < x := by
  unfold compareIds PRECEDES FOLLOWS
  split_ifs with h h'
  · exact ⟨nofun, fun hlt => by omega⟩
  · exact ⟨fun _ => h', fun _ => rfl⟩
  · exact ⟨nofun, fun hlt => absurd hlt h'⟩

theorem compareIds_totalPreorder : TotalPreorder compareIds where
  swap x y := by rw [compareIds_eq_precedes, compareIds_eq_follows]
  trans x y z := by
    simp only [ne_eq, compareIds_eq_follows, Int.not_lt]
    exact Int.le_trans

def byId : Application Unit Int Empty where
  getRecord recordId w := (.ok recordId, w)
  compare x y w := (.ok (compareIds x y), w)

theorem byId_consistent (ids : Int → Prop) : Consistent byId ids (fun x => x) compareIds :=
  ⟨fun _ _ _ => rfl, fun _ _ _ => rfl⟩

theorem QuickSort_sorts_byId :
    ∃ s', QuickSort byId 6 0 2 { a := [3, 1, 2], app := () } = (.ok (), s') ∧
      s'.a.Perm [3, 1, 2] ∧ (∀ i ∈ s'.indexed, 0 ≤ i ∧ i ≤ 2) ∧
      SortedOn 0 2 (fun x y : Int => compareIds x y ≠ FOLLOWS) s'.a := by
  obtain ⟨result, s', hrun, -, hperm, ⟨new, hnew, hin⟩, hsane⟩ :=
    QuickSort_sorts byId 0 2 { a := [3, 1, 2], app := () } (by decide) (by decide)
  obtain ⟨rfl, hsorted⟩ := hsane _ compareIds (byId_consistent _) compareIds_totalPreorder
  refine ⟨s', hrun 6 (by decide), hperm, ?_, hsorted⟩
  rw [hnew, List.append_nil]
  exact hin

end FroggyKVM.Rms
