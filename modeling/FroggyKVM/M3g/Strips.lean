/-
# FroggyKVM.M3g.Strips — index buffers, and the strip loop of `nRenderImmediate`.

A strip of `n` entries is `n - 2` triangles, each on three entries in a row, every second one with two
corners exchanged.  The loop finds the start of a strip by adding up the lengths before it, in `int`s
that the application chose; it tests the last entry of a triangle against the number of entries and each
vertex against the number of vertices, and never the start of a strip against zero.
-/
import FroggyKVM.M3g.Geometry
import FroggyKVM.M3g.Raster

namespace FroggyKVM.M3g

/-! ## Index buffers -/

/-- `OBJ_INDEX_BUFFER`. -/
structure IndexBuffer where
  indices : Option (Buffer Int) := none
  count : Int := 0
  strips : Option (Buffer Int) := none
  stripCount : Int := 0
  firstIndex : Int := 0

/-- A block with the elements of a Java array. -/
def copyInts (xs : List Int) : Buffer Int := ⟨xs.length, fun k => xs.getD k 0⟩

/-- `total` of `nCreateImplicit`. -/
def totalLength (strips : List Int) : Int := strips.foldl (fun total len => i32 (total + len)) 0

/-- `TriangleStripArray.nCreateImplicit`; the flags say whether the two allocations succeed. -/
def nCreateImplicit (okStrips okIndices : Bool) (firstIndex : Int) (strips : List Int) :
    Except RenderFault IndexBuffer :=
  let total := totalLength strips
  let ib : IndexBuffer :=
    if strips = [] then { firstIndex }
    else { strips := some (copyInts strips), stripCount := strips.length, firstIndex }
  -- the lengths are stored without a test of the pointer
  if strips ≠ [] ∧ !okStrips then .error .index
  else if total > 0 ∧ okIndices then
    if mallocWords total < total then .error .index
    else .ok { ib with
      indices := some ⟨total.toNat, fun i => i32 (firstIndex + (i : Nat))⟩
      count := total }
  else .ok ib

/-- `TriangleStripArray.nCreateExplicit`. -/
def nCreateExplicit (okIndices okStrips : Bool) (indices strips : List Int) : IndexBuffer :=
  let ib : IndexBuffer :=
    if indices ≠ [] ∧ okIndices then { indices := some (copyInts indices), count := indices.length }
    else {}
  if strips ≠ [] ∧ okStrips then
    { ib with
      strips := some (copyInts strips)
      stripCount := strips.length }
  else ib

/-- One element of an array of `int`s. -/
def readInt (b : Option (Buffer Int)) (k : Int) : Except RenderFault Int :=
  match b with
  | none => .error .index
  | some m => if 0 ≤ k then (m.get k.toNat).mapError fun _ => .index else .error .index

/-! ## The loop -/

variable {F S : Type} (draw : Vtx F → Vtx F → Vtx F → S → Except RenderFault S)

/-- `haveIdx`, with the buffer. -/
def usedIndices (ib : Option IndexBuffer) : Option IndexBuffer :=
  ib.filter fun ib => decide (ib.count > 0) && ib.indices.isSome

/-- `a`, `b` and `c` of the triangle at `pos`, or the end of the strip. -/
def triangleAt (idx : Option IndexBuffer) (pos : Int) : Except RenderFault (Option (Int × Int × Int)) :=
  match idx with
  | none => .ok (some (pos, i32 (pos + 1), i32 (pos + 2)))
  | some ib =>
    if i32 (pos + 2) ≥ ib.count then .ok none
    else do
      let a ← readInt ib.indices pos
      let b ← readInt ib.indices (i32 (pos + 1))
      let c ← readInt ib.indices (i32 (pos + 2))
      return some (a, b, c)

/-- `vtx[a]`. -/
def readVtx (vtx : List (Vtx F)) (a : Int) : Except RenderFault (Vtx F) :=
  match vtx[a.toNat]? with
  | some v => .ok v
  | none => .error .vertex

/-- The triangle number `t` of a strip. -/
def drawTriangle (vtx : List (Vtx F)) (a b c : Int) (t : Nat) (s : S) : Except RenderFault S := do
  let vcount : Int := vtx.length
  if a < 0 ∨ b < 0 ∨ c < 0 ∨ a ≥ vcount ∨ b ≥ vcount ∨ c ≥ vcount then return s
  let va ← readVtx vtx a
  let vb ← readVtx vtx b
  let vc ← readVtx vtx c
  if va.culled ∨ vb.culled ∨ vc.culled then return s
  if t % 2 = 1 then draw va vc vb s else draw va vb vc s

/-- The inner loop, from triangle `t` on with `n` more to come. -/
def drawStrip (idx : Option IndexBuffer) (vtx : List (Vtx F)) (idxPos : Int) :
    Nat → Nat → S → Except RenderFault S
  | 0, _, s => .ok s
  | n + 1, t, s => do
    match ← triangleAt idx (i32 (idxPos + t)) with
    | none => return s
    | some (a, b, c) =>
      let s ← drawTriangle draw vtx a b c t s
      drawStrip idx vtx idxPos n (t + 1) s

/-- `len`. -/
def stripLength (idx : Option IndexBuffer) (vcount idxPos : Int) (i : Nat) : Except RenderFault Int :=
  match idx with
  | none => .ok (i32 (vcount - idxPos))
  | some ib => if ib.stripCount > 0 then readInt ib.strips i else .ok (i32 (vcount - idxPos))

/-- The outer loop, from strip `i` on with `n` more to come. -/
def stripLoop (idx : Option IndexBuffer) (vtx : List (Vtx F)) :
    Nat → Nat → Int → S → Except RenderFault S
  | 0, _, _, s => .ok s
  | n + 1, i, idxPos, s => do
    let len ← stripLength idx vtx.length idxPos i
    if len < 3 then stripLoop idx vtx n (i + 1) (i32 (idxPos + len)) s
    else
      let s ← drawStrip draw idx vtx idxPos (len - 2).toNat 0 s
      stripLoop idx vtx n (i + 1) (i32 (idxPos + len)) s

/-- `stripCount`. -/
def stripCountOf (idx : Option IndexBuffer) : Nat :=
  match idx with
  | none => 1
  | some ib => if ib.stripCount > 0 then ib.stripCount.toNat else 1

/-- The part of `nRenderImmediate` that draws the strips. -/
def renderStrips (ib : Option IndexBuffer) (vtx : List (Vtx F)) (s : S) : Except RenderFault S :=
  let idx := usedIndices ib
  stripLoop draw idx vtx (stripCountOf idx) 0 0 s

/-! ## The strip decomposition -/

/-- The entries of an index array; without one, entry `k` is vertex `k`. -/
def entry (indices : List Int) (k : Int) : Option Int :=
  if indices = [] then some k else if 0 ≤ k then indices[k.toNat]? else none

/-- The lengths of the strips; without indices or without lengths, the vertices are one strip. -/
def lengthsUsed (indices strips : List Int) (vcount : Int) : List Int :=
  if indices = [] ∨ strips = [] then [vcount] else strips

/-- Each strip with its start, the sum of the lengths before it. -/
def startsFrom (start : Int) : List Int → List (Int × Int)
  | [] => []
  | len :: lens => (start, len) :: startsFrom (start + len) lens

/-- The entries of triangle `t` of a strip. -/
def stripTriangle (start : Int) (t : Nat) : Int × Int × Int :=
  if t % 2 = 1 then (start + t, start + t + 2, start + t + 1)
  else (start + t, start + t + 1, start + t + 2)

/-- The triangles of a strip, in order. -/
def stripTriangles (start len : Int) : List (Int × Int × Int) :=
  (List.range (len - 2).toNat).map (stripTriangle start)

/-- Vertex `a`, if it exists and is in front of the camera. -/
def shown (vtx : List (Vtx F)) (a : Int) : Option (Vtx F) :=
  if 0 ≤ a then (vtx[a.toNat]?).filter (!·.culled) else none

/-- The vertex of an entry. -/
def corner (indices : List Int) (vtx : List (Vtx F)) (k : Int) : Option (Vtx F) :=
  (entry indices k).bind (shown vtx)

/-- The corners of a triangle, if it has all three. -/
def corners (indices : List Int) (vtx : List (Vtx F)) (p : Int × Int × Int) :
    Option (Vtx F × Vtx F × Vtx F) := do
  let a ← corner indices vtx p.1
  let b ← corner indices vtx p.2.1
  let c ← corner indices vtx p.2.2
  return (a, b, c)

/-- **The triangles of all strips** whose entries and vertices exist and are in front of the camera. -/
def decomposition (indices strips : List Int) (vtx : List (Vtx F)) : List (Vtx F × Vtx F × Vtx F) :=
  (startsFrom 0 (lengthsUsed indices strips vtx.length)).flatMap fun (start, len) =>
    (stripTriangles start len).filterMap (corners indices vtx)

/-! ## What the constructors build -/

/-- The buffer holds these indices and these lengths. -/
structure IndexBuffer.Holds (ib : IndexBuffer) (indices strips : List Int) : Prop where
  count : ib.count = indices.length
  small : indices.length < 2147483648
  entries : ∀ k a, indices[k]? = some a → readInt ib.indices (k : Nat) = .ok a
  stripCount : ib.stripCount = strips.length
  lengths : ∀ i len, strips[i]? = some len → readInt ib.strips (i : Nat) = .ok len

theorem readInt_copyInts {xs : List Int} {k : Nat} {a : Int} (h : xs[k]? = some a) :
    readInt (some (copyInts xs)) k = .ok a := by
  obtain ⟨hlt, hget⟩ := List.getElem?_eq_some_iff.1 h
  unfold readInt
  dsimp only
  rw [if_pos (Int.natCast_nonneg k), Int.toNat_natCast, Buffer.get_ok (b := copyInts xs) hlt]
  show Except.ok (xs.getD k 0) = _
  rw [List.getD_eq_getElem?_getD, h]
  rfl

/-- `nCreateExplicit` keeps both arrays. -/
theorem nCreateExplicit_holds {indices : List Int} (hsmall : indices.length < 2147483648)
    (strips : List Int) : (nCreateExplicit true true indices strips).Holds indices strips := by
  unfold nCreateExplicit
  cases indices with
  | nil =>
    cases strips with
    | nil => exact ⟨rfl, hsmall, fun _ _ h => (nomatch h), rfl, fun _ _ h => (nomatch h)⟩
    | cons len lens =>
      exact ⟨rfl, hsmall, fun _ _ h => (nomatch h), rfl, fun _ _ h => readInt_copyInts h⟩
  | cons a rest =>
    cases strips with
    | nil => exact ⟨rfl, hsmall, fun _ _ h => readInt_copyInts h, rfl, fun _ _ h => (nomatch h)⟩
    | cons len lens =>
      exact ⟨rfl, hsmall, fun _ _ h => readInt_copyInts h, rfl, fun _ _ h => readInt_copyInts h⟩

/-- The indices that `nCreateImplicit` makes up. -/
def implicitIndices (firstIndex : Int) (strips : List Int) : List Int :=
  (List.range (totalLength strips).toNat).map fun i => i32 (firstIndex + (i : Nat))

/-- `nCreateImplicit` makes the indices up, where they fit the block it asks for. -/
theorem nCreateImplicit_holds (firstIndex : Int) {strips : List Int}
    (hfits : totalLength strips < 1073741824) :
    Succeeds (nCreateImplicit true true firstIndex strips) fun ib =>
      ib.Holds (implicitIndices firstIndex strips) strips := by
  have hlengths : ∀ i len, strips[i]? = some len →
      strips ≠ [] ∧ readInt (some (copyInts strips)) (i : Nat) = .ok len := by
    intro i len h
    refine ⟨?_, readInt_copyInts h⟩
    rintro rfl
    cases h
  unfold nCreateImplicit
  dsimp only
  rw [if_neg (by simp)]
  by_cases hpos : totalLength strips > 0
  · rw [if_pos ⟨hpos, rfl⟩, mallocWords_of_lt hpos.le (by omega), if_neg (lt_irrefl _)]
    refine Succeeds.ok ⟨?_, ?_, ?_, ?_, ?_⟩
    · simp [implicitIndices, hpos.le]
    · simp only [implicitIndices, List.length_map, List.length_range]
      omega
    · intro k a h
      obtain ⟨hlt, hget⟩ := List.getElem?_eq_some_iff.1 h
      simp only [implicitIndices, List.length_map, List.length_range] at hlt
      simp only [implicitIndices, List.getElem_map, List.getElem_range] at hget
      unfold readInt
      dsimp only
      rw [if_pos (Int.natCast_nonneg k), Int.toNat_natCast, Buffer.get_ok (by exact hlt), ← hget]
      rfl
    · cases strips <;> rfl
    · intro i len h
      obtain ⟨hne, hread⟩ := hlengths i len h
      rw [if_neg hne]
      exact hread
  · have hnone : implicitIndices firstIndex strips = [] := by
      unfold implicitIndices
      rw [Int.toNat_eq_zero.2 (by omega)]
      rfl
    rw [if_neg (fun h => hpos h.1), hnone]
    refine Succeeds.ok ⟨?_, by decide, fun _ _ h => (nomatch h), ?_, ?_⟩
    · cases strips <;> rfl
    · cases strips <;> rfl
    · intro i len h
      obtain ⟨hne, hread⟩ := hlengths i len h
      rw [if_neg hne]
      exact hread

/-! ## One triangle -/

theorem shown_eq_some {vtx : List (Vtx F)} {a : Int} {v : Vtx F} (h : shown vtx a = some v) :
    (0 ≤ a ∧ a < vtx.length) ∧ readVtx vtx a = .ok v ∧ v.culled = false := by
  unfold shown at h
  split at h
  · next h₀ =>
    obtain ⟨hv, hculled⟩ := Option.filter_eq_some_iff.1 h
    obtain ⟨hlt, -⟩ := List.getElem?_eq_some_iff.1 hv
    refine ⟨⟨h₀, by omega⟩, ?_, by simpa using hculled⟩
    unfold readVtx
    rw [hv]
  · cases h

/-- A vertex that exists is read, and is shown unless it is culled. -/
theorem readVtx_ok (vtx : List (Vtx F)) (a : Int) (h : 0 ≤ a ∧ a < vtx.length) :
    ∃ v, readVtx vtx a = .ok v ∧ (v.culled = false → shown vtx a = some v) := by
  have hlt : a.toNat < vtx.length := by omega
  have hv : vtx[a.toNat]? = some vtx[a.toNat] := List.getElem?_eq_getElem hlt
  refine ⟨vtx[a.toNat], ?_, fun hculled => ?_⟩
  · unfold readVtx
    rw [hv]
  · unfold shown
    rw [if_pos h.1, hv]
    exact Option.filter_eq_some_iff.2 ⟨rfl, by simp [hculled]⟩

theorem drawTriangle_shown {vtx : List (Vtx F)} {a b c : Int} {va vb vc : Vtx F}
    (ha : shown vtx a = some va) (hb : shown vtx b = some vb) (hc : shown vtx c = some vc) (t : Nat)
    (s : S) :
    drawTriangle draw vtx a b c t s = if t % 2 = 1 then draw va vc vb s else draw va vb vc s := by
  obtain ⟨hain, hva, haf⟩ := shown_eq_some ha
  obtain ⟨hbin, hvb, hbf⟩ := shown_eq_some hb
  obtain ⟨hcin, hvc, hcf⟩ := shown_eq_some hc
  unfold drawTriangle
  rw [if_neg (by omega), hva, ok_bind, hvb, ok_bind, hvc, ok_bind,
    if_neg (by simp [haf, hbf, hcf])]

theorem drawTriangle_skipped {vtx : List (Vtx F)} {a b c : Int}
    (h : shown vtx a = none ∨ shown vtx b = none ∨ shown vtx c = none) (t : Nat) (s : S) :
    drawTriangle draw vtx a b c t s = .ok s := by
  unfold drawTriangle
  dsimp only
  split
  · rfl
  · next hin =>
    obtain ⟨va, hva, hshowna⟩ := readVtx_ok vtx a (by omega)
    obtain ⟨vb, hvb, hshownb⟩ := readVtx_ok vtx b (by omega)
    obtain ⟨vc, hvc, hshownc⟩ := readVtx_ok vtx c (by omega)
    rw [hva, ok_bind, hvb, ok_bind, hvc, ok_bind, if_pos ?_]
    · rfl
    · -- in range, so one of the three is behind the camera
      by_contra hfront
      push Not at hfront
      simp only [ne_eq, Bool.not_eq_true] at hfront
      rw [hshowna hfront.1, hshownb hfront.2.1, hshownc hfront.2.2] at h
      simp at h

/-- Draw the triangle of three corners. -/
def drawCorners (s : S) (p : Vtx F × Vtx F × Vtx F) : Except RenderFault S := draw p.1 p.2.1 p.2.2 s

/-- **A triangle is drawn exactly when it has three corners**, and in the order of its strip. -/
theorem drawTriangle_corners {indices : List Int} {vtx : List (Vtx F)} {start a b c : Int} {t : Nat}
    (ha : entry indices (start + t) = some a) (hb : entry indices (start + t + 1) = some b)
    (hc : entry indices (start + t + 2) = some c) (s : S) :
    drawTriangle draw vtx a b c t s =
      (corners indices vtx (stripTriangle start t)).elim (.ok s) (drawCorners draw s) := by
  have hka : corner indices vtx (start + t) = shown vtx a := by rw [corner, ha, Option.bind_some]
  have hkb : corner indices vtx (start + t + 1) = shown vtx b := by rw [corner, hb, Option.bind_some]
  have hkc : corner indices vtx (start + t + 2) = shown vtx c := by rw [corner, hc, Option.bind_some]
  unfold corners stripTriangle
  cases hva : shown vtx a with
  | none =>
    rw [drawTriangle_skipped draw (.inl hva)]
    split_ifs <;> simp [hka, hva]
  | some va =>
    cases hvb : shown vtx b with
    | none =>
      rw [drawTriangle_skipped draw (.inr (.inl hvb))]
      split_ifs <;> simp [hkb, hvb]
    | some vb =>
      cases hvc : shown vtx c with
      | none =>
        rw [drawTriangle_skipped draw (.inr (.inr hvc))]
        split_ifs <;> simp [hkc, hvc]
      | some vc =>
        rw [drawTriangle_shown draw hva hvb hvc]
        split_ifs <;> simp [hka, hkb, hkc, hva, hvb, hvc, drawCorners]

/-! ## One strip -/

/-- The indices that the loop uses. -/
theorem usedIndices_eq {ib : IndexBuffer} {indices strips : List Int} (hib : ib.Holds indices strips) :
    usedIndices (some ib) = if indices = [] then none else some ib := by
  unfold usedIndices
  cases indices with
  | nil =>
    have hcount : ib.count = 0 := hib.count
    simp [hcount]
  | cons a rest =>
    have hcount : ib.count > 0 := by
      rw [hib.count]
      exact Int.natCast_pos.2 (Nat.succ_pos _)
    have hread := hib.entries 0 a rfl
    cases hindices : ib.indices with
    | none =>
      rw [hindices] at hread
      cases hread
    | some m => simp [hcount, hindices]

/-- What the loop reads for a triangle whose last entry exists. -/
theorem triangleAt_indexed {ib : IndexBuffer} {indices strips : List Int}
    (hib : ib.Holds indices strips) (hne : indices ≠ []) {pos : Int} (h₀ : 0 ≤ pos)
    (hlast : pos + 2 < indices.length) :
    ∃ a b c, triangleAt (some ib) pos = .ok (some (a, b, c)) ∧ entry indices pos = some a ∧
      entry indices (pos + 1) = some b ∧ entry indices (pos + 2) = some c := by
  have hsmall := hib.small
  have hread : ∀ k : Int, 0 ≤ k → k < indices.length →
      ∃ a, readInt ib.indices k = .ok a ∧ entry indices k = some a := by
    intro k hk hlt
    obtain ⟨a, ha⟩ : ∃ a, indices[k.toNat]? = some a :=
      ⟨_, List.getElem?_eq_getElem (by omega)⟩
    refine ⟨a, ?_, ?_⟩
    · have := hib.entries k.toNat a ha
      rwa [Int.toNat_of_nonneg hk] at this
    · unfold entry
      rw [if_neg hne, if_pos hk, ha]
  obtain ⟨a, hra, hea⟩ := hread pos h₀ (by omega)
  obtain ⟨b, hrb, heb⟩ := hread (pos + 1) (by omega) (by omega)
  obtain ⟨c, hrc, hec⟩ := hread (pos + 2) (by omega) hlast
  refine ⟨a, b, c, ?_, hea, heb, hec⟩
  show (if i32 (pos + 2) ≥ ib.count then _ else _) = _
  rw [i32_of_range (x := pos + 2) (by omega), i32_of_range (x := pos + 1) (by omega), hib.count,
    if_neg (by omega), hra, ok_bind, hrb, ok_bind, hrc, ok_bind]
  rfl

/-- Behind the last entry there is no triangle. -/
theorem corners_beyond {indices : List Int} (hne : indices ≠ []) (vtx : List (Vtx F)) {start : Int}
    {t : Nat} (h : (indices.length : Int) ≤ start + t + 2) :
    corners indices vtx (stripTriangle start t) = none := by
  have hentry : entry indices (start + t + 2) = none := by
    unfold entry
    rw [if_neg hne]
    split
    · exact List.getElem?_eq_none (by omega)
    · rfl
  have hcorner : corner indices vtx (start + t + 2) = none := by
    rw [corner, hentry, Option.bind_none]
  unfold corners stripTriangle
  split_ifs
  · rw [hcorner]
    cases corner indices vtx (start + t) <;> rfl
  · rw [hcorner]
    cases corner indices vtx (start + t) with
    | none => rfl
    | some va => cases corner indices vtx (start + t + 1) <;> rfl

/-- The triangles of a strip from number `t` on. -/
def trianglesFrom (indices : List Int) (vtx : List (Vtx F)) (start : Int) (t n : Nat) :
    List (Vtx F × Vtx F × Vtx F) :=
  ((List.range' t n).map (stripTriangle start)).filterMap (corners indices vtx)

theorem trianglesFrom_succ (indices : List Int) (vtx : List (Vtx F)) (start : Int) (t n : Nat) :
    trianglesFrom indices vtx start t (n + 1) =
      (corners indices vtx (stripTriangle start t)).toList ++
        trianglesFrom indices vtx start (t + 1) n := by
  unfold trianglesFrom
  rw [List.range'_succ, List.map_cons, List.filterMap_cons]
  cases corners indices vtx (stripTriangle start t) <;> rfl

/-- One triangle, and then the rest of the strip. -/
theorem foldlM_trianglesFrom_succ (indices : List Int) (vtx : List (Vtx F)) (start : Int) (t n : Nat)
    (s : S) :
    (trianglesFrom indices vtx start t (n + 1)).foldlM (drawCorners draw) s =
      (corners indices vtx (stripTriangle start t)).elim (.ok s) (drawCorners draw s) >>=
        (trianglesFrom indices vtx start (t + 1) n).foldlM (drawCorners draw) := by
  rw [trianglesFrom_succ, List.foldlM_append]
  cases corners indices vtx (stripTriangle start t) with
  | none => rfl
  | some p =>
    rw [Option.toList_some, List.foldlM_cons, Option.elim_some]
    simp only [List.foldlM_nil, bind_pure]

theorem trianglesFrom_beyond {indices : List Int} (hne : indices ≠ []) (vtx : List (Vtx F))
    {start : Int} :
    ∀ {t n : Nat}, (indices.length : Int) ≤ start + t + 2 → trianglesFrom indices vtx start t n = []
  | _, 0, _ => rfl
  | t, n + 1, h => by
    rw [trianglesFrom_succ, corners_beyond hne vtx h, trianglesFrom_beyond hne vtx (by omega)]
    rfl

/-- **A strip with indices** draws its triangles as far as there are entries. -/
theorem drawStrip_indexed {ib : IndexBuffer} {indices strips : List Int}
    (hib : ib.Holds indices strips) (hne : indices ≠ []) (vtx : List (Vtx F)) {start : Int}
    (h₀ : 0 ≤ start) :
    ∀ (n t : Nat), start + t + 2 < 2147483648 → ∀ s : S,
      drawStrip draw (some ib) vtx start n t s =
        (trianglesFrom indices vtx start t n).foldlM (drawCorners draw) s
  | 0, _, _, _ => rfl
  | n + 1, t, hroom, s => by
    have hsmall := hib.small
    unfold drawStrip
    rw [i32_of_range (by omega)]
    by_cases hlast : start + t + 2 < indices.length
    · obtain ⟨a, b, c, hread, ha, hb, hc⟩ := triangleAt_indexed hib hne (by omega) hlast
      rw [hread, ok_bind, foldlM_trianglesFrom_succ]
      dsimp only
      rw [drawTriangle_corners draw ha hb hc]
      -- the next triangle still ends before the largest index
      exact bind_congr fun s₁ => drawStrip_indexed hib hne vtx h₀ n (t + 1) (by omega) s₁
    · have hbreak : triangleAt (some ib) (start + t) = .ok none := by
        show (if i32 (start + t + 2) ≥ ib.count then _ else _) = _
        rw [i32_of_range (by omega), hib.count, if_pos (by omega)]
      rw [hbreak, trianglesFrom_beyond hne vtx (by omega)]
      rfl

/-- **A strip without indices** draws the vertices in order. -/
theorem drawStrip_plain (vtx : List (Vtx F)) :
    ∀ (n t : Nat), t + n + 2 < 2147483648 → ∀ s : S,
      drawStrip draw none vtx 0 n t s = (trianglesFrom [] vtx 0 t n).foldlM (drawCorners draw) s
  | 0, _, _, _ => rfl
  | n + 1, t, hroom, s => by
    have hentry (k : Int) : entry [] k = some k := rfl
    unfold drawStrip triangleAt
    rw [i32_of_range (by omega), ok_bind, foldlM_trianglesFrom_succ]
    dsimp only
    rw [i32_of_range (by omega), i32_of_range (by omega),
      drawTriangle_corners draw (hentry _) (hentry _) (hentry _)]
    exact bind_congr fun s₁ => drawStrip_plain vtx n (t + 1) (by omega) s₁

/-! ## All strips -/

/-- The strips that are drawn start where an `int` can say. -/
def StartsFit (start : Int) (lens : List Int) : Prop :=
  ∀ p ∈ startsFrom start lens, 3 ≤ p.2 → 0 ≤ p.1 ∧ p.1 + 2 < 2147483648

/-- The triangles of strips, the first of which begins at `start`. -/
def trianglesOf (indices : List Int) (vtx : List (Vtx F)) (start : Int) (lens : List Int) :
    List (Vtx F × Vtx F × Vtx F) :=
  (startsFrom start lens).flatMap fun (start, len) =>
    (stripTriangles start len).filterMap (corners indices vtx)

theorem stripTriangles_eq (indices : List Int) (vtx : List (Vtx F)) (start len : Int) :
    (stripTriangles start len).filterMap (corners indices vtx) =
      trianglesFrom indices vtx start 0 (len - 2).toNat := by
  unfold stripTriangles trianglesFrom
  rw [List.range_eq_range']

/-- One strip, and then the others. -/
theorem foldlM_trianglesOf_cons (indices : List Int) (vtx : List (Vtx F)) (start len : Int)
    (lens : List Int) (s : S) :
    (trianglesOf indices vtx start (len :: lens)).foldlM (drawCorners draw) s =
      (trianglesFrom indices vtx start 0 (len - 2).toNat).foldlM (drawCorners draw) s >>=
        (trianglesOf indices vtx (start + len) lens).foldlM (drawCorners draw) := by
  rw [← stripTriangles_eq, ← List.foldlM_append]
  rfl

/-- The strips of an index buffer with indices and lengths, from strip `i` on. -/
theorem stripLoop_indexed {ib : IndexBuffer} {indices strips : List Int}
    (hib : ib.Holds indices strips) (hne : indices ≠ []) (hstrips : strips ≠ [])
    (vtx : List (Vtx F)) :
    ∀ (lens : List Int) (i : Nat) (start : Int), strips.drop i = lens → StartsFit start lens →
      ∀ s : S, stripLoop draw (some ib) vtx lens.length i (i32 start) s =
        (trianglesOf indices vtx start lens).foldlM (drawCorners draw) s
  | [], _, _, _, _, _ => rfl
  | len :: lens, i, start, hdrop, hfit, s => by
    have hlen : strips[i]? = some len := by
      rw [← List.head?_drop, hdrop]
      rfl
    have hrest : strips.drop (i + 1) = lens := by
      rw [← List.tail_drop, hdrop]
      rfl
    have hfit' : StartsFit (start + len) lens := fun p hp => hfit p (List.mem_cons_of_mem _ hp)
    have hcount : ib.stripCount > 0 := by
      rw [hib.stripCount]
      exact Int.natCast_pos.2 (List.length_pos_of_ne_nil hstrips)
    have hnext := stripLoop_indexed hib hne hstrips vtx lens (i + 1) (start + len) hrest hfit'
    rw [List.length_cons, foldlM_trianglesOf_cons]
    unfold stripLoop stripLength
    dsimp only
    rw [if_pos hcount, hib.lengths i len hlen, ok_bind, i32_i32_add]
    by_cases hshort : len < 3
    · have hnone : (len - 2).toNat = 0 := by omega
      rw [if_pos hshort, hnext, hnone]
      rfl
    · obtain ⟨h₀, hroom⟩ := hfit (start, len) List.mem_cons_self (by omega)
      have hstart : i32 start = start := i32_of_range (by omega)
      rw [if_neg hshort, hstart, drawStrip_indexed draw hib hne vtx h₀ _ 0 (by omega)]
      exact bind_congr hnext

/-- One strip of all vertices, with or without indices. -/
theorem stripLoop_single {idx : Option IndexBuffer} {indices : List Int} {vtx : List (Vtx F)}
    (hsmall : vtx.length < 2147483648)
    (hlen : stripLength idx vtx.length 0 0 = .ok (i32 ((vtx.length : Int) - 0)))
    (hstrip : ∀ s : S, drawStrip draw idx vtx 0 ((vtx.length : Int) - 2).toNat 0 s =
      (trianglesFrom indices vtx 0 0 ((vtx.length : Int) - 2).toNat).foldlM (drawCorners draw) s)
    (s : S) :
    stripLoop draw idx vtx 1 0 0 s =
      (trianglesOf indices vtx 0 [(vtx.length : Int)]).foldlM (drawCorners draw) s := by
  have hcount : i32 ((vtx.length : Int) - 0) = vtx.length := by
    rw [Int.sub_zero]
    exact i32_of_range (by omega)
  unfold stripLoop
  rw [hlen, ok_bind, hcount, foldlM_trianglesOf_cons]
  by_cases hshort : (vtx.length : Int) < 3
  · have hnone : ((vtx.length : Int) - 2).toNat = 0 := by omega
    rw [if_pos hshort, hnone]
    rfl
  · rw [if_neg hshort, hstrip]
    rfl

/-- **The strip loop draws the strip decomposition**, triangle by triangle. -/
theorem renderStrips_eq {ib : IndexBuffer} {indices strips : List Int}
    (hib : ib.Holds indices strips) {vtx : List (Vtx F)} (hsmall : vtx.length < 2147483648)
    (hfit : StartsFit 0 strips) (s : S) :
    renderStrips draw (some ib) vtx s =
      (decomposition indices strips vtx).foldlM (drawCorners draw) s := by
  show _ = (trianglesOf indices vtx 0 (lengthsUsed indices strips vtx.length)).foldlM _ s
  unfold renderStrips lengthsUsed
  rw [usedIndices_eq hib]
  by_cases hne : indices = []
  · subst hne
    rw [if_pos rfl, if_pos (.inl rfl)]
    exact stripLoop_single draw hsmall rfl (drawStrip_plain draw vtx _ 0 (by omega)) s
  · rw [if_neg hne]
    cases strips with
    | nil =>
      have hcount : ¬ ib.stripCount > 0 := by
        rw [hib.stripCount]
        decide
      have hone : stripCountOf (some ib) = 1 := if_neg hcount
      rw [if_pos (.inr rfl)]
      dsimp only
      rw [hone]
      have hlen : stripLength (some ib) vtx.length 0 0 = .ok (i32 ((vtx.length : Int) - 0)) :=
        if_neg hcount
      refine stripLoop_single draw hsmall hlen ?_ s
      exact drawStrip_indexed draw hib hne vtx (le_refl 0) _ 0 (by decide)
    | cons len lens =>
      have hcount : ib.stripCount > 0 := by
        rw [hib.stripCount]
        exact Int.natCast_pos.2 (Nat.succ_pos _)
      have hstrips : len :: lens ≠ [] := List.cons_ne_nil _ _
      have hlength : stripCountOf (some ib) = (len :: lens).length := by
        refine (if_pos hcount).trans ?_
        rw [hib.stripCount]
        rfl
      rw [if_neg (by simp [hne])]
      dsimp only
      rw [hlength]
      exact stripLoop_indexed draw hib hne hstrips vtx _ 0 0 rfl hfit s

/-! ## What drawing keeps, the loop keeps -/

section Keeps

variable {I : S → Prop} {E : RenderFault → Prop}

theorem readInt_ends (hindex : E .index) (b : Option (Buffer Int)) (k : Int) :
    Ends (readInt b k) E fun _ => True := by
  unfold readInt
  cases b with
  | none => exact hindex
  | some m =>
    dsimp only
    split
    · cases m.get k.toNat with
      | ok a => exact trivial
      | error e => exact hindex
    · exact hindex

theorem readVtx_ends (hvertex : E .vertex) (vtx : List (Vtx F)) (a : Int) :
    Ends (readVtx vtx a) E fun _ => True := by
  unfold readVtx
  cases vtx[a.toNat]? with
  | none => exact hvertex
  | some v => exact trivial

theorem triangleAt_ends (hindex : E .index) (idx : Option IndexBuffer) (pos : Int) :
    Ends (triangleAt idx pos) E fun _ => True := by
  unfold triangleAt
  cases idx with
  | none => exact trivial
  | some ib =>
    dsimp only
    split
    · exact trivial
    · refine (readInt_ends hindex _ _).bind fun a _ => ?_
      refine (readInt_ends hindex _ _).bind fun b _ => ?_
      exact (readInt_ends hindex _ _).bind fun c _ => trivial

theorem stripLength_ends (hindex : E .index) (idx : Option IndexBuffer) (vcount idxPos : Int) (i : Nat) :
    Ends (stripLength idx vcount idxPos i) E fun _ => True := by
  unfold stripLength
  cases idx with
  | none => exact trivial
  | some ib =>
    dsimp only
    split
    · exact readInt_ends hindex _ _
    · exact trivial

variable (hdraw : ∀ a b c s, I s → Ends (draw a b c s) E I)

include hdraw

theorem drawTriangle_ends (hvertex : E .vertex) (vtx : List (Vtx F)) (a b c : Int) (t : Nat) {s : S}
    (hs : I s) : Ends (drawTriangle draw vtx a b c t s) E I := by
  unfold drawTriangle
  dsimp only
  split
  · exact hs
  · refine (readVtx_ends hvertex vtx a).bind fun va _ => ?_
    refine (readVtx_ends hvertex vtx b).bind fun vb _ => ?_
    refine (readVtx_ends hvertex vtx c).bind fun vc _ => ?_
    split
    · exact hs
    · split
      · exact hdraw va vc vb s hs
      · exact hdraw va vb vc s hs

theorem drawStrip_ends (hindex : E .index) (hvertex : E .vertex) (idx : Option IndexBuffer)
    (vtx : List (Vtx F)) (idxPos : Int) :
    ∀ (n t : Nat) {s : S}, I s → Ends (drawStrip draw idx vtx idxPos n t s) E I
  | 0, _, _, hs => hs
  | n + 1, t, s, hs => by
    unfold drawStrip
    refine (triangleAt_ends hindex idx _).bind fun triangle _ => ?_
    cases triangle with
    | none => exact hs
    | some p =>
      refine (drawTriangle_ends draw hdraw hvertex vtx _ _ _ t hs).bind fun s₁ hs₁ => ?_
      exact drawStrip_ends hindex hvertex idx vtx idxPos n (t + 1) hs₁

theorem stripLoop_ends (hindex : E .index) (hvertex : E .vertex) (idx : Option IndexBuffer)
    (vtx : List (Vtx F)) :
    ∀ (n i : Nat) (idxPos : Int) {s : S}, I s → Ends (stripLoop draw idx vtx n i idxPos s) E I
  | 0, _, _, _, hs => hs
  | n + 1, i, idxPos, s, hs => by
    unfold stripLoop
    refine (stripLength_ends hindex idx _ idxPos i).bind fun len _ => ?_
    split
    · exact stripLoop_ends hindex hvertex idx vtx n (i + 1) _ hs
    · refine (drawStrip_ends draw hdraw hindex hvertex idx vtx idxPos _ 0 hs).bind fun s₁ hs₁ => ?_
      exact stripLoop_ends hindex hvertex idx vtx n (i + 1) _ hs₁

end Keeps

end FroggyKVM.M3g
