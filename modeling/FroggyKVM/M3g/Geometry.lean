/-
# FroggyKVM.M3g.Geometry — vertex arrays, and how rendering reads them (`VertexArray`, `m3g_gather_*`).

An array has a number of vertices and of components, both any `int`; its block is allocated at the first
`nSetShort`.  Rendering gathers three shorts of each vertex for the position and two for the texture, and
it steps by at least that many components where the array has fewer.
-/
import FroggyKVM.M3g.Target

namespace FroggyKVM.M3g

/-- An access outside an index array, outside the vertex data, or outside the target. -/
inductive RenderFault where
  | index
  | vertex
  | pixel
  deriving DecidableEq, Repr

/-- `OBJ_VERTEX_ARRAY`, as far as drawing reads it. -/
structure VertexArray where
  numVertices : Int
  numComponents : Int
  /-- the shorts; `none` is a null pointer -/
  sh : Option (Buffer Int)

namespace VertexArray

/-- `nc`. -/
def components (va : VertexArray) : Int := if va.numComponents > 0 then va.numComponents else 1

/-- `total`. -/
def total (va : VertexArray) : Int := i32 (va.numVertices * va.components)

/-- `VertexArray.nCreate`. -/
def nCreate (numVertices numComponents : Int) : VertexArray := ⟨numVertices, numComponents, none⟩

/-- One element of the loop of `nSetShort`. -/
def storeShort (total : Int) (m : Buffer Int) (idx value : Int) : Except RenderFault (Buffer Int) :=
  if 0 ≤ idx ∧ idx < total then (m.set idx.toNat value).mapError fun _ => .vertex else .ok m

/-- `VertexArray.nSetShort`; `ok` says whether an allocation succeeds. -/
def nSetShort (ok : Bool) (firstVertex numVertices : Int) (data : List Int) (va : VertexArray) :
    Except RenderFault VertexArray :=
  let size := if va.total > 0 then va.total.toNat else 1
  match va.sh.or (if ok then some ⟨size, fun _ => 0⟩ else none) with
  | none => .ok va
  | some m =>
    let copy := i32 (numVertices * va.components)
    let start := i32 (firstVertex * va.components)
    let source := data.take copy.toNat
    (fun m => { va with sh := some m }) <$>
      source.zipIdx.foldlM (fun m (value, i) => storeShort va.total m (i32 (start + i)) value) m

/-- The block has the size that `nSetShort` asked for. -/
def Made (va : VertexArray) : Prop :=
  ∀ m, va.sh = some m → m.length = if va.total > 0 then va.total.toNat else 1

theorem made_nCreate (numVertices numComponents : Int) : (nCreate numVertices numComponents).Made :=
  fun _ h => nomatch h

theorem storeShort_ok {total : Int} {m : Buffer Int}
    (hm : m.length = if total > 0 then total.toNat else 1) (idx value : Int) :
    Succeeds (storeShort total m idx value) fun m' => m'.length = m.length := by
  unfold storeShort
  split
  · next h =>
    rw [if_pos (by omega)] at hm
    rw [Buffer.set_ok (by omega)]
    exact Succeeds.ok rfl
  · exact Succeeds.ok rfl

/-- **The setters stay inside the block** and keep its size. -/
theorem nSetShort_ok {va : VertexArray} (hva : va.Made) (ok : Bool) (firstVertex numVertices : Int)
    (data : List Int) :
    Succeeds (va.nSetShort ok firstVertex numVertices data) fun va' =>
      va'.Made ∧ va'.numVertices = va.numVertices ∧ va'.numComponents = va.numComponents := by
  unfold nSetShort
  dsimp only
  split
  · exact Succeeds.ok ⟨hva, rfl, rfl⟩
  · next m hm =>
    have hsize : m.length = if va.total > 0 then va.total.toNat else 1 := by
      cases hsh : va.sh with
      | some m' =>
        rw [hsh, Option.some_or] at hm
        obtain rfl := Option.some.inj hm
        exact hva m' hsh
      | none =>
        rw [hsh, Option.none_or] at hm
        split at hm
        · obtain rfl := Option.some.inj hm
          rfl
        · cases hm
    have hloop : ∀ (l : List (Int × Nat)) (m : Buffer Int),
        (m.length = if va.total > 0 then va.total.toNat else 1) →
        Succeeds (l.foldlM (fun m (value, i) => storeShort va.total m
          (i32 (i32 (firstVertex * va.components) + i)) value) m) fun m' => m'.length = m.length := by
      intro l m hm
      refine Succeeds.foldlM (fun m₁ a h₁ => ?_) l rfl
      exact (storeShort_ok (h₁.trans hm) _ _).mono fun m₂ h₂ => h₂.trans h₁
    obtain ⟨m', hrun, hlen⟩ := hloop _ m hsize
    rw [hrun]
    refine Succeeds.ok ⟨?_, rfl, rfl⟩
    intro m'' hm''
    obtain rfl := Option.some.inj hm''
    exact hlen.trans hsize

end VertexArray

/-! ## Gathering -/

variable {F : Type} (ops : FloatOps F)

/-- `malloc` of 32-bit words: how many of the `words` it is asked for fit the block it returns. -/
def mallocWords (words : Int) : Int := words * 4 % 4294967296 / 4

/-- One element of an array of shorts. -/
def readShort (m : Buffer Int) (k : Int) : Except RenderFault Int :=
  (m.get (k % 4294967296).toNat).mapError fun _ => .vertex

/-- A short, scaled and moved. -/
def scaled (sh : Int) (scale bias : F) : F := ops.add (ops.mul (ops.ofInt sh) scale) bias

/-- How an application maps the shorts to coordinates. -/
structure Mapping (F : Type) where
  scale : F
  bias0 : F
  bias1 : F
  bias2 : F

/-- `m3g_gather_positions`: the list is empty where the source returns 0.  `ok` says whether the
allocation succeeds. -/
def gatherPositions (ok : Bool) (va : Option VertexArray) (map : Mapping F) :
    Except RenderFault (List (F × F × F)) :=
  match va.bind fun va => va.sh.map (va, ·) with
  | none => .ok []
  | some (va, sh) =>
    let stride := if va.numComponents < 3 then 3 else va.numComponents
    if va.numVertices ≤ 0 ∨ !ok then .ok []
    else if mallocWords (va.numVertices * 3) < va.numVertices * 3 then .error .vertex
    else (List.range va.numVertices.toNat).mapM fun (i : Nat) => do
      let x ← readShort sh (i * stride)
      let y ← readShort sh (i * stride + 1)
      let z ← readShort sh (i * stride + 2)
      return (scaled ops x map.scale map.bias0, scaled ops y map.scale map.bias1,
        scaled ops z map.scale map.bias2)

/-- `m3g_gather_texcoords`. -/
def gatherTexcoords (ok : Bool) (va : Option VertexArray) (map : Mapping F) :
    Except RenderFault (List (F × F)) :=
  match va.bind fun va => va.sh.map (va, ·) with
  | none => .ok []
  | some (va, sh) =>
    let stride := if va.numComponents < 2 then 1 else va.numComponents
    if va.numVertices ≤ 0 ∨ !ok then .ok []
    else if mallocWords (va.numVertices * 2) < va.numVertices * 2 then .error .vertex
    else (List.range va.numVertices.toNat).mapM fun (i : Nat) => do
      let u ← readShort sh (i * stride)
      let v ← readShort sh (i * stride + 1)
      return (scaled ops u map.scale map.bias0, scaled ops v map.scale map.bias1)

/-- The array has at least `n` components for each vertex, and its sizes are computed without
overflow. -/
structure VertexArray.Holds (va : VertexArray) (n : Int) : Prop where
  made : va.Made
  components : n ≤ va.numComponents
  total : va.numVertices * va.numComponents < 2147483648
  gathered : va.numVertices * n * 4 < 4294967296

theorem readShort_ok {va : VertexArray} {n : Int} (hva : va.Holds n) (hn : 0 < n) {m : Buffer Int}
    (hm : va.sh = some m) {i : Nat} (hi : (i : Int) < va.numVertices) {k : Int}
    (hk : 0 ≤ k ∧ k < n) :
    readShort m (i * va.numComponents + k) = .ok (m.data (i * va.numComponents + k).toNat) := by
  have hc := hva.components
  have htotal := hva.total
  have hlow : 0 ≤ (i : Int) * va.numComponents := Int.mul_nonneg (by omega) (by omega)
  -- the last component of a vertex is an element of the array
  have hrow : ((i : Int) + 1) * va.numComponents ≤ va.numVertices * va.numComponents :=
    Int.mul_le_mul_of_nonneg_right (by lia) (by lia)
  rw [Int.add_mul, Int.one_mul] at hrow
  have hlen : m.length = (va.numVertices * va.numComponents).toNat := by
    have hall : va.total = va.numVertices * va.numComponents := by
      unfold VertexArray.total VertexArray.components
      rw [if_pos (by omega), i32_of_range (by omega)]
    rw [hva.made m hm, hall, if_pos (by lia)]
  unfold readShort
  rw [Int.emod_eq_of_lt (by lia) (by lia), Buffer.get_ok (by lia)]
  rfl

theorem mapM_ok {α β : Type} {f : α → Except RenderFault β} {g : α → β} :
    ∀ {l : List α}, (∀ a ∈ l, f a = .ok (g a)) → l.mapM f = .ok (l.map g)
  | [], _ => rfl
  | a :: l, h => by
    rw [List.mapM_cons, h a List.mem_cons_self, ok_bind,
      mapM_ok fun b hb => h b (List.mem_cons_of_mem a hb)]
    rfl

theorem mallocWords_of_lt {words : Int} (h₀ : 0 ≤ words) (h : words * 4 < 4294967296) :
    mallocWords words = words := by
  unfold mallocWords
  rw [Int.emod_eq_of_lt (by omega) h]
  omega

/-- The position of a vertex. -/
def VertexArray.position (va : VertexArray) (map : Mapping F) (m : Buffer Int) (i : Nat) : F × F × F :=
  (scaled ops (m.data (i * va.numComponents).toNat) map.scale map.bias0,
    scaled ops (m.data (i * va.numComponents + 1).toNat) map.scale map.bias1,
    scaled ops (m.data (i * va.numComponents + 2).toNat) map.scale map.bias2)

/-- The texture coordinates of a vertex. -/
def VertexArray.texcoord (va : VertexArray) (map : Mapping F) (m : Buffer Int) (i : Nat) : F × F :=
  (scaled ops (m.data (i * va.numComponents).toNat) map.scale map.bias0,
    scaled ops (m.data (i * va.numComponents + 1).toNat) map.scale map.bias1)

/-- **Positions are read inside the array**, one for each vertex. -/
theorem gatherPositions_ok {va : VertexArray} (hva : va.Holds 3) (map : Mapping F) {m : Buffer Int}
    (hm : va.sh = some m) :
    gatherPositions ops true (some va) map =
      .ok ((List.range va.numVertices.toNat).map (va.position ops map m)) := by
  have hc := hva.components
  have hmem := hva.gathered
  unfold gatherPositions
  rw [Option.bind_some, hm]
  show (if va.numVertices ≤ 0 ∨ (!true) = true then _ else _) = _
  by_cases hempty : va.numVertices ≤ 0
  · rw [if_pos (.inl hempty), Int.toNat_eq_zero.2 hempty]
    rfl
  · rw [if_neg (by simp [hempty]), mallocWords_of_lt (by omega) (by omega), if_neg (by omega),
      if_neg (by omega)]
    apply mapM_ok
    intro i hi
    have hi' : (i : Int) < va.numVertices := by
      have := List.mem_range.1 hi
      omega
    have hx := readShort_ok hva (by omega) hm hi' (k := 0) (by omega)
    have hy := readShort_ok hva (by omega) hm hi' (k := 1) (by omega)
    have hz := readShort_ok hva (by omega) hm hi' (k := 2) (by omega)
    rw [Int.add_zero] at hx
    rw [hx, ok_bind, hy, ok_bind, hz, ok_bind]
    rfl

/-- **Texture coordinates are read inside the array.** -/
theorem gatherTexcoords_ok {va : VertexArray} (hva : va.Holds 2) (map : Mapping F) {m : Buffer Int}
    (hm : va.sh = some m) :
    gatherTexcoords ops true (some va) map =
      .ok ((List.range va.numVertices.toNat).map (va.texcoord ops map m)) := by
  have hc := hva.components
  have hmem := hva.gathered
  unfold gatherTexcoords
  rw [Option.bind_some, hm]
  show (if va.numVertices ≤ 0 ∨ (!true) = true then _ else _) = _
  by_cases hempty : va.numVertices ≤ 0
  · rw [if_pos (.inl hempty), Int.toNat_eq_zero.2 hempty]
    rfl
  · rw [if_neg (by simp [hempty]), mallocWords_of_lt (by omega) (by omega), if_neg (by omega),
      if_neg (by omega)]
    apply mapM_ok
    intro i hi
    have hi' : (i : Int) < va.numVertices := by
      have := List.mem_range.1 hi
      omega
    have hu := readShort_ok hva (by omega) hm hi' (k := 0) (by omega)
    have hv := readShort_ok hva (by omega) hm hi' (k := 1) (by omega)
    rw [Int.add_zero] at hu
    rw [hu, ok_bind, hv, ok_bind]
    rfl

/-! ## The only fault of gathering -/

section Faults

variable {E : RenderFault → Prop} (hvertex : E .vertex)

include hvertex

theorem readShort_ends (m : Buffer Int) (k : Int) : Ends (readShort m k) E fun _ => True := by
  unfold readShort
  cases m.get (k % 4294967296).toNat with
  | ok a => exact trivial
  | error e => exact hvertex

omit hvertex in
theorem mapM_ends {α β : Type} {f : α → Except RenderFault β} (hf : ∀ a, Ends (f a) E fun _ => True) :
    ∀ l : List α, Ends (l.mapM f) E fun _ => True
  | [] => trivial
  | a :: l => by
    rw [List.mapM_cons]
    refine (hf a).bind fun b _ => ?_
    exact (mapM_ends hf l).bind fun bs _ => trivial

theorem gatherPositions_ends (ok : Bool) (va : Option VertexArray) (map : Mapping F) :
    Ends (gatherPositions ops ok va map) E fun _ => True := by
  unfold gatherPositions
  split
  · exact trivial
  · next va sh _ =>
    dsimp only
    generalize (if va.numComponents < 3 then 3 else va.numComponents) = stride
    split_ifs
    · exact trivial
    · exact hvertex
    · refine mapM_ends (fun i => ?_) _
      refine (readShort_ends hvertex _ _).bind fun x _ => ?_
      refine (readShort_ends hvertex _ _).bind fun y _ => ?_
      exact (readShort_ends hvertex _ _).bind fun z _ => trivial

theorem gatherTexcoords_ends (ok : Bool) (va : Option VertexArray) (map : Mapping F) :
    Ends (gatherTexcoords ops ok va map) E fun _ => True := by
  unfold gatherTexcoords
  split
  · exact trivial
  · next va sh _ =>
    dsimp only
    generalize (if va.numComponents < 2 then 1 else va.numComponents) = stride
    split_ifs
    · exact trivial
    · exact hvertex
    · refine mapM_ends (fun i => ?_) _
      refine (readShort_ends hvertex _ _).bind fun u _ => ?_
      exact (readShort_ends hvertex _ _).bind fun v _ => trivial

end Faults

end FroggyKVM.M3g
