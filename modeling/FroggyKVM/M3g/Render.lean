/-
# FroggyKVM.M3g.Render — `nRenderImmediate`, and runs of calls on one target.

A render call gathers the vertices, projects them into the viewport and draws the strips.  Two results
meet here.  The call reads its arrays safely and draws the strip decomposition, where the strips that
are drawn start inside the range of an `int`.  And a run of calls stays inside the buffers of the target
as long as each render call finds viewport and clip that fit it; nothing in the code asks for that.
-/
import FroggyKVM.M3g.Strips

namespace FroggyKVM.M3g

variable {F : Type} (ops : FloatOps F)

/-! ## One render call -/

/-- The objects of a render call: the vertex buffer, the index buffer, the appearance, and the product
of the three matrices as it acts on a point. -/
structure Mesh (F : Type) where
  positions : Option VertexArray
  posMap : Mapping F
  texCoords : Option VertexArray
  texMap : Mapping F
  indices : Option IndexBuffer
  transform : F → F → F → F × F × F × F
  paint : Paint F

/-- `m3g_on`, and the three allocations. -/
structure Luck where
  on : Bool := true
  positions : Bool := true
  texCoords : Bool := true
  vertices : Bool := true

/-- A transformed point on the screen, or behind the camera. -/
def toScreen (s : M3gCtx) (p : F × F × F × F) (uv : F × F) : Vtx F :=
  let zero := ops.ofInt 0
  if ops.le p.2.2.2 ops.eye then ⟨zero, zero, zero, zero, zero, true⟩
  else
    let cx := ops.div p.1 p.2.2.2
    let cy := ops.div p.2.1 p.2.2.2
    let cz := ops.div p.2.2.1 p.2.2.2
    { x := ops.add (ops.ofInt s.vpX) (ops.mul (ops.add (ops.mul cx ops.half) ops.half) (ops.ofInt s.vpW))
      -- screen rows grow downwards
      y := ops.add (ops.ofInt s.vpY)
        (ops.mul (ops.sub (ops.ofInt 1) (ops.add (ops.mul cy ops.half) ops.half)) (ops.ofInt s.vpH))
      z := clampUnit ops (ops.add (ops.mul cz ops.half) ops.half)
      u := uv.1
      v := uv.2
      culled := false }

/-- `vtx`. -/
def project (s : M3gCtx) (mesh : Mesh F) (pos : List (F × F × F)) (uv : List (F × F)) : List (Vtx F) :=
  pos.zipIdx.map fun (p, i) =>
    toScreen ops s (mesh.transform p.1 p.2.1 p.2.2) (uv.getD i (ops.ofInt 0, ops.ofInt 0))

/-- `raster_triangle` as the strip loop calls it. -/
def drawOn (paint : Paint F) (v0 v1 v2 : Vtx F) (s : M3gCtx) : Except RenderFault M3gCtx :=
  (rasterTriangle ops paint v0 v1 v2 s).mapError fun _ => .pixel

/-- `nRenderImmediate`. -/
def nRenderImmediate (luck : Luck) (mesh : Mesh F) (s : M3gCtx) : Except RenderFault M3gCtx := do
  if !luck.on then return s
  if s.color.isNone ∨ s.depth.isNone then return s
  let pos ← gatherPositions ops luck.positions mesh.positions mesh.posMap
  if pos.isEmpty then return s
  let uv ← gatherTexcoords ops luck.texCoords mesh.texCoords mesh.texMap
  if !luck.vertices then return s
  renderStrips (drawOn ops mesh.paint) mesh.indices (project ops s mesh pos uv) s

/-! ## Strips -/

/-- The two ways to make an index buffer. -/
inductive StripArray where
  | explicit (indices strips : List Int)
  | implicit (firstIndex : Int) (strips : List Int)

namespace StripArray

def create : StripArray → Except RenderFault IndexBuffer
  | explicit indices strips => .ok (nCreateExplicit true true indices strips)
  | implicit firstIndex strips => nCreateImplicit true true firstIndex strips

/-- The indices, given or made up. -/
def indices : StripArray → List Int
  | explicit indices _ => indices
  | implicit firstIndex strips => implicitIndices firstIndex strips

def strips : StripArray → List Int
  | explicit _ strips => strips
  | implicit _ strips => strips

/-- The indices fit the memory that they are stored in. -/
def Sized : StripArray → Prop
  | explicit indices _ => indices.length < 2147483648
  | implicit _ strips => totalLength strips < 1073741824

theorem create_holds : ∀ {a : StripArray}, a.Sized →
    Succeeds a.create fun ib => ib.Holds a.indices a.strips
  | explicit _ strips, h => Succeeds.ok (nCreateExplicit_holds h strips)
  | implicit firstIndex _, h => nCreateImplicit_holds firstIndex h

end StripArray

/-- Vertex `i` of a mesh. -/
def vertexOf (s : M3gCtx) (mesh : Mesh F) (va : VertexArray) (sh : Buffer Int) (uv : List (F × F))
    (i : Nat) : Vtx F :=
  let p := va.position ops mesh.posMap sh i
  toScreen ops s (mesh.transform p.1 p.2.1 p.2.2) (uv.getD i (ops.ofInt 0, ops.ofInt 0))

theorem project_eq (s : M3gCtx) (mesh : Mesh F) (va : VertexArray) (sh : Buffer Int)
    (uv : List (F × F)) (n : Nat) :
    project ops s mesh ((List.range n).map (va.position ops mesh.posMap sh)) uv =
      (List.range n).map (vertexOf ops s mesh va sh uv) := by
  apply List.ext_getElem
  · simp [project]
  · intro i h₁ h₂
    simp [project, vertexOf]

/-- The texture coordinates of a mesh whose array, if it has one, has two components or more. -/
def TexOk (mesh : Mesh F) (uv : List (F × F)) : Prop :=
  match mesh.texCoords with
  | none => uv = []
  | some va =>
    match va.sh with
    | none => uv = []
    | some sh => va.Holds 2 ∧ uv = (List.range va.numVertices.toNat).map (va.texcoord ops mesh.texMap sh)

theorem gatherTexcoords_of_texOk {mesh : Mesh F} {uv : List (F × F)} (h : TexOk ops mesh uv) :
    gatherTexcoords ops true mesh.texCoords mesh.texMap = .ok uv := by
  unfold TexOk at h
  cases hva : mesh.texCoords with
  | none =>
    rw [hva] at h
    obtain rfl := h
    rfl
  | some va =>
    rw [hva] at h
    dsimp only at h
    cases hsh : va.sh with
    | none =>
      rw [hsh] at h
      obtain rfl := h
      unfold gatherTexcoords
      rw [Option.bind_some, hsh]
      rfl
    | some sh =>
      rw [hsh] at h
      obtain ⟨hva2, rfl⟩ := h
      exact gatherTexcoords_ok ops hva2 mesh.texMap hsh

/-- A mesh made of these arrays: positions of three components or more, and strips whose starts an
`int` can say. -/
structure Mesh.Made (mesh : Mesh F) (a : StripArray) (va : VertexArray) (sh : Buffer Int)
    (uv : List (F × F)) : Prop where
  positions : mesh.positions = some va
  shorts : va.sh = some sh
  holds : va.Holds 3
  texCoords : TexOk ops mesh uv
  indices : ∃ ib, a.create = .ok ib ∧ mesh.indices = some ib
  sized : a.Sized
  starts : StartsFit 0 a.strips

theorem decomposition_nil (indices strips : List Int) :
    decomposition indices strips ([] : List (Vtx F)) = [] := by
  have hcorners : ∀ p, corners indices ([] : List (Vtx F)) p = none := by
    intro p
    have hcorner : corner indices ([] : List (Vtx F)) p.1 = none := by
      unfold corner shown
      cases entry indices p.1 with
      | none => rfl
      | some a => simp
    unfold corners
    rw [hcorner]
    rfl
  unfold decomposition
  rw [List.flatMap_eq_nil_iff]
  exact fun p _ => List.filterMap_eq_nil_iff.2 fun q _ => hcorners q

theorem foldlM_drawCorners_error {paint : Paint F} {e : RenderFault} :
    ∀ (l : List (Vtx F × Vtx F × Vtx F)) {s : M3gCtx},
      l.foldlM (drawCorners (drawOn ops paint)) s = .error e → e = .pixel
  | [], _, h => nomatch h
  | p :: l, s, h => by
    rw [List.foldlM_cons] at h
    unfold drawCorners drawOn at h
    cases hraster : rasterTriangle ops paint p.1 p.2.1 p.2.2 s with
    | ok s₁ =>
      rw [hraster] at h
      exact foldlM_drawCorners_error l h
    | error e' =>
      rw [hraster] at h
      exact (Except.error.inj h).symm

/-- **A render call draws the strip decomposition**: the triangles of all strips, in order and with
alternating winding, whose entries and vertices exist and are in front of the camera.  It reads its
arrays inside their bounds. -/
theorem nRenderImmediate_strips {mesh : Mesh F} {s : M3gCtx} {a : StripArray} {va : VertexArray}
    {sh : Buffer Int} {uv : List (F × F)} (hmesh : mesh.Made ops a va sh uv)
    (htarget : s.color ≠ none ∧ s.depth ≠ none) :
    nRenderImmediate ops {} mesh s =
        (decomposition a.indices a.strips
          ((List.range va.numVertices.toNat).map (vertexOf ops s mesh va sh uv))).foldlM
            (drawCorners (drawOn ops mesh.paint)) s ∧
      ∀ e, nRenderImmediate ops {} mesh s = .error e → e = .pixel := by
  obtain ⟨ib, hcreate, hindices⟩ := hmesh.indices
  have hib := (StripArray.create_holds hmesh.sized).returns ib hcreate
  have hc := hmesh.holds.components
  have htotal := hmesh.holds.total
  have hdraws : nRenderImmediate ops {} mesh s =
      (decomposition a.indices a.strips
        ((List.range va.numVertices.toNat).map (vertexOf ops s mesh va sh uv))).foldlM
          (drawCorners (drawOn ops mesh.paint)) s := by
    unfold nRenderImmediate
    rw [if_neg (by simp), if_neg (by simp [htarget.1, htarget.2]), hmesh.positions,
      gatherPositions_ok ops hmesh.holds mesh.posMap hmesh.shorts, ok_bind]
    by_cases hempty : va.numVertices.toNat = 0
    · rw [hempty, if_pos (by rfl), List.range_zero, List.map_nil, decomposition_nil]
      rfl
    · have hsmall : va.numVertices < 2147483648 := by
        have : va.numVertices * 3 ≤ va.numVertices * va.numComponents :=
          Int.mul_le_mul_of_nonneg_left hc (by omega)
        omega
      rw [if_neg (by simp [hempty]), gatherTexcoords_of_texOk ops hmesh.texCoords, ok_bind,
        if_neg (by simp), project_eq, hindices]
      apply renderStrips_eq (drawOn ops mesh.paint) hib _ hmesh.starts
      rw [List.length_map, List.length_range]
      omega
  refine ⟨hdraws, fun e he => ?_⟩
  rw [hdraws] at he
  exact foldlM_drawCorners_error ops _ he

/-- A mesh of triples of shorts, seen straight from the front. -/
def flatMesh (scale : Rat) (shorts : List Int) (ib : IndexBuffer) : Mesh Rat where
  positions := some ⟨(shorts.length / 3 : Nat), 3, some (copyInts shorts)⟩
  posMap := ⟨scale, 0, 0, 0⟩
  texCoords := none
  texMap := ⟨1, 0, 0, 0⟩
  indices := some ib
  transform x y z := (x, y, z, 1)
  paint := ⟨none, 16777215, ⟨0, true, true, true⟩⟩

/-- Four vertices in one strip: two triangles. -/
theorem nRenderImmediate_strips_square :
    let s := (nBind true true {}).1
    let mesh := flatMesh 1 [0, 0, 0, 1, 0, 0, 0, 1, 0, 1, 1, 0] (nCreateExplicit true true [0, 1, 2, 3] [4])
    let va : VertexArray := ⟨4, 3, some (copyInts [0, 0, 0, 1, 0, 0, 0, 1, 0, 1, 1, 0])⟩
    let triangles := decomposition [0, 1, 2, 3] [4] ((List.range 4).map
      (vertexOf ratOps s mesh va (copyInts [0, 0, 0, 1, 0, 0, 0, 1, 0, 1, 1, 0]) []))
    triangles.length = 2 ∧ nRenderImmediate ratOps {} mesh s =
      triangles.foldlM (drawCorners (drawOn ratOps mesh.paint)) s := by
  intro s mesh va triangles
  have hholds : va.Holds 3 := by
    refine ⟨?_, by decide, by decide, by decide⟩
    intro m hm
    obtain rfl := Option.some.inj hm
    decide
  have hmade : mesh.Made ratOps (.explicit [0, 1, 2, 3] [4]) va
      (copyInts [0, 0, 0, 1, 0, 0, 0, 1, 0, 1, 1, 0]) [] :=
    ⟨rfl, rfl, hholds, rfl, ⟨_, rfl, rfl⟩, by show 4 < 2147483648; decide, by
      intro p hp
      obtain rfl := List.mem_singleton.1 hp
      decide⟩
  have htarget : s.color ≠ none ∧ s.depth ≠ none := ⟨Option.some_ne_none _, Option.some_ne_none _⟩
  exact ⟨by decide +kernel, (nRenderImmediate_strips ratOps hmade htarget).1⟩

/-- A strip of three indices, one of which names no vertex: its one triangle is not drawn. -/
theorem strip_missingVertex :
    let v : Vtx Rat := ⟨0, 0, 1 / 2, 0, 0, false⟩
    renderStrips (fun _ _ _ drawn => .ok (drawn + 1)) (some (nCreateExplicit true true [0, 1, 7] [3]))
      [v, v, v] 0 = .ok 0 := by
  rfl

/-! ## Runs of calls -/

/-- The calls that an application makes. -/
inductive Call (F : Type) where
  | bind (okColor okDepth : Bool)
  | release
  | setViewport (x y w h : Int)
  | setClipRect (x y w h : Int)
  | render (luck : Luck) (mesh : Mesh F)

def step (s : M3gCtx) : Call F → Except RenderFault M3gCtx
  | .bind okColor okDepth => .ok (nBind okColor okDepth s).1
  | .release => .ok (nRelease s)
  | .setViewport x y w h => .ok (nSetViewport x y w h s)
  | .setClipRect x y w h => .ok (nSetClipRect x y w h s)
  | .render luck mesh => nRenderImmediate ops luck mesh s

def runCalls (calls : List (Call F)) (s : M3gCtx) : Except RenderFault M3gCtx := calls.foldlM (step ops) s

/-- No target, or one whose buffers have an element for each pixel. -/
def TargetOk (s : M3gCtx) : Prop := (s.color = none ∧ s.depth = none) ∨ s.Bound

theorem targetOk_bind (okColor okDepth : Bool) (s : M3gCtx) : TargetOk (nBind okColor okDepth s).1 := by
  cases okColor with
  | false => exact .inl ⟨rfl, rfl⟩
  | true =>
    cases okDepth with
    | false => exact .inl ⟨rfl, rfl⟩
    | true => exact .inr ⟨(by decide : (0 : Int) < 320 ∧ (320 : Int) ≤ 1024),
        (by decide : (0 : Int) < 240 ∧ (240 : Int) ≤ 1024), rfl, rfl⟩

theorem drawOn_ends {s : M3gCtx} (hs : Drawable s) (paint : Paint F) (v0 v1 v2 : Vtx F) :
    Ends (drawOn ops paint v0 v1 v2 s) (· ≠ .pixel) (SameGeometry s) := by
  obtain ⟨s', hraster, hsame⟩ := rasterTriangle_ok ops hs paint v0 v1 v2
  unfold drawOn
  rw [hraster]
  exact hsame

/-- **A render call on a target that fits** touches no pixel outside it. -/
theorem nRenderImmediate_ends {s : M3gCtx} (hs : TargetOk s) (hfits : s.Bound → s.Fits) (luck : Luck)
    (mesh : Mesh F) :
    Ends (nRenderImmediate ops luck mesh s) (· ≠ .pixel) (SameGeometry s) := by
  unfold nRenderImmediate
  split
  · exact .refl s
  split
  · exact .refl s
  next hbuffers =>
    have hbound : s.Bound := by
      rcases hs with ⟨hnone, -⟩ | hbound
      · rw [hnone] at hbuffers
        exact absurd (.inl rfl) hbuffers
      · exact hbound
    refine (gatherPositions_ends ops (by decide) _ _ _).bind fun pos _ => ?_
    split
    · exact .refl s
    refine (gatherTexcoords_ends ops (by decide) _ _ _).bind fun uv _ => ?_
    split
    · exact .refl s
    -- what each triangle keeps is that the geometry is that of `s`
    refine stripLoop_ends _ (I := SameGeometry s) ?_ (by decide) (by decide) _ _ _ _ _ (.refl s)
    intro v0 v1 v2 s₁ hs₁
    refine (drawOn_ends ops (hs₁.drawable ⟨hbound, hfits hbound⟩) mesh.paint v0 v1 v2).mono ?_ ?_
    · exact fun _ h => h
    · exact fun _ h => hs₁.trans h

theorem SameGeometry.targetOk {s s' : M3gCtx} (h : SameGeometry s s') (hs : TargetOk s) : TargetOk s' := by
  rcases hs with ⟨hcolor, hdepth⟩ | hbound
  · have hc := h.color
    have hd := h.depth
    rw [hcolor] at hc
    rw [hdepth] at hd
    exact .inl ⟨Option.map_eq_none_iff.1 hc, Option.map_eq_none_iff.1 hd⟩
  · exact .inr (h.bound hbound)

/-- One call. -/
theorem step_ends {s : M3gCtx} (hs : TargetOk s) (call : Call F)
    (hfits : ∀ luck mesh, call = .render luck mesh → s.Bound → s.Fits) :
    Ends (step ops s call) (· ≠ .pixel) TargetOk := by
  cases call with
  | bind okColor okDepth => exact targetOk_bind okColor okDepth s
  | release => exact .inl ⟨rfl, rfl⟩
  | setViewport x y w h =>
    rcases hs with hnone | hbound
    · exact .inl hnone
    · exact .inr ⟨hbound.width, hbound.height, hbound.color, hbound.depth⟩
  | setClipRect x y w h =>
    rcases hs with hnone | hbound
    · exact .inl hnone
    · exact .inr ⟨hbound.width, hbound.height, hbound.color, hbound.depth⟩
  | render luck mesh =>
    refine (nRenderImmediate_ends ops hs (hfits luck mesh rfl) luck mesh).mono (fun _ h => h) ?_
    exact fun _ hsame => hsame.targetOk hs

/-- In the run of `calls` from `s`, each render call on a target finds viewport and clip that fit it. -/
def RendersFit : List (Call F) → M3gCtx → Prop
  | [], _ => True
  | call :: calls, s =>
    (∀ luck mesh, call = .render luck mesh → s.Bound → s.Fits) ∧
      ∀ s', step ops s call = .ok s' → RendersFit calls s'

theorem runCalls_ends : ∀ (calls : List (Call F)) {s : M3gCtx}, TargetOk s → RendersFit ops calls s →
    Ends (runCalls ops calls s) (· ≠ .pixel) TargetOk
  | [], _, hs, _ => hs
  | call :: calls, s, hs, ⟨hrender, hrest⟩ => by
    have hfirst := step_ends ops hs call hrender
    unfold runCalls
    rw [List.foldlM_cons]
    cases hstep : step ops s call with
    | error e =>
      rw [hstep] at hfirst
      exact hfirst
    | ok s₁ =>
      rw [hstep] at hfirst
      exact runCalls_ends calls hfirst (hrest s₁ hstep)

/-- **Rendering stays inside the buffers** in every run in which the viewport and the clip rectangle
fit the target whenever something is rendered: no element outside the buffers is touched, and the
buffers have `width * height` elements. -/
theorem runCalls_inside (calls : List (Call F)) (hfits : RendersFit ops calls {}) :
    runCalls ops calls {} ≠ .error .pixel ∧
      ∀ s, runCalls ops calls {} = .ok s → TargetOk s := by
  have hends := runCalls_ends ops calls (.inl ⟨rfl, rfl⟩) hfits
  refine ⟨fun h => ?_, fun s h => ?_⟩
  · rw [h] at hends
    exact hends rfl
  · rw [h] at hends
    exact hends

/-- A triangle on a new target, in a smaller clip rectangle. -/
theorem runCalls_inside_triangle :
    runCalls ratOps [.bind true true, .setClipRect 10 20 100 100,
      .render {} (flatMesh 1 [0, 0, 0, 1, 0, 0, 0, 1, 0] (nCreateExplicit true true [0, 1, 2] [3]))] {} ≠
        .error .pixel := by
  have hfit (mesh : Mesh Rat) :
      RendersFit ratOps [.bind true true, .setClipRect 10 20 100 100, .render {} mesh] {} := by
    refine ⟨fun _ _ h => (nomatch h), fun s₁ h₁ => ?_⟩
    obtain rfl := Except.ok.inj h₁
    refine ⟨fun _ _ h => (nomatch h), fun s₂ h₂ => ?_⟩
    obtain rfl := Except.ok.inj h₂
    refine ⟨fun _ _ _ _ => ?_, fun _ _ => trivial⟩
    unfold M3gCtx.Fits
    decide
  exact (runCalls_inside ratOps _ (hfit _)).1

/-- What faults, if anything. -/
def faultOf {α : Type} : Except RenderFault α → Option RenderFault
  | .ok _ => none
  | .error e => some e

theorem error_of_faultOf {α : Type} {x : Except RenderFault α} {e : RenderFault}
    (h : faultOf x = some e) : x = .error e := by
  cases x with
  | ok a => cases h
  | error e' => exact congrArg Except.error (Option.some.inj h)

/-- A viewport and a clip rectangle of 640 by 480 pixels, and a triangle in their middle row: row 240 of
a target of 240 rows. -/
theorem runCalls_outside :
    runCalls ratOps [.bind true true, .setViewport 0 0 640 480, .setClipRect 0 0 640 480,
      .render {} (flatMesh (1 / 960) [-960, 0, 0, -954, 0, 0, -960, -8, 0]
        (nCreateExplicit true true [0, 1, 2] [3]))] {} = .error .pixel := by
  apply error_of_faultOf
  decide +kernel

end FroggyKVM.M3g
