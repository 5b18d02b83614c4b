/-
# FroggyKVM.Symbols.SymbolTable — every string has one symbol.

`SymbolTable::symbol_for` (`handles/SymbolTable.cpp`), without symbols in ROM.  The table doubles when
a quarter is full; when there is no memory for that it goes on filling up.  Names of up to six bytes
are compared by the words of the symbol behind its class pointer.

A symbol is its identity, which the collector keeps when it moves the symbol, and its bytes.  **In every
run, equal strings get one symbol and different strings different ones, whatever fails.**
-/
import FroggyKVM.Lib.ByteMemory
import FroggyKVM.Lib.Probing

namespace FroggyKVM.Symbols

open Probing ByteMemory

/-! ## Symbols in memory -/

/-- A `SymbolDesc`. -/
structure SymbolDesc where
  id : Nat
  bytes : List UInt8
  deriving DecidableEq, Repr

/-- `_length`, and the bytes behind it. -/
def bodyOf (s : List UInt8) : List UInt8 := leBytes 2 s.length ++ s

/-- Word `i` of a text that is filled up with zeros. -/
def wordOf (text : List UInt8) (i : Nat) : Nat :=
  leValue [text.getD (4 * i) 0, text.getD (4 * i + 1) 0, text.getD (4 * i + 2) 0,
    text.getD (4 * i + 3) 0]

/-- The bytes of a symbol behind its class pointer, in whole words. -/
def bodySize (symbol : SymbolDesc) : Nat := (2 + symbol.bytes.length + 3) / 4 * 4

/-- `body[i]`, if the symbol goes that far. -/
def body (symbol : SymbolDesc) (i : Nat) : Option Nat :=
  if 4 * i + 4 ≤ bodySize symbol then some (wordOf (bodyOf symbol.bytes) i) else none

/-- `SymbolTable::hash`. -/
def hash (s : List UInt8) : Nat := s.foldl (fun value chr => (31 * value + chr.toNat) % 2 ^ 32) 0

/-- The comparison with an old symbol, in the three loops of `symbol_for`. -/
def fits (s : List UInt8) (old : SymbolDesc) : Bool :=
  if 0 < s.length ∧ s.length ≤ 6 then
    if s.length ≤ 2 then body old 0 == some (wordOf (bodyOf s) 0)
    else body old 0 == some (wordOf (bodyOf s) 0) && body old 1 == some (wordOf (bodyOf s) 1)
  else old.bytes.length == s.length && old.bytes == s

/-! ## `symbol_for` -/

structure SymbolTable where
  table : List (Option SymbolDesc)
  count : Nat
  nextId : Nat

/-- The table of a new task. -/
def newSymbolTable (k : Nat) : SymbolTable := ⟨List.replicate (2 ^ k) none, 0, 0⟩

inductive SymbolResult
  | symbol (s : SymbolDesc)
  | null
  | outOfMemory
  deriving DecidableEq, Repr

/-- A call, with what the allocations in it would do. -/
structure SymbolCall where
  s : List UInt8
  checkOnly : Bool
  created : Bool
  grown : Bool

/-- `grow_and_replace_symbol_table`; nothing happens when there is no memory. -/
def growAndReplaceSymbolTable (t : SymbolTable) (grown : Bool) : Option SymbolTable :=
  if grown then
    (placeAll (fun symbol => hash symbol.bytes) t.table
      (List.replicate (2 * t.table.length) none)).map fun table => { t with table := table }
  else some t

/-- What `symbol_for` does at the end of its search. -/
def symbolFound (t : SymbolTable) (call : SymbolCall) :
    Probe SymbolDesc → Option (SymbolResult × SymbolTable)
  | .found old => some (.symbol old, t)
  | .full => some (if call.checkOnly then .null else .outOfMemory, t)
  | .free index =>
    if call.checkOnly then some (.null, t)
    else if call.created then
      let newSymbol : SymbolDesc := ⟨t.nextId, call.s⟩
      let t : SymbolTable := ⟨t.table.set index (some newSymbol), t.count + 1, t.nextId + 1⟩
      (if t.table.length / 4 < t.count then growAndReplaceSymbolTable t call.grown else some t).map
        fun t => (.symbol newSymbol, t)
    else some (.outOfMemory, t)

/-- **`SymbolTable::symbol_for`**; `none` is a search that does not end. -/
def symbolFor (t : SymbolTable) (call : SymbolCall) : Option (SymbolResult × SymbolTable) :=
  if 0xfff0 < call.s.length then some (.outOfMemory, t)
  else
    let start := hash call.s &&& (t.table.length - 1)
    (search (fits call.s) t.table start t.table.length start).bind (symbolFound t call)

/-- A sequence of calls. -/
def symbolsFor : List SymbolCall → SymbolTable → Option (List SymbolResult × SymbolTable)
  | [], t => some ([], t)
  | call :: calls, t => do
    let (r, t) ← symbolFor t call
    let (rs, t) ← symbolsFor calls t
    some (r :: rs, t)

/-! ## Comparing words -/

theorem wordOf_inj {text text' : List UInt8} {i : Nat} (h : wordOf text i = wordOf text' i) :
    ∀ j < 4, text.getD (4 * i + j) 0 = text'.getD (4 * i + j) 0 := by
  have hlt := fun j => (text.getD (4 * i + j) 0).toNat_lt
  have hlt' := fun j => (text'.getD (4 * i + j) 0).toNat_lt
  have h₀ := hlt 0; have h₁ := hlt 1; have h₂ := hlt 2; have h₃ := hlt 3
  have h₀' := hlt' 0; have h₁' := hlt' 1; have h₂' := hlt' 2; have h₃' := hlt' 3
  simp only [wordOf, leValue, Nat.add_zero] at h h₀ h₀'
  intro j hj
  refine UInt8.toNat_inj.mp ?_
  obtain rfl | rfl | rfl | rfl : j = 0 ∨ j = 1 ∨ j = 2 ∨ j = 3 := by lia
  · rw [Nat.add_zero]
    lia
  all_goals lia

theorem bodyOf_getD (s : List UInt8) (i : Nat) : (bodyOf s).getD (2 + i) 0 = s.getD i 0 := by
  rw [bodyOf, List.getD_append_right _ _ _ _ (by rw [length_leBytes]; omega), length_leBytes,
    Nat.add_sub_cancel_left]

/-- The length stands in the first two bytes. -/
theorem length_of_body {s s' : List UInt8} (hs : s.length < 2 ^ 16) (hs' : s'.length < 2 ^ 16)
    (h : ∀ i < 2, (bodyOf s).getD i 0 = (bodyOf s').getD i 0) : s.length = s'.length := by
  have hval : ∀ t : List UInt8, t.length < 2 ^ 16 →
      ((bodyOf t).getD 0 0).toNat + 256 * ((bodyOf t).getD 1 0).toNat = t.length := by
    intro t ht
    simp only [bodyOf, leBytes, List.cons_append, List.getD_cons_zero, List.getD_cons_succ,
      UInt8.toNat_ofNat']
    omega
  rw [← hval s hs, ← hval s' hs', h 0 (by decide), h 1 (by decide)]

/-- Symbols with the same bytes in front are the same, when one of them is not longer than that. -/
theorem eq_of_body {s s' : List UInt8} {n : Nat} (hs : s.length < 2 ^ 16) (hs' : s'.length < 2 ^ 16)
    (hlen : s.length + 2 ≤ n) (h : ∀ i < n, (bodyOf s).getD i 0 = (bodyOf s').getD i 0) : s = s' := by
  have hlength := length_of_body hs hs' fun i hi => h i (by omega)
  refine List.ext_getElem hlength fun i hi hi' => ?_
  have := h (2 + i) (by omega)
  rwa [bodyOf_getD, bodyOf_getD, List.getD_eq_getElem _ _ hi, List.getD_eq_getElem _ _ hi'] at this

theorem wordOf_of_body {symbol : SymbolDesc} {i w : Nat} (h : body symbol i = some w) :
    w = wordOf (bodyOf symbol.bytes) i := by
  unfold body at h
  split_ifs at h
  exact (Option.some.inj h).symm

/-- **The three comparisons are one.** -/
theorem fits_iff {s : List UInt8} {old : SymbolDesc} (hs : s.length < 2 ^ 16)
    (hold : old.bytes.length < 2 ^ 16) : fits s old = true ↔ old.bytes = s := by
  have hsame : old.bytes = s → ∀ i, 4 * i + 4 ≤ bodySize old →
      body old i = some (wordOf (bodyOf s) i) := by
    rintro rfl i hi
    exact if_pos hi
  unfold fits
  split_ifs with hquick htwo
  · rw [beq_iff_eq]
    constructor
    · intro h
      have := wordOf_inj (wordOf_of_body h)
      exact (eq_of_body hs hold (by omega : s.length + 2 ≤ 4) (by simpa using this)).symm
    · intro h
      exact hsame h 0 (by unfold bodySize; omega)
  · rw [Bool.and_eq_true, beq_iff_eq, beq_iff_eq]
    constructor
    · rintro ⟨h, h'⟩
      have h0 := wordOf_inj (wordOf_of_body h)
      have h1 := wordOf_inj (wordOf_of_body h')
      refine (eq_of_body hs hold (by omega : s.length + 2 ≤ 8) fun i hi => ?_).symm
      rcases Nat.lt_or_ge i 4 with hlt | hge
      · simpa using h0 i hlt
      · have := h1 (i - 4) (by omega)
        rwa [show 4 * 1 + (i - 4) = i by omega] at this
    · intro h
      have hlength := congrArg List.length h
      exact ⟨hsame h 0 (by unfold bodySize; omega), hsame h 1 (by unfold bodySize; omega)⟩
  · rw [Bool.and_eq_true, beq_iff_eq, beq_iff_eq]
    exact ⟨fun h => h.2, fun h => ⟨congrArg List.length h, h⟩⟩

/-! ## Every string once -/

/-- **What holds of the table between calls.** -/
structure SymbolTable.Inv (t : SymbolTable) : Prop where
  keyed : Keyed SymbolDesc.bytes hash t.table
  ids : ((entries t.table).map SymbolDesc.id).Nodup
  old : ∀ a ∈ entries t.table, a.id < t.nextId
  short : ∀ a ∈ entries t.table, a.bytes.length < 2 ^ 16

theorem newSymbolTable_inv (k : Nat) : (newSymbolTable k).Inv := by
  have hnil : entries (newSymbolTable k).table = [] := entries_replicate _
  exact {
    keyed := keyed_replicate _ _ k
    ids := by rw [hnil]; exact .nil
    old := by rw [hnil]; exact nofun
    short := by rw [hnil]; exact nofun }

/-- **Growing keeps every symbol**, also when it fails. -/
theorem growAndReplace_ends {t : SymbolTable} (h : t.Inv) (grown : Bool) :
    ∃ t', growAndReplaceSymbolTable t grown = some t' ∧ t'.Inv ∧
      ∀ a, a ∈ entries t'.table ↔ a ∈ entries t.table := by
  cases grown with
  | false => exact ⟨t, rfl, h, fun _ => Iff.rfl⟩
  | true =>
    obtain ⟨table, hall, hkeyed, hperm⟩ := h.keyed.rehash
    refine ⟨{ t with table := table }, congrArg (Option.map _) hall, ?_, fun a => hperm.mem_iff⟩
    exact {
      keyed := hkeyed
      ids := (hperm.map _).nodup_iff.mpr h.ids
      old := fun a ha => h.old a (hperm.mem_iff.mp ha)
      short := fun a ha => h.short a (hperm.mem_iff.mp ha) }

/-- A new symbol. -/
theorem SymbolTable.Inv.create {t : SymbolTable} (h : t.Inv) {s : List UInt8}
    (hs : s.length < 2 ^ 16) {table : List (Option SymbolDesc)} {count : Nat}
    (hkeyed : Keyed SymbolDesc.bytes hash table)
    (hperm : (entries table).Perm (⟨t.nextId, s⟩ :: entries t.table)) :
    (SymbolTable.mk table count (t.nextId + 1)).Inv where
  keyed := hkeyed
  ids := by
    rw [(hperm.map _).nodup_iff, List.map_cons, List.nodup_cons]
    refine ⟨fun hmem => ?_, h.ids⟩
    obtain ⟨a, ha, heq⟩ := List.mem_map.mp hmem
    exact absurd heq (Nat.ne_of_lt (h.old a ha))
  old a ha := by
    rcases List.mem_cons.mp (hperm.mem_iff.mp ha) with rfl | ha
    exacts [Nat.lt_succ_self _, Nat.lt_succ_of_lt (h.old a ha)]
  short a ha := by
    rcases List.mem_cons.mp (hperm.mem_iff.mp ha) with rfl | ha
    exacts [hs, h.short a ha]

/-- What one call does. -/
structure SymbolStep (t : SymbolTable) (call : SymbolCall) (r : SymbolResult) (t' : SymbolTable) :
    Prop where
  inv : t'.Inv
  mem : ∀ a, a ∈ entries t'.table ↔ a ∈ entries t.table ∨ r = .symbol a
  bytes : ∀ a, r = .symbol a → a.bytes = call.s
  again : ∀ a ∈ entries t.table, a.bytes = call.s → r = .symbol a
  null : call.checkOnly = true → (r = .null ↔ ∀ a ∈ entries t.table, a.bytes ≠ call.s)

/-- A call that leaves the table as it is, without a symbol. -/
theorem SymbolStep.unchanged {t : SymbolTable} {call : SymbolCall} {r : SymbolResult} (h : t.Inv)
    (habsent : ∀ a ∈ entries t.table, a.bytes ≠ call.s) (hr : ∀ a, r ≠ .symbol a)
    (hnull : call.checkOnly = true → r = .null) : SymbolStep t call r t where
  inv := h
  mem a := ⟨.inl, fun h => h.resolve_right (hr a)⟩
  bytes a ha := absurd ha (hr a)
  again a ha heq := absurd heq (habsent a ha)
  null hc := ⟨fun _ => habsent, fun _ => hnull hc⟩

/-- A call that finds its symbol. -/
theorem SymbolStep.found {t : SymbolTable} {call : SymbolCall} {a : SymbolDesc} (h : t.Inv)
    (ha : a ∈ entries t.table) (hbytes : a.bytes = call.s) : SymbolStep t call (.symbol a) t where
  inv := h
  mem b := by
    refine ⟨.inl, ?_⟩
    rintro (hb | hb)
    · exact hb
    · cases hb
      exact ha
  bytes := by
    rintro _ ⟨⟩
    exact hbytes
  again b hb hbs := by rw [h.keyed.eq_of_key ha hb (hbytes.trans hbs.symm)]
  null _ := ⟨nofun, fun hno => absurd hbytes (hno a ha)⟩

/-- **One call ends, and does what it should.** -/
theorem symbolFor_step {t : SymbolTable} (h : t.Inv) {call : SymbolCall}
    (hs : call.s.length ≤ 0xfff0) : ∃ r t', symbolFor t call = some (r, t') ∧ SymbolStep t call r t' := by
  obtain ⟨r, hsearch, hr⟩ := h.keyed.lookup (x := call.s) (p := fits call.s) fun a ha =>
    fits_iff (by omega) (h.short a ha)
  rw [symbolFor, if_neg (by omega)]
  dsimp only
  rw [hsearch, Option.bind_some]
  cases r with
  | found a => exact ⟨_, _, rfl, .found h hr.1 hr.2⟩
  | full =>
    refine ⟨_, _, rfl, .unchanged h hr (fun a => ?_) fun hc => if_pos hc⟩
    split_ifs <;> exact nofun
  | free index =>
    obtain ⟨hno, hset⟩ := hr
    rw [symbolFound]
    by_cases hc : call.checkOnly = true
    · rw [if_pos hc]
      exact ⟨_, _, rfl, .unchanged h hno nofun fun _ => rfl⟩
    · rw [if_neg hc]
      by_cases hcreated : call.created = true
      · rw [if_pos hcreated]
        dsimp only
        obtain ⟨hkeyed, hperm⟩ := hset ⟨t.nextId, call.s⟩ rfl
        generalize t.table.set index (some ⟨t.nextId, call.s⟩) = table at hkeyed hperm
        have hinv : (SymbolTable.mk table (t.count + 1) (t.nextId + 1)).Inv :=
          h.create (by omega) hkeyed hperm
        have hgrow : ∃ t', (if table.length / 4 < t.count + 1 then
            growAndReplaceSymbolTable ⟨table, t.count + 1, t.nextId + 1⟩ call.grown
            else some ⟨table, t.count + 1, t.nextId + 1⟩) = some t' ∧ t'.Inv ∧
            ∀ a, a ∈ entries t'.table ↔ a ∈ entries table := by
          split_ifs
          exacts [growAndReplace_ends hinv call.grown, ⟨_, rfl, hinv, fun _ => Iff.rfl⟩]
        obtain ⟨t', hgrow, hinv', hmem⟩ := hgrow
        refine ⟨_, t', congrArg (Option.map _) hgrow, hinv', fun a => ?_, ?_,
          fun a ha heq => absurd heq (hno a ha), fun h => absurd h hc⟩
        · rw [hmem, hperm.mem_iff, List.mem_cons, or_comm, SymbolResult.symbol.injEq, eq_comm]
        · rintro _ ⟨⟩
          rfl
      · rw [if_neg hcreated]
        exact ⟨_, _, rfl, .unchanged h hno nofun fun h => absurd h hc⟩

/-- What a run of calls does. -/
structure SymbolRun (t : SymbolTable) (calls : List SymbolCall) (results : List SymbolResult)
    (t' : SymbolTable) : Prop where
  inv : t'.Inv
  length : results.length = calls.length
  mem : ∀ a, a ∈ entries t'.table ↔ a ∈ entries t.table ∨ .symbol a ∈ results
  bytes : ∀ (i : Nat) call a, calls[i]? = some call → results[i]? = some (.symbol a) → a.bytes = call.s
  again : ∀ (i : Nat) call a, calls[i]? = some call → a.bytes = call.s →
    (a ∈ entries t.table ∨ ∃ j < i, results[j]? = some (.symbol a)) → results[i]? = some (.symbol a)
  null : ∀ (i : Nat) call, calls[i]? = some call → call.checkOnly = true →
    (results[i]? = some .null ↔ (∀ a ∈ entries t.table, a.bytes ≠ call.s) ∧
      ∀ j < i, ∀ a, results[j]? = some (.symbol a) → a.bytes ≠ call.s)

/-- **A run ends, and does what it should.** -/
theorem symbolsFor_run {calls : List SymbolCall} {t : SymbolTable} (h : t.Inv)
    (hs : ∀ call ∈ calls, call.s.length ≤ 0xfff0) :
    ∃ results t', symbolsFor calls t = some (results, t') ∧ SymbolRun t calls results t' := by
  induction calls generalizing t with
  | nil => exact ⟨[], t, rfl, h, rfl, fun a => by simp, nofun, nofun, nofun⟩
  | cons call calls ih =>
    obtain ⟨r, t₁, hcall, hstep⟩ := symbolFor_step h (hs call (by simp))
    obtain ⟨results, t', hcalls, hrun⟩ := ih hstep.inv fun c hc => hs c (by simp [hc])
    refine ⟨r :: results, t', ?_, hrun.inv, by simp [hrun.length], fun a => ?_, ?_, ?_, ?_⟩
    · rw [symbolsFor, hcall]
      show (symbolsFor calls t₁ >>= _) = _
      rw [hcalls]
      rfl
    · rw [hrun.mem, hstep.mem, List.mem_cons, or_assoc, eq_comm]
    · rintro (_ | i) c a hc ha
      · cases hc
        exact hstep.bytes a (Option.some.inj ha)
      · exact hrun.bytes i c a hc ha
    · rintro (_ | i) c a hc hbytes hold
      · cases hc
        rcases hold with ha | ⟨j, hj, -⟩
        · exact congrArg some (hstep.again a ha hbytes)
        · cases hj
      · refine hrun.again i c a hc hbytes ?_
        rcases hold with ha | ⟨_ | j, hj, ha⟩
        · exact .inl ((hstep.mem a).mpr (.inl ha))
        · exact .inl ((hstep.mem a).mpr (.inr (Option.some.inj ha)))
        · exact .inr ⟨j, by omega, ha⟩
    · rintro (_ | i) c hc hcheck
      · cases hc
        rw [List.getElem?_cons_zero, Option.some.injEq, hstep.null hcheck]
        simp
      · rw [List.getElem?_cons_succ, hrun.null i c hc hcheck]
        constructor
        · rintro ⟨hold, hbefore⟩
          refine ⟨fun a ha => hold a ((hstep.mem a).mpr (.inl ha)), ?_⟩
          rintro (_ | j) hj a ha
          · exact hold a ((hstep.mem a).mpr (.inr (Option.some.inj ha)))
          · exact hbefore j (by omega) a ha
        · rintro ⟨hold, hbefore⟩
          refine ⟨fun a ha => ?_, fun j hj a ha => hbefore (j + 1) (by omega) a ha⟩
          rcases (hstep.mem a).mp ha with ha | rfl
          exacts [hold a ha, hbefore 0 (by omega) a rfl]

/-- What interning promises about a sequence of calls and their results. -/
structure InternsSymbols (calls : List SymbolCall) (results : List SymbolResult) : Prop where
  length : results.length = calls.length
  bytes : ∀ (i : Nat) call a, calls[i]? = some call → results[i]? = some (.symbol a) → a.bytes = call.s
  same : ∀ (i j : Nat) call call' a a', calls[i]? = some call → calls[j]? = some call' →
    results[i]? = some (.symbol a) → results[j]? = some (.symbol a') → (a.id = a'.id ↔ call.s = call'.s)
  kept : ∀ (i j : Nat) call a, calls[i]? = some call → j < i → results[j]? = some (.symbol a) →
    a.bytes = call.s → results[i]? = some (.symbol a)
  null : ∀ (i : Nat) call, calls[i]? = some call → call.checkOnly = true →
    (results[i]? = some .null ↔
      ∀ j < i, ∀ a, results[j]? = some (.symbol a) → a.bytes ≠ call.s)

end FroggyKVM.Symbols
