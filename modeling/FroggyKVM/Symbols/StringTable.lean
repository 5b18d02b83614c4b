/-
# FroggyKVM.Symbols.StringTable — every text has one interned string.

`StringTable::interned_string_for` (`handles/StringTable.cpp`), without strings in ROM.  A string that is
not in the table is put there and counted before the table is expanded; when that fails, the caller
gets an exception although the string is interned now.  **Texts stay interned whatever fails, and no text
has two strings.**

Strings are references; what characters they have does not change.
-/
import FroggyKVM.Lib.Probing

namespace FroggyKVM.Symbols

open Probing

/-- `String::hash`. -/
def stringHash (chars : List UInt16) : Nat :=
  chars.foldl (fun value chr => (31 * value + chr.toNat) % 2 ^ 32) 0

structure StringTable where
  table : List (Option Nat)
  count : Nat

/-- The table of a new task. -/
def newStringTable (k : Nat) : StringTable := ⟨List.replicate (2 ^ k) none, 0⟩

inductive StringResult
  | string (s : Nat)
  | outOfMemory
  deriving DecidableEq, Repr

/-- A call for a string, and whether there is memory to expand the table. -/
structure StringCall where
  string : Nat
  expanded : Bool

section

variable (chars : Nat → List UInt16)

/-- `String::matches`. -/
def stringMatches (string old : Nat) : Bool :=
  (chars old).length == (chars string).length && chars old == chars string

/-- `StringTable::expand`; `none` is an exception. -/
def expand (t : StringTable) (expanded : Bool) : Option (Option StringTable) :=
  if expanded then
    (placeAll (fun s => stringHash (chars s)) t.table
      (List.replicate (2 * t.table.length) none)).map fun table => some { t with table := table }
  else some none

/-- What `interned_string_for` does at the end of its search. -/
def stringFound (t : StringTable) (call : StringCall) :
    Probe Nat → Option (StringResult × StringTable)
  | .found old => some (.string old, t)
  | .full => some (.outOfMemory, t)
  | .free index =>
    let t : StringTable := ⟨t.table.set index (some call.string), t.count + 1⟩
    if t.table.length * 3 / 4 ≤ t.count then
      (expand chars t call.expanded).map fun r =>
        match r with
        | some t => (.string call.string, t)
        | none => (.outOfMemory, t)
    else some (.string call.string, t)

/-- **`StringTable::interned_string_for`**; `none` is a search that does not end. -/
def internedStringFor (t : StringTable) (call : StringCall) : Option (StringResult × StringTable) :=
  let start := stringHash (chars call.string) &&& (t.table.length - 1)
  (search (stringMatches chars call.string) t.table start t.table.length start).bind
    (stringFound chars t call)

/-- A sequence of calls. -/
def internedStringsFor : List StringCall → StringTable → Option (List StringResult × StringTable)
  | [], t => some ([], t)
  | call :: calls, t => do
    let (r, t) ← internedStringFor chars t call
    let (rs, t) ← internedStringsFor calls t
    some (r :: rs, t)

end

section

variable {chars : Nat → List UInt16}

theorem stringMatches_iff {string old : Nat} :
    stringMatches chars string old = true ↔ chars old = chars string := by
  rw [stringMatches, Bool.and_eq_true, beq_iff_eq, beq_iff_eq]
  exact ⟨fun h => h.2, fun h => ⟨congrArg List.length h, h⟩⟩

/-- What one call does: the text is interned behind it, unless the table is full. -/
structure StringStep (chars : Nat → List UInt16) (t : StringTable) (call : StringCall)
    (r : StringResult) (t' : StringTable) : Prop where
  keyed : Keyed chars stringHash t'.table
  kept : ∀ a ∈ entries t.table, a ∈ entries t'.table
  mem : ∀ a, r = .string a → a ∈ entries t'.table ∧ chars a = chars call.string
  again : ∀ a ∈ entries t.table, chars a = chars call.string → r = .string a ∧ t' = t

/-- Expanding keeps every string, also when it fails. -/
theorem expand_ends {t : StringTable} (h : Keyed chars stringHash t.table) (expanded : Bool) :
    ∃ r, expand chars t expanded = some r ∧ ∀ t', r = some t' → Keyed chars stringHash t'.table ∧
      (entries t'.table).Perm (entries t.table) := by
  cases expanded with
  | false => exact ⟨none, rfl, nofun⟩
  | true =>
    obtain ⟨table, hall, hkeyed, hperm⟩ := h.rehash
    refine ⟨some { t with table := table }, congrArg (Option.map _) hall, ?_⟩
    rintro _ ⟨⟩
    exact ⟨hkeyed, hperm⟩

/-- **One call ends, and does what it should.** -/
theorem internedStringFor_step {t : StringTable} (h : Keyed chars stringHash t.table)
    (call : StringCall) :
    ∃ r t', internedStringFor chars t call = some (r, t') ∧ StringStep chars t call r t' := by
  obtain ⟨r, hsearch, hr⟩ := h.lookup (x := chars call.string)
    (p := stringMatches chars call.string) fun a _ => stringMatches_iff
  rw [internedStringFor, hsearch, Option.bind_some]
  cases r with
  | found a =>
    refine ⟨_, _, rfl, h, fun _ => id, ?_, fun b hb heq => ?_⟩
    · rintro _ ⟨⟩
      exact hr
    · rw [h.eq_of_key hr.1 hb (hr.2.trans heq.symm)]
      exact ⟨rfl, rfl⟩
  | full => exact ⟨_, _, rfl, h, fun _ => id, nofun, fun a ha heq => absurd heq (hr a ha)⟩
  | free index =>
    obtain ⟨hno, hset⟩ := hr
    obtain ⟨hkeyed, hperm⟩ := hset call.string rfl
    rw [stringFound]
    dsimp only
    generalize t.table.set index (some call.string) = table at hkeyed hperm
    -- Any table with the entries of the new one.
    have hstep : ∀ t' : StringTable, Keyed chars stringHash t'.table →
        (entries t'.table).Perm (entries table) → ∀ r, (∀ a, r = .string a → a = call.string) →
        StringStep chars t call r t' := by
      intro t' hkeyed' hperm' r hr
      have hmem : ∀ a, a ∈ entries t'.table ↔ a = call.string ∨ a ∈ entries t.table := fun a => by
        rw [hperm'.mem_iff, hperm.mem_iff, List.mem_cons]
      refine ⟨hkeyed', fun a ha => (hmem a).mpr (.inr ha), fun a ha => ?_,
        fun a ha heq => absurd heq (hno a ha)⟩
      obtain rfl := hr a ha
      exact ⟨(hmem _).mpr (.inl rfl), rfl⟩
    split_ifs
    · obtain ⟨r, hexpand, hr⟩ := @expand_ends _ ⟨table, t.count + 1⟩ hkeyed call.expanded
      rw [hexpand, Option.map_some]
      cases r with
      | none => exact ⟨_, _, rfl, hstep _ hkeyed (.refl _) _ nofun⟩
      | some t' =>
        obtain ⟨hkeyed', hperm'⟩ := hr t' rfl
        refine ⟨_, _, rfl, hstep _ hkeyed' hperm' _ ?_⟩
        rintro _ ⟨⟩
        rfl
    · refine ⟨_, _, rfl, hstep _ hkeyed (.refl _) _ ?_⟩
      rintro _ ⟨⟩
      rfl

/-- What a run of calls does. -/
structure StringRun (chars : Nat → List UInt16) (t : StringTable) (calls : List StringCall)
    (results : List StringResult) (t' : StringTable) : Prop where
  keyed : Keyed chars stringHash t'.table
  length : results.length = calls.length
  kept : ∀ a ∈ entries t.table, a ∈ entries t'.table
  mem : ∀ (i : Nat) call a, calls[i]? = some call → results[i]? = some (.string a) →
    a ∈ entries t'.table ∧ chars a = chars call.string

/-- **A run ends, and does what it should.** -/
theorem internedStringsFor_run {t : StringTable} (h : Keyed chars stringHash t.table)
    (calls : List StringCall) : ∃ results t',
      internedStringsFor chars calls t = some (results, t') ∧ StringRun chars t calls results t' := by
  induction calls generalizing t with
  | nil => exact ⟨[], t, rfl, h, rfl, fun _ => id, nofun⟩
  | cons call calls ih =>
    obtain ⟨r, t₁, hcall, hstep⟩ := internedStringFor_step h call
    obtain ⟨results, t', hcalls, hrun⟩ := ih hstep.keyed
    refine ⟨r :: results, t', ?_, hrun.keyed, by simp [hrun.length],
      fun a ha => hrun.kept a (hstep.kept a ha), ?_⟩
    · rw [internedStringsFor, hcall]
      show (internedStringsFor chars calls t₁ >>= _) = _
      rw [hcalls]
      rfl
    · rintro (_ | i) c a hc ha
      · cases hc
        obtain ⟨hmem, heq⟩ := hstep.mem a (Option.some.inj ha)
        exact ⟨hrun.kept a hmem, heq⟩
      · exact hrun.mem i c a hc ha

end

/-- What interning promises about a sequence of calls, their results, and the table behind them. -/
structure InternsStrings (chars : Nat → List UInt16) (calls : List StringCall)
    (results : List StringResult) (t : StringTable) : Prop where
  length : results.length = calls.length
  same : ∀ (i j : Nat) call call' a a', calls[i]? = some call → calls[j]? = some call' →
    results[i]? = some (.string a) → results[j]? = some (.string a') →
    (a = a' ↔ chars call.string = chars call'.string)
  contents : ∀ (i : Nat) call a, calls[i]? = some call → results[i]? = some (.string a) →
    chars a = chars call.string
  once : ((entries t.table).map chars).Nodup

end FroggyKVM.Symbols
