/-
# FroggyKVM.Lib.Probing — hash tables with open addressing.

A table is a list of slots, a power of two of them; a search starts at the slot that the hash of the
key gives and goes on to the next one, round the end, until it finds an entry that fits, comes to an
empty slot or is back at its start.  **As long as no entry is ever removed, a search finds an entry
exactly when there is one**, also in a table without an empty slot.
-/
import Mathlib

namespace FroggyKVM.Probing

variable {α : Type*}

/-- What a search comes to. -/
inductive Probe (α : Type*)
  | found (a : α)
  | free (index : Nat)
  | full
  deriving DecidableEq, Repr

/-- `index ++; index &= mask;` -/
def next (table : List (Option α)) (index : Nat) : Nat := (index + 1) &&& (table.length - 1)

/-- A search from `index` on that began at `start`: it ends where it began.  No result in `fuel` rounds
is `none`, as is an index outside the table. -/
def search (p : α → Bool) (table : List (Option α)) (start : Nat) :
    Nat → Nat → Option (Probe α)
  | 0, _ => none
  | fuel + 1, index =>
    match table[index]? with
    | none => none
    | some none => some (.free index)
    | some (some a) =>
      if p a then some (.found a)
      else if next table index = start then some .full
      else search p table start fuel (next table index)

/-- Put an entry into the first empty slot from `index` on. -/
def place (a : α) (table : List (Option α)) : Nat → Nat → Option (List (Option α))
  | 0, _ => none
  | fuel + 1, index =>
    match table[index]? with
    | none => none
    | some none => some (table.set index (some a))
    | some (some _) => place a table fuel (next table index)

/-- All entries of one table, put into another one. -/
def placeAll (home : α → Nat) (old : List (Option α)) (table : List (Option α)) :
    Option (List (Option α)) :=
  old.foldlM (fun table entry =>
    match entry with
    | none => some table
    | some a => place a table table.length (home a &&& (table.length - 1))) table

/-- The entries of a table. -/
abbrev entries (table : List (Option α)) : List α := table.reduceOption

/-- The slot `i` places behind the one for hash `h`. -/
def slot (table : List (Option α)) (h i : Nat) : Nat := (h + i) % table.length

def Occupied (table : List (Option α)) (i : Nat) : Prop := ∃ b, table[i]? = some (some b)

/-- An entry is in a slot that a search for hash `h` comes to. -/
def Reached (table : List (Option α)) (h : Nat) (a : α) : Prop :=
  ∃ k < table.length, table[slot table h k]? = some (some a) ∧
    ∀ j < k, Occupied table (slot table h j)

/-- **Every entry is where a search for it comes.** -/
def Placed (home : α → Nat) (table : List (Option α)) : Prop :=
  ∀ a ∈ entries table, Reached table (home a) a

section

variable {p : α → Bool} {home : α → Nat} {table : List (Option α)} {a : α} {h i k : Nat}

theorem mem_entries : a ∈ entries table ↔ ∃ i : Nat, table[i]? = some (some a) := by
  rw [List.reduceOption_mem_iff, List.mem_iff_getElem?]

/-! ## Slots -/

theorem and_mask (hlen : table.length = 2 ^ k) (i : Nat) :
    i &&& (table.length - 1) = i % table.length := by
  rw [hlen, Nat.and_two_pow_sub_one_eq_mod]

theorem next_slot (hlen : table.length = 2 ^ k) : next table (slot table h i) = slot table h (i + 1) := by
  rw [next, and_mask hlen, slot, slot, Nat.mod_add_mod, Nat.add_assoc]

theorem slot_lt (hpos : 0 < table.length) : slot table h i < table.length := Nat.mod_lt _ hpos

theorem length_pos_of_eq (hlen : table.length = 2 ^ k) : 0 < table.length := by
  rw [hlen]
  exact Nat.two_pow_pos k

/-- Different distances, different slots. -/
theorem slot_injective {j : Nat} (hi : i < table.length) (hj : j < table.length)
    (heq : slot table h i = slot table h j) : i = j := by
  have hmod : i % table.length = j % table.length := Nat.ModEq.add_left_cancel' h heq
  rwa [Nat.mod_eq_of_lt hi, Nat.mod_eq_of_lt hj] at hmod

/-- Every slot is at some distance. -/
theorem exists_slot (h : Nat) (hi : i < table.length) : ∃ j < table.length, slot table h j = i := by
  have hpos : 0 < table.length := Nat.zero_lt_of_lt hi
  refine ⟨(i + (table.length - h % table.length)) % table.length, Nat.mod_lt _ hpos, ?_⟩
  have hlt := Nat.mod_lt h hpos
  rw [slot, Nat.add_mod_mod, ← Nat.mod_add_mod,
    show h % table.length + (i + (table.length - h % table.length)) = i + table.length by omega,
    Nat.add_mod_right, Nat.mod_eq_of_lt hi]

/-! ## Searching -/

/-- The slots in front of distance `m` hold entries that do not fit. -/
def Passed (p : α → Bool) (table : List (Option α)) (h m : Nat) : Prop :=
  ∀ j < m, ∃ b, table[slot table h j]? = some (some b) ∧ p b = false

theorem Passed.succ {m : Nat} (hpass : Passed p table h m) {b : α}
    (hb : table[slot table h m]? = some (some b)) (hp : p b = false) : Passed p table h (m + 1) := by
  intro j hj
  rcases Nat.lt_succ_iff_lt_or_eq.mp hj with hj | rfl
  exacts [hpass j hj, ⟨b, hb, hp⟩]

/-- What a search for hash `h` has found. -/
def Finds (p : α → Bool) (table : List (Option α)) (h : Nat) : Probe α → Prop
  | .found a => a ∈ entries table ∧ p a = true
  | .free i => ∃ m < table.length, i = slot table h m ∧ table[i]? = some none ∧ Passed p table h m
  | .full => Passed p table h table.length

theorem search_from (hlen : table.length = 2 ^ k) {fuel m : Nat} (hm : m < table.length)
    (hfuel : table.length ≤ m + fuel) (hpass : Passed p table h m) :
    ∃ r, search p table (slot table h 0) fuel (slot table h m) = some r ∧ Finds p table h r := by
  induction fuel generalizing m with
  | zero => omega
  | succ fuel ih =>
    have hlt : slot table h m < table.length := slot_lt (length_pos_of_eq hlen)
    obtain ⟨e, he⟩ : ∃ e, table[slot table h m]? = some e := ⟨_, List.getElem?_eq_getElem hlt⟩
    rw [search, he]
    cases e with
    | none => exact ⟨_, rfl, m, hm, rfl, he, hpass⟩
    | some b =>
      dsimp only
      by_cases hp : p b = true
      · rw [if_pos hp]
        exact ⟨_, rfl, mem_entries.mpr ⟨_, he⟩, hp⟩
      · rw [if_neg hp, next_slot hlen]
        have hpass' := hpass.succ he (by simpa using hp)
        by_cases hend : m + 1 = table.length
        · have hstart : slot table h (m + 1) = slot table h 0 := by
            rw [slot, slot, hend, Nat.add_mod_right, Nat.add_zero]
          rw [if_pos hstart]
          rw [hend] at hpass'
          exact ⟨_, rfl, hpass'⟩
        · have hne : slot table h (m + 1) ≠ slot table h 0 := fun heq =>
            absurd (slot_injective (by omega) (by omega) heq) (Nat.succ_ne_zero m)
          rw [if_neg hne]
          exact ih (by omega) (by omega) hpass'

/-- **A search ends within one round.** -/
theorem search_ends (hlen : table.length = 2 ^ k) (p : α → Bool) (h : Nat) :
    ∃ r, search p table (h &&& (table.length - 1)) table.length (h &&& (table.length - 1)) = some r ∧
      Finds p table h r := by
  have hstart : h &&& (table.length - 1) = slot table h 0 := and_mask hlen h
  rw [hstart]
  exact search_from hlen (length_pos_of_eq hlen) (Nat.le_add_left _ _) nofun

/-- **A search that finds nothing has nothing to find.** -/
theorem Finds.absent {r : Probe α} (hfinds : Finds p table h r) (hr : ∀ a, r ≠ .found a)
    (ha : Reached table h a) : p a = false := by
  obtain ⟨j, hj, hat, hbefore⟩ := ha
  have hpassed : ∀ m, j < m → Passed p table h m → p a = false := by
    intro m hjm hpass
    obtain ⟨b, hb, hp⟩ := hpass j hjm
    cases hat.symm.trans hb
    exact hp
  cases r with
  | found b => exact absurd rfl (hr b)
  | full => exact hpassed _ hj hfinds
  | free i =>
    obtain ⟨m, -, rfl, hfree, hpass⟩ := hfinds
    rcases Nat.lt_trichotomy j m with hlt | rfl | hgt
    · exact hpassed m hlt hpass
    · cases hat.symm.trans hfree
    · obtain ⟨b, hb⟩ := hbefore m hgt
      cases hb.symm.trans hfree

/-! ## Putting an entry in -/

/-- The entries behind a store into an empty slot. -/
theorem entries_set (hfree : table[i]? = some none) :
    (entries (table.set i (some a))).Perm (a :: entries table) := by
  induction table generalizing i with
  | nil => cases hfree
  | cons e table ih =>
    cases i with
    | zero =>
      cases hfree
      rfl
    | succ i =>
      have ih := @ih i hfree
      rw [List.set_cons_succ]
      cases e with
      | none => exact ih
      | some b => exact (ih.cons b).trans (.swap a b _)

theorem Occupied.set {j : Nat} (hocc : Occupied table j) : Occupied (table.set i (some a)) j := by
  obtain ⟨b, hb⟩ := hocc
  by_cases hij : i = j
  · subst hij
    have hlt := (List.getElem?_eq_some_iff.mp hb).1
    exact ⟨a, by rw [List.getElem?_set_self hlt]⟩
  · exact ⟨b, by rw [List.getElem?_set_ne hij, hb]⟩

theorem slot_set {j : Nat} : slot (table.set i (some a)) h j = slot table h j := by
  rw [slot, slot, List.length_set]

/-- **A new entry goes where a search for it has ended.** -/
theorem Placed.set {m : Nat} (hplaced : Placed home table) (hm : m < table.length)
    (hfree : table[slot table (home a) m]? = some none)
    (hbefore : ∀ j < m, Occupied table (slot table (home a) j)) :
    Placed home (table.set (slot table (home a) m) (some a)) := by
  intro b hb
  rcases List.mem_cons.mp ((entries_set hfree).mem_iff.mp hb) with rfl | hb
  · refine ⟨m, by rwa [List.length_set], ?_, fun j hj => ?_⟩
    · rw [slot_set, List.getElem?_set_self (slot_lt (Nat.zero_lt_of_lt hm))]
    · rw [slot_set]
      exact (hbefore j hj).set
  · obtain ⟨k, hk, hat, hpath⟩ := hplaced b hb
    refine ⟨k, by rwa [List.length_set], ?_, fun j hj => ?_⟩
    · rw [slot_set]
      rw [List.getElem?_set_ne, hat]
      intro heq
      rw [heq, hat] at hfree
      cases hfree
    · rw [slot_set]
      exact (hpath j hj).set

theorem length_entries_le : (entries table).length ≤ table.length := by
  simpa using List.reduceOption_length_le table

/-- A table with fewer entries than slots has an empty one on the way of every search. -/
theorem exists_free (hlt : (entries table).length < table.length) (h : Nat) :
    ∃ m < table.length, table[slot table h m]? = some none ∧
      ∀ j < m, Occupied table (slot table h j) := by
  have hpos : 0 < table.length := Nat.zero_lt_of_lt hlt
  have hex : ∃ m, m < table.length ∧ table[slot table h m]? = some none := by
    by_contra hnone
    push Not at hnone
    have hall : ∀ e ∈ table, e.isSome = true := by
      intro e he
      obtain ⟨i, hi, rfl⟩ := List.getElem_of_mem he
      obtain ⟨j, hj, rfl⟩ := exists_slot h hi
      have := hnone j hj
      rw [List.getElem?_eq_getElem hi] at this
      exact Option.isSome_iff_ne_none.mpr fun hn => this (congrArg some hn)
    exact absurd (List.reduceOption_length_eq_iff.mpr hall) (Nat.ne_of_lt hlt)
  classical
  refine ⟨Nat.find hex, (Nat.find_spec hex).1, (Nat.find_spec hex).2, fun j hj => ?_⟩
  have hj' : j < table.length := Nat.lt_trans hj (Nat.find_spec hex).1
  have hnot := Nat.find_min hex hj
  obtain ⟨e, he⟩ : ∃ e, table[slot table h j]? = some e :=
    ⟨_, List.getElem?_eq_getElem (slot_lt hpos)⟩
  cases e with
  | none => exact absurd ⟨hj', he⟩ hnot
  | some b => exact ⟨b, he⟩

theorem place_at (hlen : table.length = 2 ^ k) {fuel m i : Nat} (hfuel : m < i + fuel) (him : i ≤ m)
    (hfree : table[slot table h m]? = some none) (hbefore : ∀ j < m, Occupied table (slot table h j)) :
    place a table fuel (slot table h i) = some (table.set (slot table h m) (some a)) := by
  induction fuel generalizing i with
  | zero => omega
  | succ fuel ih =>
    rw [place]
    rcases Nat.lt_or_eq_of_le him with hlt | rfl
    · obtain ⟨b, hb⟩ := hbefore i hlt
      rw [hb, next_slot hlen]
      exact ih (by omega) hlt
    · rw [hfree]

/-- **An entry can be put into a table that is not full.** -/
theorem place_ends (hlen : table.length = 2 ^ k) (hlt : (entries table).length < table.length)
    (hplaced : Placed home table) (a : α) :
    ∃ table', place a table table.length (home a &&& (table.length - 1)) = some table' ∧
      table'.length = table.length ∧ Placed home table' ∧ (entries table').Perm (a :: entries table) := by
  obtain ⟨m, hm, hfree, hbefore⟩ := exists_free hlt (home a)
  have hstart : home a &&& (table.length - 1) = slot table (home a) 0 := and_mask hlen _
  rw [hstart, place_at hlen (by omega) (Nat.zero_le m) hfree hbefore]
  exact ⟨_, rfl, List.length_set, hplaced.set hm hfree hbefore, entries_set hfree⟩

theorem entries_replicate (n : Nat) : entries (List.replicate n (none : Option α)) = [] :=
  List.reduceOption_replicate_none

theorem placed_replicate (home : α → Nat) (n : Nat) : Placed home (List.replicate n none) := by
  intro a ha
  rw [entries_replicate] at ha
  cases ha

theorem placeAll_from (hlen : table.length = 2 ^ k) (old : List (Option α))
    (hroom : (entries old).length + (entries table).length ≤ table.length)
    (hplaced : Placed home table) : ∃ table', placeAll home old table = some table' ∧
      table'.length = table.length ∧ Placed home table' ∧
        (entries table').Perm (entries old ++ entries table) := by
  induction old generalizing table with
  | nil => exact ⟨table, rfl, rfl, hplaced, .refl _⟩
  | cons e old ih =>
    rw [placeAll, List.foldlM_cons]
    cases e with
    | none => exact ih hlen hroom hplaced
    | some a =>
      have hcons : entries (some a :: old) = a :: entries old := rfl
      rw [hcons, List.length_cons] at hroom
      obtain ⟨table₁, hplace, hlen₁, hplaced₁, hperm₁⟩ := place_ends hlen (by omega) hplaced a
      have hcount := hperm₁.length_eq
      rw [List.length_cons] at hcount
      obtain ⟨table', hall, hlen', hplaced', hperm'⟩ :=
        @ih table₁ (hlen₁ ▸ hlen) (by omega) hplaced₁
      refine ⟨table', ?_, hlen'.trans hlen₁, hplaced', ?_⟩
      · dsimp only
        rw [hplace]
        exact hall
      · refine hperm'.trans ((hperm₁.append_left _).trans ?_)
        rw [hcons]
        exact List.perm_middle

/-- **Rehashing into a table of twice the size keeps all entries.** -/
theorem placeAll_ends (hlen : table.length = 2 ^ k) (home : α → Nat) :
    ∃ table', placeAll home table (List.replicate (2 * table.length) none) = some table' ∧
      table'.length = 2 ^ (k + 1) ∧ Placed home table' ∧ (entries table').Perm (entries table) := by
  have hle := @length_entries_le _ table
  have hdouble : (List.replicate (2 * table.length) (none : Option α)).length = 2 ^ (k + 1) := by
    rw [List.length_replicate, hlen, Nat.pow_succ, Nat.mul_comm]
  obtain ⟨table', hall, hlen', hplaced, hperm⟩ := placeAll_from hdouble table
    (by rw [entries_replicate, List.length_replicate, List.length_nil]; omega)
    (placed_replicate home _)
  refine ⟨table', hall, hlen'.trans hdouble, hplaced, ?_⟩
  rwa [entries_replicate, List.append_nil] at hperm

end

/-! ## Tables with keys -/

section

variable {κ : Type*} {key : α → κ} {home : κ → Nat} {table : List (Option α)}

/-- A table with at most one entry for a key, each where a search for its key comes. -/
structure Keyed (key : α → κ) (home : κ → Nat) (table : List (Option α)) : Prop where
  size : ∃ k, table.length = 2 ^ k
  placed : Placed (fun a => home (key a)) table
  once : ((entries table).map key).Nodup

theorem keyed_replicate (key : α → κ) (home : κ → Nat) (k : Nat) :
    Keyed key home (List.replicate (2 ^ k) none) where
  size := ⟨k, List.length_replicate⟩
  placed := placed_replicate _ _
  once := by
    rw [entries_replicate]
    exact .nil

/-- The entries of a key are one. -/
theorem Keyed.eq_of_key (h : Keyed key home table) {a b : α} (ha : a ∈ entries table)
    (hb : b ∈ entries table) (heq : key a = key b) : a = b :=
  List.inj_on_of_nodup_map h.once ha hb heq

/-- **Rehashing.** -/
theorem Keyed.rehash (h : Keyed key home table) : ∃ table',
    placeAll (fun a => home (key a)) table (List.replicate (2 * table.length) none) = some table' ∧
      Keyed key home table' ∧ (entries table').Perm (entries table) := by
  obtain ⟨k, hk⟩ := h.size
  obtain ⟨table', hall, hlen, hplaced, hperm⟩ := placeAll_ends hk fun a => home (key a)
  exact ⟨table', hall, ⟨⟨k + 1, hlen⟩, hplaced, (hperm.map _).nodup_iff.mpr h.once⟩, hperm⟩

/-- A new entry in an empty slot that a search for its key has come to. -/
theorem Keyed.set (h : Keyed key home table) {a : α} {m : Nat} {p : α → Bool}
    (hnew : ∀ b ∈ entries table, key b ≠ key a) (hm : m < table.length)
    (hfree : table[slot table (home (key a)) m]? = some none)
    (hpass : Passed p table (home (key a)) m) :
    Keyed key home (table.set (slot table (home (key a)) m) (some a)) where
  size := by
    obtain ⟨k, hk⟩ := h.size
    exact ⟨k, by rw [List.length_set, hk]⟩
  placed := by
    refine h.placed.set hm hfree fun j hj => ?_
    obtain ⟨b, hb, -⟩ := hpass j hj
    exact ⟨b, hb⟩
  once := by
    rw [((entries_set hfree).map key).nodup_iff, List.map_cons, List.nodup_cons]
    refine ⟨fun hmem => ?_, h.once⟩
    obtain ⟨b, hb, heq⟩ := List.mem_map.mp hmem
    exact hnew b hb heq

/-- **A search for a key**: it finds the entry, or there is none; an entry can go where it ended. -/
theorem Keyed.lookup (h : Keyed key home table) {x : κ} {p : α → Bool}
    (hp : ∀ a ∈ entries table, (p a = true ↔ key a = x)) :
    ∃ r, search p table (home x &&& (table.length - 1)) table.length
        (home x &&& (table.length - 1)) = some r ∧
      match r with
      | .found a => a ∈ entries table ∧ key a = x
      | .full => ∀ a ∈ entries table, key a ≠ x
      | .free i => (∀ a ∈ entries table, key a ≠ x) ∧ ∀ a, key a = x →
        Keyed key home (table.set i (some a)) ∧
          (entries (table.set i (some a))).Perm (a :: entries table) := by
  obtain ⟨k, hk⟩ := h.size
  obtain ⟨r, hsearch, hfinds⟩ := search_ends hk p (home x)
  have habsent : (∀ a, r ≠ .found a) → ∀ a ∈ entries table, key a ≠ x := by
    rintro hr a ha rfl
    have hno := hfinds.absent hr (h.placed a ha)
    rw [(hp a ha).mpr rfl] at hno
    cases hno
  refine ⟨r, hsearch, ?_⟩
  cases r with
  | found a => exact ⟨hfinds.1, (hp a hfinds.1).mp hfinds.2⟩
  | full => exact habsent nofun
  | free i =>
    obtain ⟨m, hm, rfl, hfree, hpass⟩ := hfinds
    refine ⟨habsent nofun, ?_⟩
    rintro a rfl
    exact ⟨h.set (habsent nofun) hm hfree hpass, entries_set hfree⟩

end

end FroggyKVM.Probing
