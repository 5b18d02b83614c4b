/-
# FroggyKVM.Zip.HandleBudget — what the parser cache does with file handles.

A descriptor is valid as long as its parser is in the cache and not collected, and its handle has
been closed once when it is no longer valid.  So no more handles are open than there are slots, and
one for the parser that is being set up.  **The cache is flushed only behind the last attempt to open
a file**, so that `get` fails where a flush would have helped.
-/
import FroggyKVM.Zip.ParserCache

namespace FroggyKVM.Zip.ParserCache

variable {Name : Type} {maxCachedJarParsers : Nat} {s : ParserCache Name}

/-- The parser is in the cache, or is being set up. -/
def Held (slots : Nat → Option Nat) (pending : Option Nat) (id : Nat) : Prop :=
  (∃ i, slots i = some id) ∨ pending = some id

/-- **The invariant**: the handle of a parser is closed when the parser is not held or collected, and
then once. -/
structure Inv (s : ParserCache Name) : Prop where
  opened : s.os.opened = s.allocated
  parser : ∀ id, s.allocated ≤ id → s.parser id = none
  known : ∀ id, id < s.allocated → ∃ p, s.parser id = some p
  handle : ∀ {id p}, s.parser id = some p → p.fileDescriptor.handle = id
  closes : ∀ {id p}, s.parser id = some p →
    s.os.closes id = if p.fileDescriptor.valid then 0 else 1
  unopened : ∀ h, s.allocated ≤ h → s.os.closes h = 0
  valid : ∀ {id p}, s.parser id = some p → (p.fileDescriptor.valid = true ↔
    p.collected = false ∧ Held s.cachedParsers s.pending id)
  slot : ∀ {i id}, s.cachedParsers i = some id → i < MAX_CACHED_PARSERS ∧ ∃ p, s.parser id = some p
  distinct : ∀ {i j id}, s.cachedParsers i = some id → s.cachedParsers j = some id → i = j
  fresh : ∀ {id}, s.pending = some id → (∀ i, s.cachedParsers i ≠ some id) ∧
    ∃ p, s.parser id = some p ∧ p.collected = false

/-- A parser whose descriptor is disposed of, and that is collected or leaves its slot. -/
def release (s : ParserCache Name) (id : Nat) (p : CachedParser Name) (collected : Bool)
    (slots : Nat → Option Nat) : ParserCache Name :=
  { s.setParser id { p with
      fileDescriptor := { p.fileDescriptor with valid := false }
      collected := collected } with
    cachedParsers := slots
    os := if p.fileDescriptor.valid then s.os.close p.fileDescriptor.handle else s.os }

/-- Slots from which at most the parser `id` has been taken. -/
structure Fewer (slots slots' : Nat → Option Nat) (id : Nat) : Prop where
  old : ∀ {i k}, slots' i = some k → slots i = some k
  kept : ∀ {i k}, k ≠ id → slots i = some k → slots' i = some k

theorem Fewer.refl (slots : Nat → Option Nat) (id : Nat) : Fewer slots slots id :=
  ⟨fun h => h, fun _ h => h⟩

/-- **Releasing a parser keeps the invariant**, if it is collected or nothing holds it any more. -/
theorem Inv.release (h : Inv s) {id : Nat} {p : CachedParser Name} (hp : s.parser id = some p)
    {collected : Bool} {slots : Nat → Option Nat} (hslots : Fewer s.cachedParsers slots id)
    (hgone : collected = true ∨ ¬ Held slots s.pending id)
    (hpending : s.pending = some id → collected = false) :
    Inv (s.release id p collected slots) := by
  have hid : id < s.allocated := by
    by_contra hle
    rw [h.parser id (Nat.not_lt.1 hle)] at hp
    cases hp
  have hhandle := h.handle hp
  have hcloses := h.closes hp
  have hother : ∀ {k q}, (s.release id p collected slots).parser k = some q → k ≠ id →
      s.parser k = some q := by
    intro k q hq hk
    have hq : (if k = id then some _ else s.parser k) = some q := hq
    rwa [if_neg hk] at hq
  have hself : ∀ {q}, (s.release id p collected slots).parser id = some q →
      q.fileDescriptor.handle = id ∧ q.fileDescriptor.valid = false ∧ q.collected = collected := by
    intro q hq
    have hq : (if id = id then some _ else s.parser id) = some q := hq
    rw [if_pos rfl] at hq
    cases hq
    exact ⟨hhandle, rfl, rfl⟩
  have hclosed : ∀ k, (s.release id p collected slots).os.closes k =
      if k = id then 1 else s.os.closes k := by
    intro k
    show (if p.fileDescriptor.valid then s.os.close p.fileDescriptor.handle else s.os).closes k = _
    cases hvalid : p.fileDescriptor.valid with
    | true =>
      rw [hvalid, if_pos rfl] at hcloses
      rw [if_pos rfl, hhandle]
      show (if k = id then s.os.closes k + 1 else s.os.closes k) = _
      by_cases hk : k = id
      · subst hk
        rw [if_pos rfl, if_pos rfl, hcloses]
      · rw [if_neg hk, if_neg hk]
    | false =>
      rw [hvalid, if_neg Bool.false_ne_true] at hcloses
      rw [if_neg Bool.false_ne_true]
      by_cases hk : k = id
      · subst hk
        rw [if_pos rfl, hcloses]
      · rw [if_neg hk]
  have hheld : ∀ {k}, k ≠ id → (Held slots s.pending k ↔ Held s.cachedParsers s.pending k) := by
    intro k hk
    constructor
    · rintro (⟨i, hi⟩ | hpend)
      · exact .inl ⟨i, hslots.old hi⟩
      · exact .inr hpend
    · rintro (⟨i, hi⟩ | hpend)
      · exact .inl ⟨i, hslots.kept hk hi⟩
      · exact .inr hpend
  have hthere : ∀ {k}, (∃ q, s.parser k = some q) →
      ∃ q, (s.release id p collected slots).parser k = some q := by
    rintro k ⟨q, hq⟩
    by_cases hk : k = id
    · exact ⟨_, if_pos hk⟩
    · exact ⟨q, (if_neg hk).trans hq⟩
  constructor
  · show (if p.fileDescriptor.valid then s.os.close p.fileDescriptor.handle else s.os).opened = _
    split
    · exact h.opened
    · exact h.opened
  · intro k hk
    have hk : s.allocated ≤ k := hk
    exact (if_neg (by omega : ¬ k = id)).trans (h.parser k hk)
  · intro k hk
    exact hthere (h.known k hk)
  · intro k q hq
    by_cases hk : k = id
    · subst hk
      exact (hself hq).1
    · exact h.handle (hother hq hk)
  · intro k q hq
    rw [hclosed]
    by_cases hk : k = id
    · subst hk
      rw [if_pos rfl, (hself hq).2.1, if_neg Bool.false_ne_true]
    · rw [if_neg hk]
      exact h.closes (hother hq hk)
  · intro k hk
    rw [hclosed, if_neg (fun heq => by subst heq; exact absurd hid (Nat.not_lt.2 hk))]
    exact h.unopened k hk
  · intro k q hq
    by_cases hk : k = id
    · subst hk
      obtain ⟨-, hvalid, hcollected⟩ := hself hq
      rw [hvalid, hcollected]
      constructor
      · exact fun hfalse => absurd hfalse Bool.false_ne_true
      · rintro ⟨hno, hholds⟩
        rcases hgone with hgone | hgone
        · rw [hgone] at hno
          cases hno
        · exact absurd hholds hgone
    · rw [h.valid (hother hq hk)]
      show _ ↔ q.collected = false ∧ Held slots s.pending k
      rw [hheld hk]
  · intro i k hk
    obtain ⟨hi, hq⟩ := h.slot (hslots.old hk)
    exact ⟨hi, hthere hq⟩
  · intro i j k hi hj
    exact h.distinct (hslots.old hi) (hslots.old hj)
  · intro k hk
    obtain ⟨hslot, q, hq, hlive⟩ := h.fresh hk
    refine ⟨fun i hi => hslot i (hslots.old hi), ?_⟩
    by_cases hkid : k = id
    · subst hkid
      exact ⟨_, if_pos rfl, hpending hk⟩
    · exact ⟨q, (if_neg hkid).trans hq, hlive⟩

/-! ## Disposal -/

theorem refObject_eq_some {id : Nat} {p : CachedParser Name} :
    s.refObject id = some p ↔ s.parser id = some p ∧ p.collected = false := by
  unfold refObject
  rw [Option.filter_eq_some_iff, Bool.not_eq_true']

/-- Disposing of a descriptor that may be invalid already. -/
theorem disposeDescriptor_eq {id : Nat} {p : CachedParser Name} (hp : s.parser id = some p) :
    s.disposeDescriptor id p = s.release id p p.collected s.cachedParsers := by
  unfold disposeDescriptor release setParser
  split
  · rfl
  case isFalse hvalid =>
    have hself : { p with fileDescriptor := { p.fileDescriptor with valid := false } } = p := by
      obtain ⟨pathname, timestamp, owner, ⟨handle, valid⟩, collected⟩ := p
      rw [Bool.not_eq_true] at hvalid
      subst hvalid
      rfl
    have hparser : (fun k => if k = id then some p else s.parser k) = s.parser := by
      funext k
      by_cases hk : k = id
      · rw [if_pos hk, hk, hp]
      · rw [if_neg hk]
    dsimp only
    rw [hself, hparser]

/-- `slots` without the slot `i`. -/
theorem fewer_none {slots : Nat → Option Nat} {i id : Nat} (hi : slots i = some id) :
    Fewer slots (fun k => if k = i then none else slots k) id := by
  constructor
  · intro j k hk
    have hk : (if j = i then none else slots j) = some k := hk
    split at hk
    · cases hk
    · exact hk
  · intro j k hk hj
    have hne : j ≠ i := by
      rintro rfl
      exact hk (Option.some.inj (hj.symm.trans hi))
    exact (if_neg hne).trans hj

theorem Inv.dispose (h : Inv s) (i : Nat) : Inv (s.dispose i) := by
  unfold ParserCache.dispose
  cases hi : s.cachedParsers i with
  | none => exact h
  | some id =>
    obtain ⟨-, p, hp⟩ := h.slot hi
    have hslots := fewer_none hi
    have hpending : s.pending ≠ some id := fun hpend => (h.fresh hpend).1 i hi
    have hgone : ¬ Held (fun k => if k = i then none else s.cachedParsers k) s.pending id := by
      rintro (⟨j, hj⟩ | hpend)
      · obtain rfl := h.distinct (hslots.old hj) hi
        have hj : (if j = j then none else s.cachedParsers j) = some id := hj
        rw [if_pos rfl] at hj
        cases hj
      · exact hpending hpend
    have hrelease := @Inv.release _ _ h id p hp p.collected _ hslots (.inr hgone)
      (fun hpend => absurd hpend hpending)
    dsimp only
    cases href : s.refObject id with
    | some q =>
      obtain ⟨hq, hlive⟩ := refObject_eq_some.1 href
      obtain rfl := Option.some.inj (hp.symm.trans hq)
      dsimp only
      rw [disposeDescriptor_eq hp]
      exact hrelease
    | none =>
      -- collected already, and with it the descriptor is invalid
      have hcollected : ¬ p.collected = false := fun hlive => by
        rw [refObject_eq_some.2 ⟨hp, hlive⟩] at href
        cases href
      have hsame : s.release id p p.collected s.cachedParsers = s := by
        rw [← disposeDescriptor_eq hp]
        exact if_neg fun hvalid => hcollected ((h.valid hp).1 hvalid).1
      have hrest := congrArg (fun t : ParserCache Name => { t with
        cachedParsers := fun k => if k = i then none else s.cachedParsers k }) hsame
      exact hrest ▸ hrelease

theorem Inv.disposeUpTo (h : Inv s) (n : Nat) : Inv (s.disposeUpTo n) := by
  induction n with
  | zero => exact h
  | succ n ih => exact ih.dispose n

theorem Inv.flushCaches (h : Inv s) : Inv (s.flushCaches maxCachedJarParsers) := h.disposeUpTo _

/-! ## Collection -/

theorem collectOne_eq {id : Nat} {p : CachedParser Name} (hp : s.parser id = some p) :
    s.collectOne id p = s.release id p true s.cachedParsers := by
  have hself : (s.release id p p.collected s.cachedParsers).parser id =
      some { p with fileDescriptor := { p.fileDescriptor with valid := false } } := if_pos rfl
  unfold collectOne
  dsimp only
  rw [disposeDescriptor_eq hp, hself]
  unfold release setParser
  dsimp only
  congr 1
  funext k
  by_cases hk : k = id
  · rw [if_pos hk, if_pos hk]
  · rw [if_neg hk, if_neg hk, if_neg hk]

theorem Inv.collectBelow (h : Inv s) {dead : Nat → Bool}
    (hpending : ∀ id, s.pending = some id → dead id = false) (n : Nat) :
    Inv (s.collectBelow dead n) ∧ (s.collectBelow dead n).pending = s.pending ∧
      (s.collectBelow dead n).cachedParsers = s.cachedParsers ∧
      (s.collectBelow dead n).allocated = s.allocated := by
  induction n with
  | zero => exact ⟨h, rfl, rfl, rfl⟩
  | succ n ih =>
    obtain ⟨hinv, hpend, hslots, halloc⟩ := ih
    unfold ParserCache.collectBelow
    dsimp only
    split
    case h_1 p href =>
      obtain ⟨hp, -⟩ := refObject_eq_some.1 href
      split
      case isTrue hdead =>
        rw [collectOne_eq hp]
        refine ⟨hinv.release hp (Fewer.refl _ n) (.inl rfl) fun hid => ?_, hpend, hslots, halloc⟩
        rw [hpend] at hid
        rw [hpending n hid] at hdead
        cases hdead
      case isFalse => exact ⟨hinv, hpend, hslots, halloc⟩
    case h_2 => exact ⟨hinv, hpend, hslots, halloc⟩

theorem Inv.collect (h : Inv s) {dead : Nat → Bool}
    (hpending : ∀ id, s.pending = some id → dead id = false) :
    Inv (s.collect dead) ∧ (s.collect dead).pending = s.pending :=
  have hall := h.collectBelow hpending s.allocated
  ⟨hall.1, hall.2.1⟩

/-! ## Opening and saving -/

/-- A new parser with the next handle. -/
theorem Inv.openParser (h : Inv s) (hidle : s.pending = none) (task : Nat) (name : Name) :
    Inv (s.openParser maxCachedJarParsers task name).1 := by
  unfold ParserCache.openParser
  split
  case isFalse => exact h.flushCaches
  case isTrue =>
    dsimp only
    have hnew : s.parser s.allocated = none := h.parser s.allocated (Nat.le_refl _)
    have hold : ∀ {id p}, s.parser id = some p → id ≠ s.allocated := by
      rintro id p hp rfl
      rw [hnew] at hp
      cases hp
    have hslots : ∀ {i id}, s.cachedParsers i = some id → id ≠ s.allocated := by
      intro i id hi
      obtain ⟨-, p, hp⟩ := h.slot hi
      exact hold hp
    have hcases : ∀ {id p}, (if id = s.allocated then some
        ({ pathname := name
           timestamp := s.timestamp + 1
           owner := task
           fileDescriptor := { handle := s.os.opened, valid := true } } : CachedParser Name)
        else s.parser id) = some p →
        id = s.allocated ∧ p.fileDescriptor = { handle := s.os.opened, valid := true } ∧
          p.collected = false ∨ id ≠ s.allocated ∧ s.parser id = some p := by
      intro id p hp
      split at hp
      case isTrue hid =>
        cases hp
        exact .inl ⟨hid, rfl, rfl⟩
      case isFalse hid => exact .inr ⟨hid, hp⟩
    constructor
    · exact congrArg (· + 1) h.opened
    · intro id hid
      have hid : s.allocated + 1 ≤ id := hid
      exact (if_neg (by omega)).trans (h.parser id (by omega))
    · intro id hid
      have hid : id < s.allocated + 1 := hid
      by_cases hlast : id = s.allocated
      · exact ⟨_, if_pos hlast⟩
      · obtain ⟨p, hp⟩ := h.known id (by omega)
        exact ⟨p, (if_neg hlast).trans hp⟩
    · intro id p hp
      rcases hcases hp with ⟨rfl, hdesc, -⟩ | ⟨-, hp⟩
      · rw [hdesc]
        exact h.opened
      · exact h.handle hp
    · intro id p hp
      rcases hcases hp with ⟨rfl, hdesc, -⟩ | ⟨-, hp⟩
      · rw [hdesc, if_pos rfl]
        exact h.unopened _ (Nat.le_refl _)
      · exact h.closes hp
    · intro k hk
      exact h.unopened k (Nat.le_of_succ_le hk)
    · intro id p hp
      show _ ↔ p.collected = false ∧ Held s.cachedParsers (some s.allocated) id
      rcases hcases hp with ⟨rfl, hdesc, hlive⟩ | ⟨hid, hp⟩
      · rw [hdesc, hlive]
        exact ⟨fun _ => ⟨rfl, .inr rfl⟩, fun _ => rfl⟩
      · rw [h.valid hp, hidle]
        have hpend : (some s.allocated = some id) = ((none : Option Nat) = some id) := by
          apply propext
          constructor
          · intro heq
            exact absurd (Option.some.inj heq).symm hid
          · nofun
        unfold Held
        rw [hpend]
    · intro i id hi
      obtain ⟨hlt, p, hp⟩ := h.slot hi
      exact ⟨hlt, p, (if_neg (hold hp)).trans hp⟩
    · intro i j id hi hj
      exact h.distinct hi hj
    · intro id hid
      obtain rfl : s.allocated = id := Option.some.inj hid
      exact ⟨fun i hi => hslots hi rfl, _, if_pos rfl, rfl⟩

theorem findSlot_lt (n i found : Nat) (oldest : Int) (hfound : found < MAX_CACHED_PARSERS)
    (hi : i + n ≤ MAX_CACHED_PARSERS) : s.findSlot n i found oldest < MAX_CACHED_PARSERS := by
  induction n generalizing i found oldest with
  | zero => exact hfound
  | succ n ih =>
    unfold findSlot
    split
    · omega
    · split
      · omega
      · split
        · exact ih (i + 1) i _ (by omega) (by omega)
        · exact ih (i + 1) found _ hfound (by omega)

theorem max_le : max maxCachedJarParsers ≤ MAX_CACHED_PARSERS := by
  unfold max
  split
  · exact Nat.le_refl _
  · omega

theorem dispose_pending (i : Nat) : (s.dispose i).pending = s.pending := by
  unfold ParserCache.dispose
  split
  · rfl
  · dsimp only
    split
    · unfold disposeDescriptor
      split
      · rfl
      · rfl
    · rfl

theorem dispose_slot (i : Nat) : (s.dispose i).cachedParsers i = none := by
  unfold ParserCache.dispose
  split
  · assumption
  · exact if_pos rfl

/-- The new parser moves to its slot. -/
theorem Inv.save (h : Inv s) {id : Nat} (hid : s.pending = some id) :
    Inv { s.saveParserInCache maxCachedJarParsers id with pending := none } := by
  unfold saveParserInCache
  dsimp only
  generalize hfound : s.findSlot (max maxCachedJarParsers) 0 0 2147483647 = found
  have hlt : found < MAX_CACHED_PARSERS := by
    rw [← hfound]
    exact findSlot_lt _ 0 0 _ (by decide) (by rw [Nat.zero_add]; exact max_le)
  have ht := h.dispose found
  have hpend : (s.dispose found).pending = some id := (dispose_pending found).trans hid
  have hempty := @dispose_slot _ s found
  generalize s.dispose found = t at ht hpend hempty
  obtain ⟨hfresh, p, hp, hlive⟩ := ht.fresh hpend
  have hslots : ∀ {i k}, (if i = found then some id else t.cachedParsers i) = some k →
      i = found ∧ k = id ∨ i ≠ found ∧ t.cachedParsers i = some k := by
    intro i k hk
    split at hk
    case isTrue hi => exact .inl ⟨hi, (Option.some.inj hk).symm⟩
    case isFalse hi => exact .inr ⟨hi, hk⟩
  refine ⟨ht.opened, ht.parser, ht.known, ht.handle, ht.closes, ht.unopened, ?_, ?_, ?_, nofun⟩
  · intro k q hq
    rw [ht.valid hq]
    have hheld : Held t.cachedParsers t.pending k ↔
        Held (fun i => if i = found then some id else t.cachedParsers i) none k := by
      constructor
      · rintro (⟨i, hi⟩ | hk)
        · refine .inl ⟨i, (if_neg fun heq => ?_).trans hi⟩
          rw [heq, hempty] at hi
          cases hi
        · rw [hpend] at hk
          exact .inl ⟨found, (if_pos rfl).trans hk⟩
      · rintro (⟨i, hi⟩ | hk)
        · rcases hslots hi with ⟨-, rfl⟩ | ⟨-, hi⟩
          · exact .inr hpend
          · exact .inl ⟨i, hi⟩
        · cases hk
    rw [hheld]
  · intro i k hk
    rcases hslots hk with ⟨rfl, rfl⟩ | ⟨-, hi⟩
    · exact ⟨hlt, p, hp⟩
    · exact ht.slot hi
  · intro i j k hi hj
    rcases hslots hi with ⟨hi', rfl⟩ | ⟨-, hi'⟩
    · rcases hslots hj with ⟨hj', -⟩ | ⟨-, hj'⟩
      · rw [hi', hj']
      · exact absurd hj' (hfresh j)
    · rcases hslots hj with ⟨-, rfl⟩ | ⟨-, hj'⟩
      · exact absurd hi' (hfresh i)
      · exact ht.distinct hi' hj'

theorem Inv.touch (h : Inv s) (id : Nat) : Inv (s.touch id) := by
  unfold ParserCache.touch
  cases hp : s.parser id with
  | none => exact h
  | some p =>
    dsimp only
    have hid : id < s.allocated := by
      by_contra hle
      rw [h.parser id (Nat.not_lt.1 hle)] at hp
      cases hp
    have hcases : ∀ {k q}, (if k = id then some { p with timestamp := s.timestamp + 1 }
        else s.parser k) = some q → ∃ q', s.parser k = some q' ∧
          q.fileDescriptor = q'.fileDescriptor ∧ q.collected = q'.collected := by
      intro k q hq
      split at hq
      case isTrue hk =>
        cases hq
        exact ⟨p, hk ▸ hp, rfl, rfl⟩
      case isFalse => exact ⟨q, hq, rfl, rfl⟩
    have hthere : ∀ {k q}, s.parser k = some q → ∃ q', (if k = id then
        some { p with timestamp := s.timestamp + 1 } else s.parser k) = some q' ∧
          q'.collected = q.collected := by
      intro k q hq
      by_cases hk : k = id
      · subst hk
        obtain rfl := Option.some.inj (hp.symm.trans hq)
        exact ⟨_, if_pos rfl, rfl⟩
      · exact ⟨q, (if_neg hk).trans hq, rfl⟩
    constructor
    · exact h.opened
    · intro k hk
      have hk : s.allocated ≤ k := hk
      exact (if_neg (by omega)).trans (h.parser k hk)
    · intro k hk
      obtain ⟨q, hq⟩ := h.known k hk
      obtain ⟨q', hq', -⟩ := hthere hq
      exact ⟨q', hq'⟩
    · intro k q hq
      obtain ⟨q', hq', hdesc, -⟩ := hcases hq
      rw [hdesc]
      exact h.handle hq'
    · intro k q hq
      obtain ⟨q', hq', hdesc, -⟩ := hcases hq
      rw [hdesc]
      exact h.closes hq'
    · exact h.unopened
    · intro k q hq
      obtain ⟨q', hq', hdesc, hcollected⟩ := hcases hq
      rw [hdesc, hcollected]
      exact h.valid hq'
    · intro i k hk
      obtain ⟨hi, q, hq⟩ := h.slot hk
      obtain ⟨q', hq', -⟩ := hthere hq
      exact ⟨hi, q', hq'⟩
    · exact h.distinct
    · intro k hk
      obtain ⟨hfresh, q, hq, hlive⟩ := h.fresh hk
      obtain ⟨q', hq', hsame⟩ := hthere hq
      exact ⟨hfresh, q', hq', hsame.trans hlive⟩

/-! ## The budget -/

/-- **A handle that is open belongs to a parser in the cache or to the one being set up.** -/
theorem Inv.held_of_open (h : Inv s) {k : Nat} (hk : k ∈ s.os.openHandles) :
    Held s.cachedParsers s.pending k := by
  unfold OsHandles.openHandles at hk
  rw [List.mem_filter, List.mem_range, decide_eq_true_eq] at hk
  obtain ⟨hlt, hopen⟩ := hk
  rw [h.opened] at hlt
  obtain ⟨p, hp⟩ := h.known k hlt
  have hcloses := h.closes hp
  rw [hopen] at hcloses
  have hvalid : p.fileDescriptor.valid = true := by
    by_contra hno
    rw [if_neg hno] at hcloses
    cases hcloses
  exact ((h.valid hp).1 hvalid).2

/-- The parsers in the cache and the one being set up. -/
def holders (s : ParserCache Name) : List Nat :=
  s.pending.toList ++ (List.range MAX_CACHED_PARSERS).filterMap s.cachedParsers

theorem Inv.openHandles_length (h : Inv s) : s.os.openHandles.length ≤ MAX_CACHED_PARSERS + 1 := by
  have hnodup : s.os.openHandles.Nodup := List.nodup_range.filter _
  have hsubset : s.os.openHandles ⊆ holders s := by
    intro k hk
    unfold holders
    rw [List.mem_append, Option.mem_toList, List.mem_filterMap]
    rcases h.held_of_open hk with ⟨i, hi⟩ | hpend
    · exact .inr ⟨i, List.mem_range.2 (h.slot hi).1, hi⟩
    · exact .inl hpend
  have hle : (holders s).length ≤ 1 + MAX_CACHED_PARSERS := by
    unfold holders
    rw [List.length_append]
    have hslots := List.length_filterMap_le s.cachedParsers (List.range MAX_CACHED_PARSERS)
    rw [List.length_range] at hslots
    cases s.pending with
    | none =>
      rw [Option.toList_none, List.length_nil]
      omega
    | some id =>
      rw [Option.toList_some, List.length_singleton]
      omega
  have hcard := (hnodup.subperm hsubset).length_le
  omega

/-- The parser has not been collected, and is in the cache or being set up. -/
def InUse (s : ParserCache Name) (id : Nat) (p : CachedParser Name) : Prop :=
  p.collected = false ∧ Held s.cachedParsers s.pending id

/-- The handles of evicted, flushed and collected parsers have been closed once and the others not
yet, and no more are open than the cache is meant to use. -/
structure Budget (s : ParserCache Name) : Prop where
  unclosed : ∀ id p, s.parser id = some p → InUse s id p → s.os.closes p.fileDescriptor.handle = 0
  once : ∀ id p, s.parser id = some p → ¬ InUse s id p → s.os.closes p.fileDescriptor.handle = 1
  few : s.os.openHandles.length ≤ MAX_CACHED_PARSERS + 1

theorem Inv.budget (h : Inv s) : Budget s := by
  refine ⟨fun id p hp huse => ?_, fun id p hp huse => ?_, h.openHandles_length⟩
  · rw [h.handle hp, h.closes hp, if_pos ((h.valid hp).2 huse)]
  · rw [h.handle hp, h.closes hp, if_neg (fun hvalid => huse ((h.valid hp).1 hvalid))]

/-! ## Runs -/

/-- Before the first `get`. -/
def initial (Name : Type) (limit others : Nat) : ParserCache Name :=
  { os := { limit := limit, others := others } }

theorem inv_initial (limit others : Nat) : Inv (initial Name limit others) := by
  refine ⟨rfl, fun _ _ => rfl, ?_, nofun, nofun, fun _ _ => rfl, nofun, nofun, nofun, nofun⟩
  intro id hid
  exact absurd hid (Nat.not_lt_zero id)

/-- The handles of the cached parsers. -/
def cachedHandles (s : ParserCache Name) : List Nat :=
  (List.range MAX_CACHED_PARSERS).filterMap fun i =>
    (s.cachedParsers i).bind fun id => (s.refObject id).map fun p => p.fileDescriptor.handle

/-- There would be a free handle if the handles of the cached parsers were closed. -/
def ClosingHelps (s : ParserCache Name) : Prop :=
  (s.os.openHandles.filter fun k => k ∉ s.cachedHandles).length + s.os.others < s.os.limit

/-- `get` fails for lack of a handle where closing the cached ones would have made one available. -/
def Starves (s : ParserCache Name) : Event Name → Prop
  | .openFile _ _ dead result => result = none ∧ ClosingHelps (s.collect dead)
  | _ => False

/-- No handle is free when `get` opens the file, and the cached parsers have some. -/
def Full (s : ParserCache Name) : Event Name → Prop
  | .openFile _ _ dead _ => ¬ (s.collect dead).os.hasFree ∧ ClosingHelps (s.collect dead)
  | _ => False

variable [DecidableEq Name]

/-- **Every step keeps the invariant.** -/
theorem Inv.step (h : Inv s) {e : Event Name} {s' : ParserCache Name}
    (hstep : s.Step maxCachedJarParsers e s') : Inv s' := by
  cases e with
  | hit task name id =>
    obtain ⟨-, -, rfl⟩ := hstep
    exact h.touch id
  | openFile task name dead result =>
    obtain ⟨hidle, -, hopen⟩ := hstep
    obtain ⟨hcollect, hpend⟩ := @Inv.collect _ s h dead (by
      intro id hid
      rw [hidle] at hid
      cases hid)
    have hinv := @Inv.openParser _ maxCachedJarParsers _ hcollect (hpend.trans hidle) task name
    rw [hopen] at hinv
    exact hinv
  | save id =>
    obtain ⟨hid, rfl⟩ := hstep
    exact h.save hid
  | collect dead =>
    obtain ⟨hpending, rfl⟩ := hstep
    exact (h.collect hpending).1
  | flush =>
    obtain ⟨-, rfl⟩ := hstep
    exact h.flushCaches
  | others n =>
    obtain rfl := hstep
    exact ⟨h.opened, h.parser, h.known, h.handle, h.closes, h.unopened, h.valid, h.slot, h.distinct,
      h.fresh⟩

/-- Opening fails for lack of a handle only. -/
theorem starves_iff {e : Event Name} {s' : ParserCache Name}
    (hstep : s.Step maxCachedJarParsers e s') : Starves s e ↔ Full s e := by
  cases e with
  | openFile task name dead result =>
    obtain ⟨-, -, hopen⟩ := hstep
    have hresult : result = none ↔ ¬ (s.collect dead).os.hasFree := by
      unfold openParser at hopen
      split at hopen
      case isTrue hfree =>
        obtain rfl := (Prod.mk.inj hopen).2
        exact ⟨nofun, fun hno => absurd hfree hno⟩
      case isFalse hfull =>
        obtain rfl := (Prod.mk.inj hopen).2
        exact ⟨fun _ => hfull, fun _ => rfl⟩
    exact and_congr hresult Iff.rfl
  | hit | save | collect | flush | others => exact Iff.rfl

end FroggyKVM.Zip.ParserCache
