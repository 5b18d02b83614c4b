/-
# FroggyKVM.Zip.ParserCache — the cached parsers of JAR files and their handles (`JarFileParser.cpp`).

A parser has a file descriptor, which closes its handle when it is disposed of: when the parser is
evicted from the cache, when the cache is flushed, or when the collector finalizes it.  The cache
refers to its parsers weakly.  Handles are numbered in the order in which they are opened, and every
close is counted.
-/
import FroggyKVM.Lib.Lts

namespace FroggyKVM.Zip

def MAX_CACHED_PARSERS : Nat := 4

/-! ## Handles -/

/-- The handles of the system: how many the VM has opened, how often each has been closed, how many
others have open, and how many there can be. -/
structure OsHandles where
  opened : Nat := 0
  closes : Nat → Nat := fun _ => 0
  others : Nat := 0
  limit : Nat

namespace OsHandles

/-- The handles the VM has open. -/
def openHandles (os : OsHandles) : List Nat := (List.range os.opened).filter fun h => os.closes h = 0

def hasFree (os : OsHandles) : Prop := os.openHandles.length + os.others < os.limit

instance (os : OsHandles) : Decidable os.hasFree := inferInstanceAs (Decidable (_ < _))

/-- `OsFile_close`. -/
def close (os : OsHandles) (h : Nat) : OsHandles :=
  { os with closes := fun k => if k = h then os.closes k + 1 else os.closes k }

end OsHandles

/-! ## Parsers -/

/-- `FileDescriptor`. -/
structure FileDescriptor where
  handle : Nat
  valid : Bool

/-- `JarFileParser`, with the task that owns its weak reference; `collected` once it is garbage. -/
structure CachedParser (Name : Type) where
  pathname : Name
  timestamp : Int
  owner : Nat
  fileDescriptor : FileDescriptor
  collected : Bool := false

/-- The static fields, the parsers that have been allocated, and the parser that `get` is setting
up. -/
structure ParserCache (Name : Type) where
  /-- `_cached_parsers`: the parser behind the reference in each slot. -/
  cachedParsers : Nat → Option Nat := fun _ => none
  timestamp : Int := 0
  allocated : Nat := 0
  parser : Nat → Option (CachedParser Name) := fun _ => none
  pending : Option Nat := none
  os : OsHandles

namespace ParserCache

variable {Name : Type} (maxCachedJarParsers : Nat)

/-- `const int max = ..`. -/
def max : Nat :=
  if MAX_CACHED_PARSERS < maxCachedJarParsers then MAX_CACHED_PARSERS else maxCachedJarParsers

/-- `get_global_ref_object` of a parser that has not been collected. -/
def refObject (s : ParserCache Name) (id : Nat) : Option (CachedParser Name) :=
  (s.parser id).filter fun p => !p.collected

def setParser (s : ParserCache Name) (id : Nat) (p : CachedParser Name) : ParserCache Name :=
  { s with parser := fun k => if k = id then some p else s.parser k }

/-- `FileDescriptor::dispose` of a parser's descriptor. -/
def disposeDescriptor (s : ParserCache Name) (id : Nat) (p : CachedParser Name) :
    ParserCache Name :=
  if p.fileDescriptor.valid then
    { s.setParser id { p with fileDescriptor := { p.fileDescriptor with valid := false } } with
      os := s.os.close p.fileDescriptor.handle }
  else s

/-- `JarFileParser::dispose(i)`. -/
def dispose (s : ParserCache Name) (i : Nat) : ParserCache Name :=
  match s.cachedParsers i with
  | none => s
  | some id =>
    let s := match s.refObject id with
      | some p => s.disposeDescriptor id p
      | none => s
    { s with cachedParsers := fun k => if k = i then none else s.cachedParsers k }

/-- The first slots of `flush_caches`. -/
def disposeUpTo (s : ParserCache Name) : Nat → ParserCache Name
  | 0 => s
  | n + 1 => (disposeUpTo s n).dispose n

/-- `flush_caches`. -/
def flushCaches (s : ParserCache Name) : ParserCache Name := s.disposeUpTo (max maxCachedJarParsers)

/-- The loop of `save_parser_in_cache` over the slots from `i` on, of which `n` are left. -/
def findSlot (s : ParserCache Name) : Nat → Nat → Nat → Int → Nat
  | 0, _, found, _ => found
  | n + 1, i, found, oldest =>
    match s.cachedParsers i with
    | none => i
    | some id =>
      match s.refObject id with
      | none => i
      | some p =>
        if p.timestamp < oldest then findSlot s n (i + 1) i p.timestamp
        else findSlot s n (i + 1) found oldest

/-- `save_parser_in_cache`. -/
def saveParserInCache (s : ParserCache Name) (id : Nat) : ParserCache Name :=
  let found := s.findSlot (max maxCachedJarParsers) 0 0 2147483647
  let s := s.dispose found
  { s with cachedParsers := fun k => if k = found then some id else s.cachedParsers k }

/-- The loop of `get_parser_from_cache` over the slots from `i` on, of which `n` are left. -/
def findParser [DecidableEq Name] (s : ParserCache Name) (task : Nat) (name : Name) : Nat → Nat → Option Nat
  | 0, _ => none
  | n + 1, i =>
    match s.cachedParsers i with
    | none => findParser s task name n (i + 1)
    | some id =>
      match s.refObject id with
      | none => findParser s task name n (i + 1)
      | some p =>
        if p.owner = task ∧ p.pathname = name then some id
        else findParser s task name n (i + 1)

/-- `++_timestamp` for a parser. -/
def touch (s : ParserCache Name) (id : Nat) : ParserCache Name :=
  match s.parser id with
  | some p => { s.setParser id { p with timestamp := s.timestamp + 1 } with
      timestamp := s.timestamp + 1 }
  | none => s

/-- A parser is garbage: the finalizer of its descriptor runs, and it is collected. -/
def collectOne (s : ParserCache Name) (id : Nat) (p : CachedParser Name) : ParserCache Name :=
  let s := s.disposeDescriptor id p
  match s.parser id with
  | some p => s.setParser id { p with collected := true }
  | none => s

/-- The collector finds some of the parsers below `n` unreachable. -/
def collectBelow (s : ParserCache Name) (dead : Nat → Bool) : Nat → ParserCache Name
  | 0 => s
  | n + 1 =>
    let s := collectBelow s dead n
    match s.refObject n with
    | some p => if dead n then s.collectOne n p else s
    | none => s

def collect (s : ParserCache Name) (dead : Nat → Bool) : ParserCache Name :=
  s.collectBelow dead s.allocated

/-- `OsFile_open` and the setting up of the parser; without a free handle the second attempt fails
too, the cache is flushed, and `get` returns without a parser. -/
def openParser (s : ParserCache Name) (task : Nat) (name : Name) : ParserCache Name × Option Nat :=
  if s.os.hasFree then
    let id := s.allocated
    let p : CachedParser Name :=
      { pathname := name
        timestamp := s.timestamp + 1
        owner := task
        fileDescriptor := { handle := s.os.opened, valid := true } }
    ({ s.setParser id p with
      timestamp := s.timestamp + 1
      allocated := s.allocated + 1
      pending := some id
      os := { s.os with opened := s.os.opened + 1 } }, some id)
  else (s.flushCaches maxCachedJarParsers, none)

/-! ## Runs -/

/-- What happens to the cache. -/
inductive Event (Name : Type) where
  /-- `get` finds the parser in the cache. -/
  | hit (task : Nat) (name : Name) (id : Nat)
  /-- `get` finds none, allocates objects, which may collect parsers, and tries to open the file. -/
  | openFile (task : Nat) (name : Name) (dead : Nat → Bool) (result : Option Nat)
  /-- `get` puts the new parser into the cache and returns. -/
  | save (id : Nat)
  | collect (dead : Nat → Bool)
  | flush
  /-- Others open and close files. -/
  | others (n : Nat)

/-- The files are there and well formed, so that `get` fails for lack of a handle only. -/
def Step [DecidableEq Name] (s : ParserCache Name) : Event Name → ParserCache Name → Prop
  | .hit task name id, s' =>
    s.pending = none ∧ s.findParser task name (max maxCachedJarParsers) 0 = some id ∧ s.touch id = s'
  | .openFile task name dead result, s' =>
    s.pending = none ∧ s.findParser task name (max maxCachedJarParsers) 0 = none ∧
      (s.collect dead).openParser maxCachedJarParsers task name = (s', result)
  | .save id, s' =>
    s.pending = some id ∧ { s.saveParserInCache maxCachedJarParsers id with pending := none } = s'
  | .collect dead, s' => (∀ id, s.pending = some id → dead id = false) ∧ s.collect dead = s'
  | .flush, s' => s.pending = none ∧ s.flushCaches maxCachedJarParsers = s'
  | .others n, s' => { s with os := { s.os with others := n } } = s'

end ParserCache

end FroggyKVM.Zip
