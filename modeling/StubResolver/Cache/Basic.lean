import StubResolver.Address.Socket
import StubResolver.Cache.Config
import StubResolver.Message.Basic

/-!
# The response cache

Responses are kept by server and question for as long as their smallest time to live,
or a configured minimum if that is longer. A response taken from the cache has aged
by the whole seconds it was kept, while the one that is stored stays as it was.
Expired responses go when they are looked up, and a sweep over the whole cache goes
with a successful look-up or a new entry if the last one is long enough ago.

Looking up takes two steps, `find` and the removal of what it found expired, and so
does a sweep: other calls may come between them.
-/

namespace StubResolver

/-- What a response is kept by. Names count in lower case presentation format. -/
structure CacheKey where
  server : SocketAddress
  name : String
  recordClass : RecordClass
  type : RecordType
  deriving DecidableEq

def CacheKey.of (server : SocketAddress) (question : Question) : CacheKey :=
  ⟨server, question.name.canonicalText, question.recordClass, question.type⟩

structure CacheEntry where
  storedAt : Instant
  validFor : Duration
  response : Message
  deriving DecidableEq

namespace CacheEntry

def age (e : CacheEntry) (now : Instant) : Duration := now - e.storedAt

def isExpired (e : CacheEntry) (now : Instant) : Bool := e.validFor ≤ e.age now

def responseAt (e : CacheEntry) (now : Instant) : Message :=
  e.response.aged (min (e.age now).seconds 0xFFFFFFFF).toUInt32

end CacheEntry

/-! ## How long a response is valid -/

/-- The validity for an infinite minimum: all milliseconds that 31 bits can count. -/
def infiniteValidity : Duration := .ofMillis 0x7FFFFFFF

def leastValidity : Duration := .ofSeconds 1

def raiseToMinimum (minimum : Option MinimumTtl) (ttl : Duration) : Duration :=
  match minimum with
  | none => ttl
  | some (.duration d) => max ttl d
  | some .infinite => infiniteValidity

/-- How long a response may be kept, if at all: it
may have no error code and not be cut short. -/
def validity? (config : CacheConfig) (response : Message) : Option Duration :=
  if response.hasError || response.isTruncated then none
  else
    match response.minTtl? with
    | none => none
    | some ttl =>
      let validity := raiseToMinimum config.minimumTtl (.ofSeconds ttl.toNat)
      if validity < leastValidity then none else some validity

/-! ## The cache -/

/-- How far a background sweep has got. A sweep that is dropped
before it has begun leaves the flag that one is running. -/
inductive SweepTask where
  | idle
  | waiting
  | running
  deriving DecidableEq

structure Sweeps where
  flagged : Bool
  task : SweepTask
  /-- When the last sweep was started, or the cache was made. -/
  lastStart : Instant
  deriving DecidableEq

structure Cache where
  config : CacheConfig
  background : Bool
  entries : List (CacheKey × CacheEntry)
  sweeps : Sweeps
  deriving DecidableEq

namespace Cache

def empty (config : CacheConfig) (background : Bool) (now : Instant) : Cache :=
  ⟨config, background, [], ⟨false, .idle, now⟩⟩

def size (c : Cache) : Nat := c.entries.length

def isEmpty (c : Cache) : Bool := c.entries.isEmpty

def entry? (c : Cache) (key : CacheKey) : Option CacheEntry := c.entries.lookup key

def erase (c : Cache) (key : CacheKey) : Cache :=
  { c with entries := c.entries.filter fun entry => entry.1 ≠ key }

/-- Puts an entry in place of an old one, or as a new one. Which entries a full cache
keeps is decided by the library that holds them. That it takes no new ones is a
stand-in for that decision, and no result depends on it. -/
def insert (c : Cache) (key : CacheKey) (entry : CacheEntry) : Cache :=
  let others := (c.erase key).entries
  if others.length < c.config.maxEntries then { c with entries := (key, entry) :: others } else c

/-! ## Sweeps -/

def expiredKeys (c : Cache) (now : Instant) : List CacheKey :=
  (c.entries.filter fun entry => entry.2.isExpired now).map Prod.fst

def cleanup (c : Cache) (now : Instant) : Nat × Cache :=
  let keys := c.expiredKeys now
  (keys.length, keys.foldl erase c)

def startSweepIfDue (c : Cache) (now : Instant) : Cache :=
  if now - c.sweeps.lastStart < c.config.sweepInterval || !c.background || c.sweeps.flagged then c
  else { c with sweeps := ⟨true, .waiting, now⟩ }

def beginSweep (c : Cache) : Cache :=
  if c.sweeps.task = .waiting then { c with sweeps := { c.sweeps with task := .running } } else c

def finishSweep (c : Cache) (now : Instant) : Cache :=
  if c.sweeps.task = .idle then c
  else { (c.cleanup now).2 with sweeps := ⟨false, .idle, c.sweeps.lastStart⟩ }

/-- The background ends while a sweep is waiting or running. -/
def dropSweep (c : Cache) : Cache :=
  match c.sweeps.task with
  | .idle => c
  | .waiting => { c with sweeps := { c.sweeps with task := .idle } }
  | .running => { c with sweeps := ⟨false, .idle, c.sweeps.lastStart⟩ }

/-! ## Look-up and storage -/

inductive Found where
  | nothing
  | expired
  | hit (response : Message)

def find (c : Cache) (key : CacheKey) (now : Instant) : Found :=
  match c.entry? key with
  | none => .nothing
  | some entry => if entry.isExpired now then .expired else .hit (entry.responseAt now)

def get (c : Cache) (key : CacheKey) (now : Instant) : Option Message × Cache :=
  match c.find key now with
  | .nothing => (none, c)
  | .expired => (none, c.erase key)
  | .hit response => (some response, c.startSweepIfDue now)

def put (c : Cache) (key : CacheKey) (response : Message) (now : Instant) : Bool × Cache :=
  match validity? c.config response with
  | none => (false, c)
  | some validFor => (true, (c.insert key ⟨now, validFor, response⟩).startSweepIfDue now)

end Cache

end StubResolver
