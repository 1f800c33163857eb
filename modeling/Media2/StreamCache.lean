import Media2.StreamData

/-!
# The stream cache

The cache maps printed job ids to streams. A lookup by segment makes the stream
that is missing; every lookup that finds its stream renews the time of expiry,
and a thread of the cache removes the entries whose time has passed.

## Implementation notes

Points in time are counts of the ticks of `system_clock`, which has 64 bits for
them. A sum here is the one that the code computes as long as the reading of the
clock plus `expSeconds`, both of them signed 64-bit integers, is one too. The
counter `made` numbers the streams that the cache makes, so that each of them has
an address of its own.
-/

namespace Media2

/-- `system_clock::period`: the ticks in a second. -/
def ticksPerSecond : Int := 1000000000

structure StreamCacheRecord where
  stream : Stream
  expires : Int
  deriving DecidableEq

structure StreamCache where
  expSeconds : Int
  cache : String → Option StreamCacheRecord
  made : Nat

namespace StreamCache

def create (expSeconds : Int) : StreamCache where
  expSeconds := expSeconds
  cache := fun _ => none
  made := 0

/-- `cache[key] = record`. -/
def put (c : StreamCache) (key : String) (record : StreamCacheRecord) : StreamCache :=
  { c with cache := fun k => if k = key then some record else c.cache k }

/-- `now + duration(expSeconds)`: the constructor of `duration` takes ticks. -/
def expiry (c : StreamCache) (now : Int) : Int := now + c.expSeconds

/-- Refresh the expiry of an entry. -/
def renew (c : StreamCache) (now : Int) (key : String) (record : StreamCacheRecord) :
    StreamCache :=
  c.put key { record with expires := c.expiry now }

/-- Insert a stream that was just made. -/
def insertNew (c : StreamCache) (now : Int) (key : String) (stream : Stream) : StreamCache :=
  { c with made := c.made + 1 }.put key ⟨stream, c.expiry now⟩

/-- `get(jobId)`, with the time at which it reads the clock. -/
def get (c : StreamCache) (now : Int) (jobId : Uuid) : StreamCache × Option Stream :=
  match c.cache jobId.unparse with
  | some record => (c.renew now jobId.unparse record, some record.stream)
  | none => (c, none)

/-- `get(Segment*)`. Making a stream may throw before anything is inserted. -/
def getSegment (libav : Libav) (c : StreamCache) (now : Int) (seg : Segment) :
    Except Fault (StreamCache × Stream) :=
  match c.cache seg.jobId.unparse with
  | some record => .ok (c.renew now seg.jobId.unparse record, record.stream)
  | none => do
      let stream ← Stream.ofSegment libav c.made seg
      pure (c.insertNew now seg.jobId.unparse stream, stream)

/-- Erase the entries under the given keys. -/
def erase (c : StreamCache) (doomed : String → Bool) : StreamCache :=
  { c with cache := fun key => if doomed key then none else c.cache key }

/-- The test that the cleanup thread makes on an entry. -/
def expired (c : StreamCache) (now : String → Int) (key : String) : Bool :=
  match c.cache key with
  | some record => decide (record.expires < now key)
  | none => false

/-- One pass of `expireEntries`, which reads the clock anew for every entry. -/
def expireEntries (c : StreamCache) (now : String → Int) : StreamCache :=
  c.erase (c.expired now)

section Lemmas

variable (c : StreamCache)

@[simp] theorem put_same (key : String) (record : StreamCacheRecord) :
    (c.put key record).cache key = some record := if_pos rfl

theorem put_other {key k : String} (h : k ≠ key) (record : StreamCacheRecord) :
    (c.put key record).cache k = c.cache k := if_neg h

@[simp] theorem renew_same (now : Int) (key : String) (record : StreamCacheRecord) :
    (c.renew now key record).cache key = some { record with expires := c.expiry now } :=
  put_same c key _

theorem renew_other (now : Int) {key k : String} (h : k ≠ key) (record : StreamCacheRecord) :
    (c.renew now key record).cache k = c.cache k := put_other c h _

@[simp] theorem renew_made (now : Int) (key : String) (record : StreamCacheRecord) :
    (c.renew now key record).made = c.made := rfl

@[simp] theorem insertNew_same (now : Int) (key : String) (stream : Stream) :
    (c.insertNew now key stream).cache key = some ⟨stream, c.expiry now⟩ := put_same _ key _

theorem insertNew_other (now : Int) {key k : String} (h : k ≠ key) (stream : Stream) :
    (c.insertNew now key stream).cache k = c.cache k := put_other _ h _

@[simp] theorem insertNew_made (now : Int) (key : String) (stream : Stream) :
    (c.insertNew now key stream).made = c.made + 1 := rfl

@[simp] theorem erase_made (doomed : String → Bool) : (c.erase doomed).made = c.made := rfl

theorem erase_eq_some {doomed : String → Bool} {key : String} {record : StreamCacheRecord}
    (h : (c.erase doomed).cache key = some record) :
    doomed key = false ∧ c.cache key = some record := by
  simp only [erase] at h
  split at h
  · cases h
  · rename_i hdoomed
    exact ⟨by simpa using hdoomed, h⟩

/-- A pass removes exactly the entries whose time has passed. -/
theorem expireEntries_cache {key : String} {record : StreamCacheRecord}
    (h : c.cache key = some record) (now : String → Int) :
    (c.expireEntries now).cache key = none ↔ record.expires < now key := by
  simp [expireEntries, erase, expired, h]

/-- A pass keeps the other entries as they are. -/
theorem expireEntries_eq_some {now : String → Int} {key : String} {record : StreamCacheRecord} :
    (c.expireEntries now).cache key = some record ↔
      c.cache key = some record ∧ ¬ record.expires < now key := by
  cases h : c.cache key with
  | none => simp [expireEntries, erase, h]
  | some r =>
      by_cases hdue : r.expires < now key
      · simp only [expireEntries, erase, expired, h, hdue]
        simp only [decide_true, if_true, reduceCtorEq, Option.some.injEq, false_iff, not_and]
        rintro rfl hnot
        exact hnot hdue
      · simp only [expireEntries, erase, expired, h, hdue]
        simp only [decide_false, Bool.false_eq_true, if_false, Option.some.injEq, iff_self_and]
        rintro rfl
        exact hdue

theorem get_hit {now : Int} {jobId : Uuid} {record : StreamCacheRecord}
    (h : c.cache jobId.unparse = some record) :
    c.get now jobId = (c.renew now jobId.unparse record, some record.stream) := by
  simp only [get, h]

theorem get_miss {now : Int} {jobId : Uuid} (h : c.cache jobId.unparse = none) :
    c.get now jobId = (c, none) := by
  simp only [get, h]

theorem getSegment_hit (libav : Libav) {now : Int} {seg : Segment} {record : StreamCacheRecord}
    (h : c.cache seg.jobId.unparse = some record) :
    c.getSegment libav now seg = .ok (c.renew now seg.jobId.unparse record, record.stream) := by
  simp only [getSegment, h]

/-- On a miss a lookup by segment makes the next stream and inserts it, or throws. -/
theorem getSegment_miss {libav : Libav} {now : Int} {seg : Segment} {c' : StreamCache}
    {stream : Stream} (h : c.cache seg.jobId.unparse = none)
    (hget : c.getSegment libav now seg = .ok (c', stream)) :
    Stream.ofSegment libav c.made seg = .ok stream ∧
      c' = c.insertNew now seg.jobId.unparse stream := by
  simp only [getSegment, h] at hget
  cases hof : Stream.ofSegment libav c.made seg with
  | error e => simp [hof, bind, Except.bind] at hget
  | ok made =>
      simp only [hof, bind, Except.bind, pure, Except.pure, Except.ok.injEq, Prod.mk.injEq] at hget
      obtain ⟨rfl, rfl⟩ := hget
      exact ⟨rfl, rfl⟩

/-- The stream that is cached under a key. -/
def streamOf (key : String) : Option Stream := (c.cache key).map StreamCacheRecord.stream

theorem streamOf_eq_some {key : String} {record : StreamCacheRecord}
    (h : c.cache key = some record) : c.streamOf key = some record.stream := by
  simp only [streamOf, h, Option.map_some]

theorem streamOf_eq_none {key : String} : c.streamOf key = none ↔ c.cache key = none := by
  simp only [streamOf, Option.map_eq_none_iff]

theorem renew_streamOf (now : Int) {key : String} {record : StreamCacheRecord}
    (h : c.cache key = some record) : (c.renew now key record).streamOf = c.streamOf := by
  funext k
  by_cases hk : k = key
  · subst hk
    simp only [streamOf, renew_same, h, Option.map_some]
  · simp only [streamOf, renew_other c now hk]

theorem insertNew_streamOf (now : Int) (key : String) (stream : Stream) :
    (c.insertNew now key stream).streamOf =
      fun k => if k = key then some stream else c.streamOf k := by
  funext k
  by_cases hk : k = key
  · subst hk
    simp only [streamOf, insertNew_same, if_true, Option.map_some]
  · simp only [streamOf, insertNew_other c now hk, if_neg hk]

theorem erase_streamOf (doomed : String → Bool) :
    (c.erase doomed).streamOf = fun k => if doomed k then none else c.streamOf k := by
  funext k
  simp only [streamOf, erase]
  split <;> rfl

end Lemmas

/-- Streams are cached under their own job's name, each numbered by the counter. -/
structure Sound (streams : String → Option Stream) (made : Nat) : Prop where
  named : ∀ key stream, streams key = some stream → stream.name = some key
  numbered : ∀ key stream, streams key = some stream → stream.id < made
  apart : ∀ key key' stream stream', streams key = some stream → streams key' = some stream' →
    stream.id = stream'.id → key = key'

theorem create_sound (expSeconds : Int) :
    Sound (create expSeconds).streamOf (create expSeconds).made where
  named := by
    intro key stream heq
    cases heq
  numbered := by
    intro key stream heq
    cases heq
  apart := by
    intro key key' stream stream' heq
    cases heq

theorem Sound.insert {streams : String → Option Stream} {made : Nat} (h : Sound streams made)
    {libav : Libav} {seg : Segment} {stream : Stream}
    (hstream : Stream.ofSegment libav made seg = .ok stream) :
    Sound (fun k => if k = seg.jobId.unparse then some stream else streams k) (made + 1) := by
  obtain ⟨hid, data, hdata, hrebuilt⟩ := Stream.ofSegment_ok hstream
  constructor
  · intro key s hs
    split at hs
    · rename_i hkey
      obtain rfl := Option.some.inj hs
      rw [Stream.name, hdata, Option.map_some, hrebuilt.filename, hkey]
    · exact h.named key s hs
  · intro key s hs
    split at hs
    · obtain rfl := Option.some.inj hs
      rw [hid]
      exact Nat.lt_succ_self made
    · exact Nat.lt_succ_of_lt (h.numbered key s hs)
  · intro key key' s s' hs hs' heq
    have hold := h.numbered key s
    have hold' := h.numbered key' s'
    split at hs <;> split at hs'
    · rename_i hkey hkey'
      rw [hkey, hkey']
    · obtain rfl := Option.some.inj hs
      have hlt := hold' hs'
      omega
    · obtain rfl := Option.some.inj hs'
      have hlt := hold hs
      omega
    · exact h.apart key key' s s' hs hs' heq

theorem Sound.erase {streams : String → Option Stream} {made : Nat} (h : Sound streams made)
    (doomed : String → Bool) : Sound (fun k => if doomed k then none else streams k) made := by
  have hkeep : ∀ key stream, (if doomed key then none else streams key) = some stream →
      streams key = some stream := by
    intro key stream hs
    split at hs
    · cases hs
    · exact hs
  constructor
  · exact fun key s hs => h.named key s (hkeep key s hs)
  · exact fun key s hs => h.numbered key s (hkeep key s hs)
  · exact fun key key' s s' hs hs' => h.apart key key' s s' (hkeep key s hs) (hkeep key' s' hs')

end StreamCache

end Media2
