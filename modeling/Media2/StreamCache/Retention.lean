import Mathlib.Data.List.Chain
import Media2.Foundation.Execution
import Media2.StreamCache

/-!
# Retention in the stream cache

A timed run is a list of lookups and cleanup passes. An entry's time of expiry is
always the time of the last lookup of its job plus `expSeconds` ticks, not
seconds, so a pass keeps every entry as promised unless it comes across one whose
age lies between the two.
-/

namespace Media2.StreamCache

open Execution

/-- The calls on a cache and the passes of its thread, with the clock readings
and with what libavcodec answers at the time. -/
inductive Op
  | get (now : Int) (jobId : Uuid)
  | getSegment (libav : Libav) (now : Int) (seg : Segment)
  | expire (now : String → Int)

/-- The operation reads the time `t` off the clock. -/
def Op.Reads : Op → Int → Prop
  | .get now _, t => t = now
  | .getSegment _ now _, t => t = now
  | .expire now, t => ∃ key, t = now key

/-- The clock does not go back. -/
def Chronological (ops : List Op) : Prop :=
  ops.Pairwise fun op op' => ∀ t t', op.Reads t → op'.Reads t' → t ≤ t'

/-- A lookup as its caller sees it, and whether it made the stream it returned. -/
structure Lookup where
  jobId : Uuid
  time : Int
  result : Option Stream
  created : Bool
  deriving DecidableEq

/-- A cache together with all the lookups so far. -/
structure Timeline where
  cache : StreamCache
  lookups : List Lookup

namespace Timeline

def start (expSeconds : Int) : Timeline := ⟨StreamCache.create expSeconds, []⟩

/-- One operation. A lookup that throws returns nothing to its caller. -/
def step (s : Timeline) : Op → Option Timeline
  | .get now jobId =>
      let (cache, result) := s.cache.get now jobId
      some ⟨cache, s.lookups ++ [⟨jobId, now, result, false⟩]⟩
  | .getSegment libav now seg =>
      match s.cache.getSegment libav now seg with
      | .ok (cache, stream) =>
          some ⟨cache, s.lookups ++
            [⟨seg.jobId, now, some stream, (s.cache.cache seg.jobId.unparse).isNone⟩]⟩
      | .error _ => some ⟨s.cache, s.lookups ++ [⟨seg.jobId, now, none, false⟩]⟩
  | .expire now => some ⟨s.cache.expireEntries now, s.lookups⟩

def lookupsOf (s : Timeline) (jobId : Uuid) : List Lookup :=
  s.lookups.filter fun l => l.jobId = jobId

/-- The entry of a job. -/
def entry (s : Timeline) (jobId : Uuid) : Option StreamCacheRecord :=
  s.cache.cache jobId.unparse

end Timeline

/-- An entry that the operation removes was last looked up more than `expSeconds`
seconds before. -/
def RemovesLate (expSeconds : Int) (s : Timeline) (op : Op) : Prop :=
  ∀ s', s.step op = some s' → ∀ jobId, s.entry jobId ≠ none → s'.entry jobId = none →
    ∃ now last, op = .expire now ∧ (s.lookupsOf jobId).getLast? = some last ∧
      expSeconds * ticksPerSecond < now jobId.unparse - last.time

/-- Retention in a timed run that ends in `s`. -/
structure Retention (expSeconds : Int) (ops : List Op) (s : Timeline) : Prop where
  same : ∀ jobId,
    (s.lookupsOf jobId).IsChain (fun l l' => l'.time - l.time ≤ expSeconds * ticksPerSecond) →
    (s.lookupsOf jobId).Pairwise fun l l' => l.created = true →
      ∃ stream, l.result = some stream ∧ l'.result = some stream
  late : Guarded Timeline.step (RemovesLate expSeconds) (Timeline.start expSeconds) ops

/-- A pass does not come across an entry that is older than `expSeconds` ticks but
not older than `expSeconds` seconds. -/
def PassesInTime (expSeconds : Int) (s : Timeline) (op : Op) : Prop :=
  ∀ now, op = .expire now → ∀ jobId, s.entry jobId ≠ none →
    ∀ last ∈ (s.lookupsOf jobId).getLast?,
      ¬ (expSeconds < now jobId.unparse - last.time ∧
        now jobId.unparse - last.time ≤ expSeconds * ticksPerSecond)

/-- What a lookup at `time` does to the cache: it renews the entry it finds, finds
none, or makes one. -/
inductive Looks (s : Timeline) (jobId : Uuid) (time : Int) : Lookup → StreamCache → Prop
  | hit (record : StreamCacheRecord) (h : s.entry jobId = some record) :
      Looks s jobId time ⟨jobId, time, some record.stream, false⟩
        (s.cache.renew time jobId.unparse record)
  | miss (h : s.entry jobId = none) : Looks s jobId time ⟨jobId, time, none, false⟩ s.cache
  | made (stream : Stream) (h : s.entry jobId = none) :
      Looks s jobId time ⟨jobId, time, some stream, true⟩
        (s.cache.insertNew time jobId.unparse stream)

/-- Every operation is a lookup or a pass. -/
theorem step_cases {s s' : Timeline} {op : Op} (h : s.step op = some s') :
    (∃ jobId time l, op.Reads time ∧ s'.lookups = s.lookups ++ [l] ∧
      Looks s jobId time l s'.cache) ∨
    ∃ now, op = .expire now ∧ s'.cache = s.cache.expireEntries now ∧ s'.lookups = s.lookups := by
  cases op with
  | get now jobId =>
      refine Or.inl ⟨jobId, now, ?_⟩
      simp only [Timeline.step] at h
      obtain rfl := Option.some.inj h
      cases hentry : s.cache.cache jobId.unparse with
      | none =>
          rw [get_miss s.cache hentry]
          exact ⟨_, rfl, rfl, Looks.miss hentry⟩
      | some record =>
          rw [get_hit s.cache hentry]
          exact ⟨_, rfl, rfl, Looks.hit record hentry⟩
  | getSegment libav now seg =>
      refine Or.inl ⟨seg.jobId, now, ?_⟩
      simp only [Timeline.step] at h
      cases hentry : s.cache.cache seg.jobId.unparse with
      | none =>
          cases hget : s.cache.getSegment libav now seg with
          | error e =>
              rw [hget] at h
              obtain rfl := Option.some.inj h
              exact ⟨_, rfl, rfl, Looks.miss hentry⟩
          | ok out =>
              obtain ⟨cache, stream⟩ := out
              obtain ⟨-, rfl⟩ := getSegment_miss s.cache hentry hget
              rw [hget] at h
              obtain rfl := Option.some.inj h
              simp only [hentry, Option.isNone_none]
              exact ⟨_, rfl, rfl, Looks.made stream hentry⟩
      | some record =>
          rw [getSegment_hit s.cache libav hentry] at h
          obtain rfl := Option.some.inj h
          simp only [hentry, Option.isNone_some]
          exact ⟨_, rfl, rfl, Looks.hit record hentry⟩
  | expire now =>
      obtain rfl := Option.some.inj h
      exact Or.inr ⟨now, rfl, rfl, rfl⟩

theorem lookupsOf_snoc {s s' : Timeline} {l : Lookup} (h : s'.lookups = s.lookups ++ [l])
    (jobId : Uuid) :
    s'.lookupsOf jobId = s.lookupsOf jobId ++ if l.jobId = jobId then [l] else [] := by
  simp only [Timeline.lookupsOf, h, List.filter_append, List.filter_cons, List.filter_nil,
    decide_eq_true_eq]

theorem Looks.jobId_eq {s : Timeline} {jobId : Uuid} {time : Int} {l : Lookup} {c : StreamCache}
    (h : Looks s jobId time l c) : l.jobId = jobId ∧ l.time = time := by
  cases h <;> exact ⟨rfl, rfl⟩

/-- A lookup leaves the entries of other jobs alone. -/
theorem Looks.other {s : Timeline} {jobId other : Uuid} {time : Int} {l : Lookup}
    {c : StreamCache} (h : Looks s jobId time l c) (hne : other ≠ jobId) :
    c.cache other.unparse = s.entry other := by
  have hkey : other.unparse ≠ jobId.unparse := fun heq => hne (Uuid.unparse_injective heq)
  cases h with
  | hit record _ => exact renew_other _ _ hkey _
  | miss _ => rfl
  | made stream _ => exact insertNew_other _ _ hkey _

theorem Looks.expSeconds_eq {s : Timeline} {jobId : Uuid} {time : Int} {l : Lookup}
    {c : StreamCache} (h : Looks s jobId time l c) : c.expSeconds = s.cache.expSeconds := by
  cases h <;> rfl

/-- A lookup removes nothing. -/
theorem Looks.keeps {s : Timeline} {jobId : Uuid} {time : Int} {l : Lookup} {c : StreamCache}
    (h : Looks s jobId time l c) {record : StreamCacheRecord}
    (hrec : s.entry jobId = some record) :
    ∃ record', c.cache jobId.unparse = some record' ∧ record'.stream = record.stream := by
  cases h with
  | hit record' hrec' =>
      obtain rfl := Option.some.inj (hrec.symm.trans hrec')
      exact ⟨_, renew_same _ _ _ _, rfl⟩
  | miss hnone => cases hnone.symm.trans hrec
  | made stream hnone => cases hnone.symm.trans hrec

/-- After a lookup the entry, if there is one, holds what was returned and expires
`expSeconds` ticks later. -/
theorem Looks.own {s : Timeline} {jobId : Uuid} {time : Int} {l : Lookup} {c : StreamCache}
    (h : Looks s jobId time l c) {record : StreamCacheRecord}
    (hrec : c.cache jobId.unparse = some record) :
    l.result = some record.stream ∧ record.expires = time + s.cache.expSeconds := by
  cases h with
  | hit record' _ =>
      rw [renew_same] at hrec
      obtain rfl := Option.some.inj hrec
      exact ⟨rfl, rfl⟩
  | miss hnone =>
      rw [Timeline.entry, hrec] at hnone
      cases hnone
  | made stream _ =>
      rw [insertNew_same] at hrec
      obtain rfl := Option.some.inj hrec
      exact ⟨rfl, rfl⟩

/-- Every entry carries the time of its job's last lookup plus `expSeconds` ticks. -/
structure Stamped (expSeconds : Int) (s : Timeline) : Prop where
  expSeconds_eq : s.cache.expSeconds = expSeconds
  expires_eq : ∀ jobId record, s.entry jobId = some record →
    ∃ last, (s.lookupsOf jobId).getLast? = some last ∧ record.expires = last.time + expSeconds

theorem start_stamped (expSeconds : Int) : Stamped expSeconds (Timeline.start expSeconds) where
  expSeconds_eq := rfl
  expires_eq := by
    intro jobId record heq
    cases heq

theorem step_stamped {expSeconds : Int} {s s' : Timeline} {op : Op} (hs : Stamped expSeconds s)
    (h : s.step op = some s') : Stamped expSeconds s' := by
  rcases step_cases h with ⟨jobId, time, l, -, hlookups, hlooks⟩ | ⟨now, -, hcache, hlookups⟩
  · constructor
    · exact hlooks.expSeconds_eq.trans hs.expSeconds_eq
    · intro other record hrec
      rw [lookupsOf_snoc hlookups, hlooks.jobId_eq.1]
      by_cases hne : other = jobId
      · subst hne
        refine ⟨l, by simp, ?_⟩
        rw [(hlooks.own hrec).2, hlooks.jobId_eq.2, hs.expSeconds_eq]
      · rw [Timeline.entry, hlooks.other hne] at hrec
        rw [if_neg (Ne.symm hne), List.append_nil]
        exact hs.expires_eq other record hrec
  · constructor
    · rw [hcache]
      exact hs.expSeconds_eq
    · intro jobId record hrec
      rw [Timeline.entry, hcache] at hrec
      obtain ⟨-, hrec⟩ := erase_eq_some s.cache hrec
      simp only [Timeline.lookupsOf, hlookups]
      exact hs.expires_eq jobId record hrec

/-- Only a pass can remove an entry, and it goes by the entry's age in ticks. -/
theorem removesLate_iff {expSeconds : Int} {s : Timeline} {op : Op} (hs : Stamped expSeconds s) :
    RemovesLate expSeconds s op ↔ PassesInTime expSeconds s op := by
  constructor
  · rintro hlate now rfl jobId hentry last hlast ⟨hold, hyoung⟩
    obtain ⟨record, hrec⟩ := Option.ne_none_iff_exists'.mp hentry
    obtain ⟨last', hlast', hexpires⟩ := hs.expires_eq jobId record hrec
    obtain rfl : last = last' := Option.some.inj (hlast.symm.trans hlast')
    have hgone : (s.cache.expireEntries now).cache jobId.unparse = none :=
      (expireEntries_cache s.cache hrec now).mpr (by omega)
    obtain ⟨now', last', heq, hlast', hage⟩ := hlate _ rfl jobId hentry hgone
    obtain rfl := Op.expire.inj heq
    obtain rfl : last = last' := Option.some.inj (hlast.symm.trans hlast')
    omega
  · intro hpass s' hstep jobId hentry hgone
    obtain ⟨record, hrec⟩ := Option.ne_none_iff_exists'.mp hentry
    rcases step_cases hstep with ⟨job, time, l, -, -, hlooks⟩ | ⟨now, rfl, hcache, -⟩
    · exfalso
      by_cases hne : jobId = job
      · subst hne
        obtain ⟨record', hrec', -⟩ := hlooks.keeps hrec
        cases hgone.symm.trans hrec'
      · rw [Timeline.entry, hlooks.other hne] at hgone
        exact hentry hgone
    · obtain ⟨last, hlast, hexpires⟩ := hs.expires_eq jobId record hrec
      rw [Timeline.entry, hcache, expireEntries_cache s.cache hrec now] at hgone
      have hage := hpass now rfl jobId hentry last hlast
      exact ⟨now, last, rfl, hlast, by omega⟩

/-- What holds of a job whose lookups are never far apart: those after a creation
return what it made, and that is still cached unless it was removed late. -/
structure Held (expSeconds : Int) (jobId : Uuid) (ops : List Op) (s : Timeline) : Prop where
  same : (s.lookupsOf jobId).Pairwise fun l l' => l.created = true →
    ∃ stream, l.result = some stream ∧ l'.result = some stream
  kept : ∀ l ∈ s.lookupsOf jobId, l.created = true →
    (∃ record, s.entry jobId = some record ∧ l.result = some record.stream) ∨
    ∃ now last, .expire now ∈ ops ∧ (s.lookupsOf jobId).getLast? = some last ∧
      expSeconds * ticksPerSecond < now jobId.unparse - last.time

section Held

variable {expSeconds : Int} {jobId : Uuid} {ops : List Op} {op : Op} {s u : Timeline}

/-- What was made is still cached when the next lookup comes in time. -/
theorem Held.present (h : Held expSeconds jobId ops u) {time : Int}
    (hclock : ∀ now, .expire now ∈ ops → now jobId.unparse ≤ time)
    (hgap : ∀ last ∈ (u.lookupsOf jobId).getLast?,
      time - last.time ≤ expSeconds * ticksPerSecond) :
    ∀ l ∈ u.lookupsOf jobId, l.created = true →
      ∃ record, u.entry jobId = some record ∧ l.result = some record.stream := by
  intro l hl hcreated
  rcases h.kept l hl hcreated with hkept | ⟨now, last, hmem, hlast, hage⟩
  · exact hkept
  · have hle := hclock now hmem
    have hnear := hgap last hlast
    omega

/-- A lookup of the job in time. -/
theorem Held.lookup (h : Held expSeconds jobId ops u) {time : Int} {l : Lookup}
    (hclock : ∀ now, .expire now ∈ ops → now jobId.unparse ≤ time)
    (hgap : ∀ last ∈ (u.lookupsOf jobId).getLast?,
      time - last.time ≤ expSeconds * ticksPerSecond)
    (hlookups : s.lookups = u.lookups ++ [l]) (hlooks : Looks u jobId time l s.cache) :
    Held expSeconds jobId (ops ++ [op]) s := by
  have hpresent := h.present hclock hgap
  have hlist : s.lookupsOf jobId = u.lookupsOf jobId ++ [l] := by
    rw [lookupsOf_snoc hlookups, if_pos hlooks.jobId_eq.1]
  constructor
  · rw [hlist, List.pairwise_append]
    refine ⟨h.same, List.pairwise_singleton _ _, ?_⟩
    intro l₀ hl₀ l' hl' hcreated
    obtain rfl : l' = l := by simpa using hl'
    obtain ⟨record, hrec, hresult⟩ := hpresent l₀ hl₀ hcreated
    obtain ⟨record', hrec', hstream⟩ := hlooks.keeps hrec
    exact ⟨record.stream, hresult, hstream ▸ (hlooks.own hrec').1⟩
  · intro l₀ hl₀ hcreated
    rw [hlist, List.mem_append, List.mem_singleton] at hl₀
    left
    rcases hl₀ with hl₀ | rfl
    · obtain ⟨record, hrec, hresult⟩ := hpresent l₀ hl₀ hcreated
      obtain ⟨record', hrec', hstream⟩ := hlooks.keeps hrec
      exact ⟨record', hrec', hstream ▸ hresult⟩
    · generalize hcache : s.cache = c at hlooks
      cases hlooks with
      | hit record _ => cases hcreated
      | miss _ => cases hcreated
      | made stream _ => exact ⟨_, by rw [Timeline.entry, hcache, insertNew_same], rfl⟩

/-- A lookup of another job. -/
theorem Held.other (h : Held expSeconds jobId ops u) {other : Uuid} {time : Int} {l : Lookup}
    (hne : jobId ≠ other) (hlookups : s.lookups = u.lookups ++ [l])
    (hlooks : Looks u other time l s.cache) : Held expSeconds jobId (ops ++ [op]) s := by
  have hlist : s.lookupsOf jobId = u.lookupsOf jobId := by
    rw [lookupsOf_snoc hlookups, hlooks.jobId_eq.1, if_neg (Ne.symm hne), List.append_nil]
  have hentry : s.entry jobId = u.entry jobId := hlooks.other hne
  constructor
  · rw [hlist]
    exact h.same
  · rw [hlist, hentry]
    intro l₀ hl₀ hcreated
    rcases h.kept l₀ hl₀ hcreated with hkept | ⟨now, last, hmem, hlate⟩
    · exact Or.inl hkept
    · exact Or.inr ⟨now, last, List.mem_append_left _ hmem, hlate⟩

/-- A pass that removes late only. -/
theorem Held.pass (h : Held expSeconds jobId ops u) (hlate : RemovesLate expSeconds u op)
    (hstep : u.step op = some s) {now : String → Int}
    (hcache : s.cache = u.cache.expireEntries now) (hlookups : s.lookups = u.lookups) :
    Held expSeconds jobId (ops ++ [op]) s := by
  have hlist : s.lookupsOf jobId = u.lookupsOf jobId := by
    simp only [Timeline.lookupsOf, hlookups]
  constructor
  · rw [hlist]
    exact h.same
  · rw [hlist]
    intro l₀ hl₀ hcreated
    rcases h.kept l₀ hl₀ hcreated with ⟨record, hrec, hresult⟩ | ⟨now, last, hmem, hold⟩
    · cases hgone : s.entry jobId with
      | none =>
          have hsome : u.entry jobId ≠ none := by simp [hrec]
          obtain ⟨now', last, rfl, hlast, hage⟩ := hlate s hstep jobId hsome hgone
          exact Or.inr ⟨now', last, by simp, hlast, hage⟩
      | some record' =>
          rw [Timeline.entry, hcache] at hgone
          have hsame := (erase_eq_some u.cache hgone).2
          obtain rfl := Option.some.inj (hrec.symm.trans hsame)
          exact Or.inl ⟨record, rfl, hresult⟩
    · exact Or.inr ⟨now, last, List.mem_append_left _ hmem, hold⟩

/-- A run that removes late only holds every job whose lookups are near each other. -/
theorem held (hchron : Chronological ops)
    (hlate : Guarded Timeline.step (RemovesLate expSeconds) (Timeline.start expSeconds) ops)
    (hexec : exec Timeline.step (Timeline.start expSeconds) ops = some s)
    (hgap : (s.lookupsOf jobId).IsChain
      fun l l' => l'.time - l.time ≤ expSeconds * ticksPerSecond) :
    Held expSeconds jobId ops s := by
  induction ops using List.reverseRecOn generalizing s with
  | nil =>
      obtain rfl : Timeline.start expSeconds = s := by simpa using hexec
      constructor <;> simp [Timeline.lookupsOf, Timeline.start]
  | append_singleton ops op ih =>
      obtain ⟨u, hu, hstep⟩ := exec_snoc_eq_some _ hexec
      obtain ⟨hchron, -, hclock⟩ := List.pairwise_append.mp hchron
      have ih := fun hgap => ih hchron (hlate.of_prefix (List.prefix_append ops [op])) hu hgap
      rcases step_cases hstep with ⟨job, time, l, hreads, hlookups, hlooks⟩ |
        ⟨now, rfl, hcache, hlookups⟩
      · rw [lookupsOf_snoc hlookups] at hgap
        obtain ⟨hgap, -, hnear⟩ := List.isChain_append.mp hgap
        by_cases hne : jobId = job
        · subst hne
          refine (ih hgap).lookup ?_ ?_ hlookups hlooks
          · exact fun now hmem => hclock _ hmem op (by simp) _ _ ⟨_, rfl⟩ hreads
          · intro last hlast
            have h := hnear last hlast l (by simp [hlooks.jobId_eq.1])
            rwa [hlooks.jobId_eq.2] at h
        · exact (ih hgap).other hne hlookups hlooks
      · have hlist : s.lookupsOf jobId = u.lookupsOf jobId := by
          simp only [Timeline.lookupsOf, hlookups]
        rw [hlist] at hgap
        exact (ih hgap).pass (hlate.last hu) hstep hcache hlookups

end Held

/-- The cache retains streams as promised in a timed run if and only if no cleanup
pass of the run comes across an entry that is older than `expSeconds` ticks but
not older than `expSeconds` seconds. -/
theorem retention_iff (expSeconds : Int) (ops : List Op) (s : Timeline)
    (hchron : Chronological ops)
    (hexec : exec Timeline.step (Timeline.start expSeconds) ops = some s) :
    Retention expSeconds ops s ↔
      Guarded Timeline.step (PassesInTime expSeconds) (Timeline.start expSeconds) ops := by
  have hiff : Guarded Timeline.step (RemovesLate expSeconds) (Timeline.start expSeconds) ops ↔
      Guarded Timeline.step (PassesInTime expSeconds) (Timeline.start expSeconds) ops :=
    Guarded.congr (fun _ _ _ => step_stamped) (fun _ _ => removesLate_iff)
      (start_stamped expSeconds) ops
  constructor
  · intro h
    exact hiff.mp h.late
  · intro h
    have hlate := hiff.mpr h
    exact ⟨fun jobId hgap => (held hchron hlate hexec hgap).same, hlate⟩

/-- A stream is made at time 0, a pass comes 601 ticks later, and the stream is
looked up again in the first second. -/
def sampleOps : List Op :=
  [.getSegment Libav.sample 0 Segment.sample, .expire fun _ => 601, .get 1000 Uuid.null]

theorem sampleOps_chronological : Chronological sampleOps := by
  simp only [Chronological, sampleOps, List.pairwise_cons, List.mem_cons, List.not_mem_nil]
  refine ⟨?_, ?_, by simp, List.Pairwise.nil⟩
  · rintro op (rfl | rfl | ⟨⟨⟩⟩) t t' rfl h'
    · obtain ⟨key, rfl⟩ := h'
      exact (by decide : (0 : Int) ≤ 601)
    · obtain rfl := h'
      decide
  · rintro op (rfl | ⟨⟨⟩⟩) t t' ⟨key, rfl⟩ rfl
    exact (by decide : (601 : Int) ≤ 1000)

/-- With the default of 600 seconds the stream is gone after 601 nanoseconds. -/
theorem stream_expires_early :
    ∃ s, exec Timeline.step (Timeline.start 600) sampleOps = some s ∧
      Chronological sampleOps ∧ ¬ Retention 600 sampleOps s := by
  refine ⟨_, rfl, sampleOps_chronological, fun h => ?_⟩
  have hsame := h.same Uuid.null
  revert hsame
  decide

theorem retention_iff_sample :
    Retention 600 sampleOps
        ((exec Timeline.step (Timeline.start 600) sampleOps).getD (Timeline.start 600)) ↔
      Guarded Timeline.step (PassesInTime 600) (Timeline.start 600) sampleOps :=
  retention_iff 600 sampleOps _ sampleOps_chronological rfl

end Media2.StreamCache
