import Media2.Graph.Calls

/-!
# Who owns the codec parameters and the contexts

Every block that is allocated while a graph is built, used and taken apart belongs to one object
until that frees it, but for two pointers that are lost: an encoder overwrites the parameters
that its stream data come with, and the constructor of the data for a segment does not free
them when it throws.
-/

namespace Media2.Graph

open Execution Blocks

/-- How many blocks of parameters a call loses. -/
def loses : Label → Nat
  | .makeEncoder _ _ => 1
  | .rebuild libav seg => rebuildLoses libav seg
  | _ => 0

/-- How many a run loses. -/
def losses (labels : List Label) : Nat := labels.foldl (fun n l => n + loses l) 0

theorem losses_snoc (labels : List Label) (l : Label) :
    losses (labels ++ [l]) = losses labels + loses l := List.foldl_append

/-- The objects that a call changes. -/
def touches (g : Graph) : Label → Nat → Prop
  | .closeReader r, i => i = r ∨ i ∈ g.kept r
  | .hold j, i | .release j, i => i = j
  | .destroyDecoder d, i | .subscribeDecoder d _, i => i = d
  | .destroyEncoder e, i | .subscribeEncoder _ e _, i =>
      i = e ∨ ∃ encoder, g.objects[e]? = some (.encoder encoder) ∧ i = encoder.stream
  | .subscribeMuxer _ m _, i | .process _ m _ _ _, i => i = m
  | .flush _ m, i | .openOutput _ m, i | .closeOutput _ m, i | .destroyMuxer _ m, i => i = m
  | .openReader _ _ _, _ | .rebuild _ _, _ | .makeDecoder, _ | .makeEncoder _ _, _ => False
  | .makeMuxer _ _ _ _, _ => False

/-- A stream of a container that was closed. -/
def Dangling (s : StreamObject) : Prop :=
  s.keeper = none ∧ ∃ data, s.data = some data ∧ data.stream ≠ none

/-- When a call is the end of the process, and why: a decoder or a muxer is subscribed to a
stream without data, a muxer to the stream of an encoder that was destroyed, a packet is for an
output stream that libav did not make, a decoder or a muxer is to look at a stream of a container
that was closed, or a muxer is destroyed that cannot write what it has left. -/
def Fails (g : Graph) : Label → Crash → Prop
  | .subscribeDecoder _ i, crash => ∃ s, g.objects[i]? = some (.stream s) ∧
      (crash = .nullDereference ∧ s.data = none ∨ crash = .useAfterFree ∧ Dangling s)
  | .subscribeMuxer libav m i, crash => crash = .nullDereference ∧
      ∃ muxer s, g.objects[m]? = some (.muxer muxer) ∧ g.objects[i]? = some (.stream s) ∧
        muxer.streamStart = true ∧ (s.data = none ∨
          0 ≤ libav.rc muxer.log .newStream ∧ ∃ data, s.data = some data ∧ data.parameters = none)
  | .process _ m k _ i, crash => ∃ muxer info s, g.objects[m]? = some (.muxer muxer) ∧
      muxer.streaminfo[k]? = some info ∧ g.objects[i]? = some (.stream s) ∧
        (crash = .nullDereference ∧ info.stream = none ∨
          crash = .useAfterFree ∧ info.stream ≠ none ∧ Dangling s)
  | .destroyMuxer libav m, crash => crash = .terminated ∧
      ∃ muxer, g.objects[m]? = some (.muxer muxer) ∧ ¬ Muxer.Flushable libav muxer
  | _, _ => False

/-- The data of a stream are of a container that the keeper of the stream has open, or that was
closed when the stream lost its keeper. -/
def Attached (g : Graph) (s : StreamObject) (address : Nat) : Prop :=
  (∃ r addresses, s.keeper = some r ∧ g.objects[r]? = some (.reader addresses) ∧
    address ∈ addresses) ∨ s.keeper = none ∧ g.avStreams.Freed address

/-- What there is to say about an object that is no encoder. -/
def Plain (g : Graph) : Object → Prop
  | .encoder _ => False
  | .stream s => ∀ data address, s.data = some data → data.stream = some address →
      data.parameters ≠ none ∧ Attached g s address
  | _ => True

/-- An encoder keeps its stream, which has parameters as long as the encoder lives and is of no
container. -/
structure Fine (g : Graph) (i : Nat) : Prop where
  encoder : ∀ encoder, g.objects[i]? = some (.encoder encoder) →
    ∃ s data p, HasStream g i encoder s data ∧ s.keeper = some i ∧ data.parameters = some p ∧
      data.stream = none
  stream : ∀ s, g.objects[i]? = some (.stream s) → Plain g (.stream s)

/-- Everything is in order. -/
structure Sound (lost : Multiset Nat) (g : Graph) : Prop where
  owned : Owned lost g
  fine : ∀ i, Fine g i

section Steps

variable {g g' : Graph} {lost : Multiset Nat} {places : Nat → Prop} {i : Nat} {object : Object}

/-- What is said about an object stays true when the reader that it depends on is spared. -/
theorem Plain.of_spares (h : Plain g object) (hspares : Spares places g g')
    (hreader : ∀ s r addresses, object = .stream s → s.keeper = some r →
      g.objects[r]? = some (.reader addresses) → ¬ places r) : Plain g' object := by
  cases object with
  | stream s =>
      intro data address hdata hstream
      obtain ⟨hparameters, hattached⟩ := h data address hdata hstream
      refine ⟨hparameters, ?_⟩
      rcases hattached with ⟨r, addresses, hkeeper, hr, hmem⟩ | ⟨hkeeper, hfreed⟩
      · have hkept := (hspares.objects r _ (hreader s r addresses rfl hkeeper hr) hr).1
        exact Or.inl ⟨r, addresses, hkeeper, hkept, hmem⟩
      · exact Or.inr ⟨hkeeper, hspares.later address hfreed⟩
  | encoder encoder => exact h.elim
  | _ => trivial

/-- What is fine stays so when it is spared, with the objects that it depends on. -/
theorem Fine.of_spares (h : Fine g i) (hspares : Spares places g g')
    (hat : g.objects[i]? = some object) (hi : ¬ places i)
    (hstream : ∀ encoder, object = .encoder encoder → ¬ places encoder.stream)
    (hreader : ∀ s r addresses, object = .stream s → s.keeper = some r →
      g.objects[r]? = some (.reader addresses) → ¬ places r) : Fine g' i := by
  have hkept := (hspares.objects i object hi hat).1
  constructor
  · intro encoder hencoder
    rw [hkept] at hencoder
    obtain rfl := Option.some.inj hencoder
    obtain ⟨s, data, p, hhas, hrest⟩ := h.encoder encoder hat
    have hs := (hspares.objects encoder.stream _ (hstream encoder rfl) hhas.stream).1
    exact ⟨s, data, p, ⟨hkept, hs, hhas.data⟩, hrest⟩
  · intro s hs
    rw [hkept] at hs
    obtain rfl := Option.some.inj hs
    exact (h.stream s hat).of_spares hspares hreader

theorem fine_of_plain (hat : g.objects[i]? = some object) (h : Plain g object) : Fine g i := by
  constructor
  · intro encoder hencoder
    rw [hat] at hencoder
    obtain rfl := Option.some.inj hencoder
    exact h.elim
  · intro s hs
    rw [hat] at hs
    obtain rfl := Option.some.inj hs
    exact h

theorem fine_of_none (h : g.objects[i]? = none) : Fine g i := by
  constructor
  · intro encoder hencoder
    rw [h] at hencoder
    cases hencoder
  · intro s hs
    rw [h] at hs
    cases hs

theorem ne_reader (hat : g.objects[i]? = some object)
    (hother : ∀ addresses, object ≠ .reader addresses) (addresses : List Nat) :
    g.objects[i]? ≠ some (.reader addresses) := by
  intro hr
  rw [hat] at hr
  exact hother addresses (Option.some.inj hr)

theorem settled_plain {s : StreamObject} (h : Plain g (.stream s)) : Plain g (settled s) := by
  unfold settled
  split
  · trivial
  · exact h

/-- Data of no container are always plain. -/
theorem plain_of_noStream {s : StreamObject} {data : Data} (hdata : s.data = some data)
    (hnone : data.stream = none) : Plain g (.stream s) := by
  intro data' address hdata' hstream
  rw [hdata] at hdata'
  rw [← Option.some.inj hdata', hnone] at hstream
  cases hstream

/-- It is enough to look at the objects that a call makes or changes, and at the encoders whose
streams it changes. -/
theorem Sound.of_spares {lost' : Multiset Nat} (h : Sound lost g) (howned : Owned lost' g')
    (hspares : Spares places g g')
    (hencoders : ∀ e encoder, g.objects[e]? = some (.encoder encoder) → ¬ places e →
      places encoder.stream → Fine g' e)
    (hreaders : ∀ i s r addresses, ¬ places i → g.objects[i]? = some (.stream s) →
      s.keeper = some r → g.objects[r]? = some (.reader addresses) → ¬ places r)
    (hplaces : ∀ i, places i → Fine g' i)
    (hnew : ∀ i, g.objects[i]? = none → Fine g' i) : Sound lost' g' := by
  refine ⟨howned, fun i => ?_⟩
  by_cases hi : places i
  · exact hplaces i hi
  · cases hat : g.objects[i]? with
    | none => exact hnew i hat
    | some object =>
        by_cases hstream : ∃ encoder, object = .encoder encoder ∧ places encoder.stream
        · obtain ⟨encoder, rfl, hplace⟩ := hstream
          exact hencoders i encoder hat hi hplace
        · apply (h.fine i).of_spares hspares hat hi
          · intro encoder heq hplace
            exact hstream ⟨encoder, heq, hplace⟩
          · rintro s r addresses rfl
            exact hreaders i s r addresses hi hat

/-- A stream of an encoder is kept by that encoder, and so not by two. -/
theorem Sound.keeper (h : Sound lost g) {e : Nat} {encoder : Encoder}
    (hat : g.objects[e]? = some (.encoder encoder)) {s : StreamObject}
    (hs : g.objects[encoder.stream]? = some (.stream s)) : s.keeper = some e := by
  obtain ⟨s', data, p, hhas, hkeeper, -⟩ := (h.fine e).encoder encoder hat
  rw [hhas.stream] at hs
  rw [← Object.stream.inj (Option.some.inj hs)]
  exact hkeeper

/-- Objects are added. -/
theorem Sound.grow {lost' : Multiset Nat} (h : Sound lost g) (howned : Owned lost' g')
    (hspares : Spares (fun _ => False) g g') {new : List Object}
    (hobjects : g'.objects = g.objects ++ new)
    (hnew : ∀ k object, new[k]? = some object →
      g'.objects[g.objects.length + k]? = some object → Fine g' (g.objects.length + k)) :
    Sound lost' g' := by
  apply h.of_spares howned hspares
  · exact fun _ _ _ _ hfalse => hfalse.elim
  · exact fun _ _ _ _ _ _ _ _ => not_false
  · exact fun _ hfalse => hfalse.elim
  · intro i hi
    have hge := List.getElem?_eq_none_iff.mp hi
    have hat : g'.objects[i]? = new[i - g.objects.length]? := by
      rw [hobjects, List.getElem?_append_right hge]
    cases hmade : new[i - g.objects.length]? with
    | none => exact fine_of_none (hat.trans hmade)
    | some object =>
        have hfine := hnew _ object hmade
        rw [Nat.add_sub_cancel' hge] at hfine
        exact hfine (hat.trans hmade)

/-- Objects are added that are plain. -/
theorem Sound.grow_plain {lost' : Multiset Nat} (h : Sound lost g) (howned : Owned lost' g')
    (hspares : Spares (fun _ => False) g g') {new : List Object}
    (hobjects : g'.objects = g.objects ++ new) (hnew : ∀ object ∈ new, Plain g' object) :
    Sound lost' g' := by
  apply h.grow howned hspares hobjects
  intro k object hk hat
  exact fine_of_plain hat (hnew object (List.mem_of_getElem? hk))

/-- One object that is neither a reader nor an encoder changes. If it is the stream of an
encoder, then that keeps it. -/
theorem Sound.change {lost' : Multiset Nat} (h : Sound lost g) (howned : Owned lost' g')
    (hspares : Spares (· = i) g g') (hobjects : g'.objects = g.objects.set i object)
    (hreader : ∀ addresses, g.objects[i]? ≠ some (.reader addresses)) (hplain : Plain g' object)
    (hencoder : ∀ e encoder, g.objects[e]? = some (.encoder encoder) → encoder.stream = i →
      ∃ s data p, object = .stream s ∧ s.keeper = some e ∧ s.data = some data ∧
        data.parameters = some p ∧ data.stream = none) : Sound lost' g' := by
  apply h.of_spares howned hspares
  · intro e encoder he hne heq
    obtain ⟨s, data, p, rfl, hkeeper, hdata, hrest⟩ := hencoder e encoder he heq
    have hkept := (hspares.objects e _ hne he).1
    obtain ⟨s', data', p', hhas, -⟩ := (h.fine e).encoder encoder he
    have hs : g'.objects[encoder.stream]? = some (.stream s) := by
      have hlt := (List.getElem?_eq_some_iff.mp hhas.stream).1
      rw [hobjects, ← heq]
      exact List.getElem?_set_self hlt
    constructor
    · intro encoder' he'
      rw [hkept] at he'
      obtain rfl := Object.encoder.inj (Option.some.inj he')
      exact ⟨s, data, p, ⟨hkept, hs, hdata⟩, hkeeper, hrest⟩
    · intro s' hs'
      rw [hkept] at hs'
      cases hs'
  · rintro j s r addresses - - - hr rfl
    exact hreader addresses hr
  · rintro j rfl
    cases hat : g'.objects[j]? with
    | none => exact fine_of_none hat
    | some x =>
        apply fine_of_plain hat
        rw [hobjects] at hat
        have hlt := (List.getElem?_eq_some_iff.mp hat).1
        rw [List.getElem?_set_self (by simpa using hlt)] at hat
        exact Option.some.inj hat ▸ hplain
  · intro j hj
    apply fine_of_none
    rw [hobjects, List.getElem?_eq_none_iff, List.length_set]
    exact List.getElem?_eq_none_iff.mp hj

/-- One object changes that no other depends on. -/
theorem Sound.change_other {lost' : Multiset Nat} (h : Sound lost g) (howned : Owned lost' g')
    (hspares : Spares (· = i) g g') (hobjects : g'.objects = g.objects.set i object)
    {old : Object} (hold : g.objects[i]? = some old) (hstream : ∀ s, old ≠ .stream s)
    (hreader : ∀ addresses, old ≠ .reader addresses) (hplain : Plain g' object) :
    Sound lost' g' := by
  apply h.change howned hspares hobjects (ne_reader hold hreader) hplain
  rintro e encoder he rfl
  obtain ⟨s, data, p, hhas, -⟩ := (h.fine e).encoder encoder he
  have hs := hhas.stream
  rw [hold] at hs
  exact absurd (Option.some.inj hs) (hstream s)

/-- An encoder and its stream change, and no encoder comes to be. -/
theorem Sound.change_encoder {lost' : Multiset Nat} (h : Sound lost g) {e : Nat}
    {encoder : Encoder} (hat : g.objects[e]? = some (.encoder encoder)) (howned : Owned lost' g')
    (hspares : Spares (fun i => i = e ∨ i = encoder.stream) g g')
    (hlength : g'.objects.length = g.objects.length) (hself : Fine g' e)
    (hstream : Fine g' encoder.stream) : Sound lost' g' := by
  apply h.of_spares howned hspares
  · intro e' encoder' he' hne hplace
    exfalso
    obtain ⟨s', data', p', hhas', hkeeper', -⟩ := (h.fine e').encoder encoder' he'
    rcases hplace with heq | heq
    · have hs := hhas'.stream
      rw [heq, hat] at hs
      cases hs
    · have hs := hhas'.stream
      rw [heq] at hs
      have hkeeper := h.keeper hat hs
      exact hne (Or.inl (Option.some.inj (hkeeper'.symm.trans hkeeper)))
  · rintro j s r addresses - - - hr (rfl | rfl)
    · rw [hat] at hr
      cases hr
    · obtain ⟨s', data', p', hhas', -⟩ := (h.fine e).encoder encoder hat
      have hs := hhas'.stream
      rw [hr] at hs
      cases hs
  · rintro i (rfl | rfl)
    · exact hself
    · exact hstream
  · intro i hi
    apply fine_of_none
    rw [List.getElem?_eq_none_iff, hlength]
    exact List.getElem?_eq_none_iff.mp hi

end Steps

section Calls

variable {g : Graph} {lost : Multiset Nat}

/-- How a call ends. -/
inductive Goes (lost : Multiset Nat) (g : Graph) (l : Label) :
    Except Crash (Option String × Graph) → Prop
  | crash (crash : Crash) (hfails : Fails g l crash) : Goes lost g l (.error crash)
  | done (what : Option String) (g' : Graph) (new : Multiset Nat) (hcard : new.card = loses l)
      (hsound : Sound (new + lost) g') (hspares : Spares (touches g l) g g')
      (hsafe : ∀ crash, ¬ Fails g l crash) : Goes lost g l (.ok (what, g'))

/-- The data that the value model makes have parameters and a context. -/
theorem table_data {libav : Nat → Libav} {filename : String}
    {formatContext : FormatContext} {stream : Stream} {data : StreamData}
    (h : stream ∈ (PacketReader.setupStreams libav filename true formatContext
      StreamTables.empty).tables.streams) (hdata : stream.data = some data) :
    data.parameters ≠ none ∧ data.context ≠ none := by
  change stream ∈ (formatContext.streams.foldl (PacketReader.setupStream libav filename)
    ⟨StreamTables.empty, false⟩).tables.streams at h
  rw [PacketReader.foldl_setupStream_streams] at h
  obtain ⟨av, -, hentry⟩ := List.mem_filterMap.mp h
  unfold PacketReader.entry at hentry
  split at hentry
  · cases hentry
  · split at hentry
    · split at hentry
      · obtain rfl := Option.some.inj hentry
        obtain rfl := Option.some.inj hdata
        exact ⟨Option.some_ne_none _, Option.some_ne_none _⟩
      · obtain rfl := Option.some.inj hentry
        cases hdata
    · cases hentry

/-- Data that show parameters have them. -/
theorem parameters_of_view {data : Data} (h : (g.viewData data).parameters ≠ none) :
    data.parameters ≠ none := by
  intro hnone
  apply h
  rw [viewData, hnone]
  rfl

theorem openReader_goes (h : Sound lost g) (libav : Nat → Libav) (filename : String)
    (formatContext : FormatContext) :
    Goes lost g (.openReader libav filename formatContext)
      ((g.openReader libav filename formatContext).map (none, ·)) := by
  obtain ⟨g', hopen, howned, hspares, addresses, new, hobjects, -, hview, hnew⟩ :=
    openReader_ok h.owned libav filename formatContext
  rw [hopen]
  refine .done none g' 0 rfl ((zero_add lost).symm ▸ h.grow_plain howned hspares hobjects ?_)
    hspares fun _ => id
  intro object hobject
  rcases List.mem_cons.mp hobject with rfl | hobject
  · trivial
  · obtain ⟨made, hmade, rfl⟩ := List.mem_map.mp hobject
    rintro data address rfl haddress
    obtain ⟨address', hmem, haddress'⟩ := hnew data hmade
    obtain rfl : address = address' := Option.some.inj (haddress.symm.trans haddress')
    have hshown := List.mem_map_of_mem (f := fun data => Option.map g'.viewData data) hmade
    rw [hview] at hshown
    obtain ⟨stream, hstream, hsame⟩ := List.mem_map.mp hshown
    refine ⟨parameters_of_view (table_data hstream hsame).1, Or.inl ⟨_, addresses, rfl, ?_, hmem⟩⟩
    rw [hobjects, List.getElem?_append_right (Nat.le_refl _), Nat.sub_self]
    rfl

theorem rebuild_goes (h : Sound lost g) (libav : Libav) (seg : Segment) :
    Goes lost g (.rebuild libav seg) (g.rebuild libav seg) := by
  obtain ⟨what, g', new, hrebuild, howned, hcard, hspares, hrest⟩ := rebuild_ok h.owned libav seg
  rw [hrebuild]
  refine .done what g' new hcard ?_ hspares fun _ => id
  cases hdata : StreamData.ofSegment libav seg seg.jobId.unparse with
  | error e =>
      rw [hdata] at hrest
      obtain ⟨-, -, -, hobjects⟩ := hrest
      apply h.grow_plain howned hspares (hobjects.trans (List.append_nil g.objects).symm)
      intro object hobject
      cases hobject
  | ok data =>
      rw [hdata] at hrest
      obtain ⟨-, made, hobjects, hnone, -⟩ := hrest
      apply h.grow_plain howned hspares hobjects
      intro object hobject
      obtain rfl := List.mem_singleton.mp hobject
      exact plain_of_noStream rfl hnone

/-- The streams that a reader keeps are of its container. -/
theorem Sound.mem_addresses (h : Sound lost g) {r i : Nat} {addresses : List Nat}
    {s : StreamObject} {data : Data} {address : Nat}
    (hr : g.objects[r]? = some (.reader addresses)) (hs : g.objects[i]? = some (.stream s))
    (hkeeper : s.keeper = some r) (hdata : s.data = some data)
    (hstream : data.stream = some address) : address ∈ addresses := by
  rcases ((h.fine i).stream s hs data address hdata hstream).2 with
    ⟨r', addresses', hkeeper', hr', hmem⟩ | ⟨hnone, -⟩
  · obtain rfl := Option.some.inj (hkeeper.symm.trans hkeeper')
    rw [hr] at hr'
    exact Object.reader.inj (Option.some.inj hr') ▸ hmem
  · rw [hkeeper] at hnone
    cases hnone

theorem closeReader_goes (h : Sound lost g) {r : Nat} {addresses : List Nat}
    (hat : g.objects[r]? = some (.reader addresses)) :
    Goes lost g (.closeReader r) ((g.closeReader r addresses).map (none, ·)) := by
  obtain ⟨g', hclose, howned, hspares, hlength, hself, hfreed, hstreams⟩ :=
    closeReader_ok h.owned hat
  rw [hclose]
  refine .done none g' 0 rfl ((zero_add lost).symm ▸ h.of_spares howned hspares ?_ ?_ ?_ ?_)
    hspares fun _ => id
  · intro e encoder he _ hplace
    exfalso
    obtain ⟨s, data, p, hhas, hkeeper, -⟩ := (h.fine e).encoder encoder he
    rcases hplace with heq | hmem
    · have hstream := hhas.stream
      rw [heq, hat] at hstream
      cases hstream
    · obtain ⟨s', hs', hkeeper'⟩ := mem_kept.mp hmem
      rw [hhas.stream] at hs'
      obtain rfl := Object.stream.inj (Option.some.inj hs')
      obtain rfl : e = r := Option.some.inj (hkeeper.symm.trans hkeeper')
      rw [he] at hat
      cases hat
  · rintro i s r' addresses' hi hs hkeeper hr' (rfl | hmem)
    · exact hi (Or.inr (mem_kept.mpr ⟨s, hs, hkeeper⟩))
    · obtain ⟨s', hs', -⟩ := mem_kept.mp hmem
      rw [hr'] at hs'
      cases hs'
  · rintro i (rfl | hmem)
    · exact fine_of_plain hself trivial
    · obtain ⟨s, hs, hkeeper⟩ := mem_kept.mp hmem
      apply fine_of_plain (hstreams i hmem s hs).1 (settled_plain _)
      intro data address hdata hstream
      refine ⟨((h.fine i).stream s hs data address hdata hstream).1, Or.inr ⟨rfl, ?_⟩⟩
      exact hfreed address (h.mem_addresses hat hs hkeeper hdata hstream)
  · intro i hi
    apply fine_of_none
    rw [List.getElem?_eq_none_iff, hlength]
    exact List.getElem?_eq_none_iff.mp hi

/-- The pointers to a stream that are not its keeper's come and go. -/
theorem settle_goes (h : Sound lost g) {i : Nat} {s : StreamObject}
    (hat : g.objects[i]? = some (.stream s)) (others : Bool) {l : Label} (hloses : loses l = 0)
    (htouches : touches g l = (· = i)) (hsafe : ∀ crash, ¬ Fails g l crash) :
    Goes lost g l ((g.settle i { s with held := others }).map (none, ·)) := by
  obtain ⟨g', hsettle, howned, hspares, hobjects, -⟩ :=
    @settle_ok g lost h.owned i s { s with held := others } hat rfl
  rw [hsettle]
  refine .done none g' 0 hloses.symm ((zero_add lost).symm ▸ ?_) (htouches ▸ hspares) hsafe
  have hreader := ne_reader hat (by simp)
  refine h.change howned hspares hobjects hreader (settled_plain ?_) ?_
  · have hplain : Plain g (.stream { s with held := others }) := (h.fine i).stream s hat
    apply hplain.of_spares hspares
    rintro s' r addresses - - hr rfl
    exact hreader addresses hr
  · rintro e encoder he rfl
    obtain ⟨s', data, p, hhas, hkeeper, hrest⟩ := (h.fine e).encoder encoder he
    rw [hhas.stream] at hat
    obtain rfl := Object.stream.inj (Option.some.inj hat)
    refine ⟨{ s' with held := others }, data, p, ?_, hkeeper, hhas.data, hrest⟩
    rw [settled, if_neg]
    rintro ⟨hnone, -⟩
    rw [hkeeper] at hnone
    cases hnone

theorem makeDecoder_goes (h : Sound lost g) :
    Goes lost g .makeDecoder (.ok (none, g.makeDecoder)) := by
  obtain ⟨p, howned, hspares, hobjects, -⟩ := makeDecoder_ok h.owned
  refine .done none _ 0 rfl ((zero_add lost).symm ▸ h.grow_plain howned hspares hobjects ?_)
    hspares fun _ => id
  intro object hobject
  obtain rfl := List.mem_singleton.mp hobject
  trivial

theorem destroyDecoder_goes (h : Sound lost g) {d : Nat} {source : FrameSource}
    (hat : g.objects[d]? = some (.decoder source)) :
    Goes lost g (.destroyDecoder d) ((g.destroyDecoder d source).map (none, ·)) := by
  obtain ⟨g', hdestroy, howned, hspares, hobjects⟩ := destroyDecoder_ok h.owned hat
  rw [hdestroy]
  refine .done none g' 0 rfl ((zero_add lost).symm ▸ ?_) hspares fun _ => id
  exact h.change_other howned hspares hobjects hat nofun nofun trivial

/-- A stream of a container that was closed points to what was freed, and others do not. -/
theorem Sound.dangling_iff (h : Sound lost g) {i : Nat} {s : StreamObject} {data : Data}
    {address : Nat} (hs : g.objects[i]? = some (.stream s)) (hdata : s.data = some data)
    (hstream : data.stream = some address) :
    Dangling s ↔ g.avStreams.get address = none := by
  rcases ((h.fine i).stream s hs data address hdata hstream).2 with
    ⟨r, addresses, hkeeper, hr, hmem⟩ | ⟨hkeeper, hfreed⟩
  · have hlive : (g.avStreams.get address).isSome = true := by
      apply h.owned.avStreams.isSome
      exact Multiset.mem_of_le (held_le _ (List.mem_of_getElem? hr)) (Multiset.mem_coe.mpr hmem)
    constructor
    · rintro ⟨hnone, -⟩
      rw [hkeeper] at hnone
      cases hnone
    · intro hnone
      rw [hnone] at hlive
      cases hlive
  · exact ⟨fun _ => hfreed.2, fun _ => ⟨hkeeper, data, hdata, by simp [hstream]⟩⟩

theorem fails_subscribeDecoder {d i : Nat} {s : StreamObject}
    (hs : g.objects[i]? = some (.stream s)) (crash : Crash) :
    Fails g (.subscribeDecoder d i) crash ↔
      crash = .nullDereference ∧ s.data = none ∨ crash = .useAfterFree ∧ Dangling s := by
  constructor
  · rintro ⟨s', hs', hfails⟩
    rw [hs] at hs'
    obtain rfl := Object.stream.inj (Option.some.inj hs')
    exact hfails
  · intro hfails
    exact ⟨s, hs, hfails⟩

theorem subscribeDecoder_goes (h : Sound lost g) {d i : Nat} {source : FrameSource}
    {s : StreamObject} (hat : g.objects[d]? = some (.decoder source))
    (hs : g.objects[i]? = some (.stream s)) :
    Goes lost g (.subscribeDecoder d i) ((g.subscribeDecoder d source s).map (none, ·)) := by
  have hfails := fun crash => fails_subscribeDecoder (d := d) hs crash
  cases hdata : s.data with
  | none =>
      rw [subscribeDecoder_noData hdata]
      exact .crash _ ((hfails _).mpr (Or.inl ⟨rfl, hdata⟩))
  | some data =>
      cases hstream : data.stream with
      | none =>
          rw [subscribeDecoder_noStream hdata hstream]
          refine .done none g 0 rfl ((zero_add lost).symm ▸ h) (Spares.refl _ g) ?_
          intro crash hcrash
          rcases (hfails crash).mp hcrash with ⟨-, hnone⟩ | ⟨-, -, data', hdata', hsome⟩
          · rw [hdata] at hnone
            cases hnone
          · rw [hdata] at hdata'
            exact hsome (Option.some.inj hdata' ▸ hstream)
      | some address =>
          have hdangling := h.dangling_iff hs hdata hstream
          obtain ⟨p, hp⟩ := Option.ne_none_iff_exists'.mp
            ((h.fine i).stream s hs data address hdata hstream).1
          cases hav : g.avStreams.get address with
          | none =>
              rw [subscribeDecoder_freed h.owned hat hs hdata hstream hp hav]
              exact .crash _ ((hfails _).mpr (Or.inr ⟨rfl, hdangling.mpr hav⟩))
          | some av =>
              obtain ⟨g', par, hcall, howned, hspares, hobjects, -⟩ :=
                subscribeDecoder_ok h.owned hat hs hdata hstream hp hav
              rw [hcall]
              refine .done none g' 0 rfl ((zero_add lost).symm ▸ ?_) hspares ?_
              · exact h.change_other howned hspares hobjects hat nofun nofun trivial
              · intro crash hcrash
                rcases (hfails crash).mp hcrash with ⟨-, hnone⟩ | ⟨-, hyes⟩
                · rw [hdata] at hnone
                  cases hnone
                · rw [hdangling, hav] at hyes
                  cases hyes

theorem makeEncoder_goes (h : Sound lost g) (libav : EncoderLibav) (codecName : String) :
    Goes lost g (.makeEncoder libav codecName) (g.makeEncoder libav codecName) := by
  obtain ⟨what, g', new, p, hmake, howned, hspares, hrest⟩ :=
    makeEncoder_ok h.owned libav codecName
  rw [hmake]
  refine .done what g' {new} (Multiset.card_singleton new) ?_ hspares fun _ => id
  split at hrest
  · apply h.grow_plain howned hspares (hrest.2.trans (List.append_nil g.objects).symm)
    intro object hobject
    cases hobject
  · obtain ⟨-, -, hobjects⟩ := hrest
    have hstream : g'.objects[g.objects.length]? =
        some (.stream ⟨some (encoderData p (namedCodec libav codecName)),
          some (g.objects.length + 1), false⟩) := by
      rw [hobjects, List.getElem?_append_right (Nat.le_refl _), Nat.sub_self]
      rfl
    apply h.grow howned hspares hobjects
    intro k object hk hat
    match k with
    | 0 =>
        obtain rfl := Option.some.inj hk
        exact fine_of_plain hat (plain_of_noStream rfl rfl)
    | 1 =>
        obtain rfl := Option.some.inj hk
        constructor
        · intro encoder hencoder
          rw [hat] at hencoder
          obtain rfl := Object.encoder.inj (Option.some.inj hencoder)
          exact ⟨_, _, p, ⟨hat, hstream, rfl⟩, rfl, rfl, rfl⟩
        · intro s hs
          rw [hat] at hs
          cases hs
    | k + 2 => cases hk

theorem destroyEncoder_goes (h : Sound lost g) {e : Nat} {encoder : Encoder}
    (hat : g.objects[e]? = some (.encoder encoder)) :
    Goes lost g (.destroyEncoder e) ((g.destroyEncoder e encoder).map (none, ·)) := by
  obtain ⟨s, data, p, hhas, hkeeper, hp, hnone⟩ := (h.fine e).encoder encoder hat
  obtain ⟨g', hdestroy, howned, hspares, hlength, hself, hstream, -⟩ :=
    destroyEncoder_ok h.owned hhas
  rw [hdestroy]
  refine .done none g' 0 rfl ((zero_add lost).symm ▸ ?_) (hspares.mono ?_) fun _ => id
  · apply h.change_encoder hat howned hspares hlength (fine_of_plain hself trivial)
    exact fine_of_plain hstream (settled_plain (plain_of_noStream rfl hnone))
  · rintro i (rfl | rfl)
    · exact Or.inl rfl
    · exact Or.inr ⟨encoder, hat, rfl⟩

theorem Subscribes.keeps {libav : EncoderLibav} {data new : Data} {source : FrameSource}
    {par : AVCodecParameters} {g' : Graph} {what : Option String}
    (h : Subscribes libav data source par g g' what new) :
    new.parameters = data.parameters ∧ new.stream = data.stream := by
  cases h with
  | noContext halloc hparameters hcontexts => exact ⟨rfl, rfl⟩
  | notOpened new halloc hencodes hrc =>
      obtain ⟨c, rfl, -⟩ := hencodes.data
      exact ⟨rfl, rfl⟩
  | opened new halloc hencodes hrc =>
      obtain ⟨c, rfl, -⟩ := hencodes.data
      exact ⟨rfl, rfl⟩

theorem subscribeEncoder_goes (h : Sound lost g) (libav : EncoderLibav) {e d : Nat}
    {encoder : Encoder} {source : FrameSource} (hat : g.objects[e]? = some (.encoder encoder))
    (hd : g.objects[d]? = some (.decoder source)) :
    Goes lost g (.subscribeEncoder libav e d) (g.subscribeEncoder libav e encoder d source) := by
  obtain ⟨s, data, p, hhas, hkeeper, hp, hnone⟩ := (h.fine e).encoder encoder hat
  obtain ⟨par, what, g', new, -, hcall, howned, hspares, hlength, hself, hstream, hsubscribes⟩ :=
    subscribeEncoder_ok h.owned libav hhas hp hd
  obtain ⟨hparameters, hcontainer⟩ := hsubscribes.keeps
  rw [hcall]
  refine .done what g' 0 rfl ((zero_add lost).symm ▸ ?_) (hspares.mono ?_) fun _ => id
  · apply h.change_encoder hat howned hspares hlength
    · constructor
      · intro encoder' he
        rw [hself] at he
        obtain rfl := Object.encoder.inj (Option.some.inj he)
        exact ⟨_, new, p, ⟨hself, hstream, rfl⟩, hkeeper, hparameters.trans hp,
          hcontainer.trans hnone⟩
      · intro s' hs'
        rw [hself] at hs'
        cases hs'
    · exact fine_of_plain hstream (plain_of_noStream rfl (hcontainer.trans hnone))
  · rintro i (rfl | rfl)
    · exact Or.inl rfl
    · exact Or.inr ⟨encoder, hat, rfl⟩

section Muxers

variable {libav : Muxer.Libavformat} {m : Nat} {muxer : Muxer}

/-- A muxer that is there is still there after a call, or is gone. -/
theorem put_goes (h : Sound lost g) (hat : g.objects[m]? = some (.muxer muxer)) {object : Object}
    (hobject : object = .gone ∨ ∃ next, object = .muxer next) {l : Label} (hloses : loses l = 0)
    (htouches : touches g l = (· = m)) (hsafe : ∀ crash, ¬ Fails g l crash)
    (what : Option String) : Goes lost g l (.ok (what, g.put m object)) := by
  have hspares := put_spares g m object
  refine .done what _ 0 hloses.symm ((zero_add lost).symm ▸ ?_) (htouches ▸ hspares) hsafe
  rcases hobject with rfl | ⟨next, rfl⟩
  · exact h.change_other (h.owned.put hat rfl rfl rfl) hspares rfl hat nofun nofun trivial
  · exact h.change_other (h.owned.put hat rfl rfl rfl) hspares rfl hat nofun nofun trivial

theorem finish_goes (h : Sound lost g) (hat : g.objects[m]? = some (.muxer muxer))
    {result : Muxer.Outcome × Muxer} (halive : Muxer.fatal result.1 = false) {l : Label}
    (hloses : loses l = 0) (htouches : touches g l = (· = m))
    (hsafe : ∀ crash, ¬ Fails g l crash) : Goes lost g l (g.finish m result) := by
  obtain ⟨what, hfinish⟩ := finish_alive (g := g) (m := m) halive
  rw [hfinish]
  exact put_goes h hat (Or.inr ⟨_, rfl⟩) hloses htouches hsafe what

theorem makeMuxer_goes (h : Sound lost g) (filename format : String) (bufferMax : Int64)
    (muxer : Muxer) :
    Goes lost g (.makeMuxer libav filename format bufferMax)
      (.ok (none, g.add (.muxer muxer))) := by
  have hspares : Spares (fun _ => False) g (g.add (.muxer muxer)) := add_spares g _
  refine .done none _ 0 rfl ((zero_add lost).symm ▸ ?_) hspares fun _ => id
  apply h.grow_plain _ hspares rfl
  · intro object hobject
    obtain rfl := List.mem_singleton.mp hobject
    trivial
  · apply owned_add
    · exact (zero_add (held Object.parameters g.objects)).symm ▸ h.owned.parameters
    · exact (zero_add (held Object.contexts g.objects)).symm ▸ h.owned.contexts
    · exact (zero_add (held Object.avStreams g.objects)).symm ▸ h.owned.avStreams

theorem view_parameters (h : Owned lost g) {i : Nat} {s : StreamObject} {data : Data}
    (hs : g.objects[i]? = some (.stream s)) (hdata : s.data = some data) :
    (g.viewData data).parameters = none ↔ data.parameters = none := by
  rw [viewData]
  cases hp : data.parameters with
  | none => simp
  | some p =>
      have hmine : p ∈ held Object.parameters g.objects := by
        apply Multiset.mem_of_le (held_le _ (List.mem_of_getElem? hs))
        simp [Object.parameters, hdata, hp]
      obtain ⟨par, hpar⟩ := h.parameters.get hmine
      simp [hpar]

theorem fails_subscribeMuxer (h : Owned lost g) {i : Nat} {s : StreamObject}
    (hat : g.objects[m]? = some (.muxer muxer)) (hs : g.objects[i]? = some (.stream s))
    (crash : Crash) :
    Fails g (.subscribeMuxer libav m i) crash ↔
      crash = .nullDereference ∧ Muxer.fatal (muxer.subscribe libav (g.view i s)).1 = true := by
  have hview : (g.view i s).data = none ↔ s.data = none := Option.map_eq_none_iff
  have hparameters : (∃ data, (g.view i s).data = some data ∧ data.parameters = none) ↔
      ∃ data, s.data = some data ∧ data.parameters = none := by
    constructor
    · rintro ⟨shown, hshown, hnone⟩
      obtain ⟨data, hdata, rfl⟩ := Option.map_eq_some_iff.mp hshown
      exact ⟨data, hdata, (view_parameters h hs hdata).mp hnone⟩
    · rintro ⟨data, hdata, hnone⟩
      refine ⟨g.viewData data, ?_, (view_parameters h hs hdata).mpr hnone⟩
      rw [view, hdata]
      rfl
  rw [subscribe_fatal_iff, hview, hparameters]
  constructor
  · rintro ⟨rfl, muxer', s', hat', hs', hfails⟩
    rw [hat] at hat'
    rw [hs] at hs'
    obtain rfl := Object.muxer.inj (Option.some.inj hat')
    obtain rfl := Object.stream.inj (Option.some.inj hs')
    exact ⟨rfl, hfails⟩
  · rintro ⟨rfl, hfails⟩
    exact ⟨rfl, muxer, s, hat, hs, hfails⟩

theorem subscribeMuxer_goes (h : Sound lost g) {i : Nat} {s : StreamObject}
    (hat : g.objects[m]? = some (.muxer muxer)) (hs : g.objects[i]? = some (.stream s)) :
    Goes lost g (.subscribeMuxer libav m i) (g.subscribeMuxer libav m muxer i s) := by
  have hfails := fun crash => @fails_subscribeMuxer g lost libav m muxer h.owned i s hat hs crash
  rw [subscribeMuxer]
  cases hfatal : Muxer.fatal (muxer.subscribe libav (g.view i s)).1 with
  | true =>
      rw [finish_fatal hfatal]
      exact .crash _ ((hfails _).mpr ⟨rfl, hfatal⟩)
  | false =>
      apply finish_goes h hat hfatal rfl rfl
      intro crash hcrash
      rw [hfails, hfatal] at hcrash
      cases hcrash.2

theorem process_goes (h : Sound lost g) {k i : Nat} {info : Muxer.StreamInfo} {s : StreamObject}
    (packet : Packet) (hat : g.objects[m]? = some (.muxer muxer))
    (hinfo : muxer.streaminfo[k]? = some info) (hs : g.objects[i]? = some (.stream s)) :
    Goes lost g (.process libav m k packet i) (g.processMuxer libav m muxer k info packet s) := by
  have hfails : ∀ crash, Fails g (.process libav m k packet i) crash ↔
      crash = .nullDereference ∧ info.stream = none ∨
        crash = .useAfterFree ∧ info.stream ≠ none ∧ Dangling s := by
    intro crash
    constructor
    · rintro ⟨muxer', info', s', hat', hinfo', hs', hcrash⟩
      rw [hat] at hat'
      rw [hs] at hs'
      obtain rfl := Object.muxer.inj (Option.some.inj hat')
      obtain rfl := Object.stream.inj (Option.some.inj hs')
      rw [hinfo] at hinfo'
      obtain rfl := Option.some.inj hinfo'
      exact hcrash
    · intro hcrash
      exact ⟨muxer, info, s, hat, hinfo, hs, hcrash⟩
  have hfatal := process_fatal_iff libav muxer k info packet (s.data.map g.viewData)
  cases hout : info.stream with
  | none =>
      have hcall : g.processMuxer libav m muxer k info packet s = .error .nullDereference := by
        rw [processMuxer, hout, Option.bind_none, readIfSet]
        exact finish_fatal (hfatal.mpr hout)
      rw [hcall]
      exact .crash _ ((hfails _).mpr (Or.inl ⟨rfl, hout⟩))
  | some output =>
      by_cases hdangling : Dangling s
      · have hcall : g.processMuxer libav m muxer k info packet s = .error .useAfterFree := by
          obtain ⟨-, data, hdata, hsome⟩ := id hdangling
          obtain ⟨address, hstream⟩ := Option.ne_none_iff_exists'.mp hsome
          have hfreed := (h.dangling_iff hs hdata hstream).mp hdangling
          simp only [processMuxer, hout, hdata, Option.bind_some, hstream, readIfSet,
            read_freed hfreed]
          rfl
        rw [hcall]
        exact .crash _ ((hfails _).mpr (Or.inr ⟨rfl, by simp [hout], hdangling⟩))
      · obtain ⟨input, hread⟩ : ∃ input, g.avStreams.readIfSet
            (info.stream.bind fun _ => s.data.bind Data.stream) = .ok input := by
          rw [hout, Option.bind_some]
          cases hstream : s.data.bind Data.stream with
          | none => exact ⟨none, rfl⟩
          | some address =>
              obtain ⟨data, hdata, hstream⟩ := Option.bind_eq_some_iff.mp hstream
              cases hav : g.avStreams.get address with
              | none => exact absurd ((h.dangling_iff hs hdata hstream).mpr hav) hdangling
              | some av =>
                  refine ⟨some av, ?_⟩
                  rw [readIfSet, read_eq_ok.mpr hav]
                  rfl
        have halive : Muxer.fatal
            (muxer.process libav k info packet (s.data.map g.viewData)).1 = false := by
          rw [← Bool.not_eq_true, hfatal, hout]
          exact Option.some_ne_none output
        rw [processMuxer, hread]
        apply finish_goes h hat halive rfl rfl
        intro crash hcrash
        rcases (hfails crash).mp hcrash with ⟨-, hnone⟩ | ⟨-, -, hyes⟩
        · rw [hout] at hnone
          cases hnone
        · exact hdangling hyes

theorem destroyMuxer_goes (h : Sound lost g) (hat : g.objects[m]? = some (.muxer muxer)) :
    Goes lost g (.destroyMuxer libav m) ((g.destroyMuxer libav m muxer).map (none, ·)) := by
  have hiff := (Muxer.close_fst libav muxer).symm ▸ Muxer.flush_returns_iff libav muxer
  rw [destroyMuxer]
  cases hclose : (muxer.close libav).1 with
  | error e =>
      rw [hclose] at hiff
      exact .crash _ ⟨rfl, muxer, hat, fun hflushable => nomatch hiff.mpr hflushable⟩
  | ok u =>
      apply put_goes h hat (Or.inl rfl) rfl rfl
      rintro crash ⟨-, muxer', hat', hnot⟩
      rw [hat] at hat'
      obtain rfl := Object.muxer.inj (Option.some.inj hat')
      exact hnot (hiff.mp hclose)

end Muxers

/-- Every call, from a graph in which everything is in order, leaves it so or is one of those
that end the process. -/
theorem call_goes (h : Sound lost g) {l : Label}
    {result : Except Crash (Option String × Graph)} (hcall : g.call l = some result) :
    Goes lost g l result := by
  have hmuxer : ∀ {m : Nat} {f : Muxer → Except Crash (Option String × Graph)},
      g.onMuxer m f = some result →
      ∃ muxer, g.objects[m]? = some (.muxer muxer) ∧ f muxer = result := by
    intro m f hon
    unfold onMuxer at hon
    split at hon
    · rename_i muxer hat
      exact ⟨muxer, hat, Option.some.inj hon⟩
    · cases hon
  cases l with
  | openReader libav filename formatContext =>
      exact Option.some.inj hcall ▸ openReader_goes h libav filename formatContext
  | closeReader r =>
      dsimp only [call] at hcall
      split at hcall
      · exact Option.some.inj hcall ▸ closeReader_goes h ‹_›
      · cases hcall
  | rebuild libav seg => exact Option.some.inj hcall ▸ rebuild_goes h libav seg
  | hold i =>
      dsimp only [call] at hcall
      split at hcall
      · rename_i s hat
        have hput : g.settle i { s with held := true } =
            .ok (g.put i (.stream { s with held := true })) := by
          rw [settle, if_neg]
          exact fun hboth => Bool.noConfusion hboth.2
        have hgoes := settle_goes h hat true (l := .hold i) rfl rfl fun _ => id
        rw [hput] at hgoes
        exact Option.some.inj hcall ▸ hgoes
      · cases hcall
  | release i =>
      dsimp only [call] at hcall
      split at hcall
      · exact Option.some.inj hcall ▸ settle_goes h ‹_› false rfl rfl fun _ => id
      · cases hcall
  | makeDecoder => exact Option.some.inj hcall ▸ makeDecoder_goes h
  | destroyDecoder d =>
      dsimp only [call] at hcall
      split at hcall
      · exact Option.some.inj hcall ▸ destroyDecoder_goes h ‹_›
      · cases hcall
  | subscribeDecoder d i =>
      dsimp only [call] at hcall
      split at hcall
      · exact Option.some.inj hcall ▸ subscribeDecoder_goes h ‹_› ‹_›
      · cases hcall
  | makeEncoder libav codecName =>
      exact Option.some.inj hcall ▸ makeEncoder_goes h libav codecName
  | destroyEncoder e =>
      dsimp only [call] at hcall
      split at hcall
      · exact Option.some.inj hcall ▸ destroyEncoder_goes h ‹_›
      · cases hcall
  | subscribeEncoder libav e d =>
      dsimp only [call] at hcall
      split at hcall
      · exact Option.some.inj hcall ▸ subscribeEncoder_goes h libav ‹_› ‹_›
      · cases hcall
  | makeMuxer libav filename format bufferMax =>
      dsimp only [call] at hcall
      split at hcall
      · exact Option.some.inj hcall ▸ makeMuxer_goes h filename format bufferMax _
      · exact Option.some.inj hcall ▸
          .done _ g 0 rfl ((zero_add lost).symm ▸ h) (Spares.refl _ g) fun _ => id
  | subscribeMuxer libav m i =>
      dsimp only [call] at hcall
      split at hcall
      · exact Option.some.inj hcall ▸ subscribeMuxer_goes h ‹_› ‹_›
      · cases hcall
  | process libav m k packet i =>
      dsimp only [call] at hcall
      split at hcall
      · obtain ⟨info, hinfo, rfl⟩ := Option.map_eq_some_iff.mp hcall
        exact process_goes h packet ‹_› hinfo ‹_›
      · cases hcall
  | flush libav m =>
      obtain ⟨muxer, hat, rfl⟩ := hmuxer hcall
      exact finish_goes h hat (flush_alive libav muxer) rfl rfl fun _ => id
  | openOutput libav m =>
      obtain ⟨muxer, hat, rfl⟩ := hmuxer hcall
      exact finish_goes h hat (openOutput_alive libav muxer) rfl rfl fun _ => id
  | closeOutput libav m =>
      obtain ⟨muxer, hat, rfl⟩ := hmuxer hcall
      exact finish_goes h hat (close_alive libav muxer) rfl rfl fun _ => id
  | destroyMuxer libav m =>
      obtain ⟨muxer, hat, rfl⟩ := hmuxer hcall
      exact destroyMuxer_goes h hat

end Calls

section Runs

theorem sound_empty : Sound 0 empty :=
  ⟨⟨accounted_empty, accounted_empty, accounted_empty⟩, fun _ => fine_of_none rfl⟩

theorem Fails.ne_invalidFree {g : Graph} {l : Label} {crash : Crash} (h : Fails g l crash) :
    crash ≠ .invalidFree := by
  rintro rfl
  cases l with
  | subscribeDecoder d i =>
      obtain ⟨s, -, ⟨h, -⟩ | ⟨h, -⟩⟩ := h
      · cases h
      · cases h
  | subscribeMuxer libav m i => cases h.1
  | process libav m k packet i =>
      obtain ⟨muxer, info, s, -, -, -, ⟨h, -⟩ | ⟨h, -⟩⟩ := h
      · cases h
      · cases h
  | destroyMuxer libav m => cases h.1
  | _ => exact h

/-- None of the calls is the end of the process. -/
def Careful (labels : List Label) : Prop :=
  Guarded Run.step (fun r l => ∀ crash, ¬ Fails r.graph l crash) Run.start labels

/-- Where a run has come to. -/
structure Run.At (labels : List Label) (r : Run) : Prop where
  sound : ∃ lost : Multiset Nat, lost.card = losses labels ∧ Sound lost r.graph
  frees : r.crash ≠ some .invalidFree
  careful : r.crash = none ↔ Careful labels

/-- What a step does, by how its call goes. -/
theorem Run.step_goes {r r' : Run} {l : Label} {lost : Multiset Nat} (h : Sound lost r.graph)
    (hstep : r.step l = some r') :
    r.crash = none ∧ ((∃ crash, Fails r.graph l crash ∧ r' = { r with crash := some crash }) ∨
      ∃ what g' new, Multiset.card new = loses l ∧ Sound (new + lost) g' ∧
        Spares (touches r.graph l) r.graph g' ∧ (∀ crash, ¬ Fails r.graph l crash) ∧
        r.graph.call l = some (.ok (what, g')) ∧
        r' = { r with graph := g', thrown := r.thrown ++ what.toList }) := by
  unfold Run.step at hstep
  split at hstep
  · rename_i hcrash
    refine ⟨hcrash, ?_⟩
    obtain ⟨result, hcall, heq⟩ := Option.map_eq_some_iff.mp hstep
    cases call_goes h hcall with
    | crash crash hfails => exact Or.inl ⟨crash, hfails, heq.symm⟩
    | done what g' new hcard hsound hspares hsafe =>
        exact Or.inr ⟨what, g', new, hcard, hsound, hspares, hsafe, hcall, heq.symm⟩
  · cases hstep

theorem Run.at_of_exec {labels : List Label} {r : Run}
    (hexec : exec Run.step Run.start labels = some r) : r.At labels := by
  induction labels using List.reverseRecOn generalizing r with
  | nil =>
      obtain rfl := Option.some.inj hexec
      exact ⟨⟨0, rfl, sound_empty⟩, nofun, fun _ => guarded_nil _ _, fun _ => rfl⟩
  | append_singleton labels l ih =>
      obtain ⟨r₀, hexec₀, hstep⟩ := exec_snoc_eq_some Run.step hexec
      obtain ⟨⟨lost, hcard₀, hsound₀⟩, -, hcareful₀⟩ := ih hexec₀
      obtain ⟨hcrash₀, hgoes⟩ := Run.step_goes hsound₀ hstep
      rcases hgoes with ⟨crash, hfails, rfl⟩ | ⟨what, g', new, hcard, hsound, -, hsafe, -, rfl⟩
      · have hnot : ¬ Careful (labels ++ [l]) := fun hcareful =>
          hcareful.last hexec₀ crash hfails
        have hnone : loses l = 0 := by
          cases l with
          | makeEncoder libav codecName => exact hfails.elim
          | rebuild libav seg => exact hfails.elim
          | _ => rfl
        refine ⟨⟨lost, ?_, hsound₀⟩, ?_, ?_⟩
        · rw [losses_snoc, hnone, hcard₀, Nat.add_zero]
        · intro heq
          exact hfails.ne_invalidFree (Option.some.inj heq)
        · exact ⟨fun heq => (Option.some_ne_none crash heq).elim, fun h => (hnot h).elim⟩
      · refine ⟨⟨new + lost, ?_, hsound⟩, ?_, ?_⟩
        · rw [Multiset.card_add, hcard, hcard₀, losses_snoc, Nat.add_comm]
        · intro heq
          rw [hcrash₀] at heq
          cases heq
        · refine ⟨fun _ => (hcareful₀.mp hcrash₀).snoc hexec₀ hsafe, fun _ => hcrash₀⟩

/-- What is left of an object when its life is over. -/
def Object.Over : Object → Prop
  | .gone => True
  | .reader addresses => addresses = []
  | _ => False

theorem Object.Over.owns_nothing {object : Object} (h : object.Over) :
    object.parameters = 0 ∧ object.contexts = 0 ∧ object.avStreams = 0 := by
  cases object with
  | gone => exact ⟨rfl, rfl, rfl⟩
  | reader addresses =>
      obtain rfl : addresses = [] := h
      exact ⟨rfl, rfl, rfl⟩
  | _ => exact h.elim

/-- A stream is transcoded, another is held on to while its reader is closed, and a third cannot
be rebuilt. -/
def sampleRun : List Label :=
  [.openReader (fun _ => ⟨fun id => some ⟨id, AVMediaType.video⟩, fun _ => true, fun _ => true⟩)
      "sample.mp4" PacketReader.sampleContainer,
    .makeDecoder, .subscribeDecoder 3 1, .makeEncoder .sample "", .subscribeEncoder .sample 5 3,
    .makeMuxer .sample "out.mp4" "" 0, .subscribeMuxer .sample 6 4, .hold 2, .closeReader 0,
    .rebuild ⟨fun _ => none, fun _ => true, fun _ => true⟩ Segment.sample, .destroyEncoder 5,
    .destroyDecoder 3, .release 2, .destroyMuxer .sample 6]

end Runs

end Media2.Graph
