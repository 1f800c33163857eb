import Media2.Graph.Ownership

/-!
# A graph by value

The other models take the data of a stream, the parameters of a decoder and the context of an
encoder for values that are copied whenever one object is subscribed to another. As long as no
call ends the process, pointers make no difference to this: what the objects show when their
pointers are followed is what the model by value says, after every call.

## Implementation notes

By value nothing is allocated or freed. A stream whose reader is closed forgets the stream of the
container.
-/

namespace Media2

/-- The context as it is set up for an encoder. -/
def Context.encoder : Context → Option EncodingContext
  | .decoding _ => none
  | .encoding ctx => some ctx

namespace Graph

open Execution Blocks

/-- A stream by value. `encoding` is its context when it is of an encoder. -/
structure StreamValue where
  data : Option StreamData
  encoding : Option EncodingContext
  keeper : Option Nat
  held : Bool

/-- A frame source by value. -/
structure SourceValue where
  parameters : AVCodecParameters
  timeBase : AVRational
  avgFrameRate : AVRational
  rFrameRate : AVRational

inductive Value
  | gone
  | reader
  | stream (s : StreamValue)
  | decoder (source : SourceValue)
  | encoder (encoder : Encoder)
  | muxer (muxer : Muxer)

namespace Values

def settled (s : StreamValue) : Value :=
  if s.keeper = none ∧ s.held = false then .gone else .stream s

/-- What becomes of an object when a reader is closed. -/
def letGo (r : Nat) : Value → Value
  | .reader => .reader
  | .stream s =>
      if s.keeper = some r then
        settled { s with
          data := s.data.map fun data => { data with stream := none }
          keeper := none }
      else .stream s
  | v => v

/-- The data of an encoder's stream in the constructor. -/
def newEncoderData (codec : Option AVCodec) : StreamData where
  filename := ""
  stream := none
  timeBase := ⟨0, 0⟩
  avgFrameRate := ⟨0, 0⟩
  rFrameRate := ⟨0, 0⟩
  parameters := some AVCodecParameters.blank
  mediaType := AVMediaType.unknown
  codec := codec
  context := none

/-- What a decoder takes over from data that are of an open container. -/
def takeOver (data : StreamData) : Option SourceValue :=
  match data.stream, data.parameters with
  | some av, some par => some ⟨par, data.timeBase, av.avgFrameRate, av.rFrameRate⟩
  | _, _ => none

/-- The stream of an encoder that is subscribed to a source, with the text of the exception. -/
def encode (libav : EncoderLibav) (s : StreamValue) (data : StreamData) (source : SourceValue) :
    Option String × StreamValue :=
  let codec := libav.findEncoder source.parameters.codecId
  if libav.allocContext codec then
    let ctx := contextFor codec source.parameters source.timeBase
    let data := { data with
      codec := codec
      parameters := some source.parameters
      mediaType := source.parameters.codecType
      avgFrameRate := source.avgFrameRate
      rFrameRate := source.rFrameRate
      context := none }
    if libav.openContext ctx < 0 then
      (some ("Could not open context for codec " ++
          toString source.parameters.codecId.toInt32.toInt),
        { s with data := some data, encoding := some ctx })
    else (none, { s with data := some data, encoding := some { ctx with opened := true } })
  else (some "Could not find codec", { s with data := some { data with codec := codec } })

/-- How a call of a muxer ends, if the process goes on. -/
def finish (values : List Value) (m : Nat) :
    Muxer.Outcome × Muxer → Option (Option String × List Value)
  | (.ok _, muxer) => some (none, values.set m (.muxer muxer))
  | (.error e, muxer) =>
      if Muxer.fatal (.error e) then none
      else some (some (text e), values.set m (.muxer muxer))

/-- A call, by value. -/
def call (values : List Value) : Label → Option (Option String × List Value)
  | .openReader libav filename formatContext =>
      let opened := PacketReader.setupStreams libav filename true formatContext StreamTables.empty
      some (none, values ++ .reader :: opened.tables.streams.map fun stream =>
        .stream ⟨stream.data, none, some values.length, false⟩)
  | .closeReader r => some (none, values.map (letGo r))
  | .rebuild libav seg =>
      match StreamData.ofSegment libav seg seg.jobId.unparse with
      | .ok data => some (none, values ++ [.stream ⟨some data, none, none, true⟩])
      | .error e => some (some (text (.fault e)), values)
  | .hold i =>
      match values[i]? with
      | some (.stream s) => some (none, values.set i (.stream { s with held := true }))
      | _ => none
  | .release i =>
      match values[i]? with
      | some (.stream s) => some (none, values.set i (settled { s with held := false }))
      | _ => none
  | .makeDecoder =>
      some (none, values ++ [.decoder ⟨AVCodecParameters.blank, ⟨0, 0⟩, ⟨0, 0⟩, ⟨0, 0⟩⟩])
  | .destroyDecoder d => some (none, values.set d .gone)
  | .subscribeDecoder d i =>
      match values[i]? with
      | some (.stream s) => s.data.map fun data =>
          match takeOver data with
          | some source => (none, values.set d (.decoder source))
          | none => (none, values)
      | _ => none
  | .makeEncoder libav codecName =>
      let codec := namedCodec libav codecName
      if codecName ≠ "" ∧ codec = none then
        some (some ("Could not find codec " ++ codecName), values)
      else
        some (none, values ++
          [.stream ⟨some (newEncoderData codec), none, some (values.length + 1), false⟩,
            .encoder ⟨values.length, none⟩])
  | .destroyEncoder e =>
      match values[e]? with
      | some (.encoder encoder) =>
          match values[encoder.stream]? with
          | some (.stream s) => some (none, (values.set encoder.stream (settled { s with
              data := s.data.map fun data => { data with parameters := none }
              keeper := none })).set e .gone)
          | _ => none
      | _ => none
  | .subscribeEncoder libav e d =>
      match values[e]?, values[d]? with
      | some (.encoder encoder), some (.decoder source) =>
          match values[encoder.stream]? with
          | some (.stream s) => s.data.map fun data =>
              let (what, s) := encode libav s data source
              (what, (values.set encoder.stream (.stream s)).set e
                (.encoder { encoder with src := encoder.src.or (some d) }))
          | _ => none
      | _, _ => none
  | .makeMuxer libav filename format bufferMax =>
      match Muxer.create libav filename format bufferMax with
      | .ok muxer => some (none, values ++ [.muxer muxer])
      | .error e => some (some (text e), values)
  | .subscribeMuxer libav m i =>
      match values[m]?, values[i]? with
      | some (.muxer muxer), some (.stream s) =>
          finish values m (muxer.subscribe libav ⟨i, s.data⟩)
      | _, _ => none
  | .process libav m k packet i =>
      match values[m]?, values[i]? with
      | some (.muxer muxer), some (.stream s) =>
          muxer.streaminfo[k]?.bind fun info =>
            finish values m (muxer.process libav k info packet s.data)
      | _, _ => none
  | .flush libav m =>
      match values[m]? with
      | some (.muxer muxer) => finish values m (muxer.flush libav)
      | _ => none
  | .openOutput libav m =>
      match values[m]? with
      | some (.muxer muxer) => finish values m (muxer.openOutput libav)
      | _ => none
  | .closeOutput libav m =>
      match values[m]? with
      | some (.muxer muxer) => finish values m (muxer.close libav)
      | _ => none
  | .destroyMuxer _ m => some (none, values.set m .gone)

/-- The values with the texts of the exceptions. -/
def step (state : List Value × List String) (l : Label) : Option (List Value × List String) :=
  (call state.1 l).map fun (what, values) => (values, state.2 ++ what.toList)

end Values

section Shows

variable (g : Graph)

def showStream (s : StreamObject) : StreamValue where
  data := s.data.map g.viewData
  encoding := ((s.data.bind Data.context).bind g.contexts.get).bind Context.encoder
  keeper := s.keeper
  held := s.held

def showSource (source : FrameSource) : SourceValue where
  parameters := (g.parameters.get source.parameters).getD AVCodecParameters.blank
  timeBase := source.timeBase
  avgFrameRate := source.avgFrameRate
  rFrameRate := source.rFrameRate

/-- An object when its pointers are followed. -/
def showObject : Object → Value
  | .gone => .gone
  | .reader _ => .reader
  | .stream s => .stream (g.showStream s)
  | .decoder source => .decoder (g.showSource source)
  | .encoder encoder => .encoder encoder
  | .muxer muxer => .muxer muxer

def values : List Value := g.objects.map g.showObject

end Shows

section Frames

variable {g g' : Graph} {lost : Multiset Nat} {places : Nat → Prop} {i : Nat} {object : Object}

theorem values_getElem? (hat : g.objects[i]? = some object) :
    g.values[i]? = some (g.showObject object) := by
  rw [values, List.getElem?_map, hat, Option.map_some]

theorem length_values (g : Graph) : g.values.length = g.objects.length :=
  List.length_map ..

/-- A stream with the same blocks shows the same, if its reader is spared. -/
theorem Sound.shows_stream (h : Sound lost g) (hspares : Spares places g g') {s : StreamObject}
    (hat : g.objects[i]? = some (.stream s)) (hsame : SameBlocks g g' (.stream s))
    (hreader : ∀ r addresses, s.keeper = some r → g.objects[r]? = some (.reader addresses) →
      ¬ places r) : g'.showStream s = g.showStream s := by
  cases hdata : s.data with
  | none => simp only [showStream, hdata, Option.map_none, Option.bind_none]
  | some data =>
      have hav : ∀ q ∈ data.stream, g'.avStreams.get q = g.avStreams.get q := by
        intro q hq
        rcases ((h.fine i).stream s hat data q hdata hq).2 with
          ⟨r, addresses, hkeeper, hr, hmem⟩ | ⟨-, hfreed⟩
        · have hblocks := (hspares.objects r _ (hreader r addresses hkeeper hr) hr).2
          exact hblocks.avStreams q (Multiset.mem_coe.mpr hmem)
        · rw [hfreed.2, (hspares.later q hfreed).2]
      have hview := viewData_same hsame hdata hav
      have hcontext : data.context.bind g'.contexts.get = data.context.bind g.contexts.get := by
        cases hc : data.context with
        | none => rfl
        | some c => exact hsame.contexts c (by simp [Object.contexts, hdata, hc])
      simp only [showStream, hdata, Option.map_some, Option.bind_some, hview, hcontext]

/-- An object that is spared shows what it showed, if its reader is spared too. -/
theorem Sound.shows (h : Sound lost g) (hspares : Spares places g g')
    (hat : g.objects[i]? = some object) (hi : ¬ places i)
    (hreader : ∀ s r addresses, object = .stream s → s.keeper = some r →
      g.objects[r]? = some (.reader addresses) → ¬ places r) :
    g'.showObject object = g.showObject object := by
  have hsame := (hspares.objects i object hi hat).2
  cases object with
  | stream s =>
      have hshown := h.shows_stream hspares hat hsame fun r addresses => hreader s r addresses rfl
      simp only [showObject, hshown]
  | decoder source =>
      have hparameters := hsame.parameters source.parameters (Multiset.mem_singleton_self _)
      simp only [showObject, showSource, hparameters]
  | _ => rfl

/-- Objects are added, and the others show what they showed. -/
theorem Sound.values_grow (h : Sound lost g) (hspares : Spares (fun _ => False) g g')
    {new : List Object} (hobjects : g'.objects = g.objects ++ new) :
    g'.values = g.values ++ new.map g'.showObject := by
  rw [values, hobjects, List.map_append, values]
  congr 1
  apply List.map_congr_left
  intro object hobject
  obtain ⟨i, hat⟩ := List.mem_iff_getElem?.mp hobject
  exact h.shows hspares hat not_false fun _ _ _ _ _ _ => not_false

/-- One object changes, on which no other depends. -/
theorem Sound.values_set (h : Sound lost g) (hspares : Spares (· = i) g g')
    (hobjects : g'.objects = g.objects.set i object)
    (hreader : ∀ addresses, g.objects[i]? ≠ some (.reader addresses)) :
    g'.values = g.values.set i (g'.showObject object) := by
  rw [values, hobjects, List.map_set]
  apply List.ext_getElem?
  intro j
  rw [List.getElem?_set, List.getElem?_set, length_values, List.length_map]
  split
  · rfl
  · rename_i hne
    rw [values, List.getElem?_map, List.getElem?_map]
    cases hat : g.objects[j]? with
    | none => rfl
    | some object' =>
        rw [Option.map_some, Option.map_some, h.shows hspares hat (Ne.symm hne)]
        rintro s r addresses - - hr rfl
        exact hreader addresses hr

/-- An encoder and its stream change. -/
theorem Sound.values_pair (h : Sound lost g) {e : Nat} {encoder : Encoder} {s : StreamObject}
    {data : Data} (hhas : HasStream g e encoder s data)
    (hspares : Spares (fun i => i = e ∨ i = encoder.stream) g g')
    (hlength : g'.objects.length = g.objects.length) {x y : Object}
    (hself : g'.objects[e]? = some x) (hstream : g'.objects[encoder.stream]? = some y) :
    g'.values = (g.values.set encoder.stream (g'.showObject y)).set e (g'.showObject x) := by
  have hlt := (List.getElem?_eq_some_iff.mp hhas.here).1
  have hlt' := (List.getElem?_eq_some_iff.mp hhas.stream).1
  apply List.ext_getElem?
  intro i
  by_cases hi : i = e
  · subst hi
    rw [values_getElem? hself, List.getElem?_set_self]
    rw [List.length_set, length_values]
    exact hlt
  · rw [List.getElem?_set_ne (Ne.symm hi)]
    by_cases hi' : i = encoder.stream
    · subst hi'
      rw [values_getElem? hstream, List.getElem?_set_self]
      rw [length_values]
      exact hlt'
    · rw [List.getElem?_set_ne (Ne.symm hi')]
      cases hat : g.objects[i]? with
      | none =>
          have hge := List.getElem?_eq_none_iff.mp hat
          have hnone : g'.objects[i]? = none := List.getElem?_eq_none_iff.mpr (hlength ▸ hge)
          rw [values, values, List.getElem?_map, List.getElem?_map, hat, hnone]
          rfl
      | some object =>
          have hplace : ¬ (i = e ∨ i = encoder.stream) := not_or.mpr ⟨hi, hi'⟩
          have hkept := (hspares.objects i object hplace hat).1
          rw [values_getElem? hkept, values_getElem? hat, h.shows hspares hat hplace]
          rintro s' r addresses - - hr (rfl | rfl)
          · rw [hhas.here] at hr
            cases hr
          · rw [hhas.stream] at hr
            cases hr

end Frames

section Calls

variable {g g' : Graph} {lost : Multiset Nat} {what : Option String}

/-- A context that shows as that of a decoder does not show as that of an encoder. -/
theorem encoding_eq_none {data : Data} (h : (g.viewData data).context ≠ none) :
    (data.context.bind g.contexts.get).bind Context.encoder = none := by
  rw [viewData] at h
  cases hc : data.context.bind g.contexts.get with
  | none => rfl
  | some ctx =>
      rw [hc] at h
      cases ctx with
      | decoding ctx => rfl
      | encoding ctx => exact absurd rfl h

/-- What is settled shows the same by value, if its blocks are the same. -/
theorem show_settled {s : StreamObject} {v : StreamValue} (hkeeper : v.keeper = s.keeper)
    (hheld : v.held = s.held)
    (hshown : settled s = .stream s → g.showStream s = v) :
    g.showObject (settled s) = Values.settled v := by
  unfold Values.settled
  rw [hkeeper, hheld]
  split
  · rename_i hgone
    rw [settled, if_pos hgone]
    rfl
  · rename_i hstays
    have hsettled : settled s = .stream s := if_neg hstays
    rw [hsettled, showObject, hshown hsettled]

theorem openReader_values (h : Sound lost g) {libav : Nat → Libav} {filename : String}
    {formatContext : FormatContext}
    (hcall : g.openReader libav filename formatContext = .ok g') :
    Values.call g.values (.openReader libav filename formatContext) = some (none, g'.values) := by
  obtain ⟨g₁, hopen, -, hspares, addresses, new, hobjects, -, hview, -⟩ :=
    openReader_ok h.owned libav filename formatContext
  obtain rfl : g₁ = g' := Except.ok.inj (hopen.symm.trans hcall)
  rw [h.values_grow hspares hobjects, List.map_cons, List.map_map]
  have hstreams : (PacketReader.setupStreams libav filename true formatContext
      StreamTables.empty).tables.streams.map (fun stream =>
        Value.stream ⟨stream.data, none, some g.values.length, false⟩) =
      (new.map fun data => data.map g₁.viewData).map fun data =>
        .stream ⟨data, none, some g.objects.length, false⟩ := by
    rw [hview, List.map_map, length_values]
    rfl
  simp only [Values.call]
  rw [hstreams, List.map_map]
  congr 3
  apply congrArg (Value.reader :: ·)
  apply List.map_congr_left
  intro made hmade
  cases made with
  | none => rfl
  | some data =>
      have hshown := List.mem_map_of_mem (f := fun data => Option.map g₁.viewData data) hmade
      rw [hview] at hshown
      obtain ⟨stream, hstream, hdata⟩ := List.mem_map.mp hshown
      have hnone := encoding_eq_none (table_data hstream hdata).2
      simp only [Function.comp_apply, showObject, showStream, Option.map_some, Option.bind_some,
        hnone]

theorem rebuild_values (h : Sound lost g) {libav : Libav} {seg : Segment}
    (hcall : g.rebuild libav seg = .ok (what, g')) :
    Values.call g.values (.rebuild libav seg) = some (what, g'.values) := by
  obtain ⟨what₁, g₁, new, hrebuild, -, -, hspares, hrest⟩ := rebuild_ok h.owned libav seg
  obtain ⟨rfl, rfl⟩ := Prod.mk.inj (Except.ok.inj (hrebuild.symm.trans hcall))
  cases hdata : StreamData.ofSegment libav seg seg.jobId.unparse with
  | error e =>
      rw [hdata] at hrest
      obtain ⟨why, rfl, rfl, hobjects⟩ := hrest
      have hvalues := h.values_grow hspares (hobjects.trans (List.append_nil g.objects).symm)
      rw [List.map_nil, List.append_nil] at hvalues
      simp only [Values.call, hdata, text, hvalues]
  | ok data =>
      rw [hdata] at hrest
      obtain ⟨rfl, made, hobjects, -, hview⟩ := hrest
      have hcontext : data.context ≠ none := by
        unfold StreamData.ofSegment at hdata
        split at hdata
        · cases hdata
        · split at hdata
          · obtain rfl := Except.ok.inj hdata
            exact Option.some_ne_none _
          · cases hdata
      have hnone := encoding_eq_none (hview.symm ▸ hcontext)
      rw [h.values_grow hspares hobjects]
      simp only [Values.call, hdata, List.map_cons, List.map_nil, showObject, showStream,
        Option.map_some, Option.bind_some, hview, hnone]

theorem release_values (h : Sound lost g) {i : Nat} {s : StreamObject}
    (hat : g.objects[i]? = some (.stream s))
    (hcall : g.settle i { s with held := false } = .ok g') :
    Values.call g.values (.release i) = some (none, g'.values) := by
  obtain ⟨g₁, hsettle, -, hspares, hobjects, hblocks⟩ :=
    @settle_ok g lost h.owned i s { s with held := false } hat rfl
  obtain rfl : g₁ = g' := Except.ok.inj (hsettle.symm.trans hcall)
  have hreader := ne_reader hat (by simp)
  have hshown : g₁.showObject (settled { s with held := false }) =
      Values.settled { g.showStream s with held := false } := by
    apply show_settled rfl rfl
    intro hstays
    have hsame : SameBlocks g g₁ (.stream s) := hblocks.resolve_left (by simp [hstays])
    have hstream := h.shows_stream hspares hat hsame (by
      rintro r addresses - hr rfl
      exact hreader addresses hr)
    exact congrArg (fun v : StreamValue => { v with held := false }) hstream
  rw [h.values_set hspares hobjects hreader, hshown]
  simp only [Values.call, values_getElem? hat, showObject]

theorem hold_values (h : Sound lost g) {i : Nat} {s : StreamObject}
    (hat : g.objects[i]? = some (.stream s)) :
    Values.call g.values (.hold i) =
      some (none, (g.put i (.stream { s with held := true })).values) := by
  have hreader := ne_reader hat (by simp)
  rw [h.values_set (put_spares g i _) rfl hreader]
  simp only [Values.call, values_getElem? hat, showObject]
  rfl

/-- A stream that loses its reader shows no stream of a container any more. -/
theorem Sound.shows_released (h : Sound lost g) {i r : Nat} {addresses : List Nat}
    {s : StreamObject} (hr : g.objects[r]? = some (.reader addresses))
    (hs : g.objects[i]? = some (.stream s)) (hkeeper : s.keeper = some r)
    (hfreed : ∀ a ∈ addresses, g'.avStreams.Freed a) (hsame : SameBlocks g g' (.stream s)) :
    g'.showStream { s with keeper := none } = { g.showStream s with
      data := (g.showStream s).data.map fun data => { data with stream := none }
      keeper := none } := by
  cases hdata : s.data with
  | none => simp only [showStream, hdata, Option.map_none, Option.bind_none]
  | some data =>
      have hstream : data.stream.bind g'.avStreams.get = none := by
        cases hstream : data.stream with
        | none => rfl
        | some a => exact (hfreed a (h.mem_addresses hr hs hkeeper hdata hstream)).2
      have hparameters : data.parameters.bind g'.parameters.get =
          data.parameters.bind g.parameters.get := by
        cases hp : data.parameters with
        | none => rfl
        | some p => exact hsame.parameters p (by simp [Object.parameters, hdata, hp])
      have hcontext : data.context.bind g'.contexts.get = data.context.bind g.contexts.get := by
        cases hc : data.context with
        | none => rfl
        | some c => exact hsame.contexts c (by simp [Object.contexts, hdata, hc])
      simp only [showStream, hdata, Option.map_some, Option.bind_some, viewData, hstream,
        hparameters, hcontext]

theorem closeReader_values (h : Sound lost g) {r : Nat} {addresses : List Nat}
    (hat : g.objects[r]? = some (.reader addresses))
    (hcall : g.closeReader r addresses = .ok g') :
    Values.call g.values (.closeReader r) = some (none, g'.values) := by
  obtain ⟨g₁, hclose, -, hspares, hlength, hself, hfreed, hstreams⟩ := closeReader_ok h.owned hat
  obtain rfl : g₁ = g' := Except.ok.inj (hclose.symm.trans hcall)
  have hvalues : g₁.values = g.values.map (Values.letGo r) := by
    apply List.ext_getElem?
    intro i
    rw [List.getElem?_map]
    cases hobject : g.objects[i]? with
    | none =>
        have hge := List.getElem?_eq_none_iff.mp hobject
        have hnone : g₁.objects[i]? = none := List.getElem?_eq_none_iff.mpr (hlength ▸ hge)
        rw [values, values, List.getElem?_map, List.getElem?_map, hobject, hnone]
        rfl
    | some object =>
        rw [values_getElem? hobject, Option.map_some]
        by_cases hplace : i = r ∨ i ∈ g.kept r
        · rcases hplace with rfl | hmem
          · rw [hat] at hobject
            obtain rfl := Option.some.inj hobject
            rw [values_getElem? hself]
            rfl
          · obtain ⟨s, hs, hkeeper⟩ := mem_kept.mp hmem
            rw [hs] at hobject
            obtain rfl := Option.some.inj hobject
            obtain ⟨hstays, hblocks⟩ := hstreams i hmem s hs
            rw [values_getElem? hstays]
            have hkept : (g.showStream s).keeper = some r := hkeeper
            rw [showObject, Values.letGo, if_pos hkept]
            congr 1
            apply show_settled rfl rfl
            intro hsettled
            exact h.shows_released hat hs hkeeper hfreed (hblocks.resolve_left (by simp [hsettled]))
        · have hkept := (hspares.objects i object hplace hobject).1
          rw [values_getElem? hkept, h.shows hspares hobject hplace]
          · congr 1
            cases object with
            | stream s =>
                have hother : (g.showStream s).keeper ≠ some r := by
                  intro hkeeper
                  exact hplace (Or.inr (mem_kept.mpr ⟨s, hobject, hkeeper⟩))
                rw [showObject, Values.letGo, if_neg hother]
            | _ => rfl
          · rintro s r' addresses' rfl hkeeper hr' (rfl | hmem)
            · exact hplace (Or.inr (mem_kept.mpr ⟨s, hobject, hkeeper⟩))
            · obtain ⟨s', hs', -⟩ := mem_kept.mp hmem
              rw [hr'] at hs'
              cases hs'
  rw [hvalues]
  rfl

theorem makeDecoder_values (h : Sound lost g) :
    Values.call g.values .makeDecoder = some (none, g.makeDecoder.values) := by
  obtain ⟨p, -, hspares, hobjects, hp⟩ := makeDecoder_ok h.owned
  rw [h.values_grow hspares hobjects]
  simp only [Values.call, List.map_cons, List.map_nil, showObject, showSource, hp,
    Option.getD_some]

theorem destroyDecoder_values (h : Sound lost g) {d : Nat} {source : FrameSource}
    (hat : g.objects[d]? = some (.decoder source)) (hcall : g.destroyDecoder d source = .ok g') :
    Values.call g.values (.destroyDecoder d) = some (none, g'.values) := by
  obtain ⟨g₁, hdestroy, -, hspares, hobjects⟩ := destroyDecoder_ok h.owned hat
  obtain rfl : g₁ = g' := Except.ok.inj (hdestroy.symm.trans hcall)
  have hreader := ne_reader hat (by simp)
  rw [h.values_set hspares hobjects hreader]
  rfl

theorem subscribeDecoder_values (h : Sound lost g) {d i : Nat} {source : FrameSource}
    {s : StreamObject} (hat : g.objects[d]? = some (.decoder source))
    (hs : g.objects[i]? = some (.stream s)) (hcall : g.subscribeDecoder d source s = .ok g') :
    Values.call g.values (.subscribeDecoder d i) = some (none, g'.values) := by
  simp only [Values.call, values_getElem? hs, showObject, showStream]
  cases hdata : s.data with
  | none =>
      rw [subscribeDecoder_noData hdata] at hcall
      cases hcall
  | some data =>
      rw [Option.map_some, Option.map_some]
      cases hstream : data.stream with
      | none =>
          rw [subscribeDecoder_noStream hdata hstream] at hcall
          obtain rfl := Except.ok.inj hcall
          have hnone : Values.takeOver (g.viewData data) = none := by
            simp only [Values.takeOver, viewData, hstream, Option.bind_none]
          rw [hnone]
      | some address =>
          obtain ⟨p, hp⟩ := Option.ne_none_iff_exists'.mp
            ((h.fine i).stream s hs data address hdata hstream).1
          cases hav : g.avStreams.get address with
          | none =>
              rw [subscribeDecoder_freed h.owned hat hs hdata hstream hp hav] at hcall
              cases hcall
          | some av =>
              obtain ⟨g₁, par, hsubscribe, -, hspares, hobjects, hpar, hpar'⟩ :=
                subscribeDecoder_ok h.owned hat hs hdata hstream hp hav
              obtain rfl : g₁ = g' := Except.ok.inj (hsubscribe.symm.trans hcall)
              have htake : Values.takeOver (g.viewData data) =
                  some ⟨par, data.timeBase, av.avgFrameRate, av.rFrameRate⟩ := by
                simp only [Values.takeOver, viewData, hstream, hp, Option.bind_some, hav, hpar]
              have hreader := ne_reader hat (by simp)
              rw [htake, h.values_set hspares hobjects hreader]
              simp only [showObject, showSource, hpar', Option.getD_some]

theorem makeEncoder_values (h : Sound lost g) {libav : EncoderLibav} {codecName : String}
    (hcall : g.makeEncoder libav codecName = .ok (what, g')) :
    Values.call g.values (.makeEncoder libav codecName) = some (what, g'.values) := by
  obtain ⟨what₁, g₁, new, p, hmake, -, hspares, hrest⟩ := makeEncoder_ok h.owned libav codecName
  obtain ⟨rfl, rfl⟩ := Prod.mk.inj (Except.ok.inj (hmake.symm.trans hcall))
  rw [Values.call]
  split at hrest
  · rename_i hunknown
    obtain ⟨rfl, hobjects⟩ := hrest
    have hvalues := h.values_grow hspares (hobjects.trans (List.append_nil g.objects).symm)
    rw [List.map_nil, List.append_nil] at hvalues
    rw [hvalues]
    exact if_pos hunknown
  · rename_i hknown
    obtain ⟨rfl, hp, hobjects⟩ := hrest
    have hview : g₁.viewData (encoderData p (namedCodec libav codecName)) =
        Values.newEncoderData (namedCodec libav codecName) := by
      simp only [viewData, encoderData, Values.newEncoderData, Option.bind_none, Option.bind_some,
        hp]
    rw [h.values_grow hspares hobjects]
    refine (if_neg hknown).trans ?_
    simp only [List.map_cons, List.map_nil, showObject, showStream, Option.map_some,
      Option.bind_some, hview, length_values]
    rfl

theorem destroyEncoder_values (h : Sound lost g) {e : Nat} {encoder : Encoder}
    (hat : g.objects[e]? = some (.encoder encoder))
    (hcall : g.destroyEncoder e encoder = .ok g') :
    Values.call g.values (.destroyEncoder e) = some (none, g'.values) := by
  obtain ⟨s, data, p, hhas, -, -, hnone⟩ := (h.fine e).encoder encoder hat
  obtain ⟨g₁, hdestroy, -, hspares, hlength, hself, hstream, hblocks⟩ :=
    destroyEncoder_ok h.owned hhas
  obtain rfl : g₁ = g' := Except.ok.inj (hdestroy.symm.trans hcall)
  have hshown : g₁.showObject (settled
      { s with data := some { data with parameters := none }, keeper := none }) =
      Values.settled { g.showStream s with
        data := (g.showStream s).data.map fun data => { data with parameters := none }
        keeper := none } := by
    apply show_settled rfl rfl
    intro hstays
    have hsame := hblocks.resolve_left (by simp [hstays])
    have hcontext : data.context.bind g₁.contexts.get = data.context.bind g.contexts.get := by
      cases hc : data.context with
      | none => rfl
      | some c => exact hsame c hc
    simp only [showStream, hhas.data, Option.map_some, Option.bind_some, viewData, hnone,
      Option.bind_none, hcontext]
  rw [h.values_pair hhas hspares hlength hself hstream, hshown]
  simp only [Values.call, values_getElem? hat, showObject, values_getElem? hhas.stream]

/-- What the stream of an encoder shows when it has been subscribed. -/
theorem encode_values {libav : EncoderLibav} {s : StreamObject} {data new : Data}
    {source : FrameSource} {par : AVCodecParameters} (hdata : s.data = some data)
    (hnone : data.stream = none) (hpar : g.parameters.get source.parameters = some par)
    (h : Subscribes libav data source par g g' what new) :
    Values.encode libav (g.showStream s) (g.viewData data) (g.showSource source) =
      (what, g'.showStream { s with data := some new }) := by
  have hsource : (g.showSource source).parameters = par := by
    rw [showSource, hpar]
    rfl
  have hencodes : ∀ opened, Encodes libav data source par opened g' new →
      g'.showStream { s with data := some new } = { g.showStream s with
        data := some { g.viewData data with
          codec := libav.findEncoder par.codecId
          parameters := some par
          mediaType := par.codecType
          avgFrameRate := source.avgFrameRate
          rFrameRate := source.rFrameRate
          context := none }
        encoding := some { contextFor (libav.findEncoder par.codecId) par source.timeBase with
          opened := opened } } := by
    intro opened hencodes
    obtain ⟨c, rfl, hc⟩ := hencodes.data
    obtain ⟨p, hp, hp'⟩ := hencodes.parameters
    have hp : data.parameters = some p := hp
    simp only [showStream, Option.map_some, Option.bind_some, viewData, encodedData, hc, hp, hp',
      hnone, Option.bind_none, Context.decoder, Context.encoder]
  unfold Values.encode
  simp only [hsource]
  cases h with
  | noContext halloc hparameters hcontexts =>
      rw [if_neg (by simp [halloc])]
      simp only [showStream, hdata, Option.map_some, Option.bind_some, viewData, hnone,
        Option.bind_none, hparameters, hcontexts]
  | notOpened new halloc hopened hrc =>
      have hctx := contextFor_unopened (libav.findEncoder par.codecId) par source.timeBase
      rw [if_pos halloc, hencodes false hopened, hctx]
      exact if_pos hrc
  | opened new halloc hopened hrc =>
      rw [if_pos halloc, hencodes true hopened]
      exact if_neg (not_lt.mpr hrc)

theorem subscribeEncoder_values (h : Sound lost g) {libav : EncoderLibav} {e d : Nat}
    {encoder : Encoder} {source : FrameSource} (hat : g.objects[e]? = some (.encoder encoder))
    (hd : g.objects[d]? = some (.decoder source))
    (hcall : g.subscribeEncoder libav e encoder d source = .ok (what, g')) :
    Values.call g.values (.subscribeEncoder libav e d) = some (what, g'.values) := by
  obtain ⟨s, data, p, hhas, -, hp, hnone⟩ := (h.fine e).encoder encoder hat
  obtain ⟨par, what₁, g₁, new, hpar, hsubscribe, -, hspares, hlength, hself, hstream,
    hsubscribes⟩ := subscribeEncoder_ok h.owned libav hhas hp hd
  obtain ⟨rfl, rfl⟩ := Prod.mk.inj (Except.ok.inj (hsubscribe.symm.trans hcall))
  have hencode := encode_values hhas.data hnone hpar hsubscribes
  have hdata : (g.showStream s).data = some (g.viewData data) := by
    rw [showStream, hhas.data]
    rfl
  rw [h.values_pair hhas hspares hlength hself hstream]
  simp only [Values.call, values_getElem? hat, values_getElem? hd, showObject,
    values_getElem? hhas.stream, hdata, Option.map_some, hencode]

section Muxers

variable {libav : Muxer.Libavformat} {m : Nat} {muxer : Muxer}

theorem put_values (h : Sound lost g) (hat : g.objects[m]? = some (.muxer muxer))
    (object : Object) : (g.put m object).values = g.values.set m (g.showObject object) := by
  have hreader := ne_reader hat (by simp)
  rw [h.values_set (put_spares g m object) rfl hreader]
  cases object <;> rfl

theorem finish_values (h : Sound lost g) (hat : g.objects[m]? = some (.muxer muxer))
    {result : Muxer.Outcome × Muxer} (hcall : g.finish m result = .ok (what, g')) :
    Values.finish g.values m result = some (what, g'.values) := by
  obtain ⟨outcome, next⟩ := result
  cases outcome with
  | ok _ =>
      obtain ⟨rfl, rfl⟩ := Prod.mk.inj (Except.ok.inj hcall)
      rw [put_values h hat]
      rfl
  | error e =>
      rw [finish] at hcall
      split at hcall
      · cases hcall
      · rename_i halive
        obtain ⟨rfl, rfl⟩ := Prod.mk.inj (Except.ok.inj hcall)
        rw [put_values h hat, Values.finish, if_neg halive]
        rfl

end Muxers

/-- A call that returns or throws does to the values what the model by value says. -/
theorem call_values (h : Sound lost g) {l : Label}
    (hcall : g.call l = some (.ok (what, g'))) :
    Values.call g.values l = some (what, g'.values) := by
  have hmap : ∀ {result : Except Crash Graph},
      result.map (fun g' => ((none : Option String), g')) = .ok (what, g') →
      what = none ∧ result = .ok g' := by
    intro result hresult
    cases result with
    | error crash => cases hresult
    | ok g₁ =>
        obtain ⟨rfl, rfl⟩ := Prod.mk.inj (Except.ok.inj hresult)
        exact ⟨rfl, rfl⟩
  have hmuxer : ∀ {m : Nat} {f : Muxer → Except Crash (Option String × Graph)},
      g.onMuxer m f = some (.ok (what, g')) →
      ∃ muxer, g.objects[m]? = some (.muxer muxer) ∧ f muxer = .ok (what, g') := by
    intro m f hon
    unfold onMuxer at hon
    split at hon
    · rename_i muxer hat
      exact ⟨muxer, hat, Option.some.inj hon⟩
    · cases hon
  cases l with
  | openReader libav filename formatContext =>
      obtain ⟨rfl, hopen⟩ := hmap (Option.some.inj hcall)
      exact openReader_values h hopen
  | closeReader r =>
      dsimp only [call] at hcall
      split at hcall
      · rename_i addresses hat
        obtain ⟨rfl, hclose⟩ := hmap (Option.some.inj hcall)
        exact closeReader_values h hat hclose
      · cases hcall
  | rebuild libav seg => exact rebuild_values h (Option.some.inj hcall)
  | hold i =>
      dsimp only [call] at hcall
      split at hcall
      · rename_i s hat
        obtain ⟨rfl, rfl⟩ := Prod.mk.inj (Except.ok.inj (Option.some.inj hcall))
        exact hold_values h hat
      · cases hcall
  | release i =>
      dsimp only [call] at hcall
      split at hcall
      · rename_i s hat
        obtain ⟨rfl, hsettle⟩ := hmap (Option.some.inj hcall)
        exact release_values h hat hsettle
      · cases hcall
  | makeDecoder =>
      obtain ⟨rfl, rfl⟩ := Prod.mk.inj (Except.ok.inj (Option.some.inj hcall))
      exact makeDecoder_values h
  | destroyDecoder d =>
      dsimp only [call] at hcall
      split at hcall
      · rename_i source hat
        obtain ⟨rfl, hdestroy⟩ := hmap (Option.some.inj hcall)
        exact destroyDecoder_values h hat hdestroy
      · cases hcall
  | subscribeDecoder d i =>
      dsimp only [call] at hcall
      split at hcall
      · rename_i source s hat hs
        obtain ⟨rfl, hsubscribe⟩ := hmap (Option.some.inj hcall)
        exact subscribeDecoder_values h hat hs hsubscribe
      · cases hcall
  | makeEncoder libav codecName => exact makeEncoder_values h (Option.some.inj hcall)
  | destroyEncoder e =>
      dsimp only [call] at hcall
      split at hcall
      · rename_i encoder hat
        obtain ⟨rfl, hdestroy⟩ := hmap (Option.some.inj hcall)
        exact destroyEncoder_values h hat hdestroy
      · cases hcall
  | subscribeEncoder libav e d =>
      dsimp only [call] at hcall
      split at hcall
      · rename_i encoder source hat hd
        exact subscribeEncoder_values h hat hd (Option.some.inj hcall)
      · cases hcall
  | makeMuxer libav filename format bufferMax =>
      dsimp only [call] at hcall
      rw [Values.call]
      cases hcreate : Muxer.create libav filename format bufferMax with
      | ok muxer =>
          rw [hcreate] at hcall
          obtain ⟨rfl, rfl⟩ := Prod.mk.inj (Except.ok.inj (Option.some.inj hcall))
          have hspares : Spares (fun _ => False) g (g.add (.muxer muxer)) := add_spares g _
          rw [h.values_grow hspares rfl]
          rfl
      | error e =>
          rw [hcreate] at hcall
          obtain ⟨rfl, rfl⟩ := Prod.mk.inj (Except.ok.inj (Option.some.inj hcall))
          rfl
  | subscribeMuxer libav m i =>
      dsimp only [call] at hcall
      split at hcall
      · rename_i muxer s hat hs
        simp only [Values.call, values_getElem? hat, values_getElem? hs, showObject]
        exact finish_values h hat (Option.some.inj hcall)
      · cases hcall
  | process libav m k packet i =>
      dsimp only [call] at hcall
      split at hcall
      · rename_i muxer s hat hs
        obtain ⟨info, hinfo, hprocess⟩ := Option.map_eq_some_iff.mp hcall
        simp only [Values.call, values_getElem? hat, values_getElem? hs, showObject, hinfo,
          Option.bind_some]
        unfold processMuxer at hprocess
        cases hread : g.avStreams.readIfSet
            (info.stream.bind fun _ => s.data.bind Data.stream) with
        | error crash =>
            rw [hread] at hprocess
            cases hprocess
        | ok input =>
            rw [hread] at hprocess
            exact finish_values h hat hprocess
      · cases hcall
  | flush libav m =>
      obtain ⟨muxer, hat, hfinish⟩ := hmuxer hcall
      simp only [Values.call, values_getElem? hat, showObject]
      exact finish_values h hat hfinish
  | openOutput libav m =>
      obtain ⟨muxer, hat, hfinish⟩ := hmuxer hcall
      simp only [Values.call, values_getElem? hat, showObject]
      exact finish_values h hat hfinish
  | closeOutput libav m =>
      obtain ⟨muxer, hat, hfinish⟩ := hmuxer hcall
      simp only [Values.call, values_getElem? hat, showObject]
      exact finish_values h hat hfinish
  | destroyMuxer libav m =>
      obtain ⟨muxer, hat, hdestroy⟩ := hmuxer hcall
      obtain ⟨rfl, hdone⟩ := hmap hdestroy
      unfold destroyMuxer at hdone
      split at hdone
      · obtain rfl := Except.ok.inj hdone
        rw [put_values h hat]
        rfl
      · cases hdone

end Calls

section Runs

/-- As long as the process goes on, the objects show what the model by value says, and the calls
throw what it says: pointers that are shared, replaced and freed make no difference to what is
copied when one object is subscribed to another. -/
theorem shown_of_exec (labels : List Label) (r : Run)
    (hexec : exec Run.step Run.start labels = some r) (hcrash : r.crash = none) :
    exec Values.step ([], []) labels = some (r.graph.values, r.thrown) := by
  induction labels using List.reverseRecOn generalizing r with
  | nil =>
      obtain rfl := Option.some.inj hexec
      rfl
  | append_singleton labels l ih =>
      obtain ⟨r₀, hexec₀, hstep⟩ := exec_snoc_eq_some Run.step hexec
      obtain ⟨lost, -, hsound⟩ := (Run.at_of_exec hexec₀).sound
      obtain ⟨hcrash₀, hgoes⟩ := Run.step_goes hsound hstep
      rcases hgoes with ⟨crash, -, rfl⟩ | ⟨what, g', new, -, -, -, -, hcall, rfl⟩
      · cases hcrash
      · rw [exec_snoc, ih r₀ hexec₀ hcrash₀, Option.bind_some, Values.step,
          call_values hsound hcall]
        rfl

theorem shown_of_exec_sample :
    ∃ r, exec Run.step Run.start sampleRun = some r ∧ r.crash = none ∧
      exec Values.step ([], []) sampleRun = some (r.graph.values, r.thrown) :=
  ⟨_, rfl, rfl, shown_of_exec sampleRun _ rfl rfl⟩

end Runs

end Graph

end Media2
