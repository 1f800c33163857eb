import Media2.Graph.Values

/-!
# Where codec parameters come from

Decoders, encoders and muxers copy codec parameters from one another. Whatever is subscribed to
whatever, and whichever subscriptions fail, they carry the parameters of a stream of a container
that was opened or of a segment, and the context of an encoder is set up for the parameters that
its stream carries.
-/

namespace Media2.Graph

open Execution

/-- Parameters as they are allocated, or those of a stream of a container that was opened, or of
a segment from which a stream was rebuilt. -/
inductive Origin (labels : List Label) : AVCodecParameters → Prop
  | blank : Origin labels AVCodecParameters.blank
  | container (libav : Nat → Libav) (filename : String) (formatContext : FormatContext)
      (hopened : .openReader libav filename formatContext ∈ labels) (av : AVStream)
      (hav : av ∈ formatContext.streams) : Origin labels av.codecpar
  | segment (libav : Libav) (seg : Segment) (hrebuilt : .rebuild libav seg ∈ labels) :
      Origin labels seg.parameters

/-- A context that was set up for the parameters that a stream carries, or carried until its
encoder was destroyed, whatever codec it was for. -/
def Configured (labels : List Label) (s : StreamValue) (ctx : EncodingContext) : Prop :=
  ∃ (data : StreamData) (par : AVCodecParameters) (libav : EncoderLibav) (timeBase : AVRational)
    (opened : Bool), s.data = some data ∧
      (data.parameters = some par ∨ data.parameters = none) ∧ Origin labels par ∧
      data.mediaType = par.codecType ∧
      ctx = { contextFor (libav.findEncoder par.codecId) par timeBase with opened := opened }

/-- The parameters of the output streams of a muxer have an origin. -/
def Carries (labels : List Label) (m : Muxer) : Prop :=
  ∀ info ∈ m.streaminfo, ∀ output, info.stream = some output → Origin labels output.codecpar

/-- All parameters of an object have an origin. -/
def Traced (labels : List Label) : Value → Prop
  | .stream s =>
      (∀ data par, s.data = some data → data.parameters = some par → Origin labels par) ∧
        ∀ ctx, s.encoding = some ctx → Configured labels s ctx
  | .decoder source => Origin labels source.parameters
  | .muxer m => Carries labels m
  | _ => True

section Lists

variable {labels labels' : List Label} {values : List Value} {v : Value} {s : StreamValue}

theorem Origin.mono {par : AVCodecParameters} (h : Origin labels par) (hsub : labels ⊆ labels') :
    Origin labels' par := by
  cases h with
  | blank => exact .blank
  | container libav filename formatContext hopened av hav =>
      exact .container libav filename formatContext (hsub hopened) av hav
  | segment libav seg hrebuilt => exact .segment libav seg (hsub hrebuilt)

theorem Traced.mono (h : Traced labels v) (hsub : labels ⊆ labels') : Traced labels' v := by
  cases v with
  | stream s =>
      refine ⟨fun data par hdata hpar => (h.1 data par hdata hpar).mono hsub, ?_⟩
      intro ctx hctx
      obtain ⟨data, par, libav, timeBase, opened, hdata, hpar, horigin, hrest⟩ := h.2 ctx hctx
      exact ⟨data, par, libav, timeBase, opened, hdata, hpar, horigin.mono hsub, hrest⟩
  | decoder source => exact Origin.mono h hsub
  | muxer m => exact fun info hinfo output hout => (h info hinfo output hout).mono hsub
  | _ => trivial

theorem traced_set (h : ∀ v ∈ values, Traced labels v) (i : Nat) (hv : Traced labels v) :
    ∀ w ∈ values.set i v, Traced labels w := by
  intro w hw
  rcases List.mem_or_eq_of_mem_set hw with hold | rfl
  · exact h w hold
  · exact hv

theorem traced_append {new : List Value} (h : ∀ v ∈ values, Traced labels v)
    (hnew : ∀ v ∈ new, Traced labels v) : ∀ v ∈ values ++ new, Traced labels v := by
  intro v hv
  rcases List.mem_append.mp hv with hold | hmade
  · exact h v hold
  · exact hnew v hmade

theorem settled_traced (h : Traced labels (.stream s)) : Traced labels (Values.settled s) := by
  unfold Values.settled
  split
  · trivial
  · exact h

/-- A stream may change its data as long as they have the parameters, or none, and the type of
media that they had. -/
theorem Traced.change (h : Traced labels (.stream s)) {t : StreamValue}
    {f : StreamData → StreamData} (hencoding : t.encoding = s.encoding) (hdata : t.data = s.data.map f)
    (hf : ∀ data, ((f data).parameters = data.parameters ∨ (f data).parameters = none) ∧
      (f data).mediaType = data.mediaType) : Traced labels (.stream t) := by
  constructor
  · intro data par ht hpar
    rw [hdata] at ht
    obtain ⟨old, hold, rfl⟩ := Option.map_eq_some_iff.mp ht
    rcases (hf old).1 with hsame | hnone
    · exact h.1 old par hold (hsame.symm.trans hpar)
    · rw [hnone] at hpar
      cases hpar
  · intro ctx hctx
    rw [hencoding] at hctx
    obtain ⟨old, par, libav, timeBase, opened, hold, hpar, horigin, htype, hctx⟩ := h.2 ctx hctx
    refine ⟨f old, par, libav, timeBase, opened, ?_, ?_, horigin, (hf old).2.trans htype, hctx⟩
    · rw [hdata, hold]
      rfl
    · rcases (hf old).1 with hsame | hnone
      · rw [hsame]
        exact hpar
      · exact Or.inr hnone

end Lists

section Muxers

variable {labels : List Label} {muxer : Muxer} {libav : Muxer.Libavformat}

theorem Carries.of_eq (h : Carries labels muxer) {next : Muxer}
    (hsame : next.streaminfo = muxer.streaminfo) : Carries labels next := by
  rw [Carries, hsame]
  exact h

/-- A subscription adds an output stream with the parameters of the source, or without any. -/
theorem subscribe_carries (h : Carries labels muxer) {source : Stream}
    (hsource : ∀ data par, source.data = some data → data.parameters = some par →
      Origin labels par) : Carries labels (muxer.subscribe libav source).2 := by
  have hadd : ∀ info : Muxer.StreamInfo, (∀ output, info.stream = some output →
      Origin labels output.codecpar) → ∀ next : Muxer,
      next.streaminfo = muxer.streaminfo ++ [info] → Carries labels next := by
    intro info hinfo next hnext info' hmem output hout
    rw [hnext] at hmem
    rcases List.mem_append.mp hmem with hold | hnew
    · exact h info' hold output hout
    · obtain rfl := List.mem_singleton.mp hnew
      exact hinfo output hout
  unfold Muxer.subscribe
  split
  · exact h
  · cases hdata : source.data with
    | none => exact hadd ⟨source.id, none⟩ nofun _ rfl
    | some data =>
        dsimp only [Muxer.ask]
        split
        · exact hadd ⟨source.id, none⟩ nofun _ rfl
        · cases hpar : data.parameters with
          | none => exact hadd ⟨source.id, none⟩ nofun _ rfl
          | some par =>
              apply hadd ⟨source.id, some _⟩ _ _ rfl
              rintro output hout
              rw [← Option.some.inj hout]
              exact hsource data par hdata hpar

theorem copyTimingData_codecpar {stream : Option StreamData} {info copied : Muxer.StreamInfo}
    (h : Muxer.copyTimingData stream info = .ok copied) :
    copied.stream.map AVStream.codecpar = info.stream.map AVStream.codecpar := by
  unfold Muxer.copyTimingData at h
  split at h
  · cases h
  · rename_i output houtput
    split at h
    · cases h
    · split at h
      · cases h
      · rw [← Except.ok.inj h, houtput]
        rfl

/-- `process` changes the timing of an output stream, but not its parameters. -/
theorem process_carries (h : Carries labels muxer) {k : Nat} {info : Muxer.StreamInfo}
    (hinfo : muxer.streaminfo[k]? = some info) (packet : Packet) (stream : Option StreamData) :
    Carries labels (muxer.process libav k info packet stream).2 := by
  have hmine := h info (List.mem_of_getElem? hinfo)
  unfold Muxer.process
  cases harrive : muxer.arrive k info packet stream with
  | error e => exact h
  | ok arrived =>
      obtain ⟨next, arrival⟩ := arrived
      apply Carries.of_eq _ (Muxer.enter_frame libav next arrival).2.1
      obtain ⟨copied, hcopied, hnext⟩ : ∃ copied : Muxer.StreamInfo,
          copied.stream.map AVStream.codecpar = info.stream.map AVStream.codecpar ∧
          next.streaminfo = muxer.streaminfo.set k copied := by
        unfold Muxer.arrive at harrive
        cases hcopy : Muxer.copyTimingData stream info with
        | error e =>
            rw [hcopy] at harrive
            dsimp only at harrive
            split at harrive
            · cases harrive
            · obtain ⟨rfl, -⟩ := Prod.mk.inj (Except.ok.inj harrive)
              exact ⟨info, rfl, rfl⟩
        | ok copied =>
            rw [hcopy] at harrive
            dsimp only at harrive
            split at harrive
            · cases harrive
            · obtain ⟨rfl, -⟩ := Prod.mk.inj (Except.ok.inj harrive)
              exact ⟨copied, copyTimingData_codecpar hcopy, rfl⟩
      intro info' hmem output hout
      rw [hnext] at hmem
      rcases List.mem_or_eq_of_mem_set hmem with hold | rfl
      · exact h info' hold output hout
      · rw [hout] at hcopied
        obtain ⟨old, hold, hsame⟩ := Option.map_eq_some_iff.mp hcopied.symm
        rw [← hsame]
        exact hmine old hold

theorem finish_traced {values values' : List Value} (h : ∀ v ∈ values, Traced labels v) {m : Nat}
    {result : Muxer.Outcome × Muxer} {what : Option String} (hcarries : Carries labels result.2)
    (hcall : Values.finish values m result = some (what, values')) :
    ∀ v ∈ values', Traced labels v := by
  obtain ⟨outcome, next⟩ := result
  cases outcome with
  | ok _ =>
      obtain ⟨-, rfl⟩ := Prod.mk.inj (Option.some.inj hcall)
      exact traced_set h m hcarries
  | error e =>
      rw [Values.finish] at hcall
      split at hcall
      · cases hcall
      · obtain ⟨-, rfl⟩ := Prod.mk.inj (Option.some.inj hcall)
        exact traced_set h m hcarries

end Muxers

section Calls

variable {labels : List Label} {values values' : List Value} {what : Option String}

theorem traced_getElem? (h : ∀ v ∈ values, Traced labels v) {i : Nat} {v : Value}
    (hat : values[i]? = some v) : Traced labels v := h v (List.mem_of_getElem? hat)

/-- The streams of a container carry the parameters of the container. -/
theorem table_origin {libav : Nat → Libav} {filename : String} {formatContext : FormatContext}
    (hopened : Label.openReader libav filename formatContext ∈ labels) {stream : Stream}
    (h : stream ∈ (PacketReader.setupStreams libav filename true formatContext
      StreamTables.empty).tables.streams) {data : StreamData} {par : AVCodecParameters}
    (hdata : stream.data = some data) (hpar : data.parameters = some par) : Origin labels par := by
  change stream ∈ (formatContext.streams.foldl (PacketReader.setupStream libav filename)
    ⟨StreamTables.empty, false⟩).tables.streams at h
  rw [PacketReader.foldl_setupStream_streams] at h
  obtain ⟨av, hav, hentry⟩ := List.mem_filterMap.mp h
  have hsame : data.parameters = some av.codecpar := by
    unfold PacketReader.entry at hentry
    split at hentry
    · cases hentry
    · split at hentry
      · split at hentry
        · obtain rfl := Option.some.inj hentry
          obtain rfl := Option.some.inj hdata
          rfl
        · obtain rfl := Option.some.inj hentry
          cases hdata
      · cases hentry
  rw [hpar] at hsame
  obtain rfl := Option.some.inj hsame
  exact .container libav filename formatContext hopened av hav

theorem letGo_traced (r : Nat) {v : Value} (h : Traced labels v) :
    Traced labels (Values.letGo r v) := by
  cases v with
  | stream s =>
      rw [Values.letGo]
      split
      · apply settled_traced
        exact Traced.change h rfl rfl fun data => ⟨Or.inl rfl, rfl⟩
      · exact h
  | _ => exact h

theorem takeOver_traced {s : StreamValue} {data : StreamData} {source : SourceValue}
    (h : Traced labels (.stream s)) (hdata : s.data = some data)
    (htake : Values.takeOver data = some source) : Traced labels (.decoder source) := by
  unfold Values.takeOver at htake
  split at htake
  · rename_i av par hav hpar
    obtain rfl := Option.some.inj htake
    exact h.1 data par hdata hpar
  · cases htake

/-- A context is set up for what the stream of the encoder carries from then on; when there is
none, the stream keeps the context that it has, and its parameters with it. -/
theorem encode_traced {s : StreamValue} {data : StreamData} {source : SourceValue}
    (libav : EncoderLibav) (h : Traced labels (.stream s)) (hdata : s.data = some data)
    (hsource : Traced labels (.decoder source)) :
    Traced labels (.stream (Values.encode libav s data source).2) := by
  have hopens : ∀ (t : StreamValue) (opened : Bool), t.encoding = some { contextFor
      (libav.findEncoder source.parameters.codecId) source.parameters source.timeBase with
        opened := opened } →
      (∃ new, t.data = some new ∧ new.parameters = some source.parameters ∧
        new.mediaType = source.parameters.codecType) → Traced labels (.stream t) := by
    rintro t opened hencoding ⟨new, hnew, hpar, htype⟩
    constructor
    · intro data' par' hdata' hpar'
      rw [hnew] at hdata'
      obtain rfl := Option.some.inj hdata'
      rw [hpar] at hpar'
      exact Option.some.inj hpar' ▸ hsource
    · intro ctx hctx
      rw [hencoding] at hctx
      exact ⟨new, source.parameters, libav, source.timeBase, opened, hnew, Or.inl hpar, hsource,
        htype, (Option.some.inj hctx).symm⟩
  unfold Values.encode
  dsimp only
  split
  · split
    · apply hopens _ false
      · rw [contextFor_unopened]
      · exact ⟨_, rfl, rfl, rfl⟩
    · exact hopens _ true rfl ⟨_, rfl, rfl, rfl⟩
  · exact Traced.change h (f := fun data => { data with
      codec := libav.findEncoder source.parameters.codecId }) rfl (by rw [hdata]; rfl)
      fun data => ⟨Or.inl rfl, rfl⟩

theorem call_traced (h : ∀ v ∈ values, Traced labels v) {l : Label} (hl : l ∈ labels)
    (hcall : Values.call values l = some (what, values')) : ∀ v ∈ values', Traced labels v := by
  cases l with
  | openReader libav filename formatContext =>
      obtain ⟨-, rfl⟩ := Prod.mk.inj (Option.some.inj hcall)
      apply traced_append h
      intro v hv
      rcases List.mem_cons.mp hv with rfl | hmade
      · trivial
      · obtain ⟨stream, hstream, rfl⟩ := List.mem_map.mp hmade
        exact ⟨fun data par => table_origin hl hstream, nofun⟩
  | closeReader r =>
      obtain ⟨-, rfl⟩ := Prod.mk.inj (Option.some.inj hcall)
      intro v hv
      obtain ⟨old, hold, rfl⟩ := List.mem_map.mp hv
      exact letGo_traced r (h old hold)
  | rebuild libav seg =>
      dsimp only [Values.call] at hcall
      cases hdata : StreamData.ofSegment libav seg seg.jobId.unparse with
      | error e =>
          rw [hdata] at hcall
          obtain ⟨-, rfl⟩ := Prod.mk.inj (Option.some.inj hcall)
          exact h
      | ok data =>
          rw [hdata] at hcall
          obtain ⟨-, rfl⟩ := Prod.mk.inj (Option.some.inj hcall)
          have hpar : data.parameters = some seg.parameters := by
            unfold StreamData.ofSegment at hdata
            split at hdata
            · cases hdata
            · split at hdata
              · obtain rfl := Except.ok.inj hdata
                rfl
              · cases hdata
          apply traced_append h
          intro v hv
          obtain rfl := List.mem_singleton.mp hv
          refine ⟨?_, nofun⟩
          intro data' par hdata' hpar'
          obtain rfl := Option.some.inj hdata'
          rw [hpar] at hpar'
          exact Option.some.inj hpar' ▸ .segment libav seg hl
  | hold i =>
      dsimp only [Values.call] at hcall
      split at hcall
      · rename_i s hat
        obtain ⟨-, rfl⟩ := Prod.mk.inj (Option.some.inj hcall)
        have hs : Traced labels (.stream s) := traced_getElem? h hat
        have hheld : Traced labels (.stream { s with held := true }) := hs
        exact traced_set h i hheld
      · cases hcall
  | release i =>
      dsimp only [Values.call] at hcall
      split at hcall
      · rename_i s hat
        obtain ⟨-, rfl⟩ := Prod.mk.inj (Option.some.inj hcall)
        have hs : Traced labels (.stream s) := traced_getElem? h hat
        have hreleased : Traced labels (.stream { s with held := false }) := hs
        exact traced_set h i (settled_traced hreleased)
      · cases hcall
  | makeDecoder =>
      obtain ⟨-, rfl⟩ := Prod.mk.inj (Option.some.inj hcall)
      apply traced_append h
      intro v hv
      obtain rfl := List.mem_singleton.mp hv
      exact .blank
  | destroyDecoder d =>
      obtain ⟨-, rfl⟩ := Prod.mk.inj (Option.some.inj hcall)
      exact traced_set h d trivial
  | subscribeDecoder d i =>
      dsimp only [Values.call] at hcall
      split at hcall
      · rename_i s hat
        obtain ⟨data, hdata, hnext⟩ := Option.map_eq_some_iff.mp hcall
        cases htake : Values.takeOver data with
        | none =>
            rw [htake] at hnext
            obtain ⟨-, rfl⟩ := Prod.mk.inj hnext
            exact h
        | some source =>
            rw [htake] at hnext
            obtain ⟨-, rfl⟩ := Prod.mk.inj hnext
            exact traced_set h d (takeOver_traced (traced_getElem? h hat) hdata htake)
      · cases hcall
  | makeEncoder libav codecName =>
      dsimp only [Values.call] at hcall
      split at hcall
      · obtain ⟨-, rfl⟩ := Prod.mk.inj (Option.some.inj hcall)
        exact h
      · obtain ⟨-, rfl⟩ := Prod.mk.inj (Option.some.inj hcall)
        apply traced_append h
        intro v hv
        rcases List.mem_cons.mp hv with rfl | hencoder
        · refine ⟨?_, nofun⟩
          intro data par hdata hpar
          obtain rfl := Option.some.inj hdata
          exact Option.some.inj hpar ▸ .blank
        · obtain rfl := List.mem_singleton.mp hencoder
          trivial
  | destroyEncoder e =>
      dsimp only [Values.call] at hcall
      split at hcall
      · split at hcall
        · rename_i s hat
          obtain ⟨-, rfl⟩ := Prod.mk.inj (Option.some.inj hcall)
          have hs : Traced labels (.stream s) := traced_getElem? h hat
          refine traced_set (traced_set h _ (settled_traced ?_)) e (v := .gone) trivial
          exact hs.change rfl rfl fun data => ⟨Or.inr rfl, rfl⟩
        · cases hcall
      · cases hcall
  | subscribeEncoder libav e d =>
      dsimp only [Values.call] at hcall
      split at hcall
      · rename_i encoder source _ hd
        split at hcall
        · rename_i s hat
          obtain ⟨data, hdata, hnext⟩ := Option.map_eq_some_iff.mp hcall
          obtain ⟨-, rfl⟩ := Prod.mk.inj hnext
          have hs : Traced labels (.stream s) := traced_getElem? h hat
          have hsource : Traced labels (.decoder source) := traced_getElem? h hd
          refine traced_set (traced_set h _ (encode_traced libav hs hdata hsource)) e
            (v := .encoder { encoder with src := encoder.src.or (some d) }) trivial
        · cases hcall
      · cases hcall
  | makeMuxer libav filename format bufferMax =>
      dsimp only [Values.call] at hcall
      cases hcreate : Muxer.create libav filename format bufferMax with
      | ok muxer =>
          rw [hcreate] at hcall
          obtain ⟨-, rfl⟩ := Prod.mk.inj (Option.some.inj hcall)
          have hempty : muxer.streaminfo = [] := by
            rw [Muxer.create_cases libav hcreate, Muxer.openOutput_streaminfo]
            rfl
          apply traced_append h
          intro v hv
          obtain rfl := List.mem_singleton.mp hv
          intro info hinfo
          rw [hempty] at hinfo
          cases hinfo
      | error e =>
          rw [hcreate] at hcall
          obtain ⟨-, rfl⟩ := Prod.mk.inj (Option.some.inj hcall)
          exact h
  | subscribeMuxer libav m i =>
      dsimp only [Values.call] at hcall
      split at hcall
      · rename_i muxer s hat hs
        refine finish_traced h ?_ hcall
        exact subscribe_carries (traced_getElem? h hat) (traced_getElem? h hs).1
      · cases hcall
  | process libav m k packet i =>
      dsimp only [Values.call] at hcall
      split at hcall
      · rename_i muxer s hat hs
        obtain ⟨info, hinfo, hfinish⟩ := Option.bind_eq_some_iff.mp hcall
        exact finish_traced h (process_carries (traced_getElem? h hat) hinfo packet _) hfinish
      · cases hcall
  | flush libav m =>
      dsimp only [Values.call] at hcall
      split at hcall
      · rename_i muxer hat
        refine finish_traced h ?_ hcall
        exact Carries.of_eq (traced_getElem? h hat) (Muxer.flush_frame libav muxer).2
      · cases hcall
  | openOutput libav m =>
      dsimp only [Values.call] at hcall
      split at hcall
      · rename_i muxer hat
        refine finish_traced h ?_ hcall
        exact Carries.of_eq (traced_getElem? h hat) (Muxer.openOutput_streaminfo muxer)
      · cases hcall
  | closeOutput libav m =>
      dsimp only [Values.call] at hcall
      split at hcall
      · rename_i muxer hat
        refine finish_traced h ?_ hcall
        exact Carries.of_eq (traced_getElem? h hat) (Muxer.close_streaminfo libav muxer)
      · cases hcall
  | destroyMuxer libav m =>
      obtain ⟨-, rfl⟩ := Prod.mk.inj (Option.some.inj hcall)
      exact traced_set h m trivial

end Calls

section Runs

end Runs

end Media2.Graph
