import Asr2Pass.Online.SegmentRows
import Asr2Pass.Server.ServedSpeech

/-! # The first pass over the segments of a client

The frames that `FunTpassInferBuffer` gives to the online model are cut out of the recordings by
`Split`.  From the messages of a client to the scored rows: what the online model hears of a segment
are the rows that an offline model would make of its samples.
-/

namespace Asr2Pass.Server

open Frontend (FeatureCache)
open Library
open Online (ForwardCall OnlineModel OnlineParts ParaformerOnline)
open TwoPass (Audio AudioFrame Contiguous OnlineGroup PcmLoader Recognized SpansInside
  VadSegment)
open Vad (VadConfig joinAnswers speechConfig speechConfig_scores)

variable {α β δ κ β' K δ' : Type}

/-- The calls of `Forward` in the loop over `FetchChunck`. -/
def forwardCalls {F : Type} (frames : List (AudioFrame α)) : List (ForwardCall F α) :=
  frames.map fun frame => ⟨frame.samples, frame.isFinal, none⟩

section
variable [Add β'] [Mul β'] [Zero β'] [Field K] [LinearOrder K]

/-- The row lists that the online model hands to its network for the frames of a segment.  It scores
    the rows of the samples in order, each once, behind `chunk_size[2]` zero rows, and is ready for
    the next segment; it can miss the last row if the last frame has less than 60 ms. -/
structure Hears (model : OnlineModel α β' K δ') (samples : List α) (frames : List (AudioFrame α))
    (presented : List (List (List β'))) : Prop where
  returned : model.parts.forwards model.parts.fresh (forwardCalls frames) =
    some (presented, model.parts.fresh)
  scored : ∃ kept lost,
    (presented.map model.cif.chunkSize.scoredRows).flatten =
      List.replicate model.cif.chunkSize.right.toNat model.parts.zeroRow ++
        model.parts.embedFrom 0 kept ∧
    kept ++ lost = model.rows samples ∧ lost.length ≤ 1 ∧
    ((∀ last ∈ frames.getLast?, 960 ≤ last.samples.length) → lost = [])

/-- The closed segments of a recording of 16 kHz are heard one after the other by one online model,
    each from its start on and to its end at least, and nothing else is unless the last frame opens
    a segment. -/
structure FirstPass (model : OnlineModel α β' K δ') (waveform : List α) (result : Recognized α) :
    Prop where
  heard : ∃ closed opened pending, ∃ heard : List (List (AudioFrame α) × List (List (List β'))),
    joinAnswers result.answers = closed ++ opened.toList.map (·, -1) ∧
    SpansInside waveform 16 closed ∧
    result.online = (heard.map Prod.fst).flatten ++ pending ∧ (opened = none → pending = []) ∧
    List.Forall₂ (fun (span : VadSegment) group => ∃ samples, ∃ reached : Nat, span.2 * 16 ≤ reached ∧
      slice waveform (span.1 * 16).toNat reached = some samples ∧
      Hears model samples group.1 group.2) closed heard ∧
    model.parts.forwards model.parts.fresh (forwardCalls (heard.map Prod.fst).flatten) =
      some ((heard.map Prod.snd).flatten, model.parts.fresh)

end

/-! ## The frames of a segment -/

/-- Frames without a gap have the samples from the first to the last. -/
theorem samples_contiguous {waveform : List α} {first last : Int} {frames : List (AudioFrame α)}
    (contiguous : Contiguous waveform first frames last) (nonneg : 0 ≤ first)
    (inside : first ≤ waveform.length) :
    slice waveform first.toNat last.toNat = some (frames.flatMap AudioFrame.samples) := by
  induction contiguous with
  | nil => exact slice_eq le_rfl (by omega) |>.trans (by simp)
  | @cons first last frame rest length data some contiguous inductionHypothesis =>
    obtain ⟨samples, is⟩ := Option.ne_none_iff_exists'.mp some
    rw [is] at data
    obtain ⟨-, within⟩ := slice_bounds data.symm
    have later := inductionHypothesis (by omega) (by omega)
    rw [List.flatMap_cons, AudioFrame.samples, is]
    exact slice_trans data.symm later

/-- Frames of 16 kHz, and a chunk of `c` rows.  The two lists of a last frame hold the 470 ms that one
    answer of the detector can name as a whole segment. -/
structure Suits [Add β'] [Mul β'] [Zero β'] [Field K] [LinearOrder K] (model : OnlineModel α β' K δ')
    (c : Nat) : Prop where
  positive : 1 ≤ c
  framing : model.framing = .hertz16000
  lfr : model.lfr = .para
  shape : model.parts.EncoderShape
  middle : model.cif.chunkSize.middle = c
  int : c * 10 * 6 * 16000 < 2 ^ 31
  left : 0 ≤ model.cif.chunkSize.left
  right : 0 ≤ model.cif.chunkSize.right
  sum : model.cif.chunkSize.left + c < 2 ^ 31
  most : model.cif.chunkSize.right ≤ c
  room : 8 ≤ 2 * c - model.cif.chunkSize.right

section
variable [Add β'] [Mul β'] [Zero β'] [Field K] [LinearOrder K] {model : OnlineModel α β' K δ'}
  {c : Nat}

/-- The entries as the server stores them. -/
def chunkEntries (chunkSize : Online.ChunkSize) : List Int :=
  [chunkSize.left, chunkSize.middle, chunkSize.right]

theorem Suits.usable (suits : Suits model c) : model.cif.chunkSize.Usable := by
  obtain ⟨positive, -, -, -, middle, int, left, right, sum, most, -⟩ := suits
  exact ⟨by omega, by omega, left, by omega, by omega, by omega, by omega⟩

/-- The stream of this `chunk_size` is cut in chunks of `c` rows. -/
theorem Suits.feeds (suits : Suits model c) : Feeds (chunkEntries model.cif.chunkSize) :=
  ⟨model.cif.chunkSize.isInt, suits.usable⟩

theorem Suits.chunkMs (suits : Suits model c) : Server.chunkMs (chunkEntries model.cif.chunkSize) = 60 * c := by
  rw [chunkEntries, chunkMs_eq suits.feeds, suits.middle, Int.toNat_natCast]

end

section
variable [Add β'] [Mul β'] [Zero β'] [Field K] [LinearOrder K] {model : OnlineModel α β' K δ'}
  {c : Nat} {waveform : List α} {span : VadSegment} {group : List (AudioFrame α)}

/-- The frames of a segment are cut as the online model needs them. -/
theorem hears_group (suits : Suits model c) (onlineGroup : OnlineGroup waveform 16 span group)
    (sized : Recognized.Sized (960 * c) 7520 { online := group }) (long : span.1 + 160 ≤ span.2)
    (nonneg : 0 ≤ span.1) (inside : span.2 * 16 ≤ waveform.length) :
    ∃ presented samples, ∃ reached : Nat, span.2 * 16 ≤ reached ∧
      slice waveform (span.1 * 16).toNat reached = some samples ∧
      Hears model samples group presented := by
  obtain ⟨body, final, reached, rfl, others, isFinal, contiguous, ends⟩ := onlineGroup
  rw [Nat.cast_ofNat] at contiguous ends
  have within : span.1 * 16 ≤ waveform.length := by omega
  obtain ⟨stop, far, data, alone⟩ : ∃ stop : Nat, span.2 * 16 ≤ stop ∧
      slice waveform (span.1 * 16).toNat stop = some ((body ++ [final]).flatMap AudioFrame.samples) ∧
      (body = [] → 880 ≤ final.samples.length) := by
    cases ends with
    | inl framed =>
      have data := samples_contiguous (contiguous.append framed) (by omega) within
      refine ⟨(span.2 * 16).toNat, by omega, data, fun none => ?_⟩
      obtain ⟨ordered, bounded⟩ := slice_bounds data
      rw [slice_eq ordered bounded, none, List.nil_append, List.flatMap_singleton] at data
      have length := congrArg List.length (Option.some.inj data)
      rw [List.length_drop, List.length_take] at length
      omega
    | inr past =>
      obtain ⟨ended, -, empty⟩ := past
      have data := samples_contiguous contiguous (by omega) within
      refine ⟨reached.toNat, by omega, ?_, fun none => ?_⟩
      · rw [data, List.flatMap_append, List.flatMap_singleton, AudioFrame.samples, empty,
          Option.getD_none, List.append_nil]
      · subst none
        cases contiguous
        omega
  have cut : model.Cut c (body.map AudioFrame.samples) final.samples := by
    refine ⟨fun samples member => ?_, fun none => alone (List.map_eq_nil_iff.mp none), ?_⟩
    · obtain ⟨frame, among, rfl⟩ := List.mem_map.mp member
      exact (sized frame (List.mem_append_left _ among)).1 (others frame among)
    · have room := suits.room
      have most := suits.most
      obtain short | whole := (sized final (List.mem_append_right _ (List.mem_singleton_self _))).2
        isFinal <;> omega
  have calls : (forwardCalls (body ++ [final]) : List (ForwardCall (FeatureCache α β') α)) =
      OnlineParts.utteranceCalls (body.map AudioFrame.samples) final.samples := by
    rw [forwardCalls, OnlineParts.utteranceCalls, List.map_append, List.map_map]
    congr 1
    · exact List.map_congr_left fun frame member => by
        rw [Function.comp_apply, others frame member]
    · rw [List.map_singleton, isFinal]
  obtain ⟨presented, kept, lost, returned, scores, all, few, whole⟩ :=
    (cut.scored suits.positive suits.framing suits.lfr suits.shape suits.middle suits.left
      suits.right suits.most suits.sum).scored
  refine ⟨presented, _, stop, far, data, by rw [calls, returned], kept, lost, scores, ?_, few, ?_⟩
  · rw [all, List.flatMap_append, List.flatMap_singleton, List.flatMap_def]
  · intro last
    refine whole (.inl (last final ?_))
    rw [List.getLast?_concat]
    rfl

/-! ## The segments of a recording -/

theorem forwardCalls_append {F : Type} (frames more : List (AudioFrame α)) :
    (forwardCalls (frames ++ more) : List (ForwardCall F α)) =
      forwardCalls frames ++ forwardCalls more :=
  List.map_append

theorem forwards_append {F : Type} {ρ : Type} {parts : OnlineParts F α ρ K δ'}
    {online online' : ParaformerOnline F ρ K δ'} {calls : List (ForwardCall F α)}
    {presented : List (List ρ)} (before : parts.forwards online calls = some (presented, online'))
    (rest : List (ForwardCall F α)) :
    parts.forwards online (calls ++ rest) =
      (parts.forwards online' rest).map fun (more, last) => (presented ++ more, last) := by
  induction calls generalizing online presented with
  | nil =>
    cases before
    rw [List.nil_append]
    exact Option.map_id'.symm
  | cons call calls inductionHypothesis =>
    simp only [OnlineParts.forwards, Option.bind_eq_bind, Option.bind_eq_some_iff] at before
    obtain ⟨answer, forwarded, ⟨more, last⟩, later, same⟩ := before
    cases same
    rw [List.cons_append]
    simp only [OnlineParts.forwards, forwarded, inductionHypothesis later, Option.bind_eq_bind,
      Option.bind_some, Option.bind_map, List.append_assoc]
    cases parts.forwards last rest <;> rfl

theorem firstPass (suits : Suits model c) {twoPass : Prop} {result : Recognized α}
    (served : Served 16 (60 * c) waveform twoPass result) (both : twoPass) :
    FirstPass model waveform result := by
  obtain ⟨closed, opened, joined, inside, -, handed⟩ := served.delivered.delivered
  obtain ⟨-, groups, pending, online, grouped, idle⟩ := handed both
  have sized : Recognized.Sized (960 * c) 7520 { online := groups.flatten } := by
    intro frame member
    have whole := served.sized frame (online ▸ List.mem_append_left pending member)
    rwa [show 60 * c * 16 = 960 * c by omega] at whole
  have long : ∀ span ∈ closed, span.1 + 160 ≤ span.2 := by
    intro span member
    refine served.long span (joined ▸ List.mem_append_left _ member) ?_
    obtain ⟨nonneg, ordered, -⟩ := inside span member
    omega
  obtain ⟨heard, frames, all, returned⟩ :
      ∃ heard : List (List (AudioFrame α) × List (List (List β'))), heard.map Prod.fst = groups ∧
        List.Forall₂ (fun (span : VadSegment) group => ∃ samples, ∃ reached : Nat,
          span.2 * 16 ≤ reached ∧ slice waveform (span.1 * 16).toNat reached = some samples ∧
          Hears model samples group.1 group.2) closed heard ∧
        model.parts.forwards model.parts.fresh (forwardCalls groups.flatten) =
          some ((heard.map Prod.snd).flatten, model.parts.fresh) := by
    clear joined handed online idle
    induction grouped with
    | nil => exact ⟨[], rfl, .nil, rfl⟩
    | @cons span group closed groups here there inductionHypothesis =>
      obtain ⟨insideHere, insideThere⟩ := List.forall_mem_cons.mp inside
      obtain ⟨longHere, longThere⟩ := List.forall_mem_cons.mp long
      obtain ⟨presented, samples, reached, far, data, hears⟩ := hears_group suits here
        (fun frame member => sized frame (List.mem_append_left _ member)) longHere insideHere.1
        insideHere.2.2
      obtain ⟨heard, rfl, all, returned⟩ := inductionHypothesis insideThere
        (fun frame member => sized frame (List.mem_append_right group member)) longThere
      refine ⟨(group, presented) :: heard, rfl, .cons ⟨samples, reached, far, data, hears⟩ all, ?_⟩
      rw [List.flatten_cons, forwardCalls_append, forwards_append hears.returned, returned]
      rfl
  subst frames
  exact ⟨closed, opened, pending, heard, joined, inside, online, idle, all, returned⟩

end

/-! ## A run -/

section
variable [Add β] [Mul β] [Field δ] [LinearOrder δ] [Zero α] [Add α] [Mul α] [Add β'] [Mul β'] [Zero β']
  [Field K] [LinearOrder K] {config : VadConfig α β δ κ} {loader : PcmLoader α}
  {model : OnlineModel α β' K δ'} {c : Nat}

/-- Whatever messages a client sends in the two-pass mode and however the threads of the server take
    turns: no call of a recording fails, and the online model has heard each segment that the
    detector has closed as an offline model would. -/
theorem run_firstPass (khz : config.khz = 16) (scores : config.Scores) (suits : Suits model c)
    (audio : Audio α) (rate : audio.destSampleRate = 1000 * config.khz)
    (frameQueue : audio.frameQueue = []) (onlineQueue : audio.asrOnlineQueue = [])
    (offlineQueue : audio.asrOfflineQueue = [])
    {engine : Engine} {events : List Step} {connection : Connection}
    (ran : run (step engine) (onOpen engine) events = some connection)
    (meets : Meets (step engine) (fun connection event => OpenSession engine connection event ∧
      Returns event ∧ KeepsAudio connection event) (onOpen engine) events)
    (alive : connection.terminated = false) (idle : connection.pending = 0)
    (handled : connection.inflight = none) (ended : (recordings engine (messages events)).2 = [])
    (stream : connection.tpassOnlineHandle = some (chunkEntries model.cif.chunkSize))
    (plain : ∀ call ∈ connection.inferences, call.Plain ∧ call.InTwoPass)
    (enough : ∀ bytes ∈ (recordings engine (messages events)).1,
      config.Enough (loader.samples bytes))
    (few : samplesPassed config loader
      ((recordings engine (messages events)).1.flatMap (pieces true)) < 2 ^ 31) :
    ∃ results stream', connection.heard config loader audio = some (results, stream') ∧
      List.Forall₂ (fun bytes result => FirstPass model (loader.samples bytes) result)
        (recordings engine (messages events)).1 results := by
  obtain ⟨frames, begun, posted, inTurn, cut⟩ := Connection.Cut.run ran meets alive
  obtain ⟨results, stream', heard, all⟩ := hear_recordings khz scores
    (.new config audio rate frameQueue onlineQueue offlineQueue few) enough
    (inTurn.passed cut idle handled ended) fun call member => (plain call member).1
  rw [heard_eq config loader audio stream suits.feeds]
  refine ⟨results, stream', heard, all.imp fun bytes result served => ?_⟩
  rw [khz, suits.chunkMs] at served
  exact firstPass suits served fun call member => (plain call member).2

end

/-- Every row gets a quarter of a token and no text. -/
def unitModel : OnlineModel Unit Nat ℚ Unit where
  framing := .hertz16000
  lfr := .para
  fbank := fun _ => [0]
  cmvn := ⟨List.replicate 7 0, List.replicate 7 1⟩
  sqrtFactor := 1
  posEmb := fun _ _ _ => 0
  featDims := 7
  cif := ⟨1, 1, 9 / 20, { left := 5, middle := 10, right := 5 }⟩
  encoder := fun rows => some (rows.map fun _ => [1], rows.map fun _ => 1 / 4)
  decoder := fun caches _ _ => .ok ("", caches)
  fsmnInitCache := ()

theorem unitModel_suits : Suits unitModel 10 where
  positive := by decide
  framing := rfl
  lfr := rfl
  shape := by
    refine ⟨?_, ?_, ?_⟩
    · intro rows hidden alphas encoded
      cases encoded
      exact List.length_map _
    · intro rows hidden alphas encoded
      cases encoded
      exact List.length_map _
    · intro rows hidden alphas encoded row member
      cases encoded
      obtain ⟨given, -, rfl⟩ := List.mem_map.mp member
      rfl
  middle := rfl
  int := by decide
  left := by decide
  right := by decide
  sum := by decide
  most := by decide
  room := by decide

theorem run_firstPass_longEvents : ∃ connection,
    run (step sessionEngine) (onOpen sessionEngine) longEvents = some connection ∧
    ∃ results stream', connection.heard speechConfig unitLoader TwoPass.sixteenKhz =
        some (results, stream') ∧
      List.Forall₂ (fun bytes result => FirstPass unitModel (unitLoader.samples bytes) result)
        (recordings sessionEngine (messages longEvents)).1 results := by
  obtain ⟨connection, ran, alive, idle, handled⟩ := longEvents_run
  obtain ⟨stream, plain⟩ := longEvents_plain ran
  exact ⟨connection, ran, run_firstPass rfl speechConfig_scores unitModel_suits TwoPass.sixteenKhz rfl
    rfl rfl rfl ran longEvents_meets alive idle handled longEvents_ended stream plain
    longEvents_enough longEvents_few⟩

end Asr2Pass.Server
