import Asr2Pass.Server.ServedSpeech
import Asr2Pass.Server.TextSafety
import Asr2Pass.TwoPass.LoadWav

/-! # The client of the two-pass server

`send_wav_data` sends a text message with the settings, the samples of the file in blocks, and a text
message that ends the recording.  With it nothing is left to assume of the messages: the file's
samples reach the detector.
-/

namespace Asr2Pass.Server

open Library
open TwoPass (AsrType Audio Delivered LoadedWav PcmLoader sampleBytes)
open Vad (VadConfig speechConfig speechConfig_scores)

/-! ## `send_wav_data` -/

/-- The arguments of the client. -/
structure ClientOptions where
  wavId : String
  asrMode : String
  chunkVector : Int × Int × Int
  hwsMap : List (String × Int)
  useItn : Int
  svsItn : Int

namespace ClientOptions

variable (dump : Json → String) (options : ClientOptions)

/-- The first message; an object has its members in the order of their keys. -/
def jsonbegin (samplingRate : Int) : Json :=
  .object ([("audio_fs", .integer samplingRate),
      ("chunk_size", .array [.integer options.chunkVector.1, .integer options.chunkVector.2.1,
        .integer options.chunkVector.2.2])] ++
    (if options.hwsMap = [] then []
      else [("hotwords", .string (dump (.object (options.hwsMap.map (Prod.map id .integer)))))]) ++
    [("is_speaking", .boolean true), ("itn", .boolean (options.useItn ≠ 0)),
      ("mode", .string options.asrMode), ("svs_itn", .boolean (options.svsItn ≠ 0)),
      ("wav_format", .string "pcm"), ("wav_name", .string options.wavId)])

end ClientOptions

def jsonresult : Json := .object [("is_speaking", .boolean false)]

/-- The loop over the blocks. -/
def sendBlocks {α : Type} (blockSize : Nat) (iArray : List α) (offset : Nat) : List (List α) :=
  if offset < iArray.length ∧ 0 < blockSize then
    let sendBlock :=
      if offset + blockSize ≤ iArray.length then blockSize else iArray.length - offset
    (iArray.drop offset).take sendBlock :: sendBlocks blockSize iArray (offset + sendBlock)
  else []
termination_by iArray.length - offset
decreasing_by split <;> omega

/-- `(short)(buff[i] * 32768)`. -/
def toShort (value : ℚ) : Int16 :=
  Int16.ofInt ((value * 32768).num.tdiv (value * 32768).den)

/-- `speech_buff[i] / scale` in an `Audio` of type 1. -/
def scaled (sample : Int16) : ℚ := sample.toInt / 32768

/-- The loop over `Fetch`; the frame that `LoadWav` leaves starts with the data. -/
def fetched (audio : Audio ℚ) : List (List ℚ) :=
  audio.frameQueue.map fun frame => audio.speechData.take frame.len.toNat

def payload (dump : Json → String) (json : Json) : List Byte := (dump json).toUTF8.toList

/-- `send_wav_data` for a WAV file that has been loaded, on a connection that stays open. -/
def sendWavData (dump : Json → String) (options : ClientOptions) (loaded : LoadedWav ℚ) :
    List Frame :=
  .text (payload dump (options.jsonbegin dump loaded.samplingRate)) ::
    ((fetched loaded.audio).flatMap fun buff =>
      (sendBlocks 102400 (buff.map toShort) 0).map fun block => .binary (sampleBytes block)) ++
    [.text (payload dump jsonresult)]

/-! ## What is sent -/

theorem flatten_sendBlocks {α : Type} {blockSize : Nat} (positive : 0 < blockSize)
    (iArray : List α) (offset : Nat) :
    (sendBlocks blockSize iArray offset).flatten = iArray.drop offset := by
  induction offset using sendBlocks.induct blockSize iArray with
  | case1 offset inside sendBlock inductionHypothesis =>
    rw [sendBlocks, if_pos inside, List.flatten_cons]
    change _ ++ (sendBlocks blockSize iArray (offset + sendBlock)).flatten = _
    rw [inductionHypothesis, ← List.drop_drop]
    exact List.take_append_drop _ _
  | case2 offset outside =>
    rw [sendBlocks, if_neg outside, List.flatten_nil, List.drop_eq_nil_of_le (by omega)]

/-- A sample that has been scaled comes back. -/
theorem toShort_scaled (sample : Int16) : toShort (scaled sample) = sample := by
  have back : scaled sample * 32768 = (sample.toInt : ℚ) := by
    rw [scaled]
    exact div_mul_cancel₀ _ (by decide)
  rw [toShort, back, Rat.num_intCast, Rat.den_intCast, Nat.cast_one, Int.tdiv_one, Int16.ofInt_toInt]

/-- The messages for the samples that `LoadWav` yields. -/
theorem sendWavData_yields (dump : Json → String) (options : ClientOptions) {loader : PcmLoader ℚ}
    (scales : loader.scaled = scaled) {audio : Audio ℚ} (new : audio.frameQueue = [])
    (samples : List Int16) (rate : Int) :
    sendWavData dump options (loader.yields audio samples rate) =
      .text (payload dump (options.jsonbegin dump rate)) ::
        ((sendBlocks 102400 samples 0).map sampleBytes).map Frame.binary ++
          [.text (payload dump jsonresult)] := by
  have back : (samples.map loader.scaled).map toShort = samples := by
    rw [scales, List.map_map]
    exact List.map_congr_left (fun sample _ => toShort_scaled sample) |>.trans (List.map_id _)
  have fetch : fetched (loader.yields audio samples rate).audio = [samples.map loader.scaled] := by
    simp [fetched, PcmLoader.yields, new, List.take_of_length_le]
  rw [sendWavData, fetch, List.flatMap_singleton, back, List.map_map]
  rfl

/-- The blocks have the bytes of the samples. -/
theorem flatten_sampleBytes (samples : List Int16) :
    ((sendBlocks 102400 samples 0).map sampleBytes).flatten = sampleBytes samples := by
  have whole := @flatten_sendBlocks _ 102400 (by decide) samples 0
  rw [List.drop_zero] at whole
  conv_rhs => rw [← whole]
  simp only [sampleBytes, List.flatMap_def, List.map_flatten, List.flatten_flatten, List.map_map,
    Function.comp_def]
  rfl

/-! ## What the server makes of the first message -/

namespace ClientOptions

variable (dump : Json → String) (options : ClientOptions) (samplingRate : Int)

/-- The members of a connection that the first message sets, and those that it leaves. -/
def fields : Fields where
  wavName := .string options.wavId
  mode := .string options.asrMode
  itn := .boolean (options.useItn ≠ 0)
  audioFs := .integer samplingRate
  wavFormat := .string "pcm"
  svsItn := .boolean (options.svsItn ≠ 0)

/-- What a task is given. -/
def args : Args where
  wavName := options.wavId
  modetype := options.asrMode
  itn := options.useItn ≠ 0
  vadTailSil := 350
  vadMaxLen := 20000
  audioFs := samplingRate.bmod (2 ^ 32)
  wavFormat := "pcm"
  svsLang := "auto"
  sysItn := options.svsItn ≠ 0

theorem convert_fields :
    (options.fields samplingRate).convert = some (options.args samplingRate) := rfl

/-- The `chunk_size` that the server reads. -/
def chunkSize : List Int :=
  [options.chunkVector.1.bmod (2 ^ 32), options.chunkVector.2.1.bmod (2 ^ 32),
    options.chunkVector.2.2.bmod (2 ^ 32)]

end ClientOptions

/-- The settings of a connection, and of the tasks that it has posted. -/
structure Configured (settings : Fields) (embedding : HotwordsEmbedding) (chunkSize : List Int)
    (connection : Connection) : Prop where
  fields : connection.fields = settings
  hotwordsEmbedding : connection.hotwordsEmbedding = some embedding
  stream : connection.tpassOnlineHandle = some chunkSize
  tasks : ∀ task ∈ connection.strand,
    task.fields = settings ∧ task.hotwordsEmbedding = embedding

section
variable {dump : Json → String} {options : ClientOptions} {samplingRate : Int} {engine : Engine}

theorem hotwords_jsonbegin : (options.jsonbegin dump samplingRate).Member "hotwords" fun value =>
    value.IsNull ∨ value.IsString := by
  obtain ⟨wavId, asrMode, chunkVector, hwsMap, useItn, svsItn⟩ := options
  cases hwsMap with
  | nil => exact fun value present => nomatch present
  | cons pair rest =>
    intro value present
    cases present
    exact .inr trivial

theorem chunk_jsonbegin : (options.jsonbegin dump samplingRate).member "chunk_size" =
    some (.array [.integer options.chunkVector.1, .integer options.chunkVector.2.1,
      .integer options.chunkVector.2.2]) := by
  cases options.hwsMap <;> rfl

/-- What feeds the online model opens a stream. -/
theorem opens_of_feeds (feeds : Feeds options.chunkSize) :
    options.chunkSize.length = 3 ∧ options.chunkSize[1]? ≠ some 0 := by
  obtain ⟨isInt, usable⟩ := feeds
  have positive : 0 < options.chunkVector.2.1.bmod (2 ^ 32) := usable.positive
  exact ⟨rfl, fun same => positive.ne' (Option.some.inj same)⟩

theorem openedChunk_jsonbegin (feeds : Feeds options.chunkSize) :
    openedChunk (options.jsonbegin dump samplingRate) = some options.chunkSize := by
  rw [Connection.openedChunk_eq chunk_jsonbegin (show _ = some options.chunkSize from rfl),
    if_pos (opens_of_feeds feeds)]

theorem handled_jsonbegin (feeds : Feeds options.chunkSize)
    (opens : engine.onlineInit options.chunkSize) (connection : Connection) :
    Handled engine (options.jsonbegin dump samplingRate) connection := by
  refine ⟨trivial, fun _ => hotwords_jsonbegin, fun _ value present => ?_, fun _ chunkSize same => ?_⟩
  · rw [chunk_jsonbegin] at present
    cases present
    intro item member
    simp only [List.mem_cons, List.not_mem_nil, or_false] at member
    obtain rfl | rfl | rfl := member <;> trivial
  · rw [openedChunk_jsonbegin feeds] at same
    cases same
    exact opens

theorem validChunk_jsonbegin (feeds : Feeds options.chunkSize) :
    ValidChunk (options.jsonbegin dump samplingRate) :=
  ⟨options.chunkSize, by rw [chunk_jsonbegin]; rfl, opens_of_feeds feeds⟩

theorem clientDone_jsonbegin :
    clientDone (options.jsonbegin dump samplingRate) = some false := by
  obtain ⟨wavId, asrMode, chunkVector, hwsMap, useItn, svsItn⟩ := options
  cases hwsMap <;> rfl

/-- The fields after a text message of an open session. -/
theorem onText_fields {connection handled : Connection} {json : Json}
    (valid : connection.tpassOnlineHandle = none → ValidChunk json)
    (ran : connection.onText engine json = some handled) : handled.fields =
      (((connection.storeNames json).storeAudioFs json).storeOptions json).fields := by
  obtain ⟨loaded, opened, right, load, stream, ran⟩ := Connection.onText_parts ran
  obtain ⟨names, handle⟩ := Connection.loadHotwords_same load
  obtain ⟨rfl, -⟩ := @Connection.openStream_valid _ (loaded.storeAudioFs json) json opened right
    (by rw [← handle] at valid; exact valid) stream
  have opening : opened.fields = (loaded.storeAudioFs json).fields := by
    obtain rfl | ⟨-, -, chunkSize, rfl⟩ := Connection.openStream_cases stream <;> rfl
  rw [if_pos rfl] at ran
  have posted : handled.fields = (opened.storeOptions json).fields := by
    obtain rfl | ⟨-, embedding, -, rfl⟩ := Connection.postFinal_cases ran <;> rfl
  rw [posted, Connection.storeOptions, opening, Connection.storeAudioFs, names]
  rfl

/-- The first message on a new connection. -/
theorem configured_jsonbegin (feeds : Feeds options.chunkSize) {handled : Connection}
    (ran : (onOpen engine).onText engine (options.jsonbegin dump samplingRate) = some handled) :
    ∃ embedding, Configured (options.fields samplingRate) embedding options.chunkSize handled := by
  have valid : (onOpen engine).tpassOnlineHandle = none →
      ValidChunk (options.jsonbegin dump samplingRate) := fun _ => validChunk_jsonbegin feeds
  obtain ⟨prepared, isPrepared, posts⟩ := Connection.onText_cases ran
  obtain ⟨embedding, embedded⟩ := Option.ne_none_iff_exists'.mp isPrepared.embedding
  obtain ⟨done, read, count⟩ := Connection.onText_strand valid rfl ran
  rw [clientDone_jsonbegin] at read
  cases read
  have none : handled.strand = [] := List.eq_nil_of_length_eq_zero count
  have stream : handled.tpassOnlineHandle = some options.chunkSize := by
    rw [Connection.onText_stream ran, streamAfter, openedChunk_jsonbegin feeds]
    rfl
  refine ⟨embedding, ?_, ?_, stream, by simp [none]⟩
  · rw [onText_fields valid ran]
    obtain ⟨wavId, asrMode, chunkVector, hwsMap, useItn, svsItn⟩ := options
    cases hwsMap <;> rfl
  · obtain rfl | ⟨-, words, -, rfl⟩ := posts
    · exact embedded
    · exact embedded

/-! ## The messages behind it -/

variable {settings : Fields} {embedding : HotwordsEmbedding} {chunkSize : List Int}
  {connection : Connection}

theorem Configured.post (configured : Configured settings embedding chunkSize connection)
    (buffer : List Byte) (isFinal : Bool) :
    Configured settings embedding chunkSize (connection.post buffer embedding isFinal) := by
  obtain ⟨fields, embedded, stream, tasks⟩ := configured
  refine ⟨fields, embedded, stream, fun task member => ?_⟩
  cases List.mem_append.mp member with
  | inl old => exact tasks task old
  | inr new =>
    obtain rfl := List.mem_singleton.mp new
    exact ⟨fields, rfl⟩

/-- Changes of what is neither a setting nor a task. -/
theorem Configured.other (configured : Configured settings embedding chunkSize connection)
    (samples : List Byte) (inflight : Option Frame) :
    Configured settings embedding chunkSize { connection with samples, inflight } :=
  ⟨configured.fields, configured.hotwordsEmbedding, configured.stream, configured.tasks⟩

theorem Configured.binary (configured : Configured settings embedding chunkSize connection)
    (payload : List Byte) :
    Configured settings embedding chunkSize (connection.handle engine (.binary payload)) := by
  have handled : Configured settings embedding chunkSize (connection.onBinary payload) := by
    obtain ⟨-, same⟩ | ⟨-, -, rest, same⟩ |
      ⟨-, -, words, subvector, rest, embedded, -, -, same⟩ :=
        Connection.onBinary_cases connection payload
    · rw [same]
      exact configured.other _ _
    · rw [same]
      exact configured.other rest _
    · rw [configured.hotwordsEmbedding] at embedded
      cases embedded
      rw [same]
      exact (configured.other rest connection.inflight).post subvector false
  exact handled.other _ none

theorem Configured.result (configured : Configured settings embedding chunkSize connection)
    {payload : List Byte} (parsed : engine.parse payload = some jsonresult) :
    Configured settings embedding chunkSize (connection.handle engine (.text payload)) := by
  have loaded : connection.loadHotwords engine jsonresult = some connection := by
    simp only [Connection.loadHotwords, configured.hotwordsEmbedding]
  -- The message has no member but `is_speaking`.
  have same : connection.onText engine jsonresult = connection.postFinal jsonresult := by
    change (connection.loadHotwords engine jsonresult).bind _ = _
    rw [loaded]
    rfl
  cases ran : connection.postFinal jsonresult with
  | none =>
    simp only [Connection.handle, parsed, same, ran]
    exact ⟨configured.fields, configured.hotwordsEmbedding, configured.stream, configured.tasks⟩
  | some handled =>
    simp only [Connection.handle, parsed, same, ran]
    obtain rfl | ⟨-, words, embedded, rfl⟩ := Connection.postFinal_cases ran
    · exact configured.other _ none
    · rw [configured.hotwordsEmbedding] at embedded
      cases embedded
      exact (configured.post connection.samples true).other [] none

theorem member_of_absent {json : Json} {key : String} {condition : Json → Prop}
    (absent : json.member key = none) : json.Member key condition := by
  intro value present
  rw [absent] at present
  cases present

theorem member_of_present {json : Json} {key : String} {condition : Json → Prop} {value : Json}
    (present : json.member key = some value) (meets : condition value) :
    json.Member key condition := by
  intro other same
  rw [present] at same
  cases same
  exact meets

/-- The connection as its decoder threads have left it. -/
theorem Configured.of_follows {begun : List Task} {listener : Connection}
    (configured : Configured settings embedding chunkSize listener)
    (follows : Connection.Follows begun listener connection) :
    Configured settings embedding chunkSize connection := by
  obtain ⟨fields, embedded, stream, tasks⟩ := configured
  refine ⟨follows.fields ▸ fields, follows.hotwordsEmbedding ▸ embedded,
    follows.tpassOnlineHandle ▸ stream, fun task member => tasks task ?_⟩
  rw [follows.strand]
  exact List.mem_append_right _ member

/-- The settings of the client survive on its stream. -/
theorem survivesOn_fields (feeds : Feeds options.chunkSize)
    (positive : 0 < samplingRate.bmod (2 ^ 32)) {fields : Fields}
    (audioFs : fields.audioFs = .integer samplingRate) : fields.SurvivesOn options.chunkSize := by
  intro args _ _ rate
  rw [audioFs] at rate
  have same : samplingRate.bmod (2 ^ 32) = args.audioFs := Option.some.inj rate
  exact ⟨fun _ => same ▸ positive, fun _ => .inr feeds⟩

theorem accepted_jsonresult (configured : Configured settings embedding chunkSize connection)
    (survives : settings.SurvivesOn chunkSize) : Accepted engine jsonresult connection where
  handled := ⟨trivial, fun _ => member_of_absent rfl, fun _ => member_of_absent rfl,
    fun missing => by
      rw [configured.stream] at missing
      cases missing⟩
  stored := ⟨member_of_absent rfl, member_of_absent rfl, member_of_absent rfl,
    member_of_absent rfl, fun _ => ⟨member_of_absent rfl, member_of_absent rfl,
      member_of_absent rfl, member_of_absent rfl, member_of_absent rfl⟩⟩
  served := by
    have only {other : List Int} (same : streamAfter jsonresult connection = some other) :
        other = chunkSize := by
      rw [streamAfter, configured.stream] at same
      exact (Option.some.inj same).symm
    refine ⟨fun other same => ?_, fun other same task member => ?_⟩
    · rw [only same]
      change connection.fields.SurvivesOn chunkSize
      rw [configured.fields]
      exact survives
    · rw [only same, (configured.tasks task member).1]
      exact survives

theorem accepted_jsonbegin (feeds : Feeds options.chunkSize)
    (opens : engine.onlineInit options.chunkSize) (positive : 0 < samplingRate.bmod (2 ^ 32))
    (new : connection.tpassOnlineHandle = none) (waiting : connection.strand = []) :
    Accepted engine (options.jsonbegin dump samplingRate) connection := by
  refine ⟨handled_jsonbegin feeds opens connection, ?_, fun other same => ?_,
    fun other same task member => ?_⟩
  · obtain ⟨wavId, asrMode, chunkVector, hwsMap, useItn, svsItn⟩ := options
    cases hwsMap <;>
      exact ⟨member_of_present rfl trivial, member_of_present rfl trivial,
        member_of_present rfl trivial, member_of_present rfl trivial,
        fun _ => ⟨member_of_present rfl trivial, member_of_absent rfl, member_of_absent rfl,
          member_of_absent rfl, member_of_present rfl trivial⟩⟩
  · rw [streamAfter, new, Option.none_or, openedChunk_jsonbegin feeds] at same
    cases same
    obtain ⟨wavId, asrMode, chunkVector, hwsMap, useItn, svsItn⟩ := options
    cases hwsMap <;> exact survivesOn_fields feeds positive rfl
  · rw [waiting] at member
    cases member

/-! ## A run with this client -/

/-- A text message, binary messages, and a text message. -/
def clientFrames (first : List Byte) (blocks : List (List Byte)) (last : List Byte) : List Frame :=
  .text first :: blocks.map Frame.binary ++ [.text last]

/-- A message behind the first one. -/
def IsLater (last : List Byte) (frame : Frame) : Prop :=
  (∃ payload, frame = .binary payload) ∨ frame = .text last

variable {first last : List Byte} {blocks : List (List Byte)}

theorem isLater_of_mem {frame : Frame} (member : frame ∈ blocks.map Frame.binary ++ [.text last]) :
    IsLater last frame := by
  cases List.mem_append.mp member with
  | inl block =>
    obtain ⟨payload, -, rfl⟩ := List.mem_map.mp block
    exact .inl ⟨payload, rfl⟩
  | inr final => exact .inr (List.mem_singleton.mp final)

/-- The next message of the client. -/
theorem next_frame {handled : List Frame} {frame : Frame}
    (sent : handled ++ [frame] <+: clientFrames first blocks last) :
    handled = [] ∧ frame = .text first ∨
      ∃ rest, handled = .text first :: rest ∧ (∀ frame ∈ rest, IsLater last frame) ∧
        IsLater last frame := by
  cases handled with
  | nil => exact .inl ⟨rfl, (List.cons_prefix_cons.mp sent).1⟩
  | cons begun rest =>
    obtain ⟨rfl, more⟩ := List.cons_prefix_cons.mp sent
    have among : ∀ frame' ∈ rest ++ [frame], IsLater last frame' := fun frame' member =>
      isLater_of_mem (more.subset member)
    refine .inr ⟨rest, rfl, fun frame' member => among frame' (List.mem_append_left _ member), ?_⟩
    exact among frame (List.mem_append_right _ (List.mem_singleton_self frame))

theorem configured_listen (ends : engine.parse last = some jsonresult)
    (begun : Configured settings embedding chunkSize (listen engine [.text first])) (frames : List Frame)
    (later : ∀ frame ∈ frames, IsLater last frame) :
    Configured settings embedding chunkSize (listen engine (.text first :: frames)) := by
  induction frames using List.reverseRecOn with
  | nil => exact begun
  | append_singleton frames frame inductionHypothesis =>
    have before := inductionHypothesis fun frame member =>
      later frame (List.mem_append_left _ member)
    rw [← List.cons_append, listen_snoc]
    obtain ⟨payload, rfl⟩ | rfl := later frame (List.mem_append_right _ (List.mem_singleton_self _))
    · exact before.binary payload
    · exact before.result ends

section
variable (feeds : Feeds options.chunkSize) (opens : engine.onlineInit options.chunkSize)
  (begins : engine.parse first = some (options.jsonbegin dump samplingRate))
include feeds opens begins

theorem configured_first : ∃ embedding, Configured (options.fields samplingRate) embedding
    options.chunkSize (listen engine [.text first]) := by
  obtain ⟨handled, ran⟩ := Option.isSome_iff_exists.mp (Connection.onText_isSome.mpr
    (@handled_jsonbegin dump options samplingRate engine feeds opens (onOpen engine)))
  obtain ⟨embedding, configured⟩ := configured_jsonbegin feeds ran
  refine ⟨embedding, ?_⟩
  have same : listen engine [.text first] = { handled with inflight := none } := by
    simp only [listen, List.foldl_cons, List.foldl_nil, Connection.handle, begins, ran]
  rw [same]
  exact configured.other _ none

variable (ends : engine.parse last = some jsonresult)
include ends

/-- The listening thread has the settings as soon as it has handled a message. -/
theorem configured_later {rest : List Frame} (later : ∀ frame ∈ rest, IsLater last frame) :
    ∃ embedding, Configured (options.fields samplingRate) embedding options.chunkSize
      (listen engine (.text first :: rest)) := by
  obtain ⟨embedding, begun⟩ := configured_first feeds opens begins
  exact ⟨embedding, configured_listen ends begun rest later⟩

/-- The messages of this client keep the connection open and lose no audio. -/
theorem client_meets (positive : 0 < samplingRate.bmod (2 ^ 32)) {events past : List Step}
    {state : Connection} {handled : List Frame} {begun : List Task}
    (inTurn : Connection.InTurn engine past handled begun state) (healthy : state.Healthy)
    (counted : state.Counted) (sent : messages (past ++ events) <+: clientFrames first blocks last)
    (stays : ∀ event ∈ events, Returns event ∧ event ≠ .onClose) :
    Meets (step engine) (fun connection event => (OpenSession engine connection event ∧
      Returns event ∧ KeepsAudio connection event) ∧ TextAccepted engine connection event)
        state events := by
  induction events generalizing past state handled begun with
  | nil => exact trivial
  | cons event events inductionHypothesis =>
    obtain ⟨⟨returns, open'⟩, stays⟩ := List.forall_mem_cons.mp stays
    have next {frame : Frame} (inflight : state.inflight = some frame) :=
      @next_frame first last blocks handled frame (by
        have arrived := inTurn.arrived
        rw [inflight, Option.toList_some] at arrived
        rw [← arrived]
        exact List.IsPrefix.trans ⟨_, (messages_append past _).symm⟩ sent)
    -- Behind the first message the connection has the settings.
    have configured {rest : List Frame} (same : handled = .text first :: rest)
        (later : ∀ frame ∈ rest, IsLater last frame) : ∃ embedding,
          Configured (options.fields samplingRate) embedding options.chunkSize state := by
      obtain ⟨embedding, listening⟩ := configured_later feeds opens begins ends later
      exact ⟨embedding, listening.of_follows (same ▸ inTurn.follows)⟩
    have embedded {rest : List Frame} (same : handled = .text first :: rest)
        (later : ∀ frame ∈ rest, IsLater last frame) : state.hotwordsEmbedding ≠ none := by
      obtain ⟨embedding, settled⟩ := configured same later
      rw [settled.hotwordsEmbedding]
      exact Option.some_ne_none _
    have session : OpenSession engine state event := by
      cases event with
      | handle =>
        intro text inflight
        obtain ⟨-, is⟩ | ⟨rest, same, later, ⟨payload, is⟩ | is⟩ := next inflight
        · cases is
          exact ⟨_, begins, fun _ => validChunk_jsonbegin feeds⟩
        · cases is
        · cases is
          exact ⟨_, ends, fun missing => absurd missing (embedded same later)⟩
      | onClose => exact absurd rfl open'
      | _ => trivial
    have keeps : KeepsAudio state event := by
      cases event with
      | handle =>
        intro payload inflight missing
        obtain ⟨-, is⟩ | ⟨rest, same, later, -⟩ := next inflight
        · cases is
        · exact absurd missing (embedded same later)
      | infer outcome =>
        cases outcome with
        | returned result => trivial
        | threw => exact returns.elim
        | ended => exact returns.elim
      | deliverThrows => exact returns.elim
      | _ => trivial
    have accepted : TextAccepted engine state event := by
      cases event with
      | handle =>
        intro text json inflight parsed
        obtain ⟨none, is⟩ | ⟨rest, same, later, ⟨payload, is⟩ | is⟩ := next inflight
        · cases is
          rw [begins] at parsed
          cases parsed
          have follows := inTurn.follows
          rw [none] at follows
          have strand : begun ++ state.strand = [] := follows.strand.symm
          exact accepted_jsonbegin feeds opens positive follows.tpassOnlineHandle.symm
            (List.append_eq_nil_iff.mp strand).2
        · cases is
        · cases is
          rw [ends] at parsed
          cases parsed
          obtain ⟨embedding, settled⟩ := configured same later
          exact accepted_jsonresult settled (survivesOn_fields feeds positive rfl)
      | _ => trivial
    refine ⟨⟨⟨session, returns, keeps⟩, accepted⟩, fun after stepped => ?_⟩
    have healthy' := healthy.step counted accepted stepped
    obtain ⟨handled', begun', -, inTurn'⟩ := inTurn.step session returns stepped healthy'.alive
    refine inductionHypothesis inTurn' healthy' (counted.step stepped) ?_ stays
    rwa [List.append_assoc]

end

theorem foldl_record (blocks : List (List Byte)) (recorded : List (List Byte) × List Byte) :
    (blocks.map Frame.binary).foldl (record engine) recorded =
      (recorded.1, recorded.2 ++ blocks.flatten) := by
  induction blocks generalizing recorded with
  | nil => simp
  | cons block blocks inductionHypothesis =>
    rw [List.map_cons, List.foldl_cons, inductionHypothesis, record, List.flatten_cons,
      List.append_assoc]

theorem recordings_client
    (begins : engine.parse first = some (options.jsonbegin dump samplingRate))
    (ends : engine.parse last = some jsonresult) :
    recordings engine (clientFrames first blocks last) = ([blocks.flatten], []) := by
  have more : isDone engine first = false := by
    simp [isDone, begins, clientDone_jsonbegin]
  have done : isDone engine last = true := by
    rw [isDone, ends]
    rfl
  have before : recordings engine (.text first :: blocks.map Frame.binary) =
      ([], blocks.flatten) := by
    rw [recordings, List.foldl_cons, foldl_record]
    simp only [record, more, Bool.false_eq_true, if_false, List.nil_append]
  rw [clientFrames, recordings_snoc, before, record, done]
  rfl

/-- The calls of tasks with the same settings differ in their pieces alone. -/
theorem calls_of_settings {args : Args} (converts : settings.convert = some args)
    {tasks : List Task}
    (same : ∀ task ∈ tasks, task.fields = settings ∧ task.hotwordsEmbedding = embedding) :
    tasks.flatMap Task.calls =
      ((tasks.flatMap Task.calls).map EngineCall.piece).map (args.call embedding) := by
  rw [List.map_flatMap, List.map_flatMap]
  refine List.flatMap_congr fun task member => ?_
  obtain ⟨fields, embedded⟩ := same task member
  rw [Task.calls, fields, converts, Option.elim_some, embedded, List.map_map, List.map_map]
  rfl

theorem samples_sampleBytes {α : Type} (loader : PcmLoader α) (samples : List Int16) :
    loader.samples (sampleBytes samples) = samples.map loader.scaled := by
  rw [TwoPass.samples_eq, TwoPass.speechBuff_sampleBytes]

end

section
variable {α β δ κ : Type} [Add β] [Mul β] [Field δ] [LinearOrder δ] [Zero α] [Add α] [Mul α]
  {config : VadConfig α β δ κ} {loader : PcmLoader α}

/-- A WAV file of 16 kHz that this client sends to this server: however the messages and the threads
    take turns, the server survives, the model is passed the samples of the file, in pieces of 800
    and with the settings of the client, and the segments that the detector closes in the file are
    handed to the recognizers once. -/
theorem run_client (khz : config.khz = 16) (scores : config.Scores) (audio : Audio α)
    (rate : audio.destSampleRate = 1000 * config.khz) (frameQueue : audio.frameQueue = [])
    (onlineQueue : audio.asrOnlineQueue = []) (offlineQueue : audio.asrOfflineQueue = [])
    (dump : Json → String) (options : ClientOptions) (feeds : Feeds options.chunkSize)
    {wavLoader : PcmLoader ℚ} (scales : wavLoader.scaled = scaled) {wav : Audio ℚ}
    (new : wav.frameQueue = []) {file : List Byte} {loaded : LoadedWav ℚ} {fuel : Nat}
    (loads : wavLoader.loadWav fuel wav file = some loaded) (sixteen : loaded.samplingRate = 16000)
    (enough : config.Enough (loaded.speechBuff.map loader.scaled))
    (few : samplesPassed config loader (pieces true (sampleBytes loaded.speechBuff)) < 2 ^ 31)
    {engine : Engine} (opens : engine.onlineInit options.chunkSize)
    (begins : engine.parse (payload dump (options.jsonbegin dump 16000)) =
      some (options.jsonbegin dump 16000))
    (ends : engine.parse (payload dump jsonresult) = some jsonresult)
    {events : List Step} {connection : Connection}
    (ran : run (step engine) (onOpen engine) events = some connection)
    (stays : ∀ event ∈ events, Returns event ∧ event ≠ .onClose)
    (sent : messages events = sendWavData dump options loaded)
    (idle : connection.pending = 0) (handled : connection.inflight = none) :
    connection.terminated = false ∧
      (∃ embedding, connection.inferences =
        (pieces true (sampleBytes loaded.speechBuff)).map
          ((options.args 16000).call embedding)) ∧
      ∃ result stream', connection.heard config loader audio = some ([result], stream') ∧
        Delivered config.khz (loaded.speechBuff.map loader.scaled)
          (asrMode options.asrMode = .asrTwoPass) result := by
  have messages_eq := sent
  rw [TwoPass.loadWav_yields loads, sixteen, sendWavData_yields dump options scales new]
    at messages_eq
  generalize loaded.speechBuff = samples at enough few messages_eq ⊢
  have meets := client_meets feeds opens begins ends (by decide) (.onOpen engine) (.onOpen engine)
    (.onOpen engine) (by rw [List.nil_append, messages_eq]; exact List.prefix_rfl) stays
  have alive := ((Connection.Healthy.onOpen engine).run (.onOpen engine)
    (meets.imp fun _ _ both => both.2) ran).alive
  obtain ⟨frames, begun, posted, inTurn, cut⟩ :=
    Connection.Cut.run ran (meets.imp fun _ _ both => both.1) alive
  have recorded : recordings engine (messages events) = ([sampleBytes samples], []) := by
    rw [messages_eq, ← flatten_sampleBytes]
    exact recordings_client begins ends
  have passed := inTurn.passed cut idle handled (by rw [recorded])
  rw [recorded, List.flatMap_singleton] at passed
  -- All tasks have the settings of the first message, and its stream.
  obtain ⟨embedding, configured⟩ := configured_later feeds opens begins ends fun frame =>
    @isLater_of_mem _ ((sendBlocks 102400 samples 0).map sampleBytes) frame
  have arrived := inTurn.arrived
  rw [handled, Option.toList_none, List.append_nil, messages_eq] at arrived
  rw [← List.cons_append, arrived] at configured
  have calls : connection.inferences =
      (connection.inferences.map EngineCall.piece).map ((options.args 16000).call embedding) := by
    rw [(inTurn.done idle).2]
    exact calls_of_settings (options.convert_fields 16000) configured.tasks
  rw [passed] at calls
  refine ⟨alive, ⟨embedding, calls⟩, ?_⟩
  have plain : ∀ call ∈ connection.inferences, call.Plain := by
    intro call member
    rw [calls] at member
    obtain ⟨piece, -, rfl⟩ := List.mem_map.mp member
    exact ⟨.inl rfl, rfl⟩
  obtain ⟨results, stream', heard, all⟩ := @hear_recordings _ _ _ _ _ _ _ _ _ _ _ config loader
    (chunkMs options.chunkSize) (chunkMs_pos feeds) khz scores [sampleBytes samples] _
    (.new config audio rate frameQueue onlineQueue offlineQueue
      (by rw [List.flatMap_singleton]; exact few))
    (fun bytes member => by
      rw [List.mem_singleton.mp member, samples_sampleBytes]
      exact enough)
    connection.inferences (by rw [passed, List.flatMap_singleton]) plain
  obtain ⟨result, rest, served, none, rfl⟩ := List.forall₂_cons_left_iff.mp all
  cases none
  have stream : connection.tpassOnlineHandle = some options.chunkSize :=
    (configured.of_follows inTurn.follows).stream
  rw [heard_eq config loader audio stream feeds]
  refine ⟨result, stream', heard, ?_⟩
  have delivered := served.delivered
  rw [samples_sampleBytes] at delivered
  refine delivered_imp delivered fun both call member => ?_
  rw [calls] at member
  obtain ⟨piece, -, rfl⟩ := List.mem_map.mp member
  exact both

end

/-! ## A file of 180 ms -/

theorem shortFile_samples : 2 * (List.replicate 2880 (1 : Int16)).length < 2 ^ 32 := by
  rw [List.length_replicate]
  decide

def shortFile : TwoPass.WavFile where
  riffSize := 36 + 5760
  sampleRate := 16000
  chunks := []
  samples := List.replicate 2880 1
  behind := []
  rateFits := TwoPass.oddChunk.rateFits
  samplesFit := shortFile_samples

def rationalLoader : PcmLoader ℚ where
  scaled := scaled
  filter _ _ := { firstIndex := fun _ => 0, weights := fun _ => [], windowWidthTicks := 0
                  maxRemainderNeeded := 0 }

def rationalAudio : Audio ℚ where
  destSampleRate := 16000
  enough := TwoPass.enough_16000

def demoOptions : ClientOptions where
  wavId := "demo"
  asrMode := "2pass"
  chunkVector := (5, 10, 5)
  hwsMap := []
  useItn := 1
  svsItn := 1

/-- The texts of the two messages. -/
def demoDump : Json → String
  | .object [_] => "\x7b\"is_speaking\":false\x7d"
  | _ => "\x7b\"audio_fs\":16000,\"chunk_size\":[5,10,5],\"is_speaking\":true,\"itn\":true," ++
      "\"mode\":\"2pass\",\"svs_itn\":true,\"wav_format\":\"pcm\",\"wav_name\":\"demo\"\x7d"

def demoBegin : Json := demoOptions.jsonbegin demoDump 16000

def demoEngine : Engine where
  parse text :=
    if text = payload demoDump jsonresult then some jsonresult
    else if text = payload demoDump demoBegin then some demoBegin
    else none
  hwsMap := []
  compileHotwordEmbedding _ := []
  wfstDecoderInit := true

def demoEvents : List Step :=
  [.receive (.text (payload demoDump demoBegin)), .handle,
    .receive (.binary (sampleBytes (List.replicate 2880 1))), .handle,
    .receive (.text (payload demoDump jsonresult)), .handle, .begin] ++ pieceSteps ++ pieceSteps ++
  pieceSteps ++ [.test, .test, .decrement] ++ lastSteps

theorem run_client_shortFile : ∃ loaded connection,
    rationalLoader.loadWav 1 rationalAudio shortFile.bytes = some loaded ∧
    run (step demoEngine) (onOpen demoEngine) demoEvents = some connection ∧
    connection.terminated = false ∧
      (∃ embedding, connection.inferences =
        (pieces true (sampleBytes loaded.speechBuff)).map
          ((demoOptions.args 16000).call embedding)) ∧
      ∃ result stream', connection.heard speechConfig unitLoader TwoPass.sixteenKhz =
          some ([result], stream') ∧
        Delivered speechConfig.khz (loaded.speechBuff.map unitLoader.scaled)
          (asrMode demoOptions.asrMode = .asrTwoPass) result := by
  have read : (rationalLoader.loadWav 1 rationalAudio shortFile.bytes).any fun loaded =>
      loaded.speechBuff.length = 2880 ∧ loaded.speechBuff.all (· = 1) ∧
        loaded.samplingRate = 16000 := by
    decide +kernel
  obtain ⟨loaded, loads, same⟩ := (Option.any_eq_true _ _).mp read
  obtain ⟨length, ones, sixteen⟩ := of_decide_eq_true same
  have samples : loaded.speechBuff = List.replicate 2880 1 :=
    List.eq_replicate_iff.mpr ⟨length, fun sample member =>
      of_decide_eq_true (List.all_eq_true.mp ones sample member)⟩
  have finishes : (run (step demoEngine) (onOpen demoEngine) demoEvents).any
      (fun connection => connection.pending = 0 ∧ connection.inflight.isNone) := by
    decide +kernel
  obtain ⟨connection, ran, idle⟩ := (Option.any_eq_true _ _).mp finishes
  have quiet := of_decide_eq_true idle
  have begins : demoEngine.parse (payload demoDump demoBegin) = some demoBegin := by
    have differ : payload demoDump demoBegin ≠ payload demoDump jsonresult := by decide +kernel
    exact (if_neg differ).trans (if_pos rfl)
  have sent : messages demoEvents = sendWavData demoDump demoOptions loaded := by
    rw [TwoPass.loadWav_yields loads, sendWavData_yields demoDump demoOptions rfl rfl, samples, sixteen]
    have blocks : sendBlocks 102400 (List.replicate 2880 (1 : Int16)) 0 =
        [List.replicate 2880 1] := by
      rw [sendBlocks, if_pos (by rw [List.length_replicate]; decide)]
      simp [sendBlocks, -List.reduceReplicate]
    rw [blocks]
    rfl
  have stays : ∀ event ∈ demoEvents, Returns event ∧ ¬ event matches .onClose := by
    decide +kernel
  refine ⟨loaded, connection, loads, ran, run_client rfl speechConfig_scores TwoPass.sixteenKhz rfl
    rfl rfl rfl demoDump demoOptions (by decide) rfl rfl loads sixteen ?_ ?_ rfl begins (if_pos rfl)
    ran (fun event member => ⟨(stays event member).1, ?_⟩) sent quiet.1
    (Option.isNone_iff_eq_none.mp quiet.2)⟩
  · refine Server.enough_800 rfl ?_
    rw [List.length_map, samples, List.length_replicate]
    decide
  · rw [samplesPassed_pieces, TwoPass.length_sampleBytes, samples, List.length_replicate]
    decide
  · rintro rfl
    exact (stays _ member).2 rfl

end Asr2Pass.Server
