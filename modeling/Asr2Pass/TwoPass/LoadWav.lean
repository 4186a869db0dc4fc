import Asr2Pass.TwoPass.PcmLoading
import Asr2Pass.TwoPass.WaveHeader

/-! # `LoadWav`

The scan for the data goes by the sizes in the headers.  A chunk of an odd size is followed by a
byte that its size does not count, and the scan does not step over it: what it takes for the next
header begins one byte early.
-/

namespace Asr2Pass.TwoPass

open Library
open Relation (ReflTransGen)
open Text (bytes)

/-! ## The function -/

/-- `speech_buff`: two bytes a sample, the low one first. -/
def speechBuff : List UInt8 → List Int16
  | low :: high :: buf => (high.toUInt16 <<< 8 ||| low.toUInt16).toInt16 :: speechBuff buf
  | _ => []

/-- What `LoadWav` leaves: the object, `speech_buff` and `sampling_rate`. -/
structure LoadedWav (α : Type) where
  audio : Audio α
  speechBuff : List Int16
  samplingRate : Int

namespace PcmLoader

variable {α : Type} (loader : PcmLoader α)

/-- The part behind the scan.  `malloc` has nothing for a size less than zero, and the last byte of
    an odd size would go behind the buffer. -/
def loadData (audio : Audio α) : IStream × WaveHeader → Option (LoadedWav α)
  | (is, header) =>
    let speechLen := header.subchunk2Size.tdiv 2
    if header.subchunk2Size < 0 ∨ 2 * speechLen < header.subchunk2Size then none
    else
      let (buf, is) := is.read header.subchunk2Size.toNat
      if is.good then
        some {
          audio := { audio with
            offset := 0
            speechData := (speechBuff buf).map loader.scaled
            frameQueue := audio.frameQueue ++ [{ len := speechLen }] }
          speechBuff := speechBuff buf
          samplingRate := header.sampleRate }
      else none

/-- `LoadWav` without resampling; none where it returns false, does something that is undefined, or
    has used up its turns. -/
def loadWav (fuel : Nat) (audio : Audio α) (file : List UInt8) : Option (LoadedWav α) :=
  let (is, header) := WaveHeader.start file
  if is.good = false ∨ header.validate ≠ some true then none
  else do
    let (is, header) ← WaveHeader.seekToDataChunk fuel (is, header)
    if is.good = false ∨ header.validate ≠ some true then none
    else
      let (is, header) ← WaveHeader.seekToDataChunk fuel (is, header)
      if is.good = false then none else loader.loadData audio (is, header)

end PcmLoader

/-! ## Files -/

def sampleBytes (samples : List Int16) : List UInt8 :=
  samples.flatMap fun sample => toLittleEndian 2 sample.toUInt16.toNat

/-- A chunk that is not the data. -/
structure Chunk where
  id : List UInt8
  content : List UInt8
  isId : id.length = 4
  other : id ≠ bytes "data"
  fits : content.length < 2 ^ 32

/-- The header, the content, and a byte that makes the length even. -/
def Chunk.bytes (chunk : Chunk) : List UInt8 :=
  chunk.id ++ toLittleEndian 4 chunk.content.length ++ chunk.content ++
    List.replicate (chunk.content.length % 2) 0

/-- A file of samples with further chunks before the data, and with anything behind them. -/
structure WavFile where
  riffSize : Nat
  sampleRate : Nat
  chunks : List Chunk
  samples : List Int16
  behind : List UInt8
  rateFits : 2 * sampleRate < 2 ^ 32
  samplesFit : 2 * samples.length < 2 ^ 32

namespace WavFile

/-- The headers of the file and of the format: PCM, mono, 16 bit. -/
def head (wav : WavFile) : List UInt8 :=
  bytes "RIFF" ++ toLittleEndian 4 wav.riffSize ++ bytes "WAVE" ++ bytes "fmt " ++
    toLittleEndian 4 16 ++ toLittleEndian 2 1 ++ toLittleEndian 2 1 ++
    toLittleEndian 4 wav.sampleRate ++ toLittleEndian 4 (2 * wav.sampleRate) ++
    toLittleEndian 2 2 ++ toLittleEndian 2 16

def bytes (wav : WavFile) : List UInt8 :=
  wav.head ++ wav.chunks.flatMap Chunk.bytes ++ Text.bytes "data" ++
    toLittleEndian 4 (2 * wav.samples.length) ++ sampleBytes wav.samples ++ wav.behind

end WavFile

/-! ## Samples and their bytes -/

theorem toNat_word (high low : UInt8) :
    (high.toUInt16 <<< 8 ||| low.toUInt16).toNat = low.toNat + 256 * high.toNat := by
  have less := low.toNat_lt
  have less' := high.toNat_lt
  have shifted : (high.toUInt16 <<< 8).toNat = high.toNat <<< 8 := by
    have eight : UInt16.toNat 8 % 16 = 8 := rfl
    rw [UInt16.toNat_shiftLeft, UInt8.toNat_toUInt16, Nat.shiftLeft_eq, Nat.shiftLeft_eq, eight]
    exact Nat.mod_eq_of_lt (by omega)
  rw [UInt16.toNat_or, shifted, UInt8.toNat_toUInt16, ← Nat.shiftLeft_add_eq_or_of_lt less,
    Nat.shiftLeft_eq]
  omega

theorem speechBuff_cons (low high : UInt8) (buf : List UInt8) :
    speechBuff (low :: high :: buf) =
      (high.toUInt16 <<< 8 ||| low.toUInt16).toInt16 :: speechBuff buf := rfl

/-- The decoder of the server reads the same samples. -/
theorem samples_eq {α : Type} (loader : PcmLoader α) (buf : List UInt8) :
    loader.samples buf = (speechBuff buf).map loader.scaled := by
  induction buf using speechBuff.induct with
  | case1 low high buf inductionHypothesis =>
    rw [PcmLoader.samples, inductionHypothesis, speechBuff_cons, List.map_cons]
  | case2 buf short =>
    cases buf with
    | nil => rfl
    | cons low rest =>
      cases rest with
      | nil => rfl
      | cons high rest => exact absurd rfl (short low high rest)

/-- The samples of the bytes of some samples. -/
theorem speechBuff_sampleBytes (samples : List Int16) : speechBuff (sampleBytes samples) = samples := by
  induction samples with
  | nil => rfl
  | cons sample rest inductionHypothesis =>
    have word : ((UInt8.ofNat (sample.toUInt16.toNat / 256)).toUInt16 <<< 8 |||
        (UInt8.ofNat sample.toUInt16.toNat).toUInt16) = sample.toUInt16 := by
      have less := sample.toUInt16.toNat_lt
      rw [← UInt16.toNat_inj, toNat_word, UInt8.toNat_ofNat', UInt8.toNat_ofNat']
      omega
    have step : sampleBytes (sample :: rest) = UInt8.ofNat sample.toUInt16.toNat ::
        UInt8.ofNat (sample.toUInt16.toNat / 256) :: sampleBytes rest := rfl
    rw [step, speechBuff_cons, word, inductionHypothesis]
    rfl

/-- The bytes of the samples of an even number of bytes. -/
theorem sampleBytes_speechBuff (buf : List UInt8) (even : buf.length % 2 = 0) :
    sampleBytes (speechBuff buf) = buf := by
  induction buf using speechBuff.induct with
  | case1 low high buf inductionHypothesis =>
    rw [List.length_cons, List.length_cons] at even
    have word : toLittleEndian 2 (high.toUInt16 <<< 8 ||| low.toUInt16).toNat = [low, high] := by
      have pair := toLittleEndian_littleEndian [low, high]
      rw [toNat_word]
      simpa using pair
    have step (sample : Int16) (rest : List Int16) : sampleBytes (sample :: rest) =
        toLittleEndian 2 sample.toUInt16.toNat ++ sampleBytes rest := rfl
    rw [speechBuff_cons, step, inductionHypothesis (by omega), UInt16.toUInt16_toInt16, word]
    rfl
  | case2 buf short =>
    cases buf with
    | nil => rfl
    | cons low rest =>
      cases rest with
      | nil => cases even
      | cons high rest => exact absurd rfl (short low high rest)

theorem length_sampleBytes (samples : List Int16) : (sampleBytes samples).length = 2 * samples.length := by
  simp [sampleBytes, List.length_flatMap, Nat.mul_comm]

/-! ## Files that are loaded -/

section
variable {α : Type} {loader : PcmLoader α} {audio : Audio α} {file : List UInt8} {header : WaveHeader}
  {place : Nat} {loaded : LoadedWav α}

/-- What `LoadWav` leaves when it yields the samples. -/
def PcmLoader.yields (loader : PcmLoader α) (audio : Audio α) (samples : List Int16) (rate : Int) :
    LoadedWav α where
  audio := { audio with
    offset := 0
    speechData := samples.map loader.scaled
    frameQueue := audio.frameQueue ++ [{ len := samples.length }] }
  speechBuff := samples
  samplingRate := rate

/-- The header announces the bytes of the samples, and they are there. -/
def AnnouncesSamples (file : List UInt8) (samples : List Int16) (place : Nat) : Prop :=
  idAt file place = dataId ∧ sizeAt file place = (2 * samples.length : Nat) ∧
    (file.drop (place + 8)).take (2 * samples.length) = sampleBytes samples

theorem loadData_eq_some_iff {samples : List Int16} (data : idAt file place = dataId) :
    loader.loadData audio (atChunk file header place) =
        some (loader.yields audio samples header.sampleRate) ↔
      AnnouncesSamples file samples place := by
  have rate : (header.withSubchunk2 (idAt file place) (sizeAt file place)).sampleRate =
      header.sampleRate := rfl
  rw [AnnouncesSamples, and_iff_right data, atChunk, PcmLoader.loadData]
  dsimp only
  rw [WaveHeader.withSubchunk2_subchunk2Size, IStream.read, if_pos rfl, rate]
  generalize sizeAt file place = size
  dsimp only
  constructor
  · intro returned
    split at returned
    case isTrue => cases returned
    case isFalse fine =>
      rw [not_or, not_lt, not_lt] at fine
      rw [Int.tdiv_eq_ediv_of_nonneg fine.1] at fine
      split at returned
      case isTrue good =>
        have read := congrArg LoadedWav.speechBuff (Option.some.inj returned)
        have whole := of_decide_eq_true good
        have bytes := sampleBytes_speechBuff ((file.drop (place + 8)).take size.toNat) (by omega)
        have length := length_sampleBytes samples
        rw [show speechBuff ((file.drop (place + 8)).take size.toNat) = samples from read] at bytes
        rw [bytes, whole] at length
        exact ⟨by omega, by rw [← length, bytes]⟩
      case isFalse => cases returned
  · rintro ⟨rfl, same⟩
    have half : ((2 * samples.length : Nat) : Int).tdiv 2 = samples.length := by
      rw [Int.tdiv_eq_ediv_of_nonneg (by omega)]
      omega
    rw [half, Int.toNat_natCast, same, speechBuff_sampleBytes, if_neg (by omega),
      if_pos (by simp [length_sampleBytes])]
    rfl

/-- What comes back has the samples of `speech_buff`, in one frame. -/
theorem loadData_yields {state : IStream × WaveHeader}
    (returned : loader.loadData audio state = some loaded) :
    loaded = loader.yields audio loaded.speechBuff loaded.samplingRate := by
  obtain ⟨is, header⟩ := state
  simp only [PcmLoader.loadData] at returned
  split at returned
  case isTrue => cases returned
  case isFalse fine =>
    rw [not_or, not_lt, not_lt] at fine
    rw [Int.tdiv_eq_ediv_of_nonneg fine.1] at fine returned
    split at returned
    case isFalse => cases returned
    case isTrue good =>
      have whole : (is.read header.subchunk2Size.toNat).1.length = header.subchunk2Size.toNat := by
        rw [IStream.read] at good ⊢
        split at good
        case isTrue read => simpa only [if_pos read] using of_decide_eq_true good
        case isFalse bad => exact absurd good bad
      cases returned
      have count := length_sampleBytes (speechBuff (is.read header.subchunk2Size.toNat).1)
      rw [sampleBytes_speechBuff _ (by omega), whole] at count
      have length : header.subchunk2Size / 2 =
          (speechBuff (is.read header.subchunk2Size.toNat).1).length := by
        omega
      rw [PcmLoader.yields, length]

theorem loadWav_yields {fuel : Nat} (returned : loader.loadWav fuel audio file = some loaded) :
    loaded = loader.yields audio loaded.speechBuff loaded.samplingRate := by
  simp only [PcmLoader.loadWav] at returned
  split at returned
  case isTrue => cases returned
  case isFalse =>
    obtain ⟨first, -, returned⟩ := Option.bind_eq_some_iff.mp returned
    split at returned
    case isTrue => cases returned
    case isFalse =>
      obtain ⟨second, -, returned⟩ := Option.bind_eq_some_iff.mp returned
      split at returned
      case isTrue => cases returned
      case isFalse => exact loadData_yields returned

@[simp] theorem validate_withSubchunk2 (header : WaveHeader) (id size : Int) :
    (header.withSubchunk2 id size).validate = header.validate := rfl

/-- The scans begin at the first chunk and at the data. -/
theorem loadWav_eq (long : 44 ≤ file.length) (fuel : Nat) :
    loader.loadWav fuel audio file =
      if (WaveHeader.ofBytes (file.take 44)).validate ≠ some true then none
      else (WaveHeader.seekToDataChunk fuel (atChunk file (.ofBytes (file.take 44)) 36)).bind
        fun state =>
          if state.1.good = false ∨ state.2.validate ≠ some true then none
          else (WaveHeader.seekToDataChunk fuel state).bind fun state =>
            if state.1.good = false then none else loader.loadData audio state := by
  have isValid (header : WaveHeader) : (atChunk file header 36).2.validate = header.validate :=
    validate_withSubchunk2 _ _ _
  have good (header : WaveHeader) : ¬ (atChunk file header 36).1.good = false := by simp [atChunk]
  rw [PcmLoader.loadWav, start_eq long]
  simp only [isValid, good, Bool.true_eq_false, false_or]
  rfl

theorem loadWav_eq_some_iff (long : 44 ≤ file.length) :
    (∃ fuel, loader.loadWav fuel audio file = some loaded) ↔
      (WaveHeader.ofBytes (file.take 44)).validate = some true ∧
        ∃ place, ReflTransGen (Leads (nextChunk file)) 36 place ∧ idAt file place = dataId ∧
          loader.loadData audio (atChunk file (.ofBytes (file.take 44)) place) = some loaded := by
  simp only [loadWav_eq long]
  generalize WaveHeader.ofBytes (file.take 44) = header
  have hasHeader : HasHeader file 36 := by
    rw [HasHeader]
    omega
  have isValid (place : Nat) : (atChunk file header place).2.validate = header.validate :=
    validate_withSubchunk2 _ _ _
  have good (place : Nat) : ¬ (atChunk file header place).1.good = false := by simp [atChunk]
  constructor
  · rintro ⟨fuel, returned⟩
    split at returned
    case isTrue => cases returned
    case isFalse valid =>
      refine ⟨not_not.mp valid, ?_⟩
      obtain ⟨state, found, returned⟩ := Option.bind_eq_some_iff.mp returned
      split at returned
      case isTrue => cases returned
      case isFalse fine =>
        rw [not_or, Bool.not_eq_false] at fine
        obtain ⟨place, chain, data, rfl⟩ := seekToDataChunk_found hasHeader found fine.1
        refine ⟨place, chain, data, ?_⟩
        obtain ⟨state, found', loads⟩ := Option.bind_eq_some_iff.mp returned
        cases fuel with
        | zero => cases found'
        | succ fuel =>
          rw [seekToDataChunk_data data] at found'
          rwa [← Option.some.inj found', if_neg (good place)] at loads
  · rintro ⟨valid, place, chain, data, returned⟩
    obtain ⟨fuel, found⟩ := @seekToDataChunk_reaches _ header _ _ chain data
    refine ⟨fuel + 1, ?_⟩
    rw [if_neg (not_not.mpr valid), found, Option.bind_some, isValid, valid,
      if_neg (by simpa using good place), seekToDataChunk_data data, Option.bind_some,
      if_neg (good place), returned]

end

/-! ## The header of a file -/

theorem take_drop_append {before behind : List UInt8} {place count : Nat}
    (inside : place + count ≤ before.length) (taken : place + count ≤ 44) :
    (((before ++ behind).take 44).drop place).take count = (before.drop place).take count := by
  rw [List.drop_take, List.take_take, List.drop_append_of_le_length (by omega),
    Nat.min_eq_left (by omega), List.take_append_of_le_length (by rw [List.length_drop]; omega)]

namespace WavFile

variable (wav : WavFile)

theorem head_eq : wav.head = [0x52, 0x49, 0x46, 0x46] ++ toLittleEndian 4 wav.riffSize ++
    [0x57, 0x41, 0x56, 0x45, 0x66, 0x6d, 0x74, 0x20, 16, 0, 0, 0, 1, 0, 1, 0] ++
    toLittleEndian 4 wav.sampleRate ++ toLittleEndian 4 (2 * wav.sampleRate) ++ [2, 0, 16, 0] := by
  have riff : Text.bytes "RIFF" = [0x52, 0x49, 0x46, 0x46] := by decide
  have wave : Text.bytes "WAVE" = [0x57, 0x41, 0x56, 0x45] := by decide
  have format : Text.bytes "fmt " = [0x66, 0x6d, 0x74, 0x20] := by decide
  have numbers : toLittleEndian 4 16 = [16, 0, 0, 0] ∧ toLittleEndian 2 1 = [1, 0] ∧
      toLittleEndian 2 2 = [2, 0] ∧ toLittleEndian 2 16 = [16, 0] := by decide
  obtain ⟨size, one, two, sixteen⟩ := numbers
  rw [head, riff, wave, format, size, one, two, sixteen]
  simp only [List.append_assoc, List.cons_append, List.nil_append]

theorem length_head : wav.head.length = 36 := by
  rw [head_eq]
  simp

theorem head_ids : signed (wav.head.take 4) = 0x46464952 ∧
    signed ((wav.head.drop 8).take 4) = 0x45564157 ∧
      signed ((wav.head.drop 12).take 4) = 0x20746d66 := by
  rw [head_eq]
  refine ⟨?_, ?_, ?_⟩
  · show signed [0x52, 0x49, 0x46, 0x46] = 0x46464952
    decide +kernel
  · show signed [0x57, 0x41, 0x56, 0x45] = 0x45564157
    decide +kernel
  · show signed [0x66, 0x6d, 0x74, 0x20] = 0x20746d66
    decide +kernel

/-- The size of the format, PCM, one channel, and the bytes and bits of a sample. -/
theorem head_format : signed ((wav.head.drop 16).take 4) = 16 ∧
    signed ((wav.head.drop 20).take 2) = 1 ∧ signed ((wav.head.drop 22).take 2) = 1 ∧
      signed ((wav.head.drop 32).take 2) = 2 ∧ signed ((wav.head.drop 34).take 2) = 16 := by
  have one : signed [1, 0] = 1 := by decide +kernel
  rw [head_eq]
  refine ⟨?_, one, one, ?_, ?_⟩
  · show signed [16, 0, 0, 0] = 16
    decide +kernel
  · show signed [2, 0] = 2
    decide +kernel
  · show signed [16, 0] = 16
    decide +kernel

theorem head_rates : signed ((wav.head.drop 24).take 4) = wav.sampleRate ∧
    signed ((wav.head.drop 28).take 4) = (2 * wav.sampleRate : Int).bmod (2 ^ 32) := by
  have fits := wav.rateFits
  have rate : (wav.head.drop 24).take 4 = toLittleEndian 4 wav.sampleRate := by
    rw [head_eq]
    rfl
  have byteRate : (wav.head.drop 28).take 4 = toLittleEndian 4 (2 * wav.sampleRate) := by
    rw [head_eq]
    rfl
  rw [rate, byteRate, signed_toLittleEndian, signed_toLittleEndian]
  exact ⟨Int.bmod_eq_of_le (by omega) (by omega), rfl⟩

/-- The members of the header that `Validate` looks at. -/
theorem header_eq (behind : List UInt8) : ∃ chunkSize id size,
    WaveHeader.ofBytes ((wav.head ++ behind).take 44) =
      ⟨0x46464952, chunkSize, 0x45564157, 0x20746d66, 16, 1, 1, wav.sampleRate,
        (2 * wav.sampleRate : Int).bmod (2 ^ 32), 2, 16, id, size⟩ := by
  have slice (place count : Nat) (inside : place + count ≤ 36) :
      (((wav.head ++ behind).take 44).drop place).take count = (wav.head.drop place).take count :=
    take_drop_append (by rwa [length_head]) (by omega)
  have first := slice 0 4 (by decide)
  rw [List.drop_zero, List.drop_zero] at first
  obtain ⟨riff, wave, format⟩ := @head_ids wav
  obtain ⟨size, audio, channels, align, bits⟩ := @head_format wav
  obtain ⟨rate, byteRate⟩ := @head_rates wav
  refine ⟨signed (((wav.head ++ behind).take 44).drop 4 |>.take 4),
    signed (((wav.head ++ behind).take 44).drop 36 |>.take 4),
    signed (((wav.head ++ behind).take 44).drop 40 |>.take 4), ?_⟩
  rw [WaveHeader.ofBytes, first, slice 8 4 (by decide), slice 12 4 (by decide), slice 16 4 (by decide),
    slice 20 2 (by decide), slice 22 2 (by decide), slice 24 4 (by decide), slice 28 4 (by decide),
    slice 32 2 (by decide), slice 34 2 (by decide), riff, wave, format, size, audio, channels, rate,
    byteRate, align, bits]

/-- The header is valid unless its rate is so large that the number of bits in a second is no
    `int`. -/
theorem validate_iff (behind : List UInt8) :
    (WaveHeader.ofBytes ((wav.head ++ behind).take 44)).validate = some true ↔
      16 * wav.sampleRate < 2 ^ 31 := by
  obtain ⟨chunkSize, id, size, header⟩ := wav.header_eq behind
  have rate := wav.rateFits
  have samples : mulInt wav.sampleRate 1 = some (wav.sampleRate : Int) := by
    rw [mulInt, Int.mul_one, if_pos (by omega)]
  have same (id : Int) : ¬ id ≠ id := not_not.mpr rfl
  generalize wrapped : (2 * wav.sampleRate : Int).bmod (2 ^ 32) = byteRate at header
  rw [header, WaveHeader.validate, if_neg (same _), if_neg (same _), if_neg (same _), if_neg (same _),
    if_neg (same _), if_neg (same _), samples, Option.bind_eq_bind, Option.bind_some]
  by_cases fits : 16 * wav.sampleRate < 2 ^ 31
  · have bits : mulInt wav.sampleRate 16 = some (wav.sampleRate * 16 : Int) := by
      rw [mulInt, if_pos (by omega)]
    have matching : byteRate = (wav.sampleRate * 16 : Int).tdiv 8 := by
      rw [← wrapped, Int.bmod_eq_of_le (by omega) (by omega), Int.tdiv_eq_ediv_of_nonneg (by omega)]
      omega
    have align : ¬ (2 : Int) ≠ (1 * 16 : Int).tdiv 8 := by decide
    rw [bits, Option.bind_some, if_neg (not_not.mpr matching), if_neg align]
    exact iff_of_true rfl fits
  · have bits : mulInt wav.sampleRate 16 = none := by
      rw [mulInt, if_neg (by omega)]
    rw [bits, Option.bind_none]
    exact iff_of_false (by simp) fits

end WavFile

/-! ## Even chunks -/

section
variable {before behind id : List UInt8} {size : Nat}

theorem idAt_append (isId : id.length = 4) :
    idAt (before ++ (id ++ (toLittleEndian 4 size ++ behind))) before.length = signed id := by
  rw [idAt, List.drop_left, List.take_left' isId]

theorem sizeAt_append (isId : id.length = 4) :
    sizeAt (before ++ (id ++ (toLittleEndian 4 size ++ behind))) before.length =
      (size : Int).bmod (2 ^ 32) := by
  have length : (toLittleEndian 4 size).length = 4 := length_toLittleEndian 4 size
  rw [sizeAt, ← List.drop_drop, List.drop_left, List.drop_left' isId, List.take_left' length,
    signed_toLittleEndian]
  rfl

/-- The scan steps over a chunk that needs no pad byte and whose size is an `int`. -/
theorem leads_chunk {chunk : Chunk} (even : chunk.content.length % 2 = 0)
    (small : chunk.content.length < 2 ^ 31) (further : 8 ≤ behind.length) :
    Leads (nextChunk (before ++ (chunk.bytes ++ behind))) before.length
      (before.length + chunk.bytes.length) := by
  have bytes : chunk.bytes ++ behind =
      chunk.id ++ (toLittleEndian 4 chunk.content.length ++ (chunk.content ++ behind)) := by
    rw [Chunk.bytes, even, List.replicate_zero, List.append_nil, List.append_assoc, List.append_assoc]
  have length : chunk.bytes.length = 8 + chunk.content.length := by
    rw [Chunk.bytes, even]
    simp only [List.length_append, chunk.isId, length_toLittleEndian, List.length_replicate]
    omega
  have other : signed chunk.id ≠ dataId := by
    have data : signed (Text.bytes "data") = dataId := by decide +kernel
    rw [← data]
    exact fun same => chunk.other (signed_inj chunk.isId same)
  have size : sizeAt (before ++ (chunk.bytes ++ behind)) before.length = chunk.content.length := by
    rw [bytes, sizeAt_append chunk.isId]
    exact Int.bmod_eq_of_le (by omega) (by omega)
  have target : chunkEnd (before ++ (chunk.bytes ++ behind)) before.length =
      (before.length + chunk.bytes.length : Nat) := by
    rw [chunkEnd, size, length]
    omega
  have whole : (before ++ (chunk.bytes ++ behind)).length =
      before.length + chunk.bytes.length + behind.length := by
    rw [List.length_append, List.length_append, Nat.add_assoc]
  rw [Leads, nextChunk, target, Int.toNat_natCast, if_pos]
  refine ⟨?_, ?_, by omega, ?_⟩
  · rw [HasHeader]
    omega
  · rwa [bytes, idAt_append chunk.isId]
  · rw [HasHeader]
    omega

theorem reaches_behind {chunks : List Chunk} (even : ∀ chunk ∈ chunks,
    chunk.content.length % 2 = 0 ∧ chunk.content.length < 2 ^ 31) (further : 8 ≤ behind.length) :
    ReflTransGen (Leads (nextChunk (before ++ (chunks.flatMap Chunk.bytes ++ behind)))) before.length
      (before.length + (chunks.flatMap Chunk.bytes).length) := by
  induction chunks generalizing before with
  | nil => exact .refl
  | cons chunk rest inductionHypothesis =>
    obtain ⟨first, others⟩ := List.forall_mem_cons.mp even
    have later := @inductionHypothesis (before ++ chunk.bytes) others
    have longer : 8 ≤ (rest.flatMap Chunk.bytes ++ behind).length := by
      rw [List.length_append]
      omega
    have leads := @leads_chunk before _ chunk first.1 first.2 longer
    rw [List.flatMap_cons, List.append_assoc, List.length_append]
    rw [List.append_assoc, List.length_append, Nat.add_assoc] at later
    exact later.head leads

end

/-! ## Files with further chunks -/

namespace WavFile

variable {α : Type} (loader : PcmLoader α) (audio : Audio α) (wav : WavFile)

/-- `LoadWav` succeeds and yields the samples. -/
def Loads : Prop :=
  ∃ fuel, loader.loadWav fuel audio wav.bytes =
    some (loader.yields audio wav.samples wav.sampleRate)

/-- The sizes in the headers lead, without the pad bytes, to a header that announces the samples. -/
def ReachesSamples : Prop :=
  ∃ place, ReflTransGen (Leads (nextChunk wav.bytes)) 36 place ∧
    AnnouncesSamples wav.bytes wav.samples place

/-- No further chunk needs a pad byte, and all sizes are `int`s. -/
def IsEven : Prop :=
  (∀ chunk ∈ wav.chunks, chunk.content.length % 2 = 0 ∧ chunk.content.length < 2 ^ 31) ∧
    2 * wav.samples.length < 2 ^ 31

variable {wav}

theorem bytes_eq : wav.bytes = wav.head ++ (wav.chunks.flatMap Chunk.bytes ++ (Text.bytes "data" ++
    (toLittleEndian 4 (2 * wav.samples.length) ++ (sampleBytes wav.samples ++ wav.behind)))) := by
  simp only [bytes, List.append_assoc]

theorem long : 44 ≤ wav.bytes.length := by
  have data : (Text.bytes "data").length = 4 := by decide
  rw [bytes_eq]
  simp only [List.length_append, length_head, data, length_toLittleEndian]
  omega

theorem reachesSamples_of_isEven (isEven : wav.IsEven) : wav.ReachesSamples := by
  obtain ⟨even, small⟩ := isEven
  have data : (Text.bytes "data").length = 4 := by decide
  refine ⟨wav.head.length + (wav.chunks.flatMap Chunk.bytes).length, ?_, ?_, ?_, ?_⟩
  · rw [bytes_eq, ← wav.length_head]
    exact reaches_behind even (by simp [data]; omega)
  · rw [bytes_eq, ← List.append_assoc, ← List.length_append, idAt_append data]
    decide +kernel
  · rw [bytes_eq, ← List.append_assoc, ← List.length_append, sizeAt_append data]
    exact Int.bmod_eq_of_le (by omega) (by omega)
  · rw [bytes_eq, ← List.append_assoc, ← List.length_append, ← List.drop_drop, List.drop_left]
    have eight : (Text.bytes "data" ++ toLittleEndian 4 (2 * wav.samples.length)).length = 8 := by
      simp [data]
    rw [← List.append_assoc, List.drop_left' eight, List.take_left' (length_sampleBytes wav.samples)]

/-- A file is loaded exactly when its rate is not too large and the sizes lead to the samples, as they
    do when no chunk before the data is odd. -/
theorem loads_iff :
    (wav.Loads loader audio ↔ 16 * wav.sampleRate < 2 ^ 31 ∧ wav.ReachesSamples) ∧
      (wav.IsEven → wav.ReachesSamples) := by
  refine ⟨?_, reachesSamples_of_isEven⟩
  have valid : (WaveHeader.ofBytes (wav.bytes.take 44)).validate = some true ↔
      16 * wav.sampleRate < 2 ^ 31 := by
    rw [bytes_eq]
    exact wav.validate_iff _
  have rate : (WaveHeader.ofBytes (wav.bytes.take 44)).sampleRate = wav.sampleRate := by
    rw [bytes_eq]
    obtain ⟨chunkSize, id, size, header⟩ := wav.header_eq (wav.chunks.flatMap Chunk.bytes ++
      (Text.bytes "data" ++ (toLittleEndian 4 (2 * wav.samples.length) ++
        (sampleBytes wav.samples ++ wav.behind))))
    rw [header]
  rw [Loads, loadWav_eq_some_iff long, valid, ReachesSamples, ← rate]
  refine and_congr_right fun _ => exists_congr fun place => and_congr_right fun _ => ?_
  constructor
  · exact fun loads => (loadData_eq_some_iff loads.1).mp loads.2
  · exact fun announces => ⟨announces.1, (loadData_eq_some_iff announces.1).mpr announces⟩

end WavFile

/-- A file with a chunk of one byte before its sample. -/
def oddChunk : WavFile where
  riffSize := 48
  sampleRate := 16000
  chunks := [⟨bytes "note", [7], by decide, by decide, by decide⟩]
  samples := [1]
  behind := []
  rateFits := by decide
  samplesFit := by decide

/-- What is taken for the next header begins at the pad byte, and the scan leaves the file. -/
theorem not_loads_oddChunk : ¬ oddChunk.Loads plainLoader { destSampleRate := 16000, enough := enough_16000 } := by
  rw [WavFile.Loads, loadWav_eq_some_iff WavFile.long]
  have first : nextChunk oddChunk.bytes 36 = some 45 := by decide +kernel
  have last : nextChunk oddChunk.bytes 45 = none := by decide +kernel
  rintro ⟨-, place, chain, data, -⟩
  obtain rfl | ⟨place', leads, chain⟩ := chain.cases_head
  · exact absurd data (by decide +kernel)
  · obtain rfl := Leads.unique first leads
    obtain rfl | ⟨place', leads, -⟩ := chain.cases_head
    · exact absurd data (by decide +kernel)
    · rw [Leads, last] at leads
      cases leads

end Asr2Pass.TwoPass
