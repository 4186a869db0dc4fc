import Asr2Pass.Library.Runs
import Asr2Pass.TwoPass.LinearResample
import Asr2Pass.TwoPass.Split

/-! # Loading PCM samples

`LoadPcmwav` and `LoadPcmwavOnline` resample each buffer with a new `LinearResample`, to its end.  A
stream that comes in chunks then has a last output sample for every chunk.
-/

namespace Asr2Pass.TwoPass

open Library

/-- What is computed in floating point: a sample over `scale`, and the filter for two rates. -/
structure PcmLoader (α : Type) where
  scaled : Int16 → α
  filter : Nat → Nat → ResampleFilter α

namespace PcmLoader

variable {α : Type} (loader : PcmLoader α)

/-- Two bytes a sample, the low one first; a byte without a second one is left out. -/
def samples : List UInt8 → List α
  | low :: high :: buf =>
    loader.scaled (high.toUInt16 <<< 8 ||| low.toUInt16).toInt16 :: samples buf
  | _ => []

/-- A new `LinearResample`. -/
def resampler (samplingRate destSampleRate : Nat) (rates : 0 < samplingRate ∧ 0 < destSampleRate) :
    LinearResample α where
  sampRateIn := samplingRate
  sampRateOut := destSampleRate
  inPos := rates.1
  outPos := rates.2
  filter := loader.filter samplingRate destSampleRate

variable [Zero α] [Add α] [Mul α]

/-- `WavResample`; the assertion of the constructor asks for positive rates, and `speech_len` is an
    `int`. -/
def wavResample (samplingRate destSampleRate : Nat) (waveform : List α) : Option (List α) :=
  if rates : 0 < samplingRate ∧ 0 < destSampleRate then do
    let (samples, _) ← (loader.resampler samplingRate destSampleRate rates).resample waveform true
    if samples.length < 2 ^ 31 then some samples else none
  else none

def speechData (samplingRate destSampleRate : Nat) (buf : List UInt8) : Option (List α) :=
  if samplingRate ≠ destSampleRate then
    loader.wavResample samplingRate destSampleRate (loader.samples buf)
  else some (loader.samples buf)

/-- `LoadPcmwav`; `speech_len` is the length of `speech_data`. -/
def loadPcmwav (samplingRate : Nat) (audio : Audio α) (buf : List UInt8) : Option (Audio α) :=
  (loader.speechData samplingRate audio.destSampleRate buf).map fun speechData =>
    { audio with
      speechData
      frameQueue := audio.frameQueue ++ [{ len := speechData.length }] }

def loadPcmwavOnline (samplingRate : Nat) (audio : Audio α) (buf : List UInt8) :
    Option (Audio α) :=
  (loader.speechData samplingRate audio.destSampleRate buf).map audio.loadPcmwavOnline

/-! ## The number of samples -/

omit [Zero α] [Add α] [Mul α] in
theorem length_samples (buf : List UInt8) : (loader.samples buf).length = buf.length / 2 := by
  fun_induction loader.samples buf with
  | case1 low high buf inductionHypothesis =>
    simp only [List.length_cons, inductionHypothesis]
    omega
  | case2 buf short =>
    cases buf with
    | nil => rfl
    | cons low buf =>
      cases buf with
      | nil => simp
      | cons high buf => exact absurd rfl (short low high buf)

/-- The rates have a common tick that is an `int32_t`, or no resampling is needed. -/
def Resamples (samplingRate destSampleRate : Nat) : Prop :=
  samplingRate = destSampleRate ∨ samplingRate.lcm destSampleRate < 2 ^ 31

section
variable {samplingRate : Nat} (positive : 0 < samplingRate)
include positive

/-- How many samples there are at the new rate, where there are any. -/
theorem length_wavResample {destSampleRate : Nat} (positive' : 0 < destSampleRate)
    {waveform : List α} (int : waveform.length < 2 ^ 31) :
    (loader.wavResample samplingRate destSampleRate waveform).map List.length =
      if samplingRate.lcm destSampleRate < 2 ^ 31 ∧
          (waveform.length * destSampleRate) ⌈/⌉ samplingRate < 2 ^ 31 then
        some ((waveform.length * destSampleRate) ⌈/⌉ samplingRate)
      else none := by
  have count := (loader.resampler samplingRate destSampleRate ⟨positive, positive'⟩).resample_flush
    rfl rfl waveform
  rw [wavResample, dif_pos ⟨positive, positive'⟩]
  rw [resampler] at count ⊢
  generalize LinearResample.resample _ waveform true = resampled at count ⊢
  cases resampled with
  | none =>
    rw [Option.map_none, eq_comm, ite_eq_right_iff] at count
    refine (if_neg fun both => ?_).symm
    exact nomatch count ⟨both.1, int, both.2.le⟩
  | some result =>
    rw [Option.map_some] at count
    split at count
    · rename_i sizes
      have length := Option.some.inj count
      simp only [Option.bind_eq_bind, Option.bind_some, length, sizes.1, true_and]
      split <;> simp [length]
    · cases count

/-- The samples at the new rate. -/
theorem speechData_some {destSampleRate : Nat} (positive' : 0 < destSampleRate)
    (resamples : Resamples samplingRate destSampleRate) (buf : List UInt8)
    (int : buf.length < 2 ^ 31)
    (few : (buf.length / 2 * destSampleRate) ⌈/⌉ samplingRate < 2 ^ 31) :
    ∃ speechData, loader.speechData samplingRate destSampleRate buf = some speechData ∧
      speechData.length = (buf.length / 2 * destSampleRate) ⌈/⌉ samplingRate := by
  by_cases same : samplingRate = destSampleRate
  · refine ⟨loader.samples buf, if_neg (not_not_intro same), ?_⟩
    rw [length_samples, same, Nat.mul_comm]
    exact (smul_ceilDiv positive' (buf.length / 2)).symm
  · have samples := loader.length_samples buf
    have count := loader.length_wavResample positive positive'
      (show (loader.samples buf).length < 2 ^ 31 by omega)
    rw [samples, if_pos ⟨resamples.resolve_left same, few⟩] at count
    obtain ⟨speechData, resampled, length⟩ := Option.map_eq_some_iff.mp count
    exact ⟨speechData, (if_pos same).trans resampled, length⟩

/-- Where samples are loaded, the rates have a tick, and there are not too many of them. -/
theorem resamples_of_speechData {destSampleRate : Nat} (positive' : 0 < destSampleRate)
    {buf : List UInt8} (int : buf.length < 2 ^ 31) {speechData : List α}
    (loaded : loader.speechData samplingRate destSampleRate buf = some speechData) :
    Resamples samplingRate destSampleRate ∧
      (buf.length / 2 * destSampleRate) ⌈/⌉ samplingRate < 2 ^ 31 := by
  by_cases same : samplingRate = destSampleRate
  · refine ⟨.inl same, ?_⟩
    have whole : (destSampleRate * (buf.length / 2)) ⌈/⌉ destSampleRate = buf.length / 2 :=
      smul_ceilDiv positive' (buf.length / 2)
    rw [same, Nat.mul_comm, whole]
    omega
  · have samples := loader.length_samples buf
    have count := loader.length_wavResample positive positive'
      (show (loader.samples buf).length < 2 ^ 31 by omega)
    rw [PcmLoader.speechData, if_pos same] at loaded
    rw [loaded, samples, Option.map_some] at count
    split at count
    · rename_i both
      exact ⟨.inr both.1, both.2⟩
    · cases count

/-- What the chunks add to `all_samples`. -/
theorem run_length {audio : Audio α} (resamples : Resamples samplingRate audio.destSampleRate)
    {chunks : List (List UInt8)} (int : chunks.flatten.length < 2 ^ 31)
    (few : (chunks.flatten.length / 2 * audio.destSampleRate) ⌈/⌉ samplingRate < 2 ^ 31) :
    ∃ after, run (loader.loadPcmwavOnline samplingRate) audio chunks = some after ∧
      after.allSamples.length = audio.allSamples.length + ((chunks.map fun chunk =>
        chunk.length / 2 * audio.destSampleRate).map (· ⌈/⌉ samplingRate)).sum := by
  induction chunks generalizing audio with
  | nil => exact ⟨audio, rfl, rfl⟩
  | cons chunk rest inductionHypothesis =>
    have enough := audio.enough
    rw [List.flatten_cons, List.length_append] at int few
    -- no chunk is longer than all of them
    have shorter {part : Nat} (le : part ≤ chunk.length + rest.flatten.length) :
        (part / 2 * audio.destSampleRate) ⌈/⌉ samplingRate < 2 ^ 31 := by
      refine ((ceilDiv_le_iff_le_mul positive).mpr ?_).trans_lt few
      exact (Nat.mul_le_mul_right _ (Nat.div_le_div_right le)).trans (le_smul_ceilDiv positive)
    obtain ⟨speechData, loaded, length⟩ :=
      loader.speechData_some positive (by omega) resamples chunk (by omega)
        (shorter (Nat.le_add_right _ _))
    obtain ⟨after, ran, total⟩ :=
      @inductionHypothesis (audio.loadPcmwavOnline speechData) resamples (by omega)
        (shorter (Nat.le_add_left _ _))
    refine ⟨after, run_cons_eq_some.mpr ⟨audio.loadPcmwavOnline speechData, ?_, ran⟩, ?_⟩
    · rw [loadPcmwavOnline, loaded, Option.map_some]
    · rw [total]
      simp only [Audio.loadPcmwavOnline, List.length_append, List.map_cons, List.sum_cons, length]
      omega

omit positive in
theorem length_flatten_div {chunks : List (List UInt8)}
    (even : ∀ chunk ∈ chunks, 2 ∣ chunk.length) (rate : Nat) :
    (chunks.map fun chunk => chunk.length / 2 * rate).sum = chunks.flatten.length / 2 * rate := by
  induction chunks with
  | nil => simp
  | cons chunk rest inductionHypothesis =>
    obtain ⟨whole, others⟩ := List.forall_mem_cons.mp even
    have halves : (chunk.length + rest.flatten.length) / 2 =
        chunk.length / 2 + rest.flatten.length / 2 := by
      omega
    rw [List.map_cons, List.sum_cons, inductionHypothesis others, List.flatten_cons,
      List.length_append, halves, Nat.add_mul]

/-- The chunks add as many samples as the whole stream has at the model's rate, exactly when the
    rates have a tick, the samples can be counted in an `int`, and the chunks' ends fall short of
    output samples by less than one together.  The bytes are counted in an `int`, too. -/
theorem keepsTime_iff (audio : Audio α) {chunks : List (List UInt8)}
    (even : ∀ chunk ∈ chunks, 2 ∣ chunk.length) (int : chunks.flatten.length < 2 ^ 31) :
    (∃ online offline,
      run (loader.loadPcmwavOnline samplingRate) audio chunks = some online ∧
      loader.loadPcmwav samplingRate audio chunks.flatten = some offline ∧
      online.allSamples.length = audio.allSamples.length + offline.speechData.length) ↔
    Resamples samplingRate audio.destSampleRate ∧
      (chunks.flatten.length / 2 * audio.destSampleRate) ⌈/⌉ samplingRate < 2 ^ 31 ∧
      ((chunks.map fun chunk => chunk.length / 2 * audio.destSampleRate).map
        (shortfall samplingRate)).sum < samplingRate := by
  have enough := audio.enough
  have total := length_flatten_div even audio.destSampleRate
  -- Rounding up chunk by chunk and once agree if the shortfalls add up to less than one.
  have rounded := sum_ceilDiv_eq_iff positive
    (chunks.map fun chunk => chunk.length / 2 * audio.destSampleRate)
  rw [total] at rounded
  constructor
  · rintro ⟨online, offline, ran, loaded, same⟩
    obtain ⟨speechData, read, rfl⟩ := Option.map_eq_some_iff.mp loaded
    obtain ⟨resamples, few⟩ :=
      loader.resamples_of_speechData positive (by omega) int read
    obtain ⟨speechData', read', length⟩ :=
      loader.speechData_some positive (by omega) resamples _ int few
    obtain ⟨after, ran', added⟩ := loader.run_length positive resamples int few
    rw [read] at read'
    cases read'
    rw [ran] at ran'
    cases ran'
    refine ⟨resamples, few, rounded.mp ?_⟩
    simp only at same
    omega
  · rintro ⟨resamples, few, short⟩
    obtain ⟨speechData, read, length⟩ :=
      loader.speechData_some positive (by omega) resamples _ int few
    obtain ⟨after, ran, added⟩ := loader.run_length positive resamples int few
    refine ⟨after, _, ran, Option.map_eq_some_iff.mpr ⟨speechData, read, rfl⟩, ?_⟩
    simp only [added, length]
    rw [rounded.mpr short]

end

end PcmLoader

/-- The sample before each output sample. -/
def plainLoader : PcmLoader Int where
  scaled := Int16.toInt
  filter := fun rateIn rateOut => {
    firstIndex := fun i => (i * rateIn / rateOut : Nat)
    weights := fun _ => [1]
    windowWidthTicks := 0
    maxRemainderNeeded := 1 }

/-- Three samples at 48 kHz are one at 16 kHz. -/
theorem keepsTime_threes :
    ∃ online offline,
      run (plainLoader.loadPcmwavOnline 48000) { destSampleRate := 16000, enough := by decide }
        [[1, 0, 2, 0, 3, 0], [4, 0, 5, 0, 6, 0]] = some online ∧
      plainLoader.loadPcmwav 48000 { destSampleRate := 16000, enough := by decide }
        [[1, 0, 2, 0, 3, 0], [4, 0, 5, 0, 6, 0]].flatten = some offline ∧
      online.allSamples.length = 0 + offline.speechData.length :=
  (plainLoader.keepsTime_iff (by decide) { destSampleRate := 16000, enough := by decide }
    (by decide) (by decide)).mpr ⟨.inr (by decide), by decide, by decide⟩

/-- Two chunks of one sample at 48 kHz become two samples, the stream of both becomes one. -/
theorem not_keepsTime_ones :
    ¬ ∃ online offline,
      run (plainLoader.loadPcmwavOnline 48000) { destSampleRate := 16000, enough := by decide }
        [[1, 0], [2, 0]] = some online ∧
      plainLoader.loadPcmwav 48000 { destSampleRate := 16000, enough := by decide }
        [[1, 0], [2, 0]].flatten = some offline ∧
      online.allSamples.length = 0 + offline.speechData.length := by
  rintro ⟨online, offline, ran, loaded, same⟩
  have resamples : PcmLoader.Resamples 48000 16000 := .inr (by decide)
  obtain ⟨after, ran', added⟩ := @PcmLoader.run_length _ plainLoader _ _ _ _ (by decide)
    { destSampleRate := 16000, enough := by decide } resamples [[1, 0], [2, 0]] (by decide)
    (by decide)
  obtain ⟨speechData, read, length⟩ := plainLoader.speechData_some (by decide) (by decide)
    resamples [[1, 0], [2, 0]].flatten (by decide) (by decide)
  rw [ran] at ran'
  cases ran'
  obtain ⟨speechData', read', rfl⟩ := Option.map_eq_some_iff.mp loaded
  rw [read] at read'
  cases read'
  rw [added, length] at same
  exact absurd same (by decide)

end Asr2Pass.TwoPass
