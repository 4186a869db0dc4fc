import Asr2Pass.Library.Windows
import Mathlib.Algebra.Order.Ring.Int

/-! # `Audio`

The two-pass half of `Audio`: samples go into `all_samples`, the answers of the voice activity
detector cut them into frames for the online and the offline recogniser, and samples that no
answer can ask for any more are erased.  What the detector answers is an argument of `split`;
  A function answers `none` where the source reads
outside a vector, takes from an empty queue or never returns.  Positions are unbounded
integers; each is at most the number of samples loaded (`Consistent`).
-/

namespace Asr2Pass.TwoPass

open Library

inductive AsrType where
  | asrOffline
  | asrOnline
  | asrTwoPass
deriving DecidableEq, Repr

structure AudioFrame (α : Type) where
  len : Int
  isFinal : Bool := false
  globalStart : Int := 0
  globalEnd : Int := 0
  data : Option (List α) := none
deriving DecidableEq, Repr

/-- `dest_sample_rate` is at least 1000, so that `seg_sample` is not zero. -/
structure Audio (α : Type) where
  destSampleRate : Nat
  enough : 1000 ≤ destSampleRate
  speechData : List α := []
  frameQueue : List (AudioFrame α) := []
  asrOnlineQueue : List (AudioFrame α) := []
  asrOfflineQueue : List (AudioFrame α) := []
  allSamples : List α := []
  offset : Int := 0
  speechStart : Int := -1
  speechEnd : Int := 0
  speechOfflineStart : Int := -1

theorem enough_16000 : 1000 ≤ 16000 := by decide

/-- An entry of an answer: start and end in ms, `-1` for a point that is not reported. -/
abbrev VadSegment := Int × Int

namespace Audio

variable {α : Type}

def segSample (audio : Audio α) : Nat := audio.destSampleRate / 1000

def resetIndex (audio : Audio α) : Audio α :=
  { audio with
    speechStart := -1, speechEnd := 0, speechOfflineStart := -1, offset := 0, allSamples := [] }

/-- `LoadPcmwavOnline`, from the converted and resampled samples on. -/
def loadPcmwavOnline (audio : Audio α) (speechData : List α) : Audio α :=
  { audio with
    speechData
    allSamples := audio.allSamples ++ speechData
    frameQueue := audio.frameQueue ++ [{ len := speechData.length }] }

def fetchTpass (audio : Audio α) : Option (AudioFrame α) × Audio α :=
  match audio.asrOfflineQueue with
  | [] => (none, audio)
  | frame :: rest => (some frame, { audio with asrOfflineQueue := rest })

def fetchChunck (audio : Audio α) : Option (AudioFrame α) × Audio α :=
  match audio.asrOnlineQueue with
  | [] => (none, audio)
  | frame :: rest => (some frame, { audio with asrOnlineQueue := rest })

/-! ## `Split` -/

/-- `memcpy` of `len` samples from index `first` of `all_samples`. -/
def memcpy (audio : Audio α) (first len : Int) : Option (List α) :=
  if 0 ≤ first ∧ 0 ≤ len then slice audio.allSamples first.toNat (first + len).toNat else none

/-- A frame of `len` samples from position `start` of the recording. -/
def copyFrame (audio : Audio α) (start len : Int) (isFinal : Bool) (globalStart globalEnd : Int) :
    Option (AudioFrame α) := do
  let data ← audio.memcpy (start - audio.offset) len
  return { len, isFinal, globalStart, globalEnd, data := some data }

def pushOnline (audio : Audio α) (frame : AudioFrame α) : Audio α :=
  { audio with asrOnlineQueue := audio.asrOnlineQueue ++ [frame] }

def pushOffline (audio : Audio α) (frame : AudioFrame α) : Audio α :=
  { audio with asrOfflineQueue := audio.asrOfflineQueue ++ [frame] }

/-- One chunk of the open segment, when a whole one has arrived. -/
def emitChunk (audio : Audio α) (chunkLen : Int) (asrMode : AsrType) : Option (Audio α) :=
  let start := audio.speechStart * audio.segSample
  let buffLen := audio.speechEnd * audio.segSample - start
  if asrMode ≠ .asrOffline ∧ buffLen ≥ chunkLen then do
    let frame ← audio.copyFrame start chunkLen false audio.speechStart
      (audio.speechStart + chunkLen.tdiv audio.segSample)
    return { audio.pushOnline frame with
      speechStart := audio.speechStart + chunkLen.tdiv audio.segSample }
  else some audio

/-- A whole segment for `asr_online_queue`. -/
def emitOnline (audio : Audio α) (start stop globalStart globalEnd : Int) (asrMode : AsrType) :
    Option (Audio α) :=
  if asrMode ≠ .asrOffline then
    (audio.copyFrame start (stop - start) true globalStart globalEnd).map audio.pushOnline
  else some audio

/-- A whole segment for `asr_offline_queue`. -/
def emitOffline (audio : Audio α) (start stop globalStart globalEnd : Int) (asrMode : AsrType) :
    Option (Audio α) :=
  if asrMode ≠ .asrOnline then
    (audio.copyFrame start (stop - start) true globalStart globalEnd).map audio.pushOffline
  else some audio

/-- The entry `[1, 100]`. -/
def splitWhole (audio : Audio α) (speechStartI speechEndI : Int) (asrMode : AsrType) :
    Option (Audio α) := do
  let start := speechStartI * audio.segSample
  let stop := speechEndI * audio.segSample
  let audio ← audio.emitOnline start stop speechStartI speechEndI asrMode
  let audio ← audio.emitOffline start stop speechStartI speechEndI asrMode
  return { audio with speechStart := -1, speechOfflineStart := -1 }

/-- The entry `[70, -1]`. -/
def splitStart (audio : Audio α) (speechStartI chunkLen : Int) (asrMode : AsrType) :
    Option (Audio α) :=
  { audio with speechStart := speechStartI, speechOfflineStart := speechStartI }.emitChunk chunkLen
    asrMode

/-- `count` rounds of the loop over the rest of a segment. -/
def flush (audio : Audio α) (start buffLen : Int) (sampleOffset step : Int) :
    Nat → Option (Audio α)
  | 0 => if sampleOffset < buffLen then none else some audio
  | count + 1 =>
    if sampleOffset < buffLen then do
      -- The last frame takes the rest, and a single sample that would be left.
      let isFinal := decide (sampleOffset + step ≥ buffLen - 1)
      let step := if isFinal then buffLen - sampleOffset else step
      let globalStart := (start + sampleOffset).tdiv audio.segSample
      let frame ← audio.copyFrame (start + sampleOffset) step isFinal globalStart
        (globalStart + step.tdiv audio.segSample)
      flush (audio.pushOnline frame) start buffLen (sampleOffset + min step (buffLen - sampleOffset))
        step count
    else some audio

/-- What is left of the open segment for `asr_online_queue`, or an empty final frame. -/
def emitRest (audio : Audio α) (start stop speechEndI chunkLen : Int) (asrMode : AsrType) :
    Option (Audio α) :=
  let buffLen := stop - start
  if asrMode ≠ .asrOffline then
    if buffLen > 0 then audio.flush start buffLen 0 chunkLen buffLen.toNat
    else some (audio.pushOnline
      { len := 0, isFinal := true, globalStart := audio.speechStart, globalEnd := speechEndI })
  else some audio

/-- The entry `[-1, 100]`. -/
def splitEnd (audio : Audio α) (speechEndI chunkLen : Int) (asrMode : AsrType) :
    Option (Audio α) := do
  let audio :=
    if audio.speechStart = -1 ∨ audio.speechOfflineStart = -1 then { audio with speechStart := 0 }
    else audio
  let start := audio.speechStart * audio.segSample
  let offlineStart := audio.speechOfflineStart * audio.segSample
  let stop := speechEndI * audio.segSample
  let audio ← audio.emitOffline offlineStart stop audio.speechOfflineStart speechEndI asrMode
  let audio ← audio.emitRest start stop speechEndI chunkLen asrMode
  return { audio with speechStart := -1, speechOfflineStart := -1 }

def splitSegment (audio : Audio α) (vadSegment : VadSegment) (chunkLen : Int) (asrMode : AsrType) :
    Option (Audio α) :=
  let (speechStartI, speechEndI) := vadSegment
  if speechStartI ≠ -1 ∧ speechEndI ≠ -1 then audio.splitWhole speechStartI speechEndI asrMode
  else if speechStartI ≠ -1 then audio.splitStart speechStartI chunkLen asrMode
  else if speechEndI ≠ -1 then audio.splitEnd speechEndI chunkLen asrMode
  else some audio

def splitSegments (audio : Audio α) (chunkLen : Int) (asrMode : AsrType) :
    List VadSegment → Option (Audio α)
  | [] => some audio
  | vadSegment :: rest => do
    let audio ← audio.splitSegment vadSegment chunkLen asrMode
    splitSegments audio chunkLen asrMode rest

def eraseFront (audio : Audio α) (eraseNum : Int) : Option (Audio α) :=
  if 0 ≤ eraseNum ∧ eraseNum ≤ audio.allSamples.length then
    some { audio with
      allSamples := audio.allSamples.drop eraseNum.toNat, offset := audio.offset + eraseNum }
  else none

/-- Samples before the last two seconds go, or before two seconds ahead of the open segment. -/
def eraseSamples (audio : Audio α) : Option (Audio α) :=
  let vectorCache : Int := audio.destSampleRate * 2
  if audio.speechOfflineStart = -1 then
    if audio.allSamples.length > vectorCache then
      audio.eraseFront (audio.allSamples.length - vectorCache)
    else some audio
  else
    let offlineStart := audio.speechOfflineStart * audio.segSample
    if offlineStart - audio.offset > vectorCache then
      audio.eraseFront (offlineStart - audio.offset - vectorCache)
    else some audio

/-- The branches of `Split`. -/
def splitAnswer (audio : Audio α) (vadSegments : List VadSegment) (chunkLen : Int)
    (asrMode : AsrType) : Option (Audio α) :=
  if vadSegments = [] then
    if audio.speechStart ≠ -1 then audio.emitChunk chunkLen asrMode else some audio
  else audio.splitSegments chunkLen asrMode vadSegments

/-- `Split` in its two-pass form, with the answer of the detector. -/
def split (audio : Audio α) (vadSegments : List VadSegment) (chunkLen : Int) (asrMode : AsrType) :
    Option (Audio α) :=
  match audio.frameQueue with
  | [] => none
  | frame :: frameQueue => do
    let counted := { audio with
      frameQueue, speechEnd := audio.speechEnd + frame.len.tdiv audio.segSample }
    let answered ← counted.splitAnswer vadSegments chunkLen asrMode
    answered.eraseSamples

end Audio

end Asr2Pass.TwoPass
