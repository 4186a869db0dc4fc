import Asr2Pass.Library.Runs
import Asr2Pass.Punctuation.Infer
import Asr2Pass.Text.Vocab
import Mathlib.Algebra.GroupWithZero.Nat

/-! # `WfstDecoder`

The wrapper of the lattice decoder counts the frames of an utterance and keeps, for each decoded
frame, the frame that it stands for.  `StartUtterance` starts the lattice decoder anew and sets two
of the counters back; the frames that are kept are those of all utterances.

The lattice decoder is a parameter.  It answers `none` where one of its assertions fails.
-/

namespace Asr2Pass.Ctc

open Punctuation (argmax)
open Text (CString Vocab)

/-! ## The decoder -/

structure Decodable (Score : Type) where
  numFrames : Int := 0
  finished : Bool := false
  logp : List Score := []

namespace Decodable

variable {Score : Type}

def reset (_ : Decodable Score) : Decodable Score := {}

def acceptLoglikes (decodable : Decodable Score) (logp : List Score) : Decodable Score :=
  { decodable with numFrames := decodable.numFrames + 1, logp }

def setFinished (decodable : Decodable Score) : Decodable Score := { decodable with finished := true }

end Decodable

/-- What the best path of a lattice says. -/
structure BestPath where
  alignment : List Int
  words : List Nat

/-- `kaldi::LatticeFasterOnlineDecoder`; `advanceDecoding` takes one frame. -/
structure LatticeDecoder (Score δ : Type) where
  initDecoding : δ → δ
  advanceDecoding : Decodable Score → δ → Option δ
  finalizeDecoding : δ → Option δ
  getBestPath : δ → Bool → Option BestPath

/-- `blank_score`, which is no probability here. -/
def blankScore : Rat := 0

def blankSkipThresh : Rat := 98 / 100

/-- The members that an utterance changes. -/
structure WfstDecoder (Score δ : Type) where
  vocab : Vocab
  decoder : δ
  curFrame : Int := 0
  curToken : Int := 0
  decodable : Decodable Score := {}
  isLastFrameBlank : Bool := false
  lastBest : Int := -1
  numFrames : Int := 0
  lastFrameProb : List Score := []
  decodedFramesMapping : List Int := []

/-- The vectors that `ConvertToText` fills: `input` and `time`. -/
structure Converted where
  input : List Int := []
  time : List Int := []

/-- The loop over `cur`; `before` is the symbol before it. -/
def convertFrom (blkPhnId : Int) (decodedFramesMapping : List Int) (cur : Nat) (before : Option Int)
    (converted : Converted) : List Int → Converted
  | [] => converted
  | sym :: rest =>
    if sym = blkPhnId ∨ before = some sym then
      convertFrom blkPhnId decodedFramesMapping (cur + 1) (some sym) converted rest
    else
      convertFrom blkPhnId decodedFramesMapping (cur + 1) (some sym)
        ⟨converted.input ++ [sym], converted.time ++ decodedFramesMapping[cur]?.toList⟩ rest

namespace WfstDecoder

variable {Score δ : Type}

def startUtterance (kaldi : LatticeDecoder Score δ) (wfst : WfstDecoder Score δ) :
    WfstDecoder Score δ :=
  { wfst with
    curFrame := 0
    curToken := 0
    decodable := wfst.decodable.reset
    decoder := kaldi.initDecoding wfst.decoder }

/-- `AcceptLoglikes` and `AdvanceDecoding`. -/
def advance (kaldi : LatticeDecoder Score δ) (wfst : WfstDecoder Score δ) (logp : List Score) :
    Option (WfstDecoder Score δ) := do
  let decodable := wfst.decodable.acceptLoglikes logp
  let decoder ← kaldi.advanceDecoding decodable wfst.decoder
  return { wfst with decodable, decoder }

/-- `ConvertToText`: the text of the words, the labels and their frames. -/
def convertToText (blkPhnId : Int) (wfst : WfstDecoder Score δ) (path : BestPath) :
    Option (WfstDecoder Score δ × CString × Converted) := do
  let converted := convertFrom blkPhnId wfst.decodedFramesMapping 0 none {} path.alignment
  let (result, vocab) ← wfst.vocab.vector2StringV2 path.words []
  return ({ wfst with vocab }, result, converted)

/-- `CtcFinalizeDecode`. -/
def ctcFinalizeDecode (kaldi : LatticeDecoder Score δ) (blkPhnId : Int) (wfst : WfstDecoder Score δ) :
    Option (WfstDecoder Score δ × CString) := do
  let decoder ← kaldi.finalizeDecoding wfst.decoder
  let wfst := { wfst with decodable := wfst.decodable.setFinished, decoder }
  if wfst.decodedFramesMapping = [] then return (wfst, [])
  else
    let path ← kaldi.getBestPath wfst.decoder true
    let (wfst, result, _) ← wfst.convertToText blkPhnId path
    return (wfst, result)

variable [LinearOrder Score]

/-- The frame of a blank that was left out between two frames of one symbol. -/
def repeatBlank (kaldi : LatticeDecoder Score δ) (blkPhnId curBest : Int)
    (wfst : WfstDecoder Score δ) : Option (WfstDecoder Score δ) :=
  if curBest ≠ blkPhnId ∧ wfst.isLastFrameBlank ∧ curBest = wfst.lastBest then do
    let wfst ← wfst.advance kaldi wfst.lastFrameProb
    return { wfst with decodedFramesMapping := wfst.decodedFramesMapping ++ [wfst.numFrames - 1] }
  else some wfst

/-- A turn over `i`. -/
def stepFrame (kaldi : LatticeDecoder Score δ) (blkPhnId : Int) (wfst : WfstDecoder Score δ)
    (logp : List Score) : Option (WfstDecoder Score δ) :=
  if blankScore > blankSkipThresh then
    some { wfst with isLastFrameBlank := true, lastFrameProb := logp, numFrames := wfst.numFrames + 1 }
  else do
    let curBest : Int := argmax logp
    let wfst ← wfst.repeatBlank kaldi blkPhnId curBest
    let wfst := { wfst with lastBest := curBest, curFrame := wfst.curFrame + 1 }
    let wfst ← wfst.advance kaldi logp
    return { wfst with
      curToken := wfst.curToken + 1
      decodedFramesMapping := wfst.decodedFramesMapping ++ [wfst.numFrames]
      isLastFrameBlank := false
      numFrames := wfst.numFrames + 1 }

/-- `CtcSearch`: the decoder after it, the text, and the frames of the labels. -/
def ctcSearch (kaldi : LatticeDecoder Score δ) (blkPhnId : Int) (wfst : WfstDecoder Score δ)
    (logpVec : List (List Score)) : Option (WfstDecoder Score δ × CString × List Int) :=
  if logpVec = [] then some (wfst, [], [])
  else do
    let wfst ← logpVec.foldlM (stepFrame kaldi blkPhnId) wfst
    if wfst.decodedFramesMapping ≠ [] then
      let path ← kaldi.getBestPath wfst.decoder false
      let (wfst, result, converted) ← wfst.convertToText blkPhnId path
      return (wfst, result, converted.time)
    else return (wfst, [], [])

end WfstDecoder

/-! ## Histories -/

inductive WfstCall (Score : Type)
  | startUtterance
  | ctcSearch (logpVec : List (List Score))
  | ctcFinalizeDecode

/-- How many frames a call brings. -/
def WfstCall.frames {Score : Type} : WfstCall Score → Nat
  | .ctcSearch logpVec => logpVec.length
  | _ => 0

def framesOf {Score : Type} (history : List (WfstCall Score)) : Nat :=
  (history.map WfstCall.frames).sum

namespace WfstDecoder

variable {Score δ : Type} [LinearOrder Score]

def step (kaldi : LatticeDecoder Score δ) (blkPhnId : Int) (wfst : WfstDecoder Score δ) :
    WfstCall Score → Option (WfstDecoder Score δ)
  | .startUtterance => some (wfst.startUtterance kaldi)
  | .ctcSearch logpVec => (wfst.ctcSearch kaldi blkPhnId logpVec).map Prod.fst
  | .ctcFinalizeDecode => (wfst.ctcFinalizeDecode kaldi blkPhnId).map Prod.fst

/-- The counters after `n` frames in all, whatever utterances they belong to. -/
structure Counted (n : Nat) (wfst : WfstDecoder Score δ) : Prop where
  numFrames : wfst.numFrames = n
  decodedFramesMapping : wfst.decodedFramesMapping = (List.range n).map Nat.cast
  isLastFrameBlank : wfst.isLastFrameBlank = false
  lastFrameProb : wfst.lastFrameProb = []
  lastBest : n = 0 → wfst.lastBest = -1

variable {kaldi : LatticeDecoder Score δ} {blkPhnId : Int} {wfst wfst' : WfstDecoder Score δ} {n : Nat}

omit [LinearOrder Score] in
theorem advance_eq_some {logp : List Score} (advanced : wfst.advance kaldi logp = some wfst') :
    ∃ decodable decoder, wfst' = { wfst with decodable, decoder } := by
  rw [advance, Option.bind_eq_bind, Option.bind_eq_some_iff] at advanced
  obtain ⟨decoder, -, same⟩ := advanced
  cases same
  exact ⟨_, decoder, rfl⟩

omit [LinearOrder Score] in
theorem convertToText_eq_some {path : BestPath} {result : CString} {converted : Converted}
    (returned : wfst.convertToText blkPhnId path = some (wfst', result, converted)) :
    ∃ vocab, wfst' = { wfst with vocab } := by
  rw [convertToText, Option.bind_eq_bind, Option.bind_eq_some_iff] at returned
  obtain ⟨⟨text, vocab⟩, -, same⟩ := returned
  cases same
  exact ⟨vocab, rfl⟩

/-- The score that is taken for that of the blank never passes the threshold. -/
theorem stepFrame_counted {logp : List Score} (counted : wfst.Counted n)
    (stepped : wfst.stepFrame kaldi blkPhnId logp = some wfst') : wfst'.Counted (n + 1) := by
  have kept : ¬ blankScore > blankSkipThresh := by decide +kernel
  have none (curBest : Int) : wfst.repeatBlank kaldi blkPhnId curBest = some wfst := by
    rw [repeatBlank, if_neg]
    simp [counted.isLastFrameBlank]
  rw [stepFrame, if_neg kept] at stepped
  simp only [none, Option.bind_eq_bind, Option.bind_some, Option.bind_eq_some_iff] at stepped
  obtain ⟨advanced, isAdvanced, same⟩ := stepped
  obtain ⟨decodable, decoder, rfl⟩ := advance_eq_some isAdvanced
  cases same
  refine ⟨?_, ?_, rfl, counted.lastFrameProb, fun nought => absurd nought (Nat.succ_ne_zero n)⟩
  · rw [counted.numFrames, Nat.cast_succ]
  · rw [counted.decodedFramesMapping, counted.numFrames, List.range_succ, List.map_append,
      List.map_singleton]

theorem foldlM_counted {logpVec : List (List Score)} (counted : wfst.Counted n)
    (ran : logpVec.foldlM (stepFrame kaldi blkPhnId) wfst = some wfst') :
    wfst'.Counted (n + logpVec.length) := by
  induction logpVec generalizing wfst n with
  | nil =>
    cases ran
    exact counted
  | cons logp rest inductionHypothesis =>
    rw [List.foldlM_cons, Option.bind_eq_bind, Option.bind_eq_some_iff] at ran
    obtain ⟨next, stepped, ran⟩ := ran
    have counted' := inductionHypothesis (stepFrame_counted counted stepped) ran
    rwa [Nat.add_right_comm, Nat.add_assoc] at counted'

theorem ctcSearch_counted {logpVec : List (List Score)} {answer : CString × List Int}
    (counted : wfst.Counted n)
    (returned : wfst.ctcSearch kaldi blkPhnId logpVec = some (wfst', answer)) :
    wfst'.Counted (n + logpVec.length) := by
  rw [ctcSearch] at returned
  split at returned
  case isTrue none =>
    cases returned
    rwa [none]
  case isFalse =>
    rw [Option.bind_eq_bind, Option.bind_eq_some_iff] at returned
    obtain ⟨searched, ran, returned⟩ := returned
    have counted' := foldlM_counted counted ran
    split at returned
    case isTrue =>
      simp only [Option.bind_eq_bind, Option.bind_eq_some_iff] at returned
      obtain ⟨path, -, ⟨converted, text⟩, isText, same⟩ := returned
      obtain ⟨vocab, rfl⟩ := convertToText_eq_some isText
      cases same
      exact ⟨counted'.1, counted'.2, counted'.3, counted'.4, counted'.5⟩
    case isFalse =>
      cases returned
      exact counted'

omit [LinearOrder Score] in
theorem ctcFinalizeDecode_counted {answer : CString} (counted : wfst.Counted n)
    (returned : wfst.ctcFinalizeDecode kaldi blkPhnId = some (wfst', answer)) : wfst'.Counted n := by
  rw [ctcFinalizeDecode, Option.bind_eq_bind, Option.bind_eq_some_iff] at returned
  obtain ⟨decoder, -, returned⟩ := returned
  dsimp only at returned
  split at returned
  case isTrue =>
    cases returned
    exact ⟨counted.1, counted.2, counted.3, counted.4, counted.5⟩
  case isFalse =>
    simp only [Option.bind_eq_bind, Option.bind_eq_some_iff] at returned
    obtain ⟨path, -, ⟨converted, text⟩, isText, same⟩ := returned
    obtain ⟨vocab, rfl⟩ := convertToText_eq_some isText
    cases same
    exact ⟨counted.1, counted.2, counted.3, counted.4, counted.5⟩

omit [LinearOrder Score] in
theorem startUtterance_counted (counted : wfst.Counted n) : (wfst.startUtterance kaldi).Counted n :=
  ⟨counted.1, counted.2, counted.3, counted.4, counted.5⟩

/-- No call sets the frames back. -/
theorem step_counted {call : WfstCall Score} (counted : wfst.Counted n)
    (stepped : wfst.step kaldi blkPhnId call = some wfst') : wfst'.Counted (n + call.frames) := by
  cases call with
  | startUtterance =>
    cases stepped
    exact startUtterance_counted counted
  | ctcSearch logpVec =>
    obtain ⟨⟨next, answer⟩, returned, rfl⟩ := Option.map_eq_some_iff.mp stepped
    exact ctcSearch_counted counted returned
  | ctcFinalizeDecode =>
    obtain ⟨⟨next, answer⟩, returned, rfl⟩ := Option.map_eq_some_iff.mp stepped
    exact ctcFinalizeDecode_counted counted returned

theorem run_counted {history : List (WfstCall Score)} (counted : wfst.Counted n)
    (ran : Library.run (step kaldi blkPhnId) wfst history = some wfst') :
    wfst'.Counted (n + framesOf history) := by
  induction history generalizing wfst n with
  | nil =>
    cases ran
    exact counted
  | cons call rest inductionHypothesis =>
    obtain ⟨next, stepped, ran⟩ := Library.run_cons_eq_some.mp ran
    have counted' := inductionHypothesis (step_counted counted stepped) ran
    rwa [Nat.add_assoc] at counted'

/-! ## The next utterance -/

/-- The members that the searches read have the values that the constructor gives them. -/
structure IsInitial (wfst : WfstDecoder Score δ) : Prop where
  curToken : wfst.curToken = 0
  numFrames : wfst.numFrames = 0
  lastBest : wfst.lastBest = -1
  isLastFrameBlank : wfst.isLastFrameBlank = false
  lastFrameProb : wfst.lastFrameProb = []
  decodedFramesMapping : wfst.decodedFramesMapping = []

/-- After `StartUtterance` the members are as at first, and the frames that are kept, by which the
    times and the test for an empty utterance go, are those of the calls since. -/
def StartsAfresh (kaldi : LatticeDecoder Score δ) (blkPhnId : Int) (wfst : WfstDecoder Score δ) : Prop :=
  (wfst.startUtterance kaldi).IsInitial ∧
    ∀ utterance ended, .startUtterance ∉ utterance →
      Library.run (step kaldi blkPhnId) (wfst.startUtterance kaldi) utterance = some ended →
        ended.decodedFramesMapping = (List.range (framesOf utterance)).map Nat.cast

theorem startsAfresh_iff_counted (counted : wfst.Counted n) :
    wfst.StartsAfresh kaldi blkPhnId ↔ n = 0 := by
  have started : (wfst.startUtterance kaldi).Counted n := startUtterance_counted counted
  constructor
  · rintro ⟨initial, -⟩
    exact Int.natCast_eq_zero.mp (started.numFrames.symm.trans initial.numFrames)
  · rintro rfl
    refine ⟨⟨rfl, started.numFrames, started.lastBest rfl, started.isLastFrameBlank,
      started.lastFrameProb, started.decodedFramesMapping⟩, fun utterance ended _ ran => ?_⟩
    have ends := (run_counted started ran).decodedFramesMapping
    rwa [Nat.zero_add] at ends

/-- An utterance starts afresh exactly when no frame has been searched before it. -/
theorem startsAfresh_iff (kaldi : LatticeDecoder Score δ) (blkPhnId : Int) (vocab : Vocab) (decoder : δ)
    (history : List (WfstCall Score))
    (ran : Library.run (step kaldi blkPhnId) { vocab, decoder } history = some wfst) :
    wfst.StartsAfresh kaldi blkPhnId ↔ ∀ call ∈ history, call.frames = 0 := by
  have fresh : Counted 0 ({ vocab, decoder } : WfstDecoder Score δ) := ⟨rfl, rfl, rfl, rfl, fun _ => rfl⟩
  rw [startsAfresh_iff_counted (run_counted fresh ran), Nat.zero_add, framesOf, List.sum_eq_zero_iff_forall_eq_nat,
    List.forall_mem_map]

/-- A lattice decoder that counts its frames and makes the assertions on them. -/
def countingFrames : LatticeDecoder Nat (Nat × Bool) where
  initDecoding _ := (0, false)
  advanceDecoding _ := fun (decoded, finalized) => if finalized then none else some (decoded + 1, false)
  finalizeDecoding := fun (decoded, _) => some (decoded, true)
  getBestPath := fun (decoded, finalized) useFinalProbs =>
    if decoded = 0 ∨ (finalized ∧ !useFinalProbs) then none else some ⟨List.replicate decoded 0, []⟩

/-- An utterance of two frames. -/
def twoFrames : List (WfstCall Nat) :=
  [.startUtterance, .ctcSearch [[0, 1], [1, 0]], .ctcFinalizeDecode]

def afterTwoFrames : Option (WfstDecoder Nat (Nat × Bool)) :=
  Library.run (step countingFrames 0) { vocab := ⟨[], false⟩, decoder := (0, false) } twoFrames

theorem startsAfresh_iff_twoFrames :
    ∃ wfst, afterTwoFrames = some wfst ∧
      (wfst.StartsAfresh countingFrames 0 ↔ ∀ call ∈ twoFrames, call.frames = 0) := by
  have returns : afterTwoFrames.isSome := by decide +kernel
  obtain ⟨wfst, ran⟩ := Option.isSome_iff_exists.mp returns
  exact ⟨wfst, ran, startsAfresh_iff countingFrames 0 ⟨[], false⟩ (0, false) twoFrames ran⟩

/-- The frames stay in the next utterance, which asks for a path although it has none. -/
theorem not_startsAfresh_twoFrames :
    afterTwoFrames.map (fun wfst => (wfst.startUtterance countingFrames).decodedFramesMapping) =
        some [0, 1] ∧
      afterTwoFrames.map (fun wfst =>
        ((wfst.startUtterance countingFrames).ctcFinalizeDecode countingFrames 0).isSome) = some false ∧
      ∀ wfst ∈ afterTwoFrames, ¬ wfst.StartsAfresh countingFrames 0 := by
  have stays : afterTwoFrames.map (fun wfst =>
      (wfst.startUtterance countingFrames).decodedFramesMapping) = some [0, 1] := by decide +kernel
  refine ⟨stays, by decide +kernel, ?_⟩
  rintro wfst ran ⟨initial, -⟩
  rw [ran, Option.map_some, initial.decodedFramesMapping] at stays
  cases stays

end WfstDecoder

end Asr2Pass.Ctc
