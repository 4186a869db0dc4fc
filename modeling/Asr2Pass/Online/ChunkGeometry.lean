import Asr2Pass.Frontend.RowCounts
import Asr2Pass.Online.OverlapChunk
import Asr2Pass.TwoPass.OnlineChunks

/-! # The rows of a chunk

A chunk of `chunk_len` samples is `6 c` frames, of which the first of an utterance lacks two: three
copies of the first frame and the overlap of 400 samples make up for them.  From then on 320 samples
and one frame wait for the next chunk, and every chunk gives `c` rows.
-/

namespace Asr2Pass.Frontend

variable {α β : Type} [Add β] [Mul β] {fbank : List α → List β} {cmvn : Cmvn β}
  {stream waves : List α} {cache : FeatureCache α β} {rows : Nat}

theorem computeFrameNum_hertz16000 (size : Nat) : computeFrameNum .hertz16000 size =
    if 400 ≤ size then (size - 400) / 160 + 1 else 0 := rfl

/-- The rows of a call that is not the last one, and the frames it keeps. -/
theorem extractFeats_counts {framing : Framing} {lfr : LfrOptions} {extracted : Extracted α β}
    (ran : extractFeats framing lfr fbank cmvn cache waves false = some extracted)
    (made : newFrames framing fbank cache waves ≠ [])
    (enough : lfr.lfrM ≤ (seedCache lfr cache.lfrSpliceCache (newFrames framing fbank cache waves) ++
      newFrames framing fbank cache waves).length) :
    extracted.feats.length = fullRows lfr
        (seedCache lfr cache.lfrSpliceCache (newFrames framing fbank cache waves) ++
          newFrames framing fbank cache waves) ∧
      extracted.cache.lfrSpliceCache.length =
        (seedCache lfr cache.lfrSpliceCache (newFrames framing fbank cache waves) ++
          newFrames framing fbank cache waves).length -
        fullRows lfr (seedCache lfr cache.lfrSpliceCache (newFrames framing fbank cache waves) ++
          newFrames framing fbank cache waves) * lfr.lfrN := by
  obtain ⟨feats, caches, -⟩ := fbankKaldi_eq framing fbank cache waves
  change _ = newFrames framing fbank cache waves at feats
  have kept : (fbankKaldi framing fbank cache waves).cache.lfrSpliceCache =
      cache.lfrSpliceCache := by
    rw [caches]
  rw [extractFeats_some cmvn made] at ran
  obtain ⟨extracted', spliced, rfl⟩ := Option.map_eq_some_iff.mp ran
  have enough' : (newFrames framing fbank cache waves).length +
      (seedCache lfr cache.lfrSpliceCache (newFrames framing fbank cache waves)).length ≥
        lfr.lfrM := by
    rw [List.length_append] at enough
    omega
  -- Without the flush all rows are full windows, and the cache is what lies behind them.
  simp only [spliceFeats, spliceFeatsBy, feats, kept, enough', if_true, onlineLfrCmvn_open lfr cmvn enough,
    Option.bind_eq_bind, Option.bind_some, Option.bind_eq_some_iff] at spliced
  obtain ⟨reserve, -, same⟩ := spliced
  cases same
  exact ⟨by simp [rowsFrom], List.length_drop⟩

/-- The caches between the chunks of an utterance. -/
structure Chunked (fbank : List α → List β) (c : Nat) (cache : FeatureCache α β) : Prop where
  streamed : ∃ stream rows, Streamed .hertz16000 .para fbank stream cache rows ∧
    960 * c ∣ stream.length ∧ (stream = [] ∨ cache.lfrSpliceCache.length = 1)

omit [Add β] [Mul β] in
theorem chunked_initial (c : Nat) : Chunked fbank c ({} : FeatureCache α β) :=
  ⟨[], 0, .initial _ _ _, Nat.dvd_zero _, .inl rfl⟩

omit [Add β] [Mul β] in
/-- With the samples and the frames that wait, a chunk makes `6 c + 1` frames. -/
theorem Chunked.frames {c : Nat} (positive : 1 ≤ c) (chunked : Chunked fbank c cache)
    (length : waves.length = 960 * c) :
    newFrames .hertz16000 fbank cache waves ≠ [] ∧
      (seedCache .para cache.lfrSpliceCache (newFrames .hertz16000 fbank cache waves) ++
        newFrames .hertz16000 fbank cache waves).length = 6 * c + 1 := by
  obtain ⟨stream, rows, streamed, ⟨chunks, whole⟩, waiting⟩ := chunked
  have count : (newFrames .hertz16000 fbank cache waves).length =
      computeFrameNum .hertz16000 (cache.inputCache.length + 960 * c) := by
    rw [newFrames, length_fbankFrames, List.length_append, length]
  have input : cache.inputCache.length = stream.length -
      computeFrameNum .hertz16000 stream.length * 160 := by
    rw [streamed.input, List.length_drop]
    rfl
  rw [computeFrameNum_hertz16000] at count input
  rw [← List.length_pos_iff, List.length_append]
  by_cases first : stream = []
  · -- the first chunk: three copies of its first frame
    have none : fbankFrames .hertz16000 fbank stream = [] := by
      rw [first]
      rfl
    rw [first, List.length_nil] at input
    have seeds : (seedCache .para cache.lfrSpliceCache
        (newFrames .hertz16000 fbank cache waves)).length = 3 := by
      rw [seedCache, if_pos (streamed.idle none).1, List.length_replicate]
      rfl
    rw [if_pos (by omega)] at count
    omega
  · -- a later chunk: 320 samples and one frame wait
    have some := List.length_pos_of_ne_nil first
    rw [mul_assoc] at whole
    have more : 1 ≤ c * chunks := by
      rw [Nat.one_le_iff_ne_zero]
      intro none
      rw [none] at whole
      omega
    rw [if_pos (by omega)] at input
    have one := waiting.resolve_left first
    have kept : cache.lfrSpliceCache ≠ [] := by
      rw [← List.length_pos_iff]
      omega
    have seeds : (seedCache .para cache.lfrSpliceCache
        (newFrames .hertz16000 fbank cache waves)).length = 1 := by
      rw [seedCache, if_neg kept, one]
    rw [if_pos (by omega)] at count
    omega

/-- A chunk gives `c` rows, and leaves the caches as the chunk before did. -/
theorem Chunked.extractFeats {c : Nat} (positive : 1 ≤ c) (chunked : Chunked fbank c cache)
    (cmvn : Cmvn β) (length : waves.length = 960 * c) :
    ∃ extracted, Frontend.extractFeats .hertz16000 .para fbank cmvn cache waves false =
        some extracted ∧ extracted.feats.length = c ∧ Chunked fbank c extracted.cache := by
  obtain ⟨made, total⟩ := chunked.frames positive length
  obtain ⟨stream, rows, streamed, whole, -⟩ := chunked
  have enough : LfrOptions.para.lfrM ≤ (seedCache .para cache.lfrSpliceCache
      (newFrames .hertz16000 fbank cache waves) ++
        newFrames .hertz16000 fbank cache waves).length := by
    rw [total]
    change 7 ≤ _
    omega
  have enough' := enough
  rw [List.length_append, Nat.add_comm] at enough'
  obtain ⟨extracted, more, returned, -, streamed'⟩ := streamed.extract_some cmvn made enough'
  obtain ⟨feats, kept⟩ := extractFeats_counts returned made enough
  have full : fullRows .para (seedCache .para cache.lfrSpliceCache
      (newFrames .hertz16000 fbank cache waves) ++
        newFrames .hertz16000 fbank cache waves) = c := by
    rw [fullRows, total]
    change (6 * c + 1 - 7) / 6 + 1 = c
    omega
  rw [full] at feats kept
  refine ⟨extracted, returned, feats, stream ++ waves, rows + more, streamed', ?_, .inr ?_⟩
  · rw [List.length_append]
    exact Nat.dvd_add whole (Dvd.intro 1 (by rw [length, mul_one]))
  · rw [kept, total]
    change 6 * c + 1 - c * 6 = 1
    omega

end Asr2Pass.Frontend

namespace Asr2Pass.Online

/-- `chunk_len`; none where the product is no `int`. -/
def ChunkSize.chunkLen (chunkSize : ChunkSize) (frameShift lfrN sampleRate : Int) : Option Int :=
  let product := chunkSize.middle * frameShift * lfrN * sampleRate
  if -2 ^ 31 ≤ product ∧ product < 2 ^ 31 then some (product.tdiv 1000) else none

/-- At 16 kHz it is `60 c` ms. -/
theorem chunkLen_eq {chunkSize : ChunkSize} {c : Nat} (middle : chunkSize.middle = c) {len : Int}
    (returned : chunkSize.chunkLen 10 6 16000 = some len) : len = 60 * c * (16000 / 1000 : Nat) := by
  simp only [ChunkSize.chunkLen, middle] at returned
  split at returned
  · cases returned
    rw [Int.tdiv_eq_ediv_of_nonneg (by omega)]
    omega
  · cases returned

namespace OnlineParts

variable {F α ρ K δ : Type} [Field K] [LinearOrder K] {parts : OnlineParts F α ρ K δ}
  {online : ParaformerOnline F ρ K δ}

/-- What a chunk does next: `ExtractFeats` gives `c` rows, the encoder receives the rows of
    `chunk_size` and `feats_cache_` keeps those of the context. -/
def NextChunk (parts : OnlineParts F α ρ K δ) (c : Nat) (online : ParaformerOnline F ρ K δ)
    (samples : List α) : Prop :=
  ∃ rows features chunk next,
    parts.extractFeats online.features samples false = some (rows, features) ∧ rows.length = c ∧
    parts.overlap { online with features } (parts.embedFrom online.startIdxCache rows) false =
      some (chunk, next) ∧
    (chunk.length : Int) = parts.cif.chunkSize.left + c + parts.cif.chunkSize.right ∧
    (next.featsCache.length : Int) = parts.cif.chunkSize.left + parts.cif.chunkSize.right

omit [Field K] [LinearOrder K] in
/-- A chunk has a next one only where the context is no negative number of rows. -/
theorem NextChunk.context_nonneg {c : Nat} {samples : List α}
    (next : parts.NextChunk c online samples) :
    0 ≤ parts.cif.chunkSize.left + parts.cif.chunkSize.right := by
  obtain ⟨rows, features, chunk, after, -, -, overlapped, -, -⟩ := next
  obtain ⟨kept, added, -⟩ := overlap_eq_some_iff.mp overlapped
  exact (addOverlapChunk_eq_some_iff.mp added).2.1

end OnlineParts

/-! ## A run of chunks -/

namespace OnlineModel

open Frontend (Chunked chunked_initial Framing LfrOptions)
open TwoPass (AudioFrame PushedOnline)

variable {α β K δ : Type} [Add β] [Mul β] [Zero β] [Field K] [LinearOrder K]
  {model : OnlineModel α β K δ} {c : Nat}
  {online : ParaformerOnline (Frontend.FeatureCache α β) (List β) K δ} {samples : List α}

omit [Field K] [LinearOrder K] in
theorem parts_cif : model.parts.cif = model.cif := rfl

/-- The caches between chunks. -/
structure Settled (model : OnlineModel α β K δ) (c : Nat)
    (online : ParaformerOnline (Frontend.FeatureCache α β) (List β) K δ) : Prop where
  chunked : Chunked model.fbank c online.features
  featsCache : 0 ≤ model.cif.chunkSize.left + model.cif.chunkSize.right →
    model.cif.chunkSize.left + model.cif.chunkSize.right < 2 ^ 31 →
    (online.featsCache.length : Int) = model.cif.chunkSize.left + model.cif.chunkSize.right

omit [Add β] [Mul β] [LinearOrder K] in
theorem settled_fresh [Add β] [Mul β] : model.Settled c model.parts.fresh := by
  refine ⟨chunked_initial c, ?_⟩
  intro nonneg sum
  change ((List.replicate _ _).length : Int) = _
  rw [List.length_replicate, parts_cif, ChunkSize.context_eq nonneg sum]
  exact Int.toNat_of_nonneg nonneg

section
variable (positive : 1 ≤ c) (framing : model.framing = .hertz16000) (lfr : model.lfr = .para)
include positive framing lfr

omit [Field K] [LinearOrder K] in
theorem Settled.extractFeats (settled : model.Settled c online)
    (length : samples.length = 960 * c) :
    ∃ rows features, model.parts.extractFeats online.features samples false =
        some (rows, features) ∧ rows.length = c ∧ Chunked model.fbank c features := by
  obtain ⟨extracted, returned, count, chunked⟩ :=
    settled.chunked.extractFeats positive model.cmvn length
  refine ⟨extracted.feats, extracted.cache, ?_, count, chunked⟩
  simp only [parts, Frontend.ParaformerOnline.extractFeats, framing, lfr, returned,
    Option.map_some]

/-- A chunk that returns keeps the caches. -/
theorem Settled.forward (settled : model.Settled c online) (length : samples.length = 960 * c)
    {answer : Answer (Frontend.FeatureCache α β) (List β) K δ}
    (returned : model.parts.forward online ⟨samples, false, none⟩ = some answer) :
    model.Settled c answer.online := by
  obtain ⟨rows, features, extracted, count, chunked⟩ :=
    settled.extractFeats positive framing lfr length
  have made : rows ≠ [] := by
    rw [← List.length_pos_iff]
    omega
  obtain ⟨same, chunk, overlapped⟩ := OnlineParts.forward_caches returned extracted made
  refine ⟨same ▸ chunked, ?_⟩
  intro nonneg _
  obtain ⟨-, -, inside, kept⟩ := addOverlapChunk_eq_some_iff.mp overlapped
  rw [kept, List.length_drop]
  rw [parts_cif] at inside ⊢
  omega

theorem Settled.forwards (settled : model.Settled c online) {chunks : List (List α)}
    (lengths : ∀ samples ∈ chunks, samples.length = 960 * c) {presented : List (List (List β))}
    {last : ParaformerOnline (Frontend.FeatureCache α β) (List β) K δ}
    (ran : model.parts.forwards online (chunks.map fun samples => ⟨samples, false, none⟩) =
      some (presented, last)) : model.Settled c last := by
  induction chunks generalizing online presented with
  | nil =>
    cases ran
    exact settled
  | cons samples chunks inductionHypothesis =>
    obtain ⟨length, rest⟩ := List.forall_mem_cons.mp lengths
    simp only [List.map_cons, OnlineParts.forwards, Option.bind_eq_bind,
      Option.bind_eq_some_iff] at ran
    obtain ⟨answer, returned, ⟨more, last'⟩, later, same⟩ := ran
    cases same
    exact inductionHypothesis (settled.forward positive framing lfr length returned) rest later

/-- With a context that is no `int` the first chunk does not return, and it is no window either. -/
theorem not_nextChunk_large (middle : model.cif.chunkSize.middle = c)
    (large : 2 ^ 31 ≤ model.cif.chunkSize.left + model.cif.chunkSize.right)
    {chunks : List (List α)} (lengths : ∀ samples ∈ chunks, samples.length = 960 * c)
    {presented : List (List (List β))}
    (ran : model.parts.forwards model.parts.fresh
      (chunks.map fun samples => ⟨samples, false, none⟩) = some (presented, online)) :
    ¬ model.parts.NextChunk c online samples := by
  cases chunks with
  | nil =>
    cases ran
    rintro ⟨rows, features, chunk, next, -, count, overlapped, total, -⟩
    obtain ⟨kept, added, -⟩ := OnlineParts.overlap_eq_some_iff.mp overlapped
    obtain ⟨rfl, -, -, -⟩ := addOverlapChunk_eq_some_iff.mp added
    simp only at total
    rw [OnlineParts.featsCache_fresh large, List.nil_append, OnlineParts.length_embedFrom, count,
      parts_cif] at total
    omega
  | cons first chunks =>
    have int := model.cif.chunkSize.isInt model.cif.chunkSize.middle (by simp)
    obtain ⟨rows, features, extracted, count, -⟩ := (@settled_fresh _ _ _ _ _ _ model c _ _).extractFeats
      positive framing lfr (lengths first List.mem_cons_self)
    have made : rows ≠ [] := by
      rw [← List.length_pos_iff]
      omega
    have none := OnlineParts.forward_large large extracted made (by omega)
    simp [OnlineParts.forwards, none] at ran

/-- After any frames that `Split` has pushed, the next one gives `c` rows to a window of the size of
    `chunk_size`, if and only if the context is no negative number of rows, and one that `InitCache`
    can count. -/
theorem nextChunk_iff (middle : model.cif.chunkSize.middle = c) {frames : List (AudioFrame α)}
    {frame : AudioFrame α}
    (pushed : ∀ other ∈ frames ++ [frame], PushedOnline (60 * c) 16000 other ∧
      other.isFinal = false)
    {presented : List (List (List β))}
    (ran : model.parts.forwards model.parts.fresh
      (frames.map fun frame => ⟨frame.data.getD [], false, none⟩) = some (presented, online)) :
    model.parts.NextChunk c online (frame.data.getD []) ↔
      0 ≤ model.cif.chunkSize.left + model.cif.chunkSize.right ∧
        model.cif.chunkSize.left + model.cif.chunkSize.right < 2 ^ 31 := by
  have lengths : ∀ other ∈ frames ++ [frame], (other.data.getD []).length = 960 * c := by
    intro other member
    obtain ⟨emitted, open'⟩ := pushed other member
    obtain ⟨data, some, length⟩ := emitted.whole open'
    rw [some, Option.getD_some, length]
    omega
  have ran' : model.parts.forwards model.parts.fresh
      ((frames.map fun frame => frame.data.getD []).map fun samples => ⟨samples, false, none⟩) =
      some (presented, online) := by
    rwa [List.map_map]
  -- Every earlier frame was a full chunk, so the caches are between two chunks.
  have settled : model.Settled c online := by
    refine settled_fresh.forwards positive framing lfr ?_ ran'
    intro samples member
    obtain ⟨other, inside, rfl⟩ := List.mem_map.mp member
    exact lengths other (List.mem_append_left _ inside)
  have length := lengths frame (List.mem_append_right _ (List.mem_singleton.mpr rfl))
  obtain ⟨rows, features, extracted, count, -⟩ := settled.extractFeats positive framing lfr length
  refine ⟨fun next => ⟨next.context_nonneg, not_le.mp fun large => ?_⟩, fun ⟨nonneg, sum⟩ => ?_⟩
  · refine absurd next (not_nextChunk_large positive framing lfr middle large ?_ ran')
    intro samples member
    obtain ⟨other, inside, rfl⟩ := List.mem_map.mp member
    exact lengths other (List.mem_append_left _ inside)
  have cached := settled.featsCache nonneg sum
  have total : ((online.featsCache ++ model.parts.embedFrom online.startIdxCache rows).length :
      Int) = model.cif.chunkSize.left + c + model.cif.chunkSize.right := by
    rw [List.length_append, OnlineParts.length_embedFrom, count]
    omega
  have inside : model.cif.chunkSize.left + model.cif.chunkSize.right ≤
      (online.featsCache ++ model.parts.embedFrom online.startIdxCache rows).length := by
    omega
  have overlapped := (@addOverlapChunk_eq_some_iff _ model.cif.chunkSize model.parts.zeroRow
    online.isLastChunk online.featsCache _ _ _).mpr ⟨rfl, nonneg, inside, rfl⟩
  refine ⟨rows, features, _, _, extracted, count,
    OnlineParts.overlap_eq_some_iff.mpr ⟨_, overlapped, rfl⟩, total, ?_⟩
  rw [List.length_drop, parts_cif]
  omega

end

end OnlineModel

/-! ## A first chunk -/

/-- 60 ms of silence that the detector reports as the start of a segment. -/
def silentFrame : TwoPass.AudioFrame Nat where
  len := 960
  globalEnd := 60
  data := some (List.replicate 960 0)

theorem silentFrame_pushed :
    TwoPass.PushedOnline (60 * 1) 16000 silentFrame ∧ silentFrame.isFinal = false := by
  have sent : (Library.run TwoPass.Session.step { audio := TwoPass.newAudio.resetIndex }
      [.feed {
        samples := List.replicate 960 0
        vadSegments := [(0, -1)]
        chunkMs := 60
        positive := by decide }]).map TwoPass.Session.sentOnline = some [silentFrame] := by
    decide +kernel
  obtain ⟨session, ran, online⟩ := Option.map_eq_some_iff.mp sent
  refine ⟨⟨TwoPass.newAudio, _, session, rfl, rfl, ?_, ran, ?_⟩, rfl⟩
  · intro event member
    rw [List.mem_singleton.mp member]
    rfl
  · rw [online]
    exact List.mem_singleton.mpr rfl

theorem nextChunk_silentFrame :
    (plainModel .hertz16000 { left := 5, middle := 1, right := 5 }).parts.NextChunk 1
      (plainModel .hertz16000 { left := 5, middle := 1, right := 5 }).parts.fresh
      (silentFrame.data.getD []) := by
  have ran : (plainModel .hertz16000 { left := 5, middle := 1, right := 5 }).parts.forwards
      (plainModel .hertz16000 { left := 5, middle := 1, right := 5 }).parts.fresh
      (([] : List (TwoPass.AudioFrame Nat)).map fun frame => ⟨frame.data.getD [], false, none⟩) =
      some ([], (plainModel .hertz16000 { left := 5, middle := 1, right := 5 }).parts.fresh) := rfl
  have pushed : ∀ frame ∈ [] ++ [silentFrame],
      TwoPass.PushedOnline (60 * 1) 16000 frame ∧ frame.isFinal = false := by
    intro frame member
    rw [List.mem_singleton.mp member]
    exact silentFrame_pushed
  exact (OnlineModel.nextChunk_iff (by decide) rfl rfl rfl pushed ran).mpr (by decide)

/-- With `chunk_size` `[-5, 1, 2]` `AddOverlapChunk` copies from behind the end of its rows. -/
theorem not_nextChunk_negative :
    TwoPass.PushedOnline (60 * 1) 16000 silentFrame ∧ silentFrame.isFinal = false ∧
      ¬ (plainModel .hertz16000 { left := -5, middle := 1, right := 2 }).parts.NextChunk 1
        (plainModel .hertz16000 { left := -5, middle := 1, right := 2 }).parts.fresh
        (silentFrame.data.getD []) := by
  refine ⟨silentFrame_pushed.1, rfl, ?_⟩
  intro next
  exact absurd next.context_nonneg (by decide)

end Asr2Pass.Online
