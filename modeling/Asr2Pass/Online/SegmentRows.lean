import Asr2Pass.Online.ChunkGeometry
import Asr2Pass.Online.ResetState

/-! # The rows of a segment

A segment comes as chunks of `chunk_len` samples and a last frame.  The first pass scores the rows
that an offline model would make of the same samples, each once, but for the last row of a segment
that ends in a frame of less than 60 ms; and the object is new again behind it.
-/

namespace Asr2Pass.Online

open Frontend (Chunked FeatureCache Streamed computeFrameNum fbankFrames lfrCmvn newFrames padFeats
  rowsFrom)

namespace OnlineParts

variable {F α ρ K δ : Type} [Field K] [LinearOrder K] {parts : OnlineParts F α ρ K δ}

/-- The last call of an utterance resets the object. -/
theorem Utterance.resets {chunks : List (List α)} {last : List α} {outputs : List (List ρ)}
    {tail : List ρ} (utterance : parts.Utterance chunks last outputs tail)
    (shape : parts.EncoderShape) (left : 0 ≤ parts.cif.chunkSize.left)
    (right : 0 ≤ parts.cif.chunkSize.right)
    (sum : parts.cif.chunkSize.left + parts.cif.chunkSize.right < 2 ^ 31) {presented : List (List ρ)}
    {online : ParaformerOnline F ρ K δ}
    (ran : parts.forwards parts.fresh (utteranceCalls chunks last) = some (presented, online)) :
    online = parts.fresh := by
  obtain ⟨features, extracted, final⟩ := utterance.ends
  obtain ⟨before, returned, holds, begun⟩ := holds_fresh.forwards left right sum shape extracted
  have flags : before.isFirstChunk = chunks.isEmpty := begun
  simp only [utteranceCalls, forwards_append, returned, Option.bind_eq_bind, Option.bind_some,
    Option.bind_eq_some_iff] at ran
  obtain ⟨answer, forwarded, same⟩ := ran
  cases same
  by_cases short : last.length < 16 * 60 ∧ before.isFirstChunk = false
  · rw [forward, if_pos ⟨short.1, rfl, by simp [short.2]⟩] at forwarded
    exact shortTail_finished forwarded
  · obtain ⟨-, -, fresh⟩ | ⟨idle, -⟩ := forward_finished short forwarded
    · exact fresh
    · -- The last call makes rows.
      obtain ⟨features', none⟩ := idle rfl
      rw [holds.features] at none
      obtain ⟨less, some, -⟩ | ⟨-, ⟨features'', rows⟩, made, -⟩ := final
      · exact absurd ⟨less, by simpa [flags] using some⟩ short
      · rw [none] at rows
        cases rows
        exact absurd rfl made

/-- The rows that an utterance scores; the object is new again behind it. -/
theorem Utterance.scores {chunks : List (List α)} {last : List α} {outputs : List (List ρ)}
    {tail : List ρ} (utterance : parts.Utterance chunks last outputs tail)
    (shape : parts.EncoderShape) (left : 0 ≤ parts.cif.chunkSize.left)
    (right : 0 ≤ parts.cif.chunkSize.right)
    (most : parts.cif.chunkSize.right ≤ parts.cif.chunkSize.middle)
    (fit : parts.SumsFit outputs tail) :
    ∃ presented,
      parts.forwards parts.fresh (utteranceCalls chunks last) = some (presented, parts.fresh) ∧
      (presented.map parts.cif.chunkSize.scoredRows).flatten =
        parts.scoredFrom (parts.embedFrom 0 (outputs.flatten ++ tail)) := by
  obtain ⟨presented, online, returned, scored⟩ :=
    scoredOnce_of_fit shape utterance left right most fit
  have fresh := utterance.resets shape left right fit.context returned
  rw [fresh] at returned
  exact ⟨presented, returned, scored⟩

end OnlineParts

variable {α β K δ : Type} [Add β] [Mul β] [Zero β] [Field K] [LinearOrder K]

namespace OnlineModel

/-- The rows that an offline model makes of the samples. -/
def rows (model : OnlineModel α β K δ) (samples : List α) : List (List β) :=
  lfrCmvn model.lfr model.cmvn (fbankFrames model.framing model.fbank samples)

/-- The caches after the whole chunks `stream`, with the rows made of them. -/
structure Fed (model : OnlineModel α β K δ) (c : Nat) (stream : List α)
    (features : FeatureCache α β) (made : List (List β)) : Prop where
  chunked : Chunked model.fbank c features
  streamed : Streamed .hertz16000 .para model.fbank stream features made.length
  length : stream.length = 960 * made.length
  made : made = rowsFrom .para model.cmvn
    (padFeats .para (fbankFrames .hertz16000 model.fbank stream)) 0 made.length

variable {model : OnlineModel α β K δ} {c : Nat} {stream samples last : List α}
  {features : FeatureCache α β} {made : List (List β)} {chunks : List (List α)}

omit [Zero β] [Field K] [LinearOrder K] in
theorem fed_initial (model : OnlineModel α β K δ) (c : Nat) : model.Fed c [] {} [] where
  chunked := Frontend.chunked_initial c
  streamed := .initial _ _ _
  length := rfl
  made := rfl

omit [Zero β] [Field K] [LinearOrder K] in
theorem length_rows (lfr : model.lfr = .para) (framing : model.framing = .hertz16000)
    (samples : List α) :
    (model.rows samples).length = (computeFrameNum .hertz16000 samples.length + 5) / 6 := by
  rw [rows, lfr, framing, Frontend.lfrCmvn_eq, rowsFrom, List.length_map, List.length_range',
    Frontend.length_fbankFrames]
  rfl

section
variable (positive : 1 ≤ c) (framing : model.framing = .hertz16000) (lfr : model.lfr = .para)
include positive framing lfr

omit [Field K] [LinearOrder K] in
/-- One chunk. -/
theorem Fed.extractFeats (fed : model.Fed c stream features made)
    (length : samples.length = 960 * c) :
    ∃ rows features', model.parts.extractFeats features samples false = some (rows, features') ∧
      rows.length = c ∧ model.Fed c (stream ++ samples) features' (made ++ rows) := by
  obtain ⟨nonempty, total⟩ := fed.chunked.frames positive length
  obtain ⟨extracted, returned, count, chunked⟩ :=
    fed.chunked.extractFeats positive model.cmvn length
  rw [List.length_append, Nat.add_comm] at total
  obtain ⟨extracted', more, returned', feats, streamed⟩ :=
    fed.streamed.extract_some model.cmvn nonempty (by rw [total]; change 7 ≤ _; omega)
  cases returned.symm.trans returned'
  have many : more = c := by
    rw [← count, feats]
    simp [rowsFrom]
  subst many
  refine ⟨extracted.feats, extracted.cache, ?_, count, chunked, ?_, ?_, ?_⟩
  · simp only [parts, Frontend.ParaformerOnline.extractFeats, framing, lfr, returned,
      Option.map_some]
  · rw [List.length_append, count]
    exact streamed
  · rw [List.length_append, List.length_append, fed.length, length, count, Nat.mul_add]
  · rw [List.length_append, count, Frontend.rowsFrom_add,
      fed.streamed.rowsFrom_append model.cmvn samples (Nat.zero_add _).le, ← fed.made, Nat.zero_add, ← feats]

omit [Field K] [LinearOrder K] in
theorem Fed.extractAll (fed : model.Fed c stream features made)
    (lengths : ∀ samples ∈ chunks, samples.length = 960 * c) :
    ∃ outputs features', model.parts.extractAll features chunks = some (outputs, features') ∧
      (∀ rows ∈ outputs, rows.length = c) ∧
      model.Fed c (stream ++ chunks.flatten) features' (made ++ outputs.flatten) := by
  induction chunks generalizing stream features made with
  | nil => exact ⟨[], features, rfl, nofun, by simpa using fed⟩
  | cons samples chunks inductionHypothesis =>
    obtain ⟨length, rest⟩ := List.forall_mem_cons.mp lengths
    obtain ⟨rows, middle, extracted, count, next⟩ :=
      fed.extractFeats positive framing lfr length
    obtain ⟨outputs, features', later, full, after⟩ := inductionHypothesis next rest
    refine ⟨rows :: outputs, features', ?_, List.forall_mem_cons.mpr ⟨count, full⟩, ?_⟩
    · simp only [OnlineParts.extractAll, extracted, later, Option.bind_eq_bind, Option.bind_some,
        Option.pure_def]
    · simpa only [List.flatten_cons, List.append_assoc] using after

omit positive [Zero β] [Field K] [LinearOrder K] in
/-- The rows so far are the first rows of the segment. -/
theorem Fed.first_rows (fed : model.Fed c stream features made) (last : List α) :
    ∃ more, model.rows (stream ++ last) = made ++ more := by
  have count : made.length ≤ (computeFrameNum .hertz16000 (stream ++ last).length + 5) / 6 := by
    rw [List.length_append, fed.length, Frontend.computeFrameNum_hertz16000]
    split <;> omega
  have first := fed.streamed.rowsFrom_append model.cmvn last (Nat.zero_add _).le
  rw [← fed.made] at first
  obtain ⟨more, total⟩ := Nat.exists_eq_add_of_le count
  refine ⟨rowsFrom .para model.cmvn (padFeats .para (fbankFrames .hertz16000 model.fbank
    (stream ++ last))) made.length more, ?_⟩
  rw [rows, lfr, framing, Frontend.lfrCmvn_eq, Frontend.length_fbankFrames]
  change rowsFrom _ _ _ 0 ((computeFrameNum .hertz16000 (stream ++ last).length + 5) / 6) = _
  rw [total, Frontend.rowsFrom_add, first, Nat.zero_add]

omit positive framing lfr [Zero β] [Field K] [LinearOrder K] in
/-- A last frame of 60 ms makes a row together with what waits. -/
theorem Fed.not_short (fed : model.Fed c stream features made)
    (enough : 960 ≤ last.length ∨ made = [] ∧ 880 ≤ last.length) :
    ¬ Frontend.Short .hertz16000 .para features last := by
  rintro ⟨-, few⟩
  have length := fed.length
  have input : features.inputCache.length =
      stream.length - computeFrameNum .hertz16000 stream.length * 160 := by
    rw [fed.streamed.input, List.length_drop]
    rfl
  rw [List.length_append, Frontend.computeFrameNum_hertz16000] at few
  rw [Frontend.computeFrameNum_hertz16000] at input
  by_cases first : stream = []
  · have none : fbankFrames .hertz16000 model.fbank stream = [] := by
      rw [first]
      rfl
    rw [if_pos (fed.streamed.idle none).1, if_pos (by omega)] at few
    change _ + 3 < 7 at few
    omega
  · have some := List.length_pos_of_ne_nil first
    have frames : fbankFrames .hertz16000 model.fbank stream ≠ [] := by
      rw [← List.length_pos_iff, Frontend.length_fbankFrames, Frontend.computeFrameNum_hertz16000,
        if_pos (by omega)]
      omega
    have kept : 7 ≤ features.lfrSpliceCache.length + 6 := (fed.streamed.busy frames).kept
    have nonempty : features.lfrSpliceCache ≠ [] := by
      rw [← List.length_pos_iff]
      omega
    have long : 960 ≤ last.length := by
      obtain long | ⟨nothing, -⟩ := enough
      · exact long
      · rw [nothing, List.length_nil] at length
        omega
    rw [if_pos (by omega)] at input
    rw [if_neg nonempty, if_pos (by omega)] at few
    change _ < 7 at few
    omega

omit positive [Field K] [LinearOrder K] in
/-- The last call of a segment makes the rest of the rows. -/
theorem Fed.finish (fed : model.Fed c stream features made)
    (enough : 960 ≤ last.length ∨ made = [] ∧ 880 ≤ last.length) :
    ∃ tail features', model.parts.extractFeats features last true = some (tail, features') ∧
      made ++ tail = model.rows (stream ++ last) := by
  obtain ⟨extracted, returned, all⟩ :=
    fed.streamed.finish (by decide) model.cmvn (fed.not_short enough)
  rw [← fed.made] at all
  refine ⟨extracted.feats, extracted.cache, ?_, ?_⟩
  · simp only [parts, Frontend.ParaformerOnline.extractFeats, framing, lfr, returned,
      Option.map_some]
  · rw [all, rows, lfr, framing]

/-- What `Split` makes of a segment: chunks, and a last frame with no more rows than two lists hold.
    A segment of one frame has 55 ms at least. -/
structure Cut (model : OnlineModel α β K δ) (c : Nat) (chunks : List (List α)) (last : List α) :
    Prop where
  equal : ∀ samples ∈ chunks, samples.length = 960 * c
  enough : chunks = [] → 880 ≤ last.length
  few : (last.length : Int) ≤ 960 * (2 * c - model.cif.chunkSize.right) + 1

/-- The rows of the segment are scored in order, each once, behind `chunk_size[2]` zero rows; only
    a last frame of less than 60 ms can cost a row. -/
structure Scored (model : OnlineModel α β K δ) (chunks : List (List α)) (last : List α) : Prop where
  scored : ∃ presented kept lost,
    model.parts.forwards model.parts.fresh (OnlineParts.utteranceCalls chunks last) =
      some (presented, model.parts.fresh) ∧
    (presented.map model.cif.chunkSize.scoredRows).flatten =
      List.replicate model.cif.chunkSize.right.toNat model.parts.zeroRow ++
        model.parts.embedFrom 0 kept ∧
    kept ++ lost = model.rows (chunks.flatten ++ last) ∧ lost.length ≤ 1 ∧
    (960 ≤ last.length ∨ chunks = [] → lost = [])

theorem Cut.scored (cut : model.Cut c chunks last) (shape : model.parts.EncoderShape)
    (middle : model.cif.chunkSize.middle = c) (left : 0 ≤ model.cif.chunkSize.left)
    (right : 0 ≤ model.cif.chunkSize.right) (most : model.cif.chunkSize.right ≤ c)
    (sum : model.cif.chunkSize.left + c < 2 ^ 31) : model.Scored chunks last := by
  obtain ⟨outputs, features, extracted, full, fed⟩ :=
    (fed_initial model c).extractAll positive framing lfr cut.equal
  rw [List.nil_append, List.nil_append] at fed
  have count := length_rows lfr framing (chunks.flatten ++ last)
  rw [List.length_append, fed.length, Frontend.computeFrameNum_hertz16000] at count
  have full' : ∀ rows ∈ outputs, (rows.length : Int) = model.parts.cif.chunkSize.middle := by
    intro rows member
    rw [full rows member]
    exact middle.symm
  -- A short tail makes no rows; otherwise the last call makes the rest.
  obtain ⟨tail, lost, utterance, all, few, whole⟩ : ∃ tail lost,
      model.parts.Utterance chunks last outputs tail ∧
      outputs.flatten ++ tail ++ lost = model.rows (chunks.flatten ++ last) ∧ lost.length ≤ 1 ∧
      (960 ≤ last.length ∨ chunks = [] → lost = []) := by
    by_cases short : last.length < 960 ∧ chunks ≠ []
    · obtain ⟨lost, rows⟩ := fed.first_rows framing lfr last
      refine ⟨[], lost, ⟨full', features, extracted, .inl ⟨short.1, short.2, rfl⟩⟩, ?_, ?_, ?_⟩
      · rw [List.append_nil, rows]
      · rw [rows, List.length_append] at count
        split at count <;> omega
      · rintro (long | none)
        · omega
        · exact absurd none short.2
    · have enough : 960 ≤ last.length ∨ outputs.flatten = [] ∧ 880 ≤ last.length := by
        by_cases none : chunks = []
        · subst none
          cases extracted
          exact .inr ⟨rfl, cut.enough rfl⟩
        · exact .inl (by by_contra less; exact short ⟨by omega, none⟩)
      obtain ⟨tail, features', final, rows⟩ := fed.finish framing lfr enough
      rw [← rows, List.length_append, if_pos (by omega)] at count
      refine ⟨tail, [], ⟨full', features, extracted, .inr ⟨short, ⟨features', final⟩, ?_, ?_⟩⟩, ?_,
        Nat.zero_le _, fun _ => rfl⟩
      · rw [← List.length_pos_iff]
        omega
      · have few := cut.few
        rw [parts_cif, middle]
        omega
      · rw [List.append_nil, rows]
  have fit : model.parts.SumsFit outputs tail := by
    constructor
    · rw [parts_cif]
      omega
    · rw [parts_cif]
      omega
  obtain ⟨presented, returned, scores⟩ :=
    utterance.scores shape left right (by rw [parts_cif]; omega) fit
  exact ⟨presented, _, lost, returned, scores, all, few, whole⟩

end

end OnlineModel

end Asr2Pass.Online
