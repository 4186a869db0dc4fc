import Asr2Pass.Online.ParaformerOnline

/-! # The row lists of an utterance

`feats_cache_` holds the last rows of the utterance so far, with the zero rows of `InitCache` before
its start, so that a call presents a window of them.  The last call presents one or two lists.
-/

namespace Asr2Pass.Online

variable {F α ρ K δ : Type}

theorem lastRows_eq {rows : List ρ} {count : Int} (nonneg : 0 ≤ count)
    (inside : count ≤ rows.length) :
    lastRows rows count = some (rows.drop (rows.length - count.toNat)) :=
  if_pos ⟨nonneg, inside⟩

theorem lastRows_eq_some_iff {rows last : List ρ} {count : Int} :
    lastRows rows count = some last ↔
      0 ≤ count ∧ count ≤ rows.length ∧ last = rows.drop (rows.length - count.toNat) := by
  by_cases inside : 0 ≤ count ∧ count ≤ rows.length
  · simp [lastRows, inside, eq_comm]
  · simp only [lastRows, if_neg inside, reduceCtorEq, false_iff]
    exact fun ⟨nonneg, fits, _⟩ => inside ⟨nonneg, fits⟩

/-- `AddOverlapChunk` before the last call keeps the rows of the next context. -/
theorem addOverlapChunk_eq_some_iff {chunkSize : ChunkSize} {zeroRow : ρ} {isLastChunk : Bool}
    {featsCache wavFeats chunk kept : List ρ} :
    addOverlapChunk chunkSize zeroRow isLastChunk featsCache wavFeats false =
        some (chunk, kept) ↔
      chunk = featsCache ++ wavFeats ∧ 0 ≤ chunkSize.left + chunkSize.right ∧
        chunkSize.left + chunkSize.right ≤ chunk.length ∧
        kept = chunk.drop (chunk.length - (chunkSize.left + chunkSize.right).toNat) := by
  simp only [addOverlapChunk, Bool.false_eq_true, if_false, Option.bind_eq_bind,
    Option.bind_eq_some_iff, Option.pure_def, Option.some.injEq, Prod.mk.injEq]
  constructor
  · rintro ⟨last, cut, rfl, rfl⟩
    exact ⟨rfl, lastRows_eq_some_iff.mp cut⟩
  · rintro ⟨rfl, cut⟩
    exact ⟨kept, lastRows_eq_some_iff.mpr cut, rfl, rfl⟩

namespace ChunkSize

variable {chunkSize : ChunkSize}

theorem context_eq (nonneg : 0 ≤ chunkSize.left + chunkSize.right)
    (sum : chunkSize.left + chunkSize.right < 2 ^ 31) :
    chunkSize.context = chunkSize.left + chunkSize.right :=
  wrap_eq (by omega) sum

theorem context_neg (sum : 2 ^ 31 ≤ chunkSize.left + chunkSize.right) : chunkSize.context < 0 := by
  have left := chunkSize.isInt chunkSize.left (by simp)
  have right := chunkSize.isInt chunkSize.right (by simp)
  exact wrap_neg sum (by omega)

/-- The sum may be no `int`; the difference is what the exact one would be. -/
theorem wrap_total_sub (chunkSize : ChunkSize) (count : Int) :
    wrap (chunkSize.total - count) =
      wrap (chunkSize.left + chunkSize.middle + chunkSize.right - count) := by
  simp only [wrap, total, suffix, Int.bmod_add_bmod, Int.bmod_sub_bmod]

end ChunkSize

/-- The network gives one row of its size, and one weight, for every row. -/
structure OnlineParts.EncoderShape (parts : OnlineParts F α ρ K δ) : Prop where
  rows {rows hidden alphas} : parts.encoder rows = some (hidden, alphas) →
    hidden.length = rows.length
  alphas {rows hidden alphas} : parts.encoder rows = some (hidden, alphas) →
    alphas.length = rows.length
  sizes {rows hidden alphas} : parts.encoder rows = some (hidden, alphas) →
    ∀ row ∈ hidden, row.length = parts.cif.encoderSize

namespace OnlineParts

section
variable (parts : OnlineParts F α ρ K δ)

/-- The rows of `InitCache`, before the first row of an utterance. -/
def zeroRows : List ρ :=
  List.replicate parts.cif.chunkSize.context.toNat parts.zeroRow

/-- Rows with their positions, the first of which is `start`. -/
def embedFrom (start : Nat) (wavFeats : List ρ) : List ρ :=
  wavFeats.mapIdx fun position row => parts.embed (start + position) row

@[simp] theorem length_embedFrom (start : Nat) (wavFeats : List ρ) :
    (parts.embedFrom start wavFeats).length = wavFeats.length :=
  List.length_mapIdx

@[simp] theorem embedFrom_nil (start : Nat) : parts.embedFrom start [] = [] := rfl

theorem embedFrom_append (start : Nat) (first second : List ρ) :
    parts.embedFrom start (first ++ second) =
      parts.embedFrom start first ++ parts.embedFrom (start + first.length) second := by
  unfold embedFrom
  rw [List.mapIdx_append]
  congr 2
  funext position row
  rw [Nat.add_comm position, Nat.add_assoc]

/-- What the calls before the last one make of their samples. -/
def extractAll : F → List (List α) → Option (List (List ρ) × F)
  | features, [] => some ([], features)
  | features, samples :: rest => do
    let (rows, features) ← parts.extractFeats features samples false
    let (outputs, features) ← extractAll features rest
    return (rows :: outputs, features)

/-- The rows from `past` on, behind the ones before them that are kept. -/
def window (past rows : List ρ) : List ρ :=
  (parts.zeroRows ++ past ++ rows).drop past.length

/-- The `chunk_size[0]` rows at the end of the list. -/
def leftRows (rows : List ρ) : List ρ :=
  rows.drop (rows.length - parts.cif.chunkSize.left.toNat)

/-- The lists that these calls present, after the rows `past`. -/
def windows (past : List ρ) : List (List ρ) → List (List ρ)
  | [] => []
  | rows :: outputs =>
    let rows := parts.embedFrom past.length rows
    (if rows = [] then [] else [parts.window past rows]) ++
      windows (past ++ rows) outputs

/-- The object in an utterance, after the rows `past`. -/
structure Holds (past : List ρ) (features : F) (online : ParaformerOnline F ρ K δ) : Prop where
  features : online.features = features
  startIdxCache : online.startIdxCache = past.length
  featsCache : online.featsCache = parts.window past []
  isLastChunk : online.isLastChunk = false
  sized : online.cif.Sized parts.cif.encoderSize

end

section
variable [Field K] [LinearOrder K] {parts : OnlineParts F α ρ K δ} {past : List ρ} {features : F}
  {online : ParaformerOnline F ρ K δ}

omit [LinearOrder K] in
theorem holds_fresh : parts.Holds [] parts.resetCache parts.fresh where
  features := rfl
  startIdxCache := rfl
  featsCache := by simp [window, zeroRows, fresh]
  isLastChunk := rfl
  sized := parts.cif.initCache_sized

/-- `ForwardChunk` returns, and only its caches change. -/
theorem forwardChunk_some (shape : parts.EncoderShape) (online : ParaformerOnline F ρ K δ)
    (sized : online.cif.Sized parts.cif.encoderSize) {chunkFeats : List ρ}
    (long : parts.cif.chunkSize.left ≤ chunkFeats.length) :
    ∃ result cif decoderOnnx, parts.forwardChunk online chunkFeats =
        some (result, { online with cif, decoderOnnx }) ∧
      (chunkFeats ≠ [] → cif.Sized parts.cif.encoderSize) := by
  unfold forwardChunk
  cases encoded : parts.encoder chunkFeats with
  | none => exact ⟨_, _, _, rfl, fun _ => sized⟩
  | some output =>
    obtain ⟨encVec, alphaVec⟩ := output
    have rows := shape.rows encoded
    have alphas := shape.alphas encoded
    have inside : parts.cif.chunkSize.left ≤ alphaVec.length := by omega
    have enough : alphaVec.length ≤ encVec.length := by omega
    obtain ⟨listFrame, cif, searched, next⟩ :=
      parts.cif.cifSearch_some online.isLastChunk sized (shape.sizes encoded) inside enough
    have filled : chunkFeats ≠ [] → cif.Sized parts.cif.encoderSize := by
      intro some
      apply next
      rw [← List.length_pos_iff, rows]
      exact List.length_pos_of_ne_nil some
    simp only [searched, Option.bind_eq_bind, Option.bind_some]
    split
    · cases parts.decoder online.decoderOnnx encVec listFrame with
      | error left => exact ⟨_, _, _, rfl, filled⟩
      | ok answer => exact ⟨_, _, _, rfl, filled⟩
    · exact ⟨_, _, _, rfl, filled⟩

/-- `AddOverlapChunk` and `ForwardChunk` for one list. -/
theorem forwardOne_some (shape : parts.EncoderShape) (online : ParaformerOnline F ρ K δ)
    (sized : online.cif.Sized parts.cif.encoderSize) {wavFeats chunk featsCache : List ρ}
    {inputFinished : Bool}
    (overlapped : addOverlapChunk parts.cif.chunkSize parts.zeroRow online.isLastChunk
      online.featsCache wavFeats inputFinished = some (chunk, featsCache))
    (long : parts.cif.chunkSize.left ≤ chunk.length) :
    ∃ result cif decoderOnnx, parts.forwardOne online wavFeats inputFinished =
        some ⟨result, [chunk], if inputFinished then
            parts.reset { online with featsCache, cif, decoderOnnx }
          else { online with featsCache, cif, decoderOnnx }⟩ ∧
      (chunk ≠ [] → cif.Sized parts.cif.encoderSize) := by
  obtain ⟨result, cif, decoderOnnx, returned, next⟩ :=
    forwardChunk_some shape { online with featsCache } sized long
  refine ⟨if result ≠ "" ∧ online.isLastChunk then result.push ' ' else result, cif, decoderOnnx, ?_, next⟩
  simp only [forwardOne, overlap, overlapped, Option.bind_eq_bind, Option.bind_some,
    Option.pure_def, returned]

omit [Field K] [LinearOrder K] in
theorem overlap_eq_some_iff {wavFeats chunk : List ρ} {inputFinished : Bool}
    {next : ParaformerOnline F ρ K δ} :
    parts.overlap online wavFeats inputFinished = some (chunk, next) ↔
      ∃ kept, addOverlapChunk parts.cif.chunkSize parts.zeroRow online.isLastChunk
          online.featsCache wavFeats inputFinished = some (chunk, kept) ∧
        next = { online with featsCache := kept } := by
  simp only [overlap, Option.bind_eq_bind, Option.bind_eq_some_iff, Option.pure_def,
    Option.some.injEq, Prod.mk.injEq]
  constructor
  · rintro ⟨⟨wavFeats', kept⟩, overlapped, rfl, rfl⟩
    exact ⟨kept, overlapped, rfl⟩
  · rintro ⟨kept, overlapped, rfl⟩
    exact ⟨(chunk, kept), overlapped, rfl, rfl⟩

theorem forwardChunk_keeps {chunkFeats : List ρ} {result : String}
    {next : ParaformerOnline F ρ K δ}
    (returned : parts.forwardChunk online chunkFeats = some (result, next)) :
    next.features = online.features ∧ next.featsCache = online.featsCache := by
  unfold forwardChunk at returned
  split at returned
  · cases returned
    exact ⟨rfl, rfl⟩
  · obtain ⟨⟨listFrame, cif⟩, -, decoded⟩ := Option.bind_eq_some_iff.mp returned
    simp only at decoded
    split at decoded
    · split at decoded
      · cases decoded
        exact ⟨rfl, rfl⟩
      · cases decoded
        exact ⟨rfl, rfl⟩
    · cases decoded
      exact ⟨rfl, rfl⟩

/-- A call before the last one runs `ExtractFeats` and `AddOverlapChunk` on their caches. -/
theorem forward_caches {samples : List α} {rows : List ρ} {features : F} {answer : Answer F ρ K δ}
    (returned : parts.forward online ⟨samples, false, none⟩ = some answer)
    (extracted : parts.extractFeats online.features samples false = some (rows, features))
    (made : rows ≠ []) :
    answer.online.features = features ∧ ∃ chunk,
      addOverlapChunk parts.cif.chunkSize parts.zeroRow online.isLastChunk online.featsCache
        (parts.embedFrom online.startIdxCache rows) false =
      some (chunk, answer.online.featsCache) := by
  unfold forward at returned
  rw [if_neg (by simp)] at returned
  simp only [extracted, Option.bind_eq_bind, Option.bind_some, if_neg made, Option.isSome_none,
    Bool.false_eq_true, if_false, forwardRows, forwardOne, overlap, Option.bind_eq_some_iff,
    Option.pure_def] at returned
  obtain ⟨⟨chunk, next⟩, ⟨⟨wavFeats, featsCache⟩, overlapped, same⟩, ⟨result, last⟩, forwarded,
    same'⟩ := returned
  cases same
  cases same'
  obtain ⟨kept, kept'⟩ := forwardChunk_keeps forwarded
  refine ⟨kept, wavFeats, ?_⟩
  rw [kept']
  exact overlapped

omit [Field K] [LinearOrder K] in
theorem window_append (past rows more : List ρ) :
    parts.window past rows ++ more = parts.window past (rows ++ more) := by
  have inside : past.length ≤ (parts.zeroRows ++ past ++ rows).length := by
    rw [List.length_append, List.length_append]
    omega
  rw [window, window, ← List.append_assoc _ rows more, List.drop_append_of_le_length inside]

variable (left : 0 ≤ parts.cif.chunkSize.left) (right : 0 ≤ parts.cif.chunkSize.right)
  (sum : parts.cif.chunkSize.left + parts.cif.chunkSize.right < 2 ^ 31)
include left right sum

omit [Field K] [LinearOrder K] in
theorem length_zeroRows : (parts.zeroRows.length : Int) =
    parts.cif.chunkSize.left + parts.cif.chunkSize.right := by
  have context := ChunkSize.context_eq (show 0 ≤ parts.cif.chunkSize.left + parts.cif.chunkSize.right
    by omega) sum
  rw [zeroRows, List.length_replicate]
  omega

omit [Field K] [LinearOrder K] in
/-- A window has the kept rows and the new ones. -/
theorem length_window (past rows : List ρ) : ((parts.window past rows).length : Int) =
    parts.cif.chunkSize.left + parts.cif.chunkSize.right + rows.length := by
  have zeros := length_zeroRows left right sum
  rw [window, List.length_drop, List.length_append, List.length_append]
  omega

omit [Field K] [LinearOrder K] in
/-- The rows that are kept of a window. -/
theorem lastRows_window (past rows : List ρ) :
    lastRows (parts.window past rows) (parts.cif.chunkSize.left + parts.cif.chunkSize.right) =
      some (parts.window (past ++ rows) []) := by
  have length := length_window left right sum past rows
  rw [lastRows_eq (by omega) (by omega), window, window, List.drop_drop, List.append_nil,
    ← List.append_assoc]
  congr 2
  rw [window] at length
  rw [List.length_append]
  omega

/-- A call before the last one presents the next window. -/
theorem Holds.forward (shape : parts.EncoderShape) (holds : parts.Holds past features online)
    {samples : List α} {wavFeats : List ρ} {features' : F}
    (extracted : parts.extractFeats features samples false = some (wavFeats, features')) :
    ∃ answer, parts.forward online ⟨samples, false, none⟩ = some answer ∧
      answer.presented = (if parts.embedFrom past.length wavFeats = [] then [] else
        [parts.window past (parts.embedFrom past.length wavFeats)]) ∧
      parts.Holds (past ++ parts.embedFrom past.length wavFeats) features' answer.online ∧
      answer.online.isFirstChunk = false := by
  unfold OnlineParts.forward
  rw [if_neg (by simp)]
  simp only [holds.features, extracted, Option.bind_eq_bind, Option.bind_some, Option.isSome_none,
    Bool.false_eq_true, if_false]
  by_cases none : wavFeats = []
  -- Without rows the call stops before the cache is touched.
  · refine ⟨_, if_pos none, ?_, ?_, rfl⟩
    · simp [none]
    · rw [none, embedFrom_nil, List.append_nil]
      exact ⟨rfl, holds.startIdxCache, holds.featsCache, holds.isLastChunk, holds.sized⟩
  · rw [if_neg none]
    have length := length_window left right sum past (parts.embedFrom past.length wavFeats)
    -- The cache is the end of the last window, so what is put together is the next one.
    have overlapped : addOverlapChunk parts.cif.chunkSize parts.zeroRow online.isLastChunk
        online.featsCache (parts.embedFrom past.length wavFeats) false =
        some (parts.window past (parts.embedFrom past.length wavFeats),
          parts.window (past ++ parts.embedFrom past.length wavFeats) []) := by
      simp only [addOverlapChunk, holds.featsCache, window_append, List.nil_append,
        lastRows_window left right sum, Bool.false_eq_true, if_false, Option.bind_eq_bind,
        Option.bind_some, Option.pure_def]
    have made : 0 < wavFeats.length := List.length_pos_of_ne_nil none
    have filled : parts.window past (parts.embedFrom past.length wavFeats) ≠ [] := by
      rw [← List.length_pos_iff]
      rw [length_embedFrom] at length
      omega
    obtain ⟨result, cif, decoderOnnx, returned, next⟩ :=
      forwardOne_some shape { online with
        features := features'
        startIdxCache := past.length + wavFeats.length
        isFirstChunk := false } holds.sized overlapped (by omega)
    have forwarded : parts.forwardRows { online with features := features', isFirstChunk := false }
        wavFeats false = parts.forwardOne { online with
          features := features'
          startIdxCache := past.length + wavFeats.length
          isFirstChunk := false } (parts.embedFrom past.length wavFeats) false := by
      simp only [forwardRows, holds.startIdxCache, Bool.false_eq_true, if_false]
      rfl
    have some : parts.embedFrom past.length wavFeats ≠ [] := by
      rw [← List.length_pos_iff, length_embedFrom]
      exact made
    refine ⟨_, forwarded.trans returned, (if_neg some).symm, ?_, rfl⟩
    refine ⟨rfl, ?_, rfl, holds.isLastChunk, next filled⟩
    simp

/-- The calls before the last one. -/
theorem Holds.forwards (shape : parts.EncoderShape) (holds : parts.Holds past features online)
    {chunks : List (List α)} {outputs : List (List ρ)} {features' : F}
    (extracted : parts.extractAll features chunks = some (outputs, features')) :
    ∃ online', parts.forwards online (chunks.map fun samples => ⟨samples, false, none⟩) =
        some (parts.windows past outputs, online') ∧
      parts.Holds (past ++ parts.embedFrom past.length outputs.flatten) features' online' ∧
      online'.isFirstChunk = (online.isFirstChunk && chunks.isEmpty) := by
  induction chunks generalizing past features online outputs with
  | nil =>
    cases extracted
    refine ⟨online, rfl, ?_, by simp⟩
    simpa using holds
  | cons samples chunks inductionHypothesis =>
    simp only [extractAll, Option.bind_eq_bind, Option.bind_eq_some_iff] at extracted
    obtain ⟨⟨rows, middle⟩, first, ⟨more, last⟩, others, same⟩ := extracted
    cases same
    obtain ⟨answer, returned, presented, next, begun⟩ := holds.forward left right sum shape first
    obtain ⟨online', rest, after, later⟩ := inductionHypothesis next others
    refine ⟨online', ?_, ?_, ?_⟩
    · simp only [List.map_cons, OnlineParts.forwards, returned, rest, Option.bind_eq_bind,
        Option.bind_some, presented, windows, Option.pure_def]
    · rw [List.append_assoc, List.length_append, length_embedFrom, ← embedFrom_append] at after
      exact after
    · simp [later, begun]

/-! ## The last call -/

/-- A last call of less than 60 ms presents the kept rows. -/
theorem Holds.forward_short (shape : parts.EncoderShape)
    (holds : parts.Holds past features online) {samples : List α}
    (short : samples.length < 16 * 60) (begun : online.isFirstChunk = false) :
    ∃ answer, parts.forward online ⟨samples, true, none⟩ = some answer ∧
      answer.presented = [parts.window past []] := by
  have length := length_window left right sum past []
  have long : parts.cif.chunkSize.left ≤ (parts.window past []).length := by omega
  obtain ⟨result, cif, decoderOnnx, returned, -⟩ :=
    forwardChunk_some shape { online with isLastChunk := true } holds.sized long
  refine ⟨⟨result, [parts.window past []],
    parts.reset { online with
      isLastChunk := true, featsCache := parts.window past [], cif, decoderOnnx }⟩, ?_, rfl⟩
  unfold OnlineParts.forward
  rw [if_pos ⟨short, rfl, by simp [begun]⟩]
  simp only [shortTail, holds.featsCache] at returned ⊢
  simp only [returned, Option.bind_eq_bind, Option.bind_some, Option.pure_def]

omit right sum [Field K] [LinearOrder K] in
theorem length_leftRows {rows : List ρ} (inside : parts.cif.chunkSize.left ≤ rows.length) :
    ((parts.leftRows rows).length : Int) = parts.cif.chunkSize.left := by
  rw [leftRows, List.length_drop]
  omega

omit right sum [Field K] [LinearOrder K] in
/-- `AddOverlapChunk` in a last call: only a list that is not the last one is filled up. -/
theorem addOverlapChunk_finished (isLastChunk : Bool) {featsCache wavFeats : List ρ}
    (inside : parts.cif.chunkSize.left ≤ (featsCache ++ wavFeats).length) :
    addOverlapChunk parts.cif.chunkSize parts.zeroRow isLastChunk featsCache wavFeats true =
      some (if isLastChunk then featsCache ++ wavFeats
        else featsCache ++ wavFeats ++ List.replicate (wrap (parts.cif.chunkSize.total -
          (featsCache ++ wavFeats).length)).toNat parts.zeroRow,
        parts.leftRows (featsCache ++ wavFeats)) := by
  simp only [addOverlapChunk, lastRows_eq left inside, if_true, Option.bind_eq_bind,
    Option.bind_some, Option.pure_def]
  rfl

omit right sum in
/-- Both lists of a last call go through `ForwardChunk`. -/
theorem forwardTwo_some (shape : parts.EncoderShape)
    (sized : online.cif.Sized parts.cif.encoderSize) (notLast : online.isLastChunk = false)
    {wavFeats rest : List ρ}
    (inside : parts.cif.chunkSize.left ≤ (online.featsCache ++ wavFeats).length)
    (filled : online.featsCache ++ wavFeats ≠ [])
    (cut : lastRows wavFeats (wavFeats.length + parts.cif.chunkSize.right -
      parts.cif.chunkSize.middle) = some rest) :
    ∃ answer, parts.forwardTwo online wavFeats = some answer ∧ answer.presented =
      [online.featsCache ++ wavFeats ++ List.replicate (wrap (parts.cif.chunkSize.total -
          (online.featsCache ++ wavFeats).length)).toNat parts.zeroRow,
        parts.leftRows (online.featsCache ++ wavFeats) ++ rest] := by
  -- the first list, filled up with zero rows, leaves the end of the utterance in `feats_cache_`
  have overlapped := addOverlapChunk_finished left online.isLastChunk inside
  rw [notLast, if_neg Bool.false_ne_true] at overlapped
  generalize padded : online.featsCache ++ wavFeats ++ List.replicate _ parts.zeroRow = chunk
    at overlapped ⊢
  have long : parts.cif.chunkSize.left ≤ chunk.length := by
    rw [← padded, List.length_append]
    omega
  have someRow : chunk ≠ [] := padded ▸ List.append_ne_nil_of_left_ne_nil filled _
  generalize kept : parts.leftRows (online.featsCache ++ wavFeats) = leftRows at overlapped ⊢
  obtain ⟨first, cif, decoderOnnx, returned, next⟩ :=
    forwardChunk_some shape { online with featsCache := leftRows } sized long
  -- the second list has these rows for its context
  have enough : parts.cif.chunkSize.left ≤ (leftRows ++ rest).length := by
    have length := length_leftRows left inside
    rw [kept] at length
    rw [List.length_append]
    omega
  have overlapped' := addOverlapChunk_finished left true enough
  rw [if_pos rfl] at overlapped'
  obtain ⟨second, cif', decoderOnnx', returned', -⟩ :=
    forwardChunk_some shape { online with
      isLastChunk := true
      cif := cif
      decoderOnnx := decoderOnnx
      featsCache := parts.leftRows (leftRows ++ rest) } (next someRow) enough
  refine ⟨⟨first ++ second, [chunk, leftRows ++ rest], parts.reset { online with
    isLastChunk := true
    cif := cif'
    decoderOnnx := decoderOnnx'
    featsCache := parts.leftRows (leftRows ++ rest) }⟩, ?_, rfl⟩
  simp only [notLast] at returned
  simp only [forwardTwo, overlap, notLast, overlapped, returned, cut, overlapped', returned',
    Option.bind_eq_bind, Option.bind_some, Option.pure_def]

section
variable {samples : List α} {wavFeats : List ρ} {features' : F}
  (extracted : parts.extractFeats features samples true = some (wavFeats, features'))
  (made : wavFeats ≠ []) (whole : ¬ (samples.length < 16 * 60 ∧ online.isFirstChunk = false))
include extracted made whole

omit left right sum in
/-- A last call with rows. -/
theorem Holds.forward_last (holds : parts.Holds past features online) :
    parts.forward online ⟨samples, true, none⟩ =
      if sizeT (wavFeats.length + parts.cif.chunkSize.right) ≤ sizeT parts.cif.chunkSize.middle then
        parts.forwardOne { online with
          features := features'
          startIdxCache := past.length + wavFeats.length
          isFirstChunk := false
          isLastChunk := true } (parts.embedFrom past.length wavFeats) true
      else
        parts.forwardTwo { online with
          features := features'
          startIdxCache := past.length + wavFeats.length
          isFirstChunk := false } (parts.embedFrom past.length wavFeats) := by
  unfold OnlineParts.forward
  rw [if_neg (by simpa using whole)]
  simp only [holds.features, extracted, Option.bind_eq_bind, Option.bind_some, if_neg made,
    Option.isSome_none, Bool.false_eq_true, if_false, forwardRows, holds.startIdxCache, if_true,
    List.length_mapIdx]
  rfl

/-- Few rows are presented in one list. -/
theorem Holds.forward_one (shape : parts.EncoderShape) (holds : parts.Holds past features online)
    (few : wavFeats.length + parts.cif.chunkSize.right ≤ parts.cif.chunkSize.middle) :
    ∃ answer, parts.forward online ⟨samples, true, none⟩ = some answer ∧
      answer.presented = [parts.window past (parts.embedFrom past.length wavFeats)] := by
  have bound := parts.cif.chunkSize.isInt parts.cif.chunkSize.middle (by simp)
  have one : sizeT (wavFeats.length + parts.cif.chunkSize.right) ≤
      sizeT parts.cif.chunkSize.middle := by
    unfold sizeT
    rw [Int.emod_eq_of_lt (by omega) (by omega), Int.emod_eq_of_lt (by omega) (by omega)]
    exact few
  rw [holds.forward_last extracted made whole, if_pos one]
  have length := length_window left right sum past (parts.embedFrom past.length wavFeats)
  have inside : parts.cif.chunkSize.left ≤
      (parts.window past (parts.embedFrom past.length wavFeats)).length := by omega
  have chunk : online.featsCache ++ parts.embedFrom past.length wavFeats =
      parts.window past (parts.embedFrom past.length wavFeats) := by
    rw [holds.featsCache, window_append, List.nil_append]
  have overlapped := addOverlapChunk_finished left true (chunk ▸ inside)
  rw [if_pos rfl, chunk] at overlapped
  obtain ⟨result, cif, decoderOnnx, returned, -⟩ :=
    forwardOne_some shape { online with
      features := features'
      startIdxCache := past.length + wavFeats.length
      isFirstChunk := false
      isLastChunk := true } holds.sized overlapped inside
  exact ⟨_, returned, rfl⟩

/-- More rows are presented in two lists: as many as any call presents, and the rest behind the
    last rows of the utterance. -/
theorem Holds.forward_two (shape : parts.EncoderShape) (holds : parts.Holds past features online)
    (most : parts.cif.chunkSize.right ≤ parts.cif.chunkSize.middle)
    (int : wavFeats.length ≤ 2 * parts.cif.chunkSize.middle)
    (many : parts.cif.chunkSize.middle < wavFeats.length + parts.cif.chunkSize.right) :
    ∃ answer, parts.forward online ⟨samples, true, none⟩ = some answer ∧
      answer.presented =
        [parts.window past (parts.embedFrom past.length wavFeats) ++
            List.replicate (parts.cif.chunkSize.middle - wavFeats.length).toNat parts.zeroRow,
          parts.leftRows (parts.window past (parts.embedFrom past.length wavFeats)) ++
            (parts.embedFrom past.length wavFeats).drop
              (parts.cif.chunkSize.middle - parts.cif.chunkSize.right).toNat] := by
  have bound := parts.cif.chunkSize.isInt parts.cif.chunkSize.middle (by simp)
  -- The comparison is of `size_t`s in the source; both sides are far from wrapping around.
  have two : ¬ sizeT (wavFeats.length + parts.cif.chunkSize.right) ≤
      sizeT parts.cif.chunkSize.middle := by
    unfold sizeT
    rw [Int.emod_eq_of_lt (by omega) (by omega), Int.emod_eq_of_lt (by omega) (by omega)]
    omega
  rw [holds.forward_last extracted made whole, if_neg two]
  have length := length_window left right sum past (parts.embedFrom past.length wavFeats)
  have rows := parts.length_embedFrom past.length wavFeats
  generalize parts.embedFrom past.length wavFeats = wavFeats' at length rows ⊢
  have chunk : online.featsCache ++ wavFeats' = parts.window past wavFeats' := by
    rw [holds.featsCache, window_append, List.nil_append]
  rw [← chunk] at length ⊢
  have rest : lastRows wavFeats' (wavFeats'.length + parts.cif.chunkSize.right -
      parts.cif.chunkSize.middle) = some (wavFeats'.drop
        (parts.cif.chunkSize.middle - parts.cif.chunkSize.right).toNat) := by
    rw [lastRows_eq (by omega) (by omega)]
    congr 2
    omega
  have inside : parts.cif.chunkSize.left ≤ (online.featsCache ++ wavFeats').length := by omega
  have filled : online.featsCache ++ wavFeats' ≠ [] := by
    have some := List.length_pos_of_ne_nil made
    rw [← List.length_pos_iff]
    omega
  have padding : wrap (parts.cif.chunkSize.total - (online.featsCache ++ wavFeats').length) =
      parts.cif.chunkSize.middle - wavFeats.length := by
    rw [ChunkSize.wrap_total_sub, length, rows]
    refine (wrap_eq (by omega) (by omega)).trans ?_
    omega
  rw [← padding]
  exact @forwardTwo_some _ _ _ _ _ _ _ parts { online with
    features := features'
    startIdxCache := past.length + wavFeats.length
    isFirstChunk := false } left shape holds.sized holds.isLastChunk _ _ inside filled rest

end

end

/-! ## An utterance -/

/-- Calls that give `chunk_size[1]` rows each, and a last call that gives `tail`: none of less than
    60 ms after other calls, and not more than two lists hold otherwise. -/
structure Utterance (parts : OnlineParts F α ρ K δ) (chunks : List (List α)) (last : List α)
    (outputs : List (List ρ)) (tail : List ρ) : Prop where
  full : ∀ rows ∈ outputs, (rows.length : Int) = parts.cif.chunkSize.middle
  ends : ∃ features, parts.extractAll parts.resetCache chunks = some (outputs, features) ∧
    (last.length < 16 * 60 ∧ chunks ≠ [] ∧ tail = [] ∨
      ¬ (last.length < 16 * 60 ∧ chunks ≠ []) ∧
        (∃ features', parts.extractFeats features last true = some (tail, features')) ∧
        tail ≠ [] ∧
        tail.length ≤ 2 * parts.cif.chunkSize.middle - parts.cif.chunkSize.right)

/-- The calls of an utterance. -/
def utteranceCalls (chunks : List (List α)) (last : List α) : List (ForwardCall F α) :=
  chunks.map (fun samples => ⟨samples, false, none⟩) ++ [⟨last, true, none⟩]

/-- The lists that the last call presents, after the rows `past`. -/
def lastLists (parts : OnlineParts F α ρ K δ) (past tail : List ρ) : List (List ρ) :=
  let rows := parts.embedFrom past.length tail
  if tail.length + parts.cif.chunkSize.right ≤ parts.cif.chunkSize.middle then
    [parts.window past rows]
  else
    [parts.window past rows ++
        List.replicate (parts.cif.chunkSize.middle - tail.length).toNat parts.zeroRow,
      parts.leftRows (parts.window past rows) ++
        rows.drop (parts.cif.chunkSize.middle - parts.cif.chunkSize.right).toNat]

section
variable [Field K] [LinearOrder K] {parts : OnlineParts F α ρ K δ}

theorem forwards_append (online : ParaformerOnline F ρ K δ) (calls : List (ForwardCall F α))
    (call : ForwardCall F α) : parts.forwards online (calls ++ [call]) = (do
      let (presented, online) ← parts.forwards online calls
      let answer ← parts.forward online call
      return (presented ++ answer.presented, answer.online)) := by
  induction calls generalizing online with
  | nil => simp [forwards]
  | cons first calls inductionHypothesis =>
    simp only [List.cons_append, forwards, inductionHypothesis, Option.bind_eq_bind,
      Option.pure_def, Option.bind_assoc, Option.bind_some, List.append_assoc]

/-- What an utterance presents to the encoder. -/
theorem Utterance.forwards {chunks : List (List α)} {last : List α} {outputs : List (List ρ)}
    {tail : List ρ} (utterance : parts.Utterance chunks last outputs tail)
    (shape : parts.EncoderShape) (left : 0 ≤ parts.cif.chunkSize.left)
    (right : 0 ≤ parts.cif.chunkSize.right)
    (sum : parts.cif.chunkSize.left + parts.cif.chunkSize.right < 2 ^ 31)
    (most : parts.cif.chunkSize.right ≤ parts.cif.chunkSize.middle) :
    ∃ online, parts.forwards parts.fresh (utteranceCalls chunks last) =
      some (parts.windows [] outputs ++ parts.lastLists (parts.embedFrom 0 outputs.flatten) tail,
        online) := by
  obtain ⟨features, extracted, final⟩ := utterance.ends
  obtain ⟨online, returned, holds, begun⟩ :=
    holds_fresh.forwards left right sum shape extracted
  have flags : online.isFirstChunk = chunks.isEmpty := begun
  rw [List.nil_append, List.length_nil] at holds
  have answered : ∃ answer, parts.forward online ⟨last, true, none⟩ = some answer ∧
      answer.presented = parts.lastLists (parts.embedFrom 0 outputs.flatten) tail := by
    rcases final with ⟨short, some, rfl⟩ | ⟨whole, ⟨features', final⟩, made, few⟩
    · have begun : online.isFirstChunk = false := by
        simpa [flags] using some
      obtain ⟨answer, forwarded, presented⟩ := holds.forward_short left right sum shape short begun
      refine ⟨answer, forwarded, ?_⟩
      rw [presented, lastLists, if_pos (by simpa using most), embedFrom_nil]
    · have notShort : ¬ (last.length < 16 * 60 ∧ online.isFirstChunk = false) := by
        simpa [flags] using whole
      unfold lastLists
      split
      · rename_i one
        exact holds.forward_one left right sum final made notShort shape one
      · rename_i two
        exact holds.forward_two left right sum final made notShort shape most (by omega) (by omega)
  obtain ⟨answer, forwarded, presented⟩ := answered
  refine ⟨answer.online, ?_⟩
  simp only [utteranceCalls, forwards_append, returned, forwarded, presented, Option.bind_eq_bind,
    Option.bind_some, Option.pure_def]

end

/-! ## A context that is no `int` -/

/-- The lists of a last call to a new object, when `InitCache` has kept no rows. -/
def bareLists (parts : OnlineParts F α ρ K δ) (tail : List ρ) : List (List ρ) :=
  let rows := parts.embedFrom 0 tail
  [rows ++ List.replicate (wrap (parts.cif.chunkSize.total - tail.length)).toNat parts.zeroRow,
    parts.leftRows rows ++
      rows.drop (parts.cif.chunkSize.middle - parts.cif.chunkSize.right).toNat]

section
variable [Field K] [LinearOrder K] {parts : OnlineParts F α ρ K δ}
  (left : 0 ≤ parts.cif.chunkSize.left)
  (most : parts.cif.chunkSize.right ≤ parts.cif.chunkSize.middle)
  (large : 2 ^ 31 ≤ parts.cif.chunkSize.left + parts.cif.chunkSize.right)
include left most large

omit left most [LinearOrder K] in
theorem featsCache_fresh : parts.fresh.featsCache = [] := by
  have context := ChunkSize.context_neg large
  rw [fresh, show parts.cif.chunkSize.context.toNat = 0 by omega, List.replicate_zero]

omit left most in
/-- A call before the last one copies from before the beginning of its rows. -/
theorem forward_large {samples : List α} {rows : List ρ} {features : F}
    (extracted : parts.extractFeats parts.resetCache samples false = some (rows, features))
    (made : rows ≠ []) (int : rows.length < 2 ^ 31) :
    parts.forward parts.fresh ⟨samples, false, none⟩ = none := by
  rw [Option.eq_none_iff_forall_ne_some]
  intro answer returned
  obtain ⟨-, chunk, added⟩ := forward_caches returned extracted made
  obtain ⟨rfl, -, inside, -⟩ := addOverlapChunk_eq_some_iff.mp added
  rw [featsCache_fresh large, List.nil_append, length_embedFrom] at inside
  omega

omit most large left [LinearOrder K] [Field K] in
/-- No rows can be kept of fewer. -/
theorem overlap_short {online : ParaformerOnline F ρ K δ} (cached : online.featsCache = [])
    {wavFeats : List ρ} (short : wavFeats.length < parts.cif.chunkSize.left) :
    parts.overlap online wavFeats true = none := by
  have none : lastRows (online.featsCache ++ wavFeats) parts.cif.chunkSize.left = none := by
    rw [cached, List.nil_append]
    exact if_neg fun both => absurd both.2 (not_le.mpr short)
  simp only [overlap, addOverlapChunk, none, if_true, Option.bind_eq_bind, Option.bind_none]

/-- A last call with rows: as many of them as the left context at least, or it copies from before
    their beginning. -/
theorem forward_large_last (shape : parts.EncoderShape) {samples : List α} {tail : List ρ}
    {features : F}
    (extracted : parts.extractFeats parts.resetCache samples true = some (tail, features))
    (made : tail ≠ [])
    (few : tail.length ≤ 2 * parts.cif.chunkSize.middle - parts.cif.chunkSize.right) :
    (parts.forward parts.fresh ⟨samples, true, none⟩).map Answer.presented =
      if parts.cif.chunkSize.left ≤ tail.length then some (parts.bareLists tail) else none := by
  have bounds := parts.cif.chunkSize.isInt
  have first := bounds parts.cif.chunkSize.left (by simp)
  have second := bounds parts.cif.chunkSize.middle (by simp)
  have whole : ¬ (samples.length < 16 * 60 ∧ parts.fresh.isFirstChunk = false) := by
    simp [fresh]
  have rows := parts.length_embedFrom 0 tail
  rw [holds_fresh.forward_last extracted made whole, List.length_nil]
  unfold bareLists
  generalize parts.embedFrom 0 tail = wavFeats at rows ⊢
  have cached : parts.fresh.featsCache ++ wavFeats = wavFeats := by
    rw [featsCache_fresh large, List.nil_append]
  have sizes : sizeT (tail.length + parts.cif.chunkSize.right) =
      tail.length + parts.cif.chunkSize.right ∧
        sizeT parts.cif.chunkSize.middle = parts.cif.chunkSize.middle := by
    unfold sizeT
    exact ⟨Int.emod_eq_of_lt (by omega) (by omega), Int.emod_eq_of_lt (by omega) (by omega)⟩
  rw [sizes.1, sizes.2]
  by_cases long : parts.cif.chunkSize.left ≤ tail.length
  -- So many rows are too many for one list.
  · have inside : parts.cif.chunkSize.left ≤ (parts.fresh.featsCache ++ wavFeats).length := by
      rwa [cached, rows]
    have filled : parts.fresh.featsCache ++ wavFeats ≠ [] := by
      rw [cached, ← List.length_pos_iff, rows]
      exact List.length_pos_of_ne_nil made
    have cut : lastRows wavFeats (wavFeats.length + parts.cif.chunkSize.right -
        parts.cif.chunkSize.middle) = some (wavFeats.drop
          (parts.cif.chunkSize.middle - parts.cif.chunkSize.right).toNat) := by
      rw [lastRows_eq (by omega) (by omega)]
      congr 2
      omega
    obtain ⟨answer, returned, presented⟩ := @forwardTwo_some _ _ _ _ _ _ _ parts
      { parts.fresh with
        features := features
        startIdxCache := 0 + tail.length
        isFirstChunk := false } left shape parts.cif.initCache_sized rfl _ _ inside filled cut
    rw [if_neg (by omega), if_pos long, returned, Option.map_some, presented, ← rows]
    simp only [cached]
  · have none (online : ParaformerOnline F ρ K δ)
        (cached : online.featsCache = parts.fresh.featsCache) :
        parts.overlap online wavFeats true = none :=
      overlap_short (cached.trans (featsCache_fresh large)) (by omega)
    rw [if_neg long, Option.map_eq_none_iff]
    split
    · simp only [forwardOne, none, Option.bind_eq_bind, Option.bind_none]
    · simp only [forwardTwo, none, Option.bind_eq_bind, Option.bind_none]

/-- Only an utterance of one call can return. -/
theorem Utterance.forwards_large {chunks : List (List α)} {last : List α} {outputs : List (List ρ)}
    {tail : List ρ} (utterance : parts.Utterance chunks last outputs tail)
    (shape : parts.EncoderShape) {presented : List (List ρ)} :
    (∃ online, parts.forwards parts.fresh (utteranceCalls chunks last) = some (presented, online)) ↔
      outputs = [] ∧ parts.cif.chunkSize.left ≤ tail.length ∧ presented = parts.bareLists tail := by
  obtain ⟨features, extracted, final⟩ := utterance.ends
  cases chunks with
  | nil =>
    cases extracted
    obtain ⟨-, ⟨features', extracted⟩, made, few⟩ := final.resolve_left fun wrong => wrong.2.1 rfl
    have answered := forward_large_last left most large shape extracted made few
    simp only [utteranceCalls, List.map_nil, List.nil_append, OnlineParts.forwards,
      Option.bind_eq_bind, Option.pure_def, Option.bind_some, List.append_nil, true_and]
    cases returned : parts.forward parts.fresh ⟨last, true, none⟩ with
    | none =>
      rw [returned, Option.map_none, eq_comm, ite_eq_right_iff] at answered
      simp only [Option.bind_none, reduceCtorEq, exists_false, false_iff]
      exact fun both => nomatch answered both.1
    | some answer =>
      rw [returned, Option.map_some] at answered
      split at answered
      · rename_i long
        simp [long, Option.some.inj answered, eq_comm]
      · cases answered
  | cons samples chunks =>
    simp only [extractAll, Option.bind_eq_bind, Option.bind_eq_some_iff] at extracted
    obtain ⟨⟨rows, middle⟩, first, ⟨more, rest⟩, -, same⟩ := extracted
    cases same
    have full := utterance.full rows List.mem_cons_self
    have middle' := parts.cif.chunkSize.isInt parts.cif.chunkSize.middle (by simp)
    have left' := parts.cif.chunkSize.isInt parts.cif.chunkSize.left (by simp)
    have made : rows ≠ [] := by
      rw [← List.length_pos_iff]
      omega
    have none := forward_large large first made (by omega)
    simp [utteranceCalls, OnlineParts.forwards, none]

end

end OnlineParts

end Asr2Pass.Online
