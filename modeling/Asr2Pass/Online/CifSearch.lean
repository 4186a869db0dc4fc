import Mathlib.Data.List.OfFn
import Asr2Pass.Library.IntegrateAndFire

/-! # The predictor of the online recognizer

`CifSearch` cuts the encoder's rows into tokens: a token is complete when the weights of its rows
add up to `cif_threshold`.  What is left of a call is carried to the next one as one more row, its
mean, with its weight.  Weights are exact here.
-/

namespace Asr2Pass.Online

open Library (Charge Combination fire totalWeight)

/-- A number as an `int`. -/
def wrap (number : Int) : Int := number.bmod (2 ^ 32)

theorem wrap_eq {number : Int} (low : -2 ^ 31 ≤ number) (high : number < 2 ^ 31) :
    wrap number = number :=
  Int.bmod_eq_of_le (by omega) (by omega)

/-- A number too large by less than an `int` has numbers becomes negative. -/
theorem wrap_neg {number : Int} (low : 2 ^ 31 ≤ number) (high : number < 2 ^ 32) :
    wrap number < 0 := by
  rw [wrap, Int.bmod_def]
  omega

/-- The three entries of `chunk_size`, as the client sends them. -/
structure ChunkSize where
  left : Int
  middle : Int
  right : Int
  isInt : ∀ entry ∈ [left, middle, right], -2 ^ 31 ≤ entry ∧ entry < 2 ^ 31 := by decide
  deriving DecidableEq, Repr

namespace ChunkSize

variable (chunkSize : ChunkSize)

/-- How many rows `InitCache` makes. -/
def context : Int := wrap (chunkSize.left + chunkSize.right)

/-- `chunk_size_suf`. -/
def suffix : Int := wrap (chunkSize.left + chunkSize.middle)

/-- The sum of all entries. -/
def total : Int := wrap (chunkSize.suffix + chunkSize.right)

/-- The positions whose weights `CifSearch` keeps.  Its second loop compares a negative bound as an
    unsigned number, and then masks nothing. -/
def Scored (position : Nat) : Prop :=
  chunkSize.left ≤ position ∧ (0 ≤ chunkSize.suffix → position < chunkSize.suffix)

end ChunkSize

instance (chunkSize : ChunkSize) (position : Nat) : Decidable (chunkSize.Scored position) :=
  inferInstanceAs (Decidable (_ ∧ (_ → _)))

/-- The fields of `ParaformerOnline` that `CifSearch` reads. -/
structure CifConfig (K : Type*) where
  encoderSize : Nat
  cifThreshold : K
  tailAlphas : K
  chunkSize : ChunkSize

/-- `hidden_cache_` and `alphas_cache_`. -/
@[ext] structure CifCache (K : Type*) where
  hiddenCache : List (List K)
  alphasCache : List K
  deriving DecidableEq, Repr

section
variable {K : Type*} [Field K] [LinearOrder K]

/-- What `InitCache` puts into the cache. -/
def CifConfig.initCache (config : CifConfig K) : CifCache K where
  hiddenCache := [List.replicate config.encoderSize 0]
  alphasCache := [0]

/-- The two masking loops; none where the first one writes past the end. -/
def ChunkSize.maskAlphas (chunkSize : ChunkSize) (alphas : List K) : Option (List K) :=
  if alphas.length < chunkSize.left then
    none
  else
    some (alphas.mapIdx fun position alpha => if chunkSize.Scored position then alpha else 0)

/-- The variables of the firing loop. -/
@[ext] structure Firing (K : Type*) where
  intergrate : K
  frames : List K
  listFrame : List (List K)

/-- One turn of the firing loop; none where it reads past the end of the row. -/
def Firing.step (cifThreshold : K) (firing : Firing K) (row : List K) (alpha : K) :
    Option (Firing K) :=
  -- The row is read beyond its end.
  if row.length < firing.frames.length then
    none
  else if alpha + firing.intergrate < cifThreshold then
    some { firing with
      intergrate := firing.intergrate + alpha
      frames := List.zipWith (fun frame value => frame + alpha * value) firing.frames row }
  else
    -- The row completes a token: its weight is split at the threshold.
    let intergrate := firing.intergrate + alpha - cifThreshold
    some {
      intergrate := intergrate
      frames := (row.take firing.frames.length).map (intergrate * ·)
      listFrame := firing.listFrame ++
        [List.zipWith (fun frame value => frame + (cifThreshold - firing.intergrate) * value)
          firing.frames row] }

/-- The firing loop: one turn for every weight. -/
def Firing.loop (cifThreshold : K) : List (List K) → List K → Firing K → Option (Firing K)
  | _, [], firing => some firing
  | hidden, alpha :: alphas, firing => do
    Firing.loop cifThreshold hidden.tail alphas
      (← firing.step cifThreshold (hidden.headD []) alpha)

/-- What the loop leaves for the next call. -/
def Firing.cache (firing : Firing K) (cache : CifCache K) : CifCache K where
  hiddenCache := cache.hiddenCache ++
    [if 0 < firing.intergrate then firing.frames.map (· / firing.intergrate) else firing.frames]
  alphasCache := cache.alphasCache ++ [firing.intergrate]

/-- `CifSearch`: the complete tokens, and the cache after it. -/
def CifConfig.cifSearch (config : CifConfig K) (isLastChunk : Bool) (cache : CifCache K)
    (hidden : List (List K)) (alphas : List K) : Option (List (List K) × CifCache K) := do
  -- the size is that of the call's own first row
  let hiddenSize := (hidden.headD []).length
  let alphas ← config.chunkSize.maskAlphas alphas
  let (hidden, alphas, cache) :=
    if cache.hiddenCache.length > 0 then
      (cache.hiddenCache ++ hidden, cache.alphasCache ++ alphas, ⟨[], []⟩)
    else
      (hidden, alphas, cache)
  let (hidden, alphas) :=
    if isLastChunk then
      (hidden ++ [List.replicate hiddenSize 0], alphas ++ [config.tailAlphas])
    else
      (hidden, alphas)
  let firing ← Firing.loop config.cifThreshold hidden alphas ⟨0, List.replicate hiddenSize 0, []⟩
  return (firing.listFrame, firing.cache cache)

/-! ## Row sizes -/

/-- One row of the encoder's size, with its weight. -/
def CifCache.Sized (size : Nat) (cache : CifCache K) : Prop :=
  ∃ row alpha, cache = ⟨[row], [alpha]⟩ ∧ row.length = size

omit [LinearOrder K] in
theorem CifConfig.initCache_sized (config : CifConfig K) :
    config.initCache.Sized config.encoderSize :=
  ⟨_, _, rfl, List.length_replicate⟩

theorem Firing.step_some (cifThreshold alpha : K) {firing : Firing K} {row : List K}
    (size : firing.frames.length ≤ row.length) :
    ∃ next, firing.step cifThreshold row alpha = some next ∧
      next.frames.length = firing.frames.length := by
  unfold Firing.step
  rw [if_neg (not_lt.mpr size)]
  split
  · exact ⟨_, rfl, by simpa using size⟩
  · exact ⟨_, rfl, by simpa using size⟩

theorem Firing.loop_some {cifThreshold : K} {hidden : List (List K)} {alphas : List K}
    {firing : Firing K} (enough : alphas.length ≤ hidden.length)
    (sizes : ∀ row ∈ hidden, firing.frames.length ≤ row.length) :
    ∃ last, Firing.loop cifThreshold hidden alphas firing = some last ∧
      last.frames.length = firing.frames.length := by
  induction alphas generalizing hidden firing with
  | nil => exact ⟨firing, by simp [Firing.loop], rfl⟩
  | cons alpha alphas inductionHypothesis =>
    cases hidden with
    | nil => simp at enough
    | cons row hidden =>
      obtain ⟨first, rest⟩ := List.forall_mem_cons.mp sizes
      obtain ⟨next, stepped, size⟩ := Firing.step_some cifThreshold alpha first
      rw [← size] at rest
      obtain ⟨last, looped, same⟩ := inductionHypothesis (by simpa using enough) rest
      refine ⟨last, ?_, same.trans size⟩
      simp only [Firing.loop, List.headD_cons, List.tail_cons, stepped, Option.bind_eq_bind,
        Option.bind_some, looped]

/-- `CifSearch` stays inside its vectors when the encoder's rows have its size. -/
theorem CifConfig.cifSearch_some (config : CifConfig K) (isLastChunk : Bool) {cache : CifCache K}
    {hidden : List (List K)} {alphas : List K} (sized : cache.Sized config.encoderSize)
    (sizes : ∀ row ∈ hidden, row.length = config.encoderSize)
    (long : config.chunkSize.left ≤ alphas.length) (enough : alphas.length ≤ hidden.length) :
    ∃ listFrame next, config.cifSearch isLastChunk cache hidden alphas = some (listFrame, next) ∧
      (hidden ≠ [] → next.Sized config.encoderSize) := by
  obtain ⟨row, alpha, rfl, rowSize⟩ := sized
  have small : (hidden.headD []).length ≤ config.encoderSize := by
    cases hidden with
    | nil => exact Nat.zero_le _
    | cons first rest => exact (sizes first List.mem_cons_self).le
  have whole : hidden ≠ [] → (hidden.headD []).length = config.encoderSize := by
    intro filled
    cases hidden with
    | nil => exact absurd rfl filled
    | cons first rest => exact sizes first List.mem_cons_self
  unfold CifConfig.cifSearch ChunkSize.maskAlphas
  rw [if_neg (not_lt.mpr long)]
  generalize (hidden.headD []).length = hiddenSize at small whole
  generalize masked : alphas.mapIdx (fun position alpha =>
    if config.chunkSize.Scored position then alpha else 0) = weights
  have count : weights.length = alphas.length := by
    rw [← masked, List.length_mapIdx]
  have inside : ∀ other ∈ row :: hidden, hiddenSize ≤ other.length := by
    intro other member
    cases member with
    | head => exact rowSize ▸ small
    | tail _ later => exact (sizes other later) ▸ small
  have looped : ∃ last, Firing.loop config.cifThreshold
      (row :: hidden ++ if isLastChunk then [List.replicate hiddenSize 0] else [])
      (alpha :: weights ++ if isLastChunk then [config.tailAlphas] else [])
      ⟨0, List.replicate hiddenSize 0, []⟩ = some last ∧
        last.frames.length = (List.replicate hiddenSize (0 : K)).length := by
    apply Firing.loop_some
    · cases isLastChunk with
      | false => simp [count, enough]
      | true => simp [count, enough]
    · intro other member
      rw [List.length_replicate]
      cases List.mem_append.mp member with
      | inl old => exact inside other old
      | inr tail =>
        cases isLastChunk with
        | false => cases tail
        | true => rw [List.mem_singleton.mp tail, List.length_replicate]
  obtain ⟨last, looped, size⟩ := looped
  rw [List.length_replicate] at size
  refine ⟨last.listFrame, last.cache ⟨[], []⟩, ?_, ?_⟩
  · cases isLastChunk with
    | false =>
      simp only [Bool.false_eq_true, if_false, List.append_nil] at looped
      simp [looped]
    | true =>
      simp only [if_true, List.cons_append] at looped
      simp [looped]
  · intro filled
    refine ⟨_, _, rfl, ?_⟩
    rw [← whole filled, ← size]
    split <;> simp

end

/-! ## Calls -/

/-- The rows of one call, with the weights as the encoder gives them. -/
structure CifCall (dimension : Nat) (K : Type*) where
  rows : List ((Fin dimension → K) × K)
  isLastChunk : Bool

section
variable {K : Type*} [Field K] [LinearOrder K]

/-- The rows with the weights that count. -/
def ChunkSize.maskRows {V : Type*} (chunkSize : ChunkSize) (rows : List (V × K)) : List (V × K) :=
  rows.mapIdx fun position row => (row.1, if chunkSize.Scored position then row.2 else 0)

/-- The call's part of the sequence, with the tail in the last chunk. -/
def CifCall.pairs (config : CifConfig K) (call : CifCall config.encoderSize K) :
    List ((Fin config.encoderSize → K) × K) :=
  config.chunkSize.maskRows call.rows ++
    if call.isLastChunk then [(0, config.tailAlphas)] else []

def CifConfig.call (config : CifConfig K) (cache : CifCache K)
    (call : CifCall config.encoderSize K) : Option (List (List K) × CifCache K) :=
  config.cifSearch call.isLastChunk cache (call.rows.map fun row => List.ofFn row.1)
    (call.rows.map (·.2))

/-- Successive calls: all their tokens, and the cache after them. -/
def CifConfig.run (config : CifConfig K) :
    CifCache K → List (CifCall config.encoderSize K) → Option (List (List K) × CifCache K)
  | cache, [] => some ([], cache)
  | cache, call :: rest => do
    let (frames, next) ← config.call cache call
    let (more, last) ← config.run next rest
    return (frames ++ more, last)

end

end Asr2Pass.Online
