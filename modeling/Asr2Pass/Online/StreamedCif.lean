import Mathlib.Data.Rat.Floor
import Asr2Pass.Online.CifSearch

/-! # Cutting a sequence into calls of the predictor

The cache is a charge written as one weighted row, so a call with rows continues the pass over the
whole sequence where the call before it stopped.  A call without rows takes its row size from
itself and not from the cache: it drops the carried vector.
-/

namespace Asr2Pass.Online

open Library (Charge Combination fire totalWeight)

section
variable {K : Type*} [Field K] {dimension : Nat} (frames row : Fin dimension → K)

theorem zipWith_ofFn (weight : K) :
    List.zipWith (fun frame value => frame + weight * value) (List.ofFn frames) (List.ofFn row) =
      List.ofFn (frames + weight • row) := by
  apply List.ext_getElem
  · simp
  · intro position left right
    simp

theorem map_mul_ofFn (weight : K) :
    (List.ofFn row).map (weight * ·) = List.ofFn (weight • row) := by
  apply List.ext_getElem
  · simp
  · intro position left right
    simp

theorem map_div_ofFn (weight : K) :
    (List.ofFn row).map (· / weight) = List.ofFn (weight⁻¹ • row) := by
  apply List.ext_getElem
  · simp
  · intro position left right
    simp [div_eq_inv_mul]

end

/-! ## The rows of a call -/

/-- The first row of the call tells its size. -/
def CifCall.Sized {dimension : Nat} (call : CifCall dimension K) : Prop :=
  0 < dimension → call.rows ≠ []

instance {dimension : Nat} (call : CifCall dimension K) : Decidable call.Sized :=
  inferInstanceAs (Decidable (_ → call.rows ≠ []))

theorem CifCall.Sized.hiddenSize {dimension : Nat} {call : CifCall dimension K}
    (sized : call.Sized) :
    ((call.rows.map fun row => List.ofFn row.1).headD []).length = dimension := by
  cases rows : call.rows with
  | nil =>
    have zero : dimension = 0 := by
      by_contra some
      exact sized (Nat.pos_of_ne_zero some) rows
    simp [zero]
  | cons row rest => simp

section
variable {K : Type*} [Field K]

theorem maskAlphas_eq {V : Type*} (chunkSize : ChunkSize) (rows : List (V × K)) :
    chunkSize.maskAlphas (rows.map (·.2)) =
      if rows.length < chunkSize.left then none
      else some ((chunkSize.maskRows rows).map (·.2)) := by
  unfold ChunkSize.maskAlphas ChunkSize.maskRows
  rw [List.length_map]
  split
  · rfl
  · congr 1
    apply List.ext_getElem
    · simp
    · intro position left right
      simp

theorem maskRows_rows {V W : Type*} (chunkSize : ChunkSize) (rows : List (V × K)) (view : V → W) :
    ((chunkSize.maskRows rows).map fun row => view row.1) = rows.map fun row => view row.1 := by
  apply List.ext_getElem
  · simp [ChunkSize.maskRows]
  · intro position left right
    simp [ChunkSize.maskRows]

end

section
variable {K : Type*} [Field K] [LinearOrder K]

/-! ## The loop is a pass -/

section
variable {dimension : Nat} (threshold : K) (charge : Charge K (Fin dimension → K))

/-- A charge as the variables of the loop. -/
def Firing.ofCharge (listFrame : List (List K)) : Firing K :=
  ⟨charge.level, List.ofFn charge.vector, listFrame⟩

theorem Firing.step_ofCharge (listFrame : List (List K)) (row : Fin dimension → K) (alpha : K) :
    (Firing.ofCharge charge listFrame).step threshold (List.ofFn row) alpha =
      some (Firing.ofCharge (charge.integrate threshold row alpha).2
        (listFrame ++ (charge.integrate threshold row alpha).1.toList.map List.ofFn)) := by
  unfold Firing.step Charge.integrate
  rw [if_neg (by simp [Firing.ofCharge])]
  by_cases less : alpha + charge.level < threshold
  · simp [Firing.ofCharge, less, zipWith_ofFn]
  · have whole : (List.ofFn row).take (List.ofFn charge.vector).length = List.ofFn row := by
      simp
    simp only [Firing.ofCharge, if_neg less, zipWith_ofFn, whole, map_mul_ofFn, Option.toList_some,
      List.map_cons, List.map_nil]

theorem Firing.loop_ofCharge (listFrame : List (List K))
    (pairs : List ((Fin dimension → K) × K)) :
    Firing.loop threshold (pairs.map fun pair => List.ofFn pair.1) (pairs.map (·.2))
        (Firing.ofCharge charge listFrame) =
      some (Firing.ofCharge (fire threshold charge pairs).2
        (listFrame ++ (fire threshold charge pairs).1.map List.ofFn)) := by
  induction pairs generalizing charge listFrame with
  | nil => simp [Firing.loop]
  | cons pair pairs inductionHypothesis =>
    obtain ⟨row, alpha⟩ := pair
    simp only [List.map_cons, Firing.loop, List.headD_cons, List.tail_cons, Firing.step_ofCharge,
      Option.bind_eq_bind, Option.bind_some, inductionHypothesis, Library.fire_cons,
      List.map_append, List.append_assoc]

end

/-! ## One call -/

variable {config : CifConfig K}

/-- A charge as it is carried from one call to the next. -/
def CifCache.ofCharge {dimension : Nat} (charge : Charge K (Fin dimension → K)) : CifCache K :=
  ⟨[List.ofFn charge.mean], [charge.level]⟩

theorem initCache_eq : config.initCache =
    CifCache.ofCharge (Charge.empty : Charge K (Fin config.encoderSize → K)) := by
  have zeros : List.replicate config.encoderSize (0 : K) =
      List.ofFn (fun _ : Fin config.encoderSize => (0 : K)) := by
    simp
  ext1
  · simp only [CifConfig.initCache, CifCache.ofCharge, Charge.mean, Charge.empty, lt_irrefl,
      if_false, zeros]
    rfl
  · rfl

theorem Firing.cache_ofCharge {dimension : Nat} (charge : Charge K (Fin dimension → K))
    (listFrame : List (List K)) :
    (Firing.ofCharge charge listFrame).cache ⟨[], []⟩ = CifCache.ofCharge charge := by
  unfold Firing.cache CifCache.ofCharge Charge.mean Firing.ofCharge
  split
  · simp only [map_div_ofFn, List.nil_append]
  · simp only [List.nil_append]

omit [LinearOrder K] in
theorem CifCall.pairs_rows (call : CifCall config.encoderSize K) :
    ((call.pairs config).map fun pair => List.ofFn pair.1) =
      (call.rows.map fun row => List.ofFn row.1) ++
        if call.isLastChunk then [List.replicate config.encoderSize 0] else [] := by
  unfold CifCall.pairs
  rw [List.map_append, maskRows_rows config.chunkSize call.rows List.ofFn]
  cases call.isLastChunk with
  | false => rfl
  | true => simp [Pi.zero_def]

omit [LinearOrder K] in
theorem CifCall.pairs_weights (call : CifCall config.encoderSize K) :
    (call.pairs config).map (·.2) =
      (config.chunkSize.maskRows call.rows).map (·.2) ++
        if call.isLastChunk then [config.tailAlphas] else [] := by
  unfold CifCall.pairs
  rw [List.map_append]
  cases call.isLastChunk with
  | false => rfl
  | true => rfl

/-- A call with rows goes on with the pass. -/
theorem call_sized [IsStrictOrderedRing K] {charge : Charge K (Fin config.encoderSize → K)}
    {call : CifCall config.encoderSize K} (carried : charge.Carried config.cifThreshold)
    (sized : call.Sized) (long : config.chunkSize.left ≤ call.rows.length) :
    config.call (.ofCharge charge) call =
      some ((fire config.cifThreshold charge (call.pairs config)).1.map List.ofFn,
        .ofCharge (fire config.cifThreshold charge (call.pairs config)).2) := by
  have begun : (⟨0, List.replicate config.encoderSize 0, []⟩ : Firing K) =
      Firing.ofCharge (Charge.empty : Charge K (Fin config.encoderSize → K)) [] := by
    simp [Firing.ofCharge, Charge.empty, Pi.zero_def]
  have hidden : (if call.isLastChunk then
        ((CifCache.ofCharge charge).hiddenCache ++ (call.rows.map fun row => List.ofFn row.1) ++
            [List.replicate config.encoderSize 0],
          (CifCache.ofCharge charge).alphasCache ++
            (config.chunkSize.maskRows call.rows).map (·.2) ++ [config.tailAlphas])
      else
        ((CifCache.ofCharge charge).hiddenCache ++ call.rows.map fun row => List.ofFn row.1,
          (CifCache.ofCharge charge).alphasCache ++
            (config.chunkSize.maskRows call.rows).map (·.2))) =
      (((charge.mean, charge.level) :: call.pairs config).map fun pair => List.ofFn pair.1,
        ((charge.mean, charge.level) :: call.pairs config).map (·.2)) := by
    rw [List.map_cons, List.map_cons, CifCall.pairs_rows, CifCall.pairs_weights]
    cases call.isLastChunk with
    | false => simp [CifCache.ofCharge]
    | true => simp [CifCache.ofCharge]
  -- The carried row is there, so its size is that of the rows behind it.
  have some : (CifCache.ofCharge charge).hiddenCache.length > 0 := by
    simp [CifCache.ofCharge]
  unfold CifConfig.call CifConfig.cifSearch
  simp only [maskAlphas_eq, if_neg (not_lt.mpr long), sized.hiddenSize, Option.bind_eq_bind,
    Option.bind_some, if_pos some, hidden, begun, Firing.loop_ofCharge, Library.fire_mean carried,
    List.nil_append, Firing.cache_ofCharge]
  rfl

/-- A call without rows: the tokens it completes are empty, and so is the row it leaves. -/
theorem call_bare {charge : Charge K (Fin config.encoderSize → K)} {row : List K}
    {call : CifCall config.encoderSize K} (carried : charge.Carried config.cifThreshold)
    (bare : call.rows = []) (long : config.chunkSize.left ≤ 0) :
    config.call ⟨[row], [charge.level]⟩ call =
      some ((fire config.cifThreshold charge (call.pairs config)).1.map fun _ => [],
        ⟨[[]], [(fire config.cifThreshold charge (call.pairs config)).2.level]⟩) := by
  have below : charge.level < config.cifThreshold := carried.below
  have inside : ¬ 0 < config.chunkSize.left := not_lt.mpr long
  unfold CifConfig.call CifConfig.cifSearch CifCall.pairs
  simp only [bare, maskAlphas_eq, ChunkSize.maskRows]
  cases call.isLastChunk with
  | false => simp [Firing.loop, Firing.step, Firing.cache, below, inside]
  | true =>
    by_cases less : config.tailAlphas + charge.level < config.cifThreshold
    · simp [Firing.loop, Firing.step, Firing.cache, Charge.integrate, below, inside, less]
    · simp [Firing.loop, Firing.step, Firing.cache, Charge.integrate, below, inside, less]

/-- After it, a call with rows reads past the end of the row that was left. -/
theorem call_stuck {level : K} {call : CifCall config.encoderSize K}
    (dimension : 0 < config.encoderSize) (filled : call.rows ≠ []) :
    config.call ⟨[[]], [level]⟩ call = none := by
  have sized : call.Sized := fun _ => filled
  unfold CifConfig.call CifConfig.cifSearch
  simp only [maskAlphas_eq, sized.hiddenSize]
  split
  · rfl
  · cases call.isLastChunk with
    | false => simp [Firing.loop, Firing.step, dimension]
    | true => simp [Firing.loop, Firing.step, dimension]

/-- A call with too few rows writes past the end of the weights. -/
theorem call_short {cache : CifCache K} {call : CifCall config.encoderSize K}
    (short : call.rows.length < config.chunkSize.left) : config.call cache call = none := by
  unfold CifConfig.call CifConfig.cifSearch
  rw [maskAlphas_eq, if_pos short]
  rfl

/-! ## Successive calls -/

/-- The whole sequence. -/
def CifConfig.allPairs (config : CifConfig K) (calls : List (CifCall config.encoderSize K)) :
    List ((Fin config.encoderSize → K) × K) :=
  calls.flatMap (·.pairs config)

variable {calls first second : List (CifCall config.encoderSize K)}

omit [LinearOrder K] in
theorem allPairs_append :
    config.allPairs (first ++ second) = config.allPairs first ++ config.allPairs second :=
  List.flatMap_append

/-- The weights that count lie between nothing and the threshold. -/
def CifConfig.Bounded (config : CifConfig K) (calls : List (CifCall config.encoderSize K)) : Prop :=
  ∀ pair ∈ config.allPairs calls, 0 ≤ pair.2 ∧ pair.2 ≤ config.cifThreshold

omit [LinearOrder K] in
theorem allPairs_cons {call : CifCall config.encoderSize K} :
    config.allPairs (call :: calls) = call.pairs config ++ config.allPairs calls := rfl

theorem bounded_append :
    config.Bounded (first ++ second) ↔ config.Bounded first ∧ config.Bounded second := by
  unfold CifConfig.Bounded
  rw [allPairs_append]
  exact List.forall_mem_append

theorem bounded_cons {call : CifCall config.encoderSize K} :
    config.Bounded (call :: calls) ↔
      (∀ pair ∈ call.pairs config, 0 ≤ pair.2 ∧ pair.2 ≤ config.cifThreshold) ∧
        config.Bounded calls :=
  List.forall_mem_append

theorem run_append (cache : CifCache K) :
    config.run cache (first ++ second) = (do
      let (frames, next) ← config.run cache first
      let (more, last) ← config.run next second
      return (frames ++ more, last)) := by
  induction first generalizing cache with
  | nil => simp [CifConfig.run]
  | cons call first inductionHypothesis =>
    simp only [List.cons_append, CifConfig.run, inductionHypothesis, Option.bind_eq_bind,
      Option.pure_def, Option.bind_assoc, Option.bind_some, List.append_assoc]

theorem run_short {call : CifCall config.encoderSize K} (member : call ∈ calls)
    (short : call.rows.length < config.chunkSize.left) (cache : CifCache K) :
    config.run cache calls = none := by
  induction calls generalizing cache with
  | nil => cases member
  | cons head calls inductionHypothesis =>
    rw [CifConfig.run]
    cases member with
    | head => simp [call_short short]
    | tail _ later => simp [inductionHypothesis later]

/-- Once a call has left an empty row, no call with rows returns. -/
theorem run_stuck [IsStrictOrderedRing K] {charge : Charge K (Fin config.encoderSize → K)}
    {call : CifCall config.encoderSize K} (dimension : 0 < config.encoderSize)
    (carried : charge.Carried config.cifThreshold) (bounded : config.Bounded calls)
    (member : call ∈ calls) (filled : call.rows ≠ []) :
    config.run ⟨[[]], [charge.level]⟩ calls = none := by
  induction calls generalizing charge with
  | nil => cases member
  | cons head calls inductionHypothesis =>
    obtain ⟨headBounded, restBounded⟩ := bounded_cons.mp bounded
    rw [CifConfig.run]
    by_cases bare : head.rows = []
    · have later : call ∈ calls := by
        cases member with
        | head => exact absurd bare filled
        | tail _ later => exact later
      by_cases long : config.chunkSize.left ≤ 0
      · simp [call_bare carried bare long,
          inductionHypothesis (carried.fire headBounded) restBounded later]
      · have short : (head.rows.length : Int) < config.chunkSize.left := by
          rw [bare]
          exact not_le.mp long
        simp [call_short short]
    · simp [call_stuck dimension bare]

theorem run_sized [IsStrictOrderedRing K] {charge : Charge K (Fin config.encoderSize → K)}
    (carried : charge.Carried config.cifThreshold) (bounded : config.Bounded calls)
    (sized : ∀ call ∈ calls, call.Sized)
    (long : ∀ call ∈ calls, config.chunkSize.left ≤ call.rows.length) :
    config.run (.ofCharge charge) calls =
      some ((fire config.cifThreshold charge (config.allPairs calls)).1.map List.ofFn,
        .ofCharge (fire config.cifThreshold charge (config.allPairs calls)).2) := by
  induction calls generalizing charge with
  | nil => rfl
  | cons call calls inductionHypothesis =>
    obtain ⟨callBounded, restBounded⟩ := bounded_cons.mp bounded
    obtain ⟨callSized, restSized⟩ := List.forall_mem_cons.mp sized
    obtain ⟨callLong, restLong⟩ := List.forall_mem_cons.mp long
    have rest := inductionHypothesis (carried.fire callBounded) restBounded restSized restLong
    rw [CifConfig.run, call_sized carried callSized callLong, allPairs_cons, Library.fire_append]
    simp [rest]

theorem run_bare [IsStrictOrderedRing K] {charge : Charge K (Fin config.encoderSize → K)}
    (carried : charge.Carried config.cifThreshold) (bounded : config.Bounded calls)
    (bare : ∀ call ∈ calls, call.rows = [])
    (long : ∀ call ∈ calls, config.chunkSize.left ≤ call.rows.length) (row : List K) :
    ∃ left, config.run ⟨[row], [charge.level]⟩ calls =
      some ((fire config.cifThreshold charge (config.allPairs calls)).1.map fun _ => [],
        ⟨[left], [(fire config.cifThreshold charge (config.allPairs calls)).2.level]⟩) := by
  induction calls generalizing charge row with
  | nil => exact ⟨row, rfl⟩
  | cons call calls inductionHypothesis =>
    obtain ⟨callBounded, restBounded⟩ := bounded_cons.mp bounded
    obtain ⟨callBare, restBare⟩ := List.forall_mem_cons.mp bare
    obtain ⟨callLong, restLong⟩ := List.forall_mem_cons.mp long
    rw [callBare] at callLong
    obtain ⟨left, rest⟩ :=
      inductionHypothesis (carried.fire callBounded) restBounded restBare restLong []
    refine ⟨left, ?_⟩
    rw [CifConfig.run, call_bare carried callBare callLong, allPairs_cons, Library.fire_append]
    simp [rest]

/-- The calls from `InitCache` on give what one pass over the whole sequence gives. -/
structure OnePass (config : CifConfig K) (calls : List (CifCall config.encoderSize K))
    [FloorRing K] (emitted : List (List K)) (cache : CifCache K) : Prop where
  frames : emitted =
    (fire config.cifThreshold Charge.empty (config.allPairs calls)).1.map List.ofFn
  count : (emitted.length : Int) = ⌊totalWeight (config.allPairs calls) / config.cifThreshold⌋
  combination : ∀ frame ∈ emitted, ∃ vector,
    Combination ((config.allPairs calls).map (·.1)) config.cifThreshold vector ∧
      frame = List.ofFn vector
  carried : ∃ alpha, cache.alphasCache = [alpha] ∧ 0 ≤ alpha ∧ alpha < config.cifThreshold

/-- Every call has the rows that are masked on the left, and the calls that have none come last and
    complete no token. -/
def CifConfig.KeepsSize (config : CifConfig K) [FloorRing K]
    (calls : List (CifCall config.encoderSize K)) : Prop :=
  (∀ call ∈ calls, config.chunkSize.left ≤ call.rows.length) ∧
    ∃ sized bare, calls = sized ++ bare ∧ (∀ call ∈ sized, call.Sized) ∧
      (∀ call ∈ bare, ¬ call.Sized) ∧
      ⌊totalWeight (config.allPairs sized) / config.cifThreshold⌋ =
        ⌊totalWeight (config.allPairs calls) / config.cifThreshold⌋

omit [Field K] [LinearOrder K] in
theorem not_sized {dimension : Nat} {call : CifCall dimension K} :
    ¬ call.Sized ↔ 0 < dimension ∧ call.rows = [] := by
  simp [CifCall.Sized]

omit [Field K] [LinearOrder K] in
/-- The calls up to the first one without rows. -/
theorem exists_sized (calls : List (CifCall config.encoderSize K)) :
    ∃ sized bare, calls = sized ++ bare ∧ (∀ call ∈ sized, call.Sized) ∧
      ∀ call ∈ bare.head?, ¬ call.Sized := by
  refine ⟨calls.takeWhile (·.Sized), calls.dropWhile (·.Sized),
    List.takeWhile_append_dropWhile.symm, ?_, ?_⟩
  · intro call member
    have holds := List.all_eq_true.mp
      (List.all_takeWhile (p := fun call : CifCall config.encoderSize K => call.Sized)) call member
    simpa using holds
  · intro call first
    have fails := List.head?_dropWhile_not (fun call : CifCall config.encoderSize K => call.Sized)
      calls
    rw [Option.mem_def.mp first] at fails
    simpa using fails

variable [IsStrictOrderedRing K] [FloorRing K]

theorem fire_count (positive : 0 < config.cifThreshold) (bounded : config.Bounded calls) :
    ((fire config.cifThreshold Charge.empty (config.allPairs calls)).1.length : Int) =
      ⌊totalWeight (config.allPairs calls) / config.cifThreshold⌋ := by
  have count := Library.fire_length positive
    (Charge.carried_empty (V := Fin config.encoderSize → K) positive) bounded
  rwa [show (Charge.empty : Charge K (Fin config.encoderSize → K)).level = 0 from rfl,
    zero_add] at count

omit [FloorRing K] in
/-- What calls return when those without rows come last. -/
theorem run_split {sized bare : List (CifCall config.encoderSize K)}
    (positive : 0 < config.cifThreshold) (bounded : config.Bounded (sized ++ bare))
    (filled : ∀ call ∈ sized, call.Sized) (empty : ∀ call ∈ bare, ¬ call.Sized)
    (long : ∀ call ∈ sized ++ bare, config.chunkSize.left ≤ call.rows.length) :
    ∃ row, config.run config.initCache (sized ++ bare) =
      some ((fire config.cifThreshold Charge.empty (config.allPairs sized)).1.map List.ofFn ++
          (fire config.cifThreshold
            (fire config.cifThreshold Charge.empty (config.allPairs sized)).2
            (config.allPairs bare)).1.map (fun _ => []),
        ⟨[row], [(fire config.cifThreshold (Charge.empty : Charge K (Fin config.encoderSize → K))
          (config.allPairs (sized ++ bare))).2.level]⟩) := by
  obtain ⟨sizedBounded, bareBounded⟩ := bounded_append.mp bounded
  obtain ⟨sizedLong, bareLong⟩ := List.forall_mem_append.mp long
  have begun : (Charge.empty : Charge K (Fin config.encoderSize → K)).Carried
      config.cifThreshold := Charge.carried_empty positive
  have first := run_sized begun sizedBounded filled sizedLong
  obtain ⟨row, second⟩ := run_bare (begun.fire sizedBounded) bareBounded
    (fun call member => (not_sized.mp (empty call member)).2) bareLong
    (List.ofFn (fire config.cifThreshold Charge.empty (config.allPairs sized)).2.mean)
  refine ⟨row, ?_⟩
  rw [run_append, initCache_eq, first, allPairs_append, Library.fire_append]
  simp [CifCache.ofCharge, second]

omit [FloorRing K] in
/-- When calls return, those without rows come last. -/
theorem bare_of_run {sized bare : List (CifCall config.encoderSize K)}
    {result : List (List K) × CifCache K} (positive : 0 < config.cifThreshold)
    (bounded : config.Bounded (sized ++ bare)) (filled : ∀ call ∈ sized, call.Sized)
    (first : ∀ call ∈ bare.head?, ¬ call.Sized)
    (long : ∀ call ∈ sized ++ bare, config.chunkSize.left ≤ call.rows.length)
    (ran : config.run config.initCache (sized ++ bare) = some result) :
    ∀ call ∈ bare, ¬ call.Sized := by
  cases bare with
  | nil => simp
  | cons call rest =>
    obtain ⟨dimension, callBare⟩ := not_sized.mp (first call rfl)
    intro other member
    apply not_sized.mpr
    refine ⟨dimension, ?_⟩
    by_contra otherFilled
    have later : other ∈ rest := by
      cases member with
      | head => exact absurd callBare otherFilled
      | tail _ later => exact later
    obtain ⟨sizedBounded, bareBounded⟩ := bounded_append.mp bounded
    obtain ⟨callBounded, restBounded⟩ := bounded_cons.mp bareBounded
    obtain ⟨sizedLong, bareLong⟩ := List.forall_mem_append.mp long
    have callLong := bareLong call List.mem_cons_self
    rw [callBare] at callLong
    have begun : (Charge.empty : Charge K (Fin config.encoderSize → K)).Carried
        config.cifThreshold := Charge.carried_empty positive
    have before := begun.fire sizedBounded
    have after := before.fire callBounded
    -- Behind a call without rows the frame has no size, and a row is read beyond its end.
    have stuck : config.run (.ofCharge
        (fire config.cifThreshold Charge.empty (config.allPairs sized)).2) (call :: rest) = none := by
      rw [CifConfig.run, CifCache.ofCharge, call_bare before callBare callLong]
      simp [run_stuck dimension after restBounded later otherFilled]
    rw [run_append, initCache_eq, run_sized begun sizedBounded filled sizedLong] at ran
    simp [stuck] at ran

/-- The passes over a sequence and over its beginning give the same number of tokens. -/
theorem counts_iff (positive : 0 < config.cifThreshold)
    (bounded : config.Bounded (first ++ second)) :
    ⌊totalWeight (config.allPairs first) / config.cifThreshold⌋ =
        ⌊totalWeight (config.allPairs (first ++ second)) / config.cifThreshold⌋ ↔
      (fire config.cifThreshold (fire config.cifThreshold Charge.empty (config.allPairs first)).2
        (config.allPairs second)).1 = [] := by
  rw [← fire_count positive (bounded_append.mp bounded).1, ← fire_count positive bounded,
    allPairs_append, Library.fire_append, List.length_append, ← List.length_eq_zero_iff]
  omega

omit [LinearOrder K] [IsStrictOrderedRing K] [FloorRing K] [Field K] in
/-- Tokens of the full size are not empty ones. -/
theorem tokens_eq {dimension : Nat} (positive : 0 < dimension) {tokens : List (Fin dimension → K)}
    (same : (tokens.map fun _ => ([] : List K)) = tokens.map List.ofFn) : tokens = [] := by
  cases tokens with
  | nil => rfl
  | cons token tokens =>
    have lengths := congrArg (fun rows => (rows.headD []).length) same
    simp only [List.map_cons, List.headD_cons, List.length_nil, List.length_ofFn] at lengths
    omega

/-- Streaming is one pass if and only if no call without rows comes before one with rows or
    completes a token. -/
theorem streamed_iff (positive : 0 < config.cifThreshold) (bounded : config.Bounded calls) :
    (∃ emitted cache, config.run config.initCache calls = some (emitted, cache) ∧
      OnePass config calls emitted cache) ↔ config.KeepsSize calls := by
  -- A call that is too short throws, so in a run that returns only the rows' size can be wrong.
  constructor
  · rintro ⟨emitted, cache, ran, onePass⟩
    have long : ∀ call ∈ calls, config.chunkSize.left ≤ call.rows.length := by
      intro call member
      by_contra short
      rw [run_short member (not_le.mp short)] at ran
      cases ran
    obtain ⟨sized, bare, rfl, filled, head⟩ := exists_sized calls
    have empty := bare_of_run positive bounded filled head long ran
    refine ⟨long, sized, bare, rfl, filled, empty, ?_⟩
    obtain ⟨row, split⟩ := run_split positive bounded filled empty long
    rw [split] at ran
    cases ran
    have frames := onePass.frames
    rw [allPairs_append, Library.fire_append, List.map_append] at frames
    apply (counts_iff positive bounded).mpr
    cases bare with
    | nil => rfl
    | cons call rest =>
      have dimension := (not_sized.mp (empty call List.mem_cons_self)).1
      exact tokens_eq dimension (List.append_cancel_left frames)
  · rintro ⟨long, sized, bare, rfl, filled, empty, counts⟩
    obtain ⟨row, split⟩ := run_split positive bounded filled empty long
    -- Conversely the calls without a size fire nothing, so what is emitted is one pass.
    have none := (counts_iff positive bounded).mp counts
    have begun : (Charge.empty : Charge K (Fin config.encoderSize → K)).Carried
        config.cifThreshold := Charge.carried_empty positive
    have emitted : (fire config.cifThreshold Charge.empty (config.allPairs sized)).1.map List.ofFn ++
        (fire config.cifThreshold (fire config.cifThreshold Charge.empty (config.allPairs sized)).2
            (config.allPairs bare)).1.map (fun _ => []) =
          (fire config.cifThreshold Charge.empty (config.allPairs (sized ++ bare))).1.map
            List.ofFn := by
      rw [allPairs_append, Library.fire_append, none, List.append_nil, List.map_nil,
        List.append_nil]
    have combination := Library.fire_combination begun
      (Combination.zero ([] : List (Fin config.encoderSize → K))) bounded
    have carried := begun.fire bounded
    rw [emitted] at split
    refine ⟨_, _, split, rfl, ?_, ?_, ⟨_, rfl, carried.nonneg, carried.below⟩⟩
    · rw [List.length_map]
      exact fire_count positive bounded
    · intro frame member
      obtain ⟨vector, fired, rfl⟩ := List.mem_map.mp member
      exact ⟨vector, combination.1 vector fired, rfl⟩

end

/-! ## Two cuttings -/

/-- Rows of size one, and no context. -/
def smallConfig : CifConfig ℚ := ⟨1, 1, 9 / 20, { left := 0, middle := 10, right := 0 }⟩

theorem streamed_iff_twoRows :
    ∃ emitted cache, smallConfig.run smallConfig.initCache
        [⟨[(1, 3 / 5)], false⟩, ⟨[(1, 1 / 2)], true⟩] = some (emitted, cache) ∧
      OnePass smallConfig [⟨[(1, 3 / 5)], false⟩, ⟨[(1, 1 / 2)], true⟩] emitted cache := by
  apply (streamed_iff (by decide +kernel) ?_).mpr
  · refine ⟨by decide +kernel, _, [], (List.append_nil _).symm, by decide +kernel, by simp, rfl⟩
  · intro pair member
    revert pair
    decide +kernel

/-- The last call completes a token without rows of its own: the token is empty. -/
theorem not_streamed_bareTail :
    smallConfig.Bounded [⟨[(1, 3 / 5)], false⟩, ⟨[], true⟩] ∧
      ¬ ∃ emitted cache, smallConfig.run smallConfig.initCache
          [⟨[(1, 3 / 5)], false⟩, ⟨[], true⟩] = some (emitted, cache) ∧
        OnePass smallConfig [⟨[(1, 3 / 5)], false⟩, ⟨[], true⟩] emitted cache := by
  constructor
  · intro pair member
    revert pair
    decide +kernel
  · rintro ⟨emitted, cache, ran, onePass⟩
    have empty : smallConfig.run smallConfig.initCache [⟨[(1, 3 / 5)], false⟩, ⟨[], true⟩] =
        some ([[]], ⟨[[]], [1 / 20]⟩) := by
      decide +kernel
    rw [empty] at ran
    cases ran
    have frames := onePass.frames
    revert frames
    decide +kernel

end Asr2Pass.Online
