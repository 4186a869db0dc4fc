import Asr2Pass.Frontend.Lfr

/-! # Online rows are the offline rows

`Keeps` is what `OnlineLfrCmvn` keeps from call to call: the rows so far are the first
rows of the padded frames, and the cache is the frames from the next row on.
-/

namespace Asr2Pass.Frontend

open Library

variable {β : Type}

section
variable [Add β] [Mul β]

/-- Calls that are not the last one: the rows, and the cache they leave. -/
def onlineRows (lfr : LfrOptions) (cmvn : Cmvn β) (cache : List (List β)) :
    List (List (List β)) → Option (List (List β) × List (List β))
  | [] => some ([], cache)
  | chunk :: chunks => do
    let spliced ← floatOnlineLfrCmvn lfr cmvn (cache ++ chunk) false
    let (rows, cache) ← onlineRows lfr cmvn spliced.lfrSpliceCache chunks
    return (spliced.feats ++ rows, cache)

/-- Calls up to the one with `input_finished`. -/
def onlineRecording (lfr : LfrOptions) (cmvn : Cmvn β) (cache : List (List β))
    (chunks : List (List (List β))) (last : List (List β)) : Option (List (List β)) := do
  let (rows, cache) ← onlineRows lfr cmvn cache chunks
  let spliced ← floatOnlineLfrCmvn lfr cmvn (cache ++ last) true
  return rows ++ spliced.feats

/-- The guard of `ExtractFeats` at each of the calls. -/
def Guarded (lfr : LfrOptions) (cmvn : Cmvn β) (cache : List (List β)) :
    List (List (List β)) → Prop
  | [] => True
  | chunk :: chunks => lfr.lfrM ≤ (cache ++ chunk).length ∧
      ∀ spliced, floatOnlineLfrCmvn lfr cmvn (cache ++ chunk) false = some spliced →
        Guarded lfr cmvn spliced.lfrSpliceCache chunks

/-- The rows of the padded frames from `first` on. -/
def rowsFrom (lfr : LfrOptions) (cmvn : Cmvn β) (padded : List (List β)) (first count : Nat) :
    List (List β) :=
  (List.range' first count).map fun i => cmvn.apply (spliceRow lfr padded i)

end

/-- After `rows` rows of the frames `padded`, the cache is what the next row starts with, and
    all rows so far end inside the frames. -/
structure Keeps (lfr : LfrOptions) (padded : List (List β)) (rows : Nat) (cache : List (List β)) :
    Prop where
  cache : cache = padded.drop (rows * lfr.lfrN)
  inside : rows = 0 ∨ rows * lfr.lfrN < padded.length
  full : ∀ i < rows, i * lfr.lfrN + lfr.lfrM ≤ padded.length

theorem Keeps.le {lfr : LfrOptions} {padded cache : List (List β)} {rows : Nat}
    (keeps : Keeps lfr padded rows cache) : rows * lfr.lfrN ≤ padded.length := by
  rcases keeps.inside with rfl | inside
  · rw [Nat.zero_mul]
    exact Nat.zero_le _
  · exact inside.le

theorem Keeps.append {lfr : LfrOptions} {padded cache : List (List β)} {rows : Nat}
    (keeps : Keeps lfr padded rows cache) (more : List (List β)) :
    Keeps lfr (padded ++ more) rows (cache ++ more) where
  cache := by rw [keeps.cache, List.drop_append_of_le_length keeps.le]
  inside := keeps.inside.imp_right fun inside => by
    rw [List.length_append]
    omega
  full := by
    intro i before
    have inside := keeps.full i before
    rw [List.length_append]
    omega

/-- A call that is not the last one drops a frame shift at least, and keeps what a row needs
    beyond a frame shift. -/
theorem fullRows_mul_bounds (lfr : LfrOptions) {feats : List (List β)}
    (enough : lfr.lfrM ≤ feats.length) :
    lfr.lfrN ≤ fullRows lfr feats * lfr.lfrN ∧
      fullRows lfr feats * lfr.lfrN + lfr.lfrM ≤ feats.length + lfr.lfrN := by
  have whole := Nat.div_mul_le_self (feats.length - lfr.lfrM) lfr.lfrN
  rw [fullRows, add_mul, one_mul]
  omega

theorem fullRows_mul_lt (lfr : LfrOptions) {feats : List (List β)}
    (enough : lfr.lfrM ≤ feats.length) : fullRows lfr feats * lfr.lfrN < feats.length := by
  obtain ⟨-, kept⟩ := fullRows_mul_bounds lfr enough
  have lt := lfr.lt
  omega

theorem fullRows_le_ceil (lfr : LfrOptions) {feats : List (List β)}
    (enough : lfr.lfrM ≤ feats.length) :
    (fullRows lfr feats : Int) ≤ lfr.tLrf feats.length := by
  have pos := lfr.pos
  have odd := lfr.lfrM_eq
  rw [LfrOptions.tLrf]
  have shifted : (feats.length : Int) - lfr.copies + lfr.lfrN - 1 =
      (feats.length - lfr.copies - 1) + 1 * lfr.lfrN := by ring
  have quotient : ((feats.length - lfr.lfrM : Nat) : Int) / lfr.lfrN ≤
      ((feats.length : Int) - lfr.copies - 1) / lfr.lfrN :=
    Int.ediv_le_ediv (by omega) (by omega)
  rw [shifted, Int.add_mul_ediv_right _ _ (by omega), fullRows]
  push_cast
  omega

/-- The cache before the first call. -/
theorem Keeps.seed (lfr : LfrOptions) (first : List β) :
    Keeps lfr (List.replicate lfr.copies first) 0 (List.replicate lfr.copies first) where
  cache := by rw [Nat.zero_mul, List.drop_zero]
  inside := .inl rfl
  full := by
    intro i before
    omega

/-- The frames that are still missing give the rest of the offline rows. -/
theorem Keeps.ceil {lfr : LfrOptions} {padded cache : List (List β)} {rows frames : Nat}
    (keeps : Keeps lfr padded rows cache) (length : padded.length = lfr.copies + frames) :
    ∃ more : Nat, lfr.tLrf cache.length = more ∧
      rows + more = (frames + lfr.lfrN - 1) / lfr.lfrN := by
  rw [LfrOptions.tLrf]
  have pos := lfr.pos
  have odd := lfr.lfrM_eq
  have inside := keeps.le
  have size : (cache.length : Int) = lfr.copies + frames - rows * lfr.lfrN := by
    rw [keeps.cache, List.length_drop, length]
    rw [length] at inside
    push_cast [Nat.cast_sub inside]
    ring
  have shifted : (cache.length : Int) - lfr.copies + lfr.lfrN - 1 =
      (frames + lfr.lfrN - 1) + -(rows : Int) * lfr.lfrN := by
    rw [size]
    ring
  have whole : (((frames + lfr.lfrN - 1) / lfr.lfrN : Nat) : Int) =
      ((frames : Int) + lfr.lfrN - 1) / lfr.lfrN := by
    push_cast [Nat.cast_sub (show 1 ≤ frames + lfr.lfrN by omega)]
    rfl
  -- A row that was made had a full window, so no row is made too early.
  have few : rows ≤ (frames + lfr.lfrN - 1) / lfr.lfrN := by
    rw [Nat.le_div_iff_mul_le pos]
    rcases Nat.eq_zero_or_pos rows with rfl | some
    · omega
    · have last := keeps.full (rows - 1) (by omega)
      have split : rows * lfr.lfrN = (rows - 1) * lfr.lfrN + lfr.lfrN := by
        rw [← Nat.succ_mul]
        congr 1
        omega
      omega
  refine ⟨(frames + lfr.lfrN - 1) / lfr.lfrN - rows, ?_, by omega⟩
  rw [shifted, Int.add_mul_ediv_right _ _ (by omega), Nat.cast_sub few, whole]
  ring

/-- Any of the rows that end inside the frames may be made. -/
theorem Keeps.advance {lfr : LfrOptions} {padded cache : List (List β)} {rows more : Nat}
    (keeps : Keeps lfr padded rows cache) (enough : lfr.lfrM ≤ cache.length)
    (made : more ≤ fullRows lfr cache) :
    Keeps lfr padded (rows + more) (cache.drop (more * lfr.lfrN)) := by
  have inside := fullRows_mul_lt lfr enough
  have moved := Nat.mul_le_mul_right lfr.lfrN made
  have length : cache.length = padded.length - rows * lfr.lfrN := by
    rw [keeps.cache, List.length_drop]
  refine ⟨?_, ?_, ?_⟩
  · rw [keeps.cache, List.drop_drop, ← add_mul]
  · right
    rw [add_mul]
    omega
  · intro i before
    by_cases old : i < rows
    · exact keeps.full i old
    · have window := (lt_fullRows_iff lfr enough (i - rows)).mp (by omega)
      have lt := lfr.lt
      have split : i * lfr.lfrN = rows * lfr.lfrN + (i - rows) * lfr.lfrN := by
        rw [← add_mul]
        congr 1
        omega
      omega

section
variable [Add β] [Mul β]

/-- More frames do not change the rows so far. -/
theorem Keeps.rowsFrom_append {lfr : LfrOptions} {padded cache : List (List β)} {rows : Nat}
    (keeps : Keeps lfr padded rows cache) (cmvn : Cmvn β) (more : List (List β)) {first count : Nat}
    (before : first + count ≤ rows) :
    rowsFrom lfr cmvn (padded ++ more) first count = rowsFrom lfr cmvn padded first count := by
  refine List.map_congr_left fun i member => ?_
  rw [List.mem_range'_1] at member
  rw [spliceRow_append lfr (keeps.full i (by omega))]

theorem rowsFrom_add (lfr : LfrOptions) (cmvn : Cmvn β) (padded : List (List β))
    (start first second : Nat) :
    rowsFrom lfr cmvn padded start (first + second) =
      rowsFrom lfr cmvn padded start first ++ rowsFrom lfr cmvn padded (start + first) second := by
  rw [rowsFrom, ← List.range'_append_1, List.map_append]
  rfl

/-- The rows over the cache are the next rows of the padded frames. -/
theorem Keeps.rowsFrom_cache {lfr : LfrOptions} {padded cache : List (List β)} {rows : Nat}
    (keeps : Keeps lfr padded rows cache) (cmvn : Cmvn β) (count : Nat) :
    rowsFrom lfr cmvn cache 0 count = rowsFrom lfr cmvn padded rows count := by
  rw [rowsFrom, rowsFrom, keeps.cache, List.range'_eq_map_range, List.range'_eq_map_range,
    List.map_map, List.map_map]
  refine List.map_congr_left fun i _ => ?_
  simp only [Function.comp_apply, Nat.zero_add]
  rw [spliceRow_drop lfr keeps.inside]

/-- A call that is not the last one, with the rows that `T_lrf` allows. -/
theorem onlineLfrCmvnRows_open (lfr : LfrOptions) (cmvn : Cmvn β) {feats : List (List β)}
    (enough : lfr.lfrM ≤ feats.length) (tLrf : Nat) :
    onlineLfrCmvnRows lfr cmvn tLrf feats false = some
      { feats := rowsFrom lfr cmvn feats 0 (min (fullRows lfr feats) tLrf)
        lfrSpliceCache := feats.drop (min (fullRows lfr feats) tLrf * lfr.lfrN)
        lfrSpliceFrameIdxs := min (fullRows lfr feats) tLrf * lfr.lfrN } := by
  have inside := fullRows_mul_lt lfr enough
  have rows := spliceRows_open lfr enough 0 tLrf (by omega)
  simp only [onlineLfrCmvnRows, Int.toNat_natCast, rows]
  have reached : (if 0 + tLrf ≤ fullRows lfr feats then none else some (fullRows lfr feats)).elim
      (tLrf : Int) (fun i => (i : Int)) = (min (fullRows lfr feats) tLrf : Nat) := by
    split
    · simp only [Option.elim_none]
      omega
    · simp only [Option.elim_some]
      omega
  have made : min (fullRows lfr feats) tLrf * lfr.lfrN ≤ fullRows lfr feats * lfr.lfrN :=
    Nat.mul_le_mul_right _ (Nat.min_le_left _ _)
  have frameIdxs : min ((feats.length : Int) - 1)
      (((min (fullRows lfr feats) tLrf : Nat) : Int) * lfr.lfrN) =
      (min (fullRows lfr feats) tLrf * lfr.lfrN : Nat) := by
    have inside' : ((min (fullRows lfr feats) tLrf * lfr.lfrN : Nat) : Int) < feats.length := by
      omega
    push_cast at inside' ⊢
    omega
  rw [reached, frameIdxs, if_neg (by omega)]
  simp only [Int.toNat_natCast, rowsFrom, List.map_map, Function.comp_def, Nat.sub_zero]

theorem onlineLfrCmvn_open (lfr : LfrOptions) (cmvn : Cmvn β) {feats : List (List β)}
    (enough : lfr.lfrM ≤ feats.length) :
    onlineLfrCmvn lfr cmvn feats false = some
      { feats := rowsFrom lfr cmvn feats 0 (fullRows lfr feats)
        lfrSpliceCache := feats.drop (fullRows lfr feats * lfr.lfrN)
        lfrSpliceFrameIdxs := fullRows lfr feats * lfr.lfrN } := by
  have below := fullRows_le_ceil lfr enough
  obtain ⟨tLrf, ceiling⟩ := Int.eq_ofNat_of_zero_le (show 0 ≤ lfr.tLrf feats.length by omega)
  have all : min (fullRows lfr feats) tLrf = fullRows lfr feats := by omega
  rw [onlineLfrCmvn, ceiling, onlineLfrCmvnRows_open lfr cmvn enough, all]

theorem onlineLfrCmvnRows_finished (lfr : LfrOptions) (cmvn : Cmvn β) {feats : List (List β)}
    (nonempty : feats ≠ []) (count : Nat) :
    ∃ spliced, onlineLfrCmvnRows lfr cmvn count feats true = some spliced ∧
      spliced.feats = rowsFrom lfr cmvn feats 0 count ∧
      (spliced.lfrSpliceFrameIdxs : Int) = min ((feats.length : Int) - 1) (count * lfr.lfrN) := by
  have length := List.length_pos_of_ne_nil nonempty
  have nonneg : (0 : Int) ≤ (count : Int) * lfr.lfrN := by positivity
  simp only [onlineLfrCmvnRows, spliceRows_finished, Int.toNat_natCast, Option.elim_none]
  rw [if_neg (by omega)]
  refine ⟨_, rfl, ?_, ?_⟩
  · simp [rowsFrom, List.map_map, Function.comp_def]
  · simp only
    omega

theorem onlineLfrCmvn_finished (lfr : LfrOptions) (cmvn : Cmvn β) {feats : List (List β)}
    (count : Nat) (nonempty : feats ≠ []) (ceiling : lfr.tLrf feats.length = count) :
    ∃ spliced, onlineLfrCmvn lfr cmvn feats true = some spliced ∧
      spliced.feats = rowsFrom lfr cmvn feats 0 count ∧
      spliced.lfrSpliceFrameIdxs < feats.length ∧
      spliced.lfrSpliceFrameIdxs + lfr.copies + 1 ≤ feats.length + lfr.lfrN := by
  have length := List.length_pos_of_ne_nil nonempty
  have last := lfr.tLrf_mul_lt feats.length
  rw [ceiling, sub_mul, one_mul] at last
  obtain ⟨spliced, returned, rows, frameIdxs⟩ := onlineLfrCmvnRows_finished lfr cmvn nonempty count
  rw [← ceiling] at returned
  exact ⟨spliced, returned, rows, by omega, by omega⟩

/-- A call that is not the last one. -/
theorem Keeps.onlineLfrCmvn {lfr : LfrOptions} {padded cache : List (List β)} {rows : Nat}
    (keeps : Keeps lfr padded rows cache) (cmvn : Cmvn β) (chunk : List (List β))
    (enough : lfr.lfrM ≤ (cache ++ chunk).length) :
    ∃ spliced more, Frontend.onlineLfrCmvn lfr cmvn (cache ++ chunk) false = some spliced ∧
      spliced.feats = rowsFrom lfr cmvn (padded ++ chunk) rows more ∧
      Keeps lfr (padded ++ chunk) (rows + more) spliced.lfrSpliceCache :=
  ⟨_, fullRows lfr (cache ++ chunk), onlineLfrCmvn_open lfr cmvn enough,
    (keeps.append chunk).rowsFrom_cache cmvn _, (keeps.append chunk).advance enough le_rfl⟩

theorem LfrOptions.floatTLrf_nonneg {lfr : LfrOptions} {frames : Nat} (enough : lfr.lfrM ≤ frames) :
    0 ≤ lfr.floatTLrf frames := by
  have odd := lfr.lfrM_eq
  exact ceilQuotient_nonneg (by omega) (Int.natCast_nonneg _)

/-- With the `float` quotient it may make fewer rows, and then keeps more frames. -/
theorem Keeps.floatOnlineLfrCmvn {lfr : LfrOptions} {padded cache : List (List β)} {rows : Nat}
    (keeps : Keeps lfr padded rows cache) (cmvn : Cmvn β) (chunk : List (List β))
    (enough : lfr.lfrM ≤ (cache ++ chunk).length) :
    ∃ spliced more, Frontend.floatOnlineLfrCmvn lfr cmvn (cache ++ chunk) false = some spliced ∧
      spliced.feats = rowsFrom lfr cmvn (padded ++ chunk) rows more ∧
      Keeps lfr (padded ++ chunk) (rows + more) spliced.lfrSpliceCache := by
  obtain ⟨tLrf, ceiling⟩ := Int.eq_ofNat_of_zero_le (LfrOptions.floatTLrf_nonneg enough)
  have body : Frontend.floatOnlineLfrCmvn lfr cmvn (cache ++ chunk) false =
      onlineLfrCmvnRows lfr cmvn tLrf (cache ++ chunk) false := by
    rw [Frontend.floatOnlineLfrCmvn, if_neg (by simp), ceiling]
  exact ⟨_, min (fullRows lfr (cache ++ chunk)) tLrf,
    body.trans (onlineLfrCmvnRows_open lfr cmvn enough tLrf),
    (keeps.append chunk).rowsFrom_cache cmvn _,
    (keeps.append chunk).advance enough (Nat.min_le_left _ _)⟩

/-- A run of calls that are not the last one. -/
theorem Keeps.onlineRows {lfr : LfrOptions} (cmvn : Cmvn β) (chunks : List (List (List β)))
    {padded cache : List (List β)} {rows : Nat} (keeps : Keeps lfr padded rows cache)
    (guarded : Guarded lfr cmvn cache chunks) :
    ∃ feats cache' more, Frontend.onlineRows lfr cmvn cache chunks = some (feats, cache') ∧
      feats = rowsFrom lfr cmvn (padded ++ chunks.flatten) rows more ∧
      Keeps lfr (padded ++ chunks.flatten) (rows + more) cache' := by
  induction chunks generalizing padded cache rows with
  | nil =>
    refine ⟨[], cache, 0, rfl, rfl, ?_⟩
    rw [List.flatten_nil, List.append_nil]
    exact keeps
  | cons chunk chunks inductionHypothesis =>
    obtain ⟨enough, guarded⟩ := guarded
    obtain ⟨spliced, more, returned, feats, keeps'⟩ := keeps.floatOnlineLfrCmvn cmvn chunk enough
    obtain ⟨feats', cache', more', returned', rest, keeps''⟩ :=
      inductionHypothesis keeps' (guarded spliced returned)
    rw [List.append_assoc, ← List.flatten_cons] at rest keeps''
    refine ⟨spliced.feats ++ feats', cache', more + more', ?_, ?_, ?_⟩
    · simp only [Frontend.onlineRows, returned, Option.bind_eq_bind, Option.bind_some, returned']
      rfl
    · rw [rest, feats, rowsFrom_add, List.flatten_cons, ← List.append_assoc,
        keeps'.rowsFrom_append cmvn chunks.flatten le_rfl]
    · rw [← add_assoc]
      exact keeps''

/-- The call with `input_finished` gives the rest of the offline rows. -/
theorem Keeps.finish {lfr : LfrOptions} {padded cache : List (List β)} {rows frames : Nat}
    (keeps : Keeps lfr padded rows cache) (cmvn : Cmvn β) (nonempty : cache ≠ [])
    (length : padded.length = lfr.copies + frames) :
    ∃ spliced, Frontend.onlineLfrCmvn lfr cmvn cache true = some spliced ∧
      rowsFrom lfr cmvn padded 0 rows ++ spliced.feats =
        rowsFrom lfr cmvn padded 0 ((frames + lfr.lfrN - 1) / lfr.lfrN) ∧
      spliced.lfrSpliceFrameIdxs < cache.length ∧
      spliced.lfrSpliceFrameIdxs + lfr.copies + 1 ≤ cache.length + lfr.lfrN := by
  obtain ⟨more, ceiling, total⟩ := keeps.ceil length
  obtain ⟨spliced, returned, feats, idxs⟩ := onlineLfrCmvn_finished lfr cmvn more nonempty ceiling
  refine ⟨spliced, returned, ?_, idxs⟩
  rw [feats, keeps.rowsFrom_cache, ← total, rowsFrom_add, Nat.zero_add]

theorem lfrCmvn_eq (lfr : LfrOptions) (cmvn : Cmvn β) (frames : List (List β)) :
    lfrCmvn lfr cmvn frames =
      rowsFrom lfr cmvn (padFeats lfr frames) 0 ((frames.length + lfr.lfrN - 1) / lfr.lfrN) := by
  rw [lfrCmvn, rowsFrom, List.range_eq_range']

theorem guarded_append {lfr : LfrOptions} {cmvn : Cmvn β} {cache last : List (List β)}
    {chunks : List (List (List β))} (guarded : Guarded lfr cmvn cache (chunks ++ [last])) :
    Guarded lfr cmvn cache chunks ∧ ∀ rows cache', onlineRows lfr cmvn cache chunks = some (rows, cache') →
      lfr.lfrM ≤ (cache' ++ last).length := by
  induction chunks generalizing cache with
  | nil =>
    refine ⟨trivial, ?_⟩
    rintro rows cache' returned
    cases returned
    exact guarded.1
  | cons chunk chunks inductionHypothesis =>
    obtain ⟨enough, rest⟩ := guarded
    refine ⟨⟨enough, fun spliced returned => (inductionHypothesis (rest spliced returned)).1⟩, ?_⟩
    intro rows cache' returned
    simp only [onlineRows, Option.bind_eq_bind, Option.bind_eq_some_iff] at returned
    obtain ⟨spliced, first, ⟨rows', cache''⟩, others, same⟩ := returned
    cases same
    exact (inductionHypothesis (rest spliced first)).2 _ _ others

theorem length_rowsFrom (lfr : LfrOptions) (cmvn : Cmvn β) (padded : List (List β)) (first count : Nat) :
    (rowsFrom lfr cmvn padded first count).length = count := by
  simp [rowsFrom]

/-- The call with `input_finished` gives the rest of the offline rows just when its quotient has the
    right ceiling. -/
theorem Keeps.floatFinish {lfr : LfrOptions} {padded cache : List (List β)} {rows frames : Nat}
    (keeps : Keeps lfr padded rows cache) (cmvn : Cmvn β) (enough : lfr.lfrM ≤ cache.length)
    (length : padded.length = lfr.copies + frames) :
    (∃ spliced, Frontend.floatOnlineLfrCmvn lfr cmvn cache true = some spliced ∧
      rowsFrom lfr cmvn padded 0 rows ++ spliced.feats =
        rowsFrom lfr cmvn padded 0 ((frames + lfr.lfrN - 1) / lfr.lfrN)) ↔
      lfr.FloatCeil cache.length := by
  have nonempty : cache ≠ [] := by
    have lt := lfr.lt
    rw [← List.length_pos_iff]
    omega
  constructor
  · rintro ⟨spliced, returned, same⟩
    obtain ⟨more, ceiling, total⟩ := keeps.ceil length
    obtain ⟨count, float⟩ := Int.eq_ofNat_of_zero_le (LfrOptions.floatTLrf_nonneg enough)
    obtain ⟨spliced', returned', feats, -⟩ := onlineLfrCmvnRows_finished lfr cmvn nonempty count
    rw [Frontend.floatOnlineLfrCmvn, float] at returned
    split at returned
    · cases returned
    · cases returned'.symm.trans returned
      have rows := congrArg List.length same
      rw [feats, List.length_append, length_rowsFrom, length_rowsFrom, length_rowsFrom] at rows
      rw [LfrOptions.FloatCeil, float, ceiling]
      omega
  · intro right
    obtain ⟨spliced, returned, same, -⟩ := keeps.finish cmvn nonempty length
    exact ⟨spliced, (floatOnlineLfrCmvn_eq cmvn right true).trans returned, same⟩

/-- However the frames are cut into calls, the online rows are the offline rows just when the
    quotient of the last call has the right ceiling. -/
theorem onlineRecording_eq_iff (lfr : LfrOptions) (cmvn : Cmvn β) (first : List β)
    (frames : List (List β)) (chunks : List (List (List β))) (last : List (List β))
    (cut : (chunks ++ [last]).flatten = first :: frames)
    (guarded : Guarded lfr cmvn (List.replicate lfr.copies first) (chunks ++ [last])) :
    ∃ rows cache, onlineRows lfr cmvn (List.replicate lfr.copies first) chunks = some (rows, cache) ∧
      (onlineRecording lfr cmvn (List.replicate lfr.copies first) chunks last =
          some (lfrCmvn lfr cmvn (first :: frames)) ↔
        lfr.FloatCeil (cache ++ last).length) := by
  obtain ⟨before, final⟩ := guarded_append guarded
  obtain ⟨feats, cache, rows, returned, rowsSoFar, keeps⟩ :=
    (Keeps.seed lfr first).onlineRows cmvn chunks before
  rw [Nat.zero_add] at keeps
  have all : List.replicate lfr.copies first ++ chunks.flatten ++ last =
      padFeats lfr (first :: frames) := by
    rw [padFeats, List.headD_cons, List.append_assoc, ← cut, List.flatten_append,
      List.flatten_singleton]
  have finished := (keeps.append last).floatFinish cmvn (final feats cache returned)
    (show _ = lfr.copies + (first :: frames).length by
      rw [all, padFeats, List.length_append, List.length_replicate])
  rw [keeps.rowsFrom_append cmvn last (by omega), ← rowsSoFar, all] at finished
  refine ⟨feats, cache, returned, ?_⟩
  rw [← finished, lfrCmvn_eq]
  simp only [onlineRecording, returned, Option.bind_eq_bind, Option.bind_some]
  exact Option.bind_eq_some_iff.trans (by simp)

/-- Seven frames in two calls. -/
theorem onlineRecording_eq_iff_two :
    ∃ rows cache, onlineRows .vad ⟨[0, 0, 0, 0, 0], [1, 1, 1, 1, 1]⟩
        (List.replicate LfrOptions.vad.copies [1]) [[[1], [2], [(3 : Int)]]] = some (rows, cache) ∧
      (onlineRecording .vad ⟨[0, 0, 0, 0, 0], [1, 1, 1, 1, 1]⟩
          (List.replicate LfrOptions.vad.copies [1]) [[[1], [2], [3]]] [[4], [5], [6], [(7 : Int)]] =
          some (lfrCmvn .vad ⟨[0, 0, 0, 0, 0], [1, 1, 1, 1, 1]⟩
            [[1], [2], [3], [4], [5], [6], [7]]) ↔
        LfrOptions.vad.FloatCeil (cache ++ [[4], [5], [6], [7]]).length) := by
  refine onlineRecording_eq_iff .vad _ [(1 : Int)] [[2], [3], [4], [5], [6], [7]]
    [[[1], [2], [3]]] [[4], [5], [6], [7]] rfl ?_
  refine ⟨by decide, fun spliced returned => ⟨?_, fun _ _ => trivial⟩⟩
  have computed : floatOnlineLfrCmvn .vad ⟨[0, 0, 0, 0, 0], [1, 1, 1, 1, 1]⟩
      (List.replicate LfrOptions.vad.copies [1] ++ [[1], [2], [(3 : Int)]]) false =
      some ⟨[[1, 1, 1, 2, 3]], [[1], [1], [2], [3]], 1⟩ := by decide +kernel
  have same := computed.symm.trans returned
  cases same
  decide

/-- All frames in one call. -/
theorem floatCeil_of_onlineRecording {lfr : LfrOptions} {cmvn : Cmvn β} {first : List β}
    {frames : List (List β)} (enough : lfr.lfrM ≤ lfr.copies + (frames.length + 1))
    (same : onlineRecording lfr cmvn (List.replicate lfr.copies first) [] (first :: frames) =
      some (lfrCmvn lfr cmvn (first :: frames))) :
    lfr.FloatCeil (lfr.copies + (frames.length + 1)) := by
  have keeps := (Keeps.seed lfr first).append (first :: frames)
  have length : (List.replicate lfr.copies first ++ first :: frames).length =
      lfr.copies + (frames.length + 1) := by
    simp
  rw [← length] at enough ⊢
  refine (keeps.floatFinish cmvn enough length).mp ?_
  simp only [onlineRecording, onlineRows, Option.bind_eq_bind, Option.bind_some] at same
  obtain ⟨spliced, returned, rows⟩ := Option.bind_eq_some_iff.mp same
  refine ⟨spliced, returned, ?_⟩
  have offline := Option.some_inj.mp rows
  rw [lfrCmvn_eq] at offline
  exact offline

/-- With a window of 5 every frame, the last of `2 ^ 24 + 1` frames gives no row. -/
theorem not_onlineRecording_eq :
    onlineRecording .vad ⟨[0, 0, 0, 0, 0], [1, 1, 1, 1, 1]⟩ (List.replicate LfrOptions.vad.copies [0])
        [] ([0] :: List.replicate (2 ^ 24) [(0 : Int)]) ≠
      some (lfrCmvn .vad ⟨[0, 0, 0, 0, 0], [1, 1, 1, 1, 1]⟩
        ([0] :: List.replicate (2 ^ 24) [0])) := by
  intro same
  have right := floatCeil_of_onlineRecording (by rw [List.length_replicate]; decide) same
  rw [List.length_replicate] at right
  revert right
  decide +kernel

end

end Asr2Pass.Frontend
