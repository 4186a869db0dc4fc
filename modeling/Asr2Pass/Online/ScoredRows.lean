import Asr2Pass.Online.OverlapChunk

/-! # Every row is scored once

`CifSearch` keeps the weights of the rows between the context on the left and on the right.  Over an
utterance these are the rows in their order, behind the zero rows that stand in for a right context
before the first call.
-/

namespace Asr2Pass.Online

variable {F α ρ K δ : Type}

/-- The rows whose weights `CifSearch` keeps. -/
def ChunkSize.scoredRows (chunkSize : ChunkSize) (rows : List ρ) : List ρ :=
  (rows.zipIdx.filter fun row => chunkSize.Scored row.2).map (·.1)

theorem filter_zipIdx_between (rows : List ρ) (start first last : Nat) :
    ((rows.zipIdx start).filter fun row => decide (first ≤ row.2 ∧ row.2 < last)).map (·.1) =
      (rows.drop (first - start)).take (last - max first start) := by
  induction rows generalizing start with
  | nil => simp
  | cons row rows inductionHypothesis =>
    rw [List.zipIdx_cons, List.filter_cons]
    by_cases before : start < first
    · have skipped : ¬ (first ≤ start ∧ start < last) := by omega
      have count : first - start = first - (start + 1) + 1 := by omega
      rw [if_neg (by simpa using skipped), inductionHypothesis, count, List.drop_succ_cons]
      congr 1
      omega
    · have none : first - start = 0 := by omega
      have none' : first - (start + 1) = 0 := by omega
      by_cases inside : start < last
      · have count : last - max first start = last - max first (start + 1) + 1 := by omega
        rw [if_pos (by simp; omega), List.map_cons, inductionHypothesis, none, none', count]
        simp
      · have past : last - max first start = 0 := by omega
        have past' : last - max first (start + 1) = 0 := by omega
        rw [if_neg (by simp; omega), inductionHypothesis, past, past']
        simp

section
variable {chunkSize : ChunkSize} (left : 0 ≤ chunkSize.left)
include left

/-- A sum that is no `int` masks nothing behind the left context. -/
theorem scoredRows_eq_drop (middle : 2 ^ 31 ≤ chunkSize.left + chunkSize.middle) (rows : List ρ) :
    chunkSize.scoredRows rows = rows.drop chunkSize.left.toNat := by
  have suffix : chunkSize.suffix < 0 := by
    have first := chunkSize.isInt chunkSize.left (by simp)
    have second := chunkSize.isInt chunkSize.middle (by simp)
    exact wrap_neg middle (by omega)
  have within := @filter_zipIdx_between _ rows 0 chunkSize.left.toNat rows.length
  have same : rows.zipIdx.filter (fun row => decide (chunkSize.Scored row.2)) =
      rows.zipIdx.filter fun row =>
        decide (chunkSize.left.toNat ≤ row.2 ∧ row.2 < rows.length) := by
    refine List.filter_congr fun row member => decide_eq_decide.mpr ?_
    have inside := List.snd_lt_of_mem_zipIdx member
    unfold ChunkSize.Scored
    omega
  rw [ChunkSize.scoredRows, same, within, Nat.sub_zero, List.take_of_length_le]
  rw [List.length_drop]
  omega

/-- What is scored lies between the contexts, unless more rows follow a sum that is no `int`. -/
theorem scoredRows_eq (middle : 0 ≤ chunkSize.middle) {rows : List ρ}
    (room : chunkSize.left + chunkSize.middle < 2 ^ 31 ∨
      rows.length ≤ chunkSize.left + chunkSize.middle) :
    chunkSize.scoredRows rows =
      (rows.drop chunkSize.left.toNat).take chunkSize.middle.toNat := by
  by_cases int : chunkSize.left + chunkSize.middle < 2 ^ 31
  · have suffix : chunkSize.suffix = chunkSize.left + chunkSize.middle := wrap_eq (by omega) int
    have same : ∀ position : Nat, decide (chunkSize.Scored position) =
        decide (chunkSize.left.toNat ≤ position ∧
          position < chunkSize.left.toNat + chunkSize.middle.toNat) := by
      intro position
      apply decide_eq_decide.mpr
      unfold ChunkSize.Scored
      omega
    unfold ChunkSize.scoredRows
    simp only [same, filter_zipIdx_between]
    congr 1
    omega
  · rw [scoredRows_eq_drop left (by omega), List.take_of_length_le]
    rw [List.length_drop]
    omega

end

namespace OnlineParts

section
variable {parts : OnlineParts F α ρ K δ} (left : 0 ≤ parts.cif.chunkSize.left)
  (right : 0 ≤ parts.cif.chunkSize.right)
  (sum : parts.cif.chunkSize.left + parts.cif.chunkSize.right < 2 ^ 31)

/-- The sequence that is scored: the rows of the utterance behind the zero rows on the right. -/
def scoredFrom (parts : OnlineParts F α ρ K δ) (rows : List ρ) : List ρ :=
  List.replicate parts.cif.chunkSize.right.toNat parts.zeroRow ++ rows

theorem take_scoredFrom (past rows : List ρ) :
    (parts.scoredFrom past).take past.length =
      (parts.scoredFrom (past ++ rows)).take past.length := by
  have inside : past.length ≤ (parts.scoredFrom past).length := by
    rw [scoredFrom, List.length_append]
    omega
  rw [← List.take_append_of_le_length inside, scoredFrom, scoredFrom, List.append_assoc]

include left right sum

/-- What of a window is scored begins where the rows before it end. -/
theorem drop_window (past rows : List ρ) :
    (parts.window past rows).drop parts.cif.chunkSize.left.toNat =
      (parts.scoredFrom (past ++ rows)).drop past.length := by
  have zeros : parts.zeroRows = List.replicate parts.cif.chunkSize.left.toNat parts.zeroRow ++
      List.replicate parts.cif.chunkSize.right.toNat parts.zeroRow := by
    rw [zeroRows, ChunkSize.context_eq (by omega) sum, List.replicate_append_replicate]
    congr 1
    omega
  have behind : parts.zeroRows ++ past ++ rows =
      List.replicate parts.cif.chunkSize.left.toNat parts.zeroRow ++
        parts.scoredFrom (past ++ rows) := by
    simp only [zeros, scoredFrom, List.append_assoc]
  rw [window, behind, List.drop_drop, Nat.add_comm, ← List.drop_drop]
  congr 1
  rw [List.drop_left']
  rw [List.length_replicate]

/-- The calls before the last one score the sequence up to the number of their rows. -/
theorem scored_windows (middle : 0 ≤ parts.cif.chunkSize.middle) (past : List ρ)
    {outputs : List (List ρ)}
    (full : ∀ rows ∈ outputs, (rows.length : Int) = parts.cif.chunkSize.middle)
    (room : parts.cif.chunkSize.left + parts.cif.chunkSize.middle < 2 ^ 31 ∨ outputs = [] ∨
      parts.cif.chunkSize.right = 0) :
    (parts.scoredFrom past).take past.length ++
        ((parts.windows past outputs).map parts.cif.chunkSize.scoredRows).flatten =
      (parts.scoredFrom (past ++ parts.embedFrom past.length outputs.flatten)).take
        (past.length + outputs.flatten.length) := by
  -- On the calls: each one scores the rows that have got their look-ahead by then.
  induction outputs generalizing past with
  | nil => simp [windows]
  | cons rows outputs inductionHypothesis =>
    obtain ⟨whole, rest⟩ := List.forall_mem_cons.mp full
    have step : (parts.scoredFrom past).take past.length ++
        ((if parts.embedFrom past.length rows = [] then []
          else [parts.window past (parts.embedFrom past.length rows)]).map
            parts.cif.chunkSize.scoredRows).flatten =
        (parts.scoredFrom (past ++ parts.embedFrom past.length rows)).take
          (past ++ parts.embedFrom past.length rows).length := by
      have count : parts.cif.chunkSize.middle.toNat =
          (parts.embedFrom past.length rows).length := by
        rw [length_embedFrom]
        omega
      rw [take_scoredFrom past (parts.embedFrom past.length rows), List.length_append, List.take_add]
      congr 1
      by_cases none : parts.embedFrom past.length rows = []
      · simp [none]
      · have length := length_window left right sum past (parts.embedFrom past.length rows)
        rw [length_embedFrom] at length
        rw [if_neg none, List.map_singleton, List.flatten_singleton,
          scoredRows_eq left middle (room.imp_right fun room => ?_), drop_window left right sum, count]
        have future := room.resolve_left (List.cons_ne_nil _ _)
        omega
    have later := inductionHypothesis (past ++ parts.embedFrom past.length rows) rest
      (room.imp_right fun room => .inr (room.resolve_left (List.cons_ne_nil _ _)))
    rw [windows, List.map_append, List.flatten_append, ← List.append_assoc, step, later]
    rw [List.append_assoc, List.length_append, length_embedFrom, ← embedFrom_append,
      List.flatten_cons, List.length_append, Nat.add_assoc]

/-- The last call scores the rest. -/
theorem scored_lastLists (most : parts.cif.chunkSize.right ≤ parts.cif.chunkSize.middle)
    (past : List ρ) {tail : List ρ}
    (few : tail = [] ∨ tail.length ≤ 2 * parts.cif.chunkSize.middle - parts.cif.chunkSize.right)
    (room : parts.cif.chunkSize.left + parts.cif.chunkSize.middle < 2 ^ 31 ∨
      tail.length + parts.cif.chunkSize.right ≤ parts.cif.chunkSize.middle) :
    ((parts.lastLists past tail).map parts.cif.chunkSize.scoredRows).flatten =
      (parts.scoredFrom (past ++ parts.embedFrom past.length tail)).drop past.length := by
  have rows : (parts.embedFrom past.length tail).length = tail.length :=
    parts.length_embedFrom past.length tail
  unfold lastLists
  generalize parts.embedFrom past.length tail = rows' at rows ⊢
  have window := drop_window left right sum past rows'
  have length := length_window left right sum past rows'
  have middle : 0 ≤ parts.cif.chunkSize.middle := by omega
  -- One list while the tail leaves room for the look-ahead, else a full one and the rest.
  split
  · rw [List.map_singleton, List.flatten_singleton,
      scoredRows_eq left middle (.inr (by omega)), window, List.take_of_length_le]
    rw [← window, List.length_drop]
    omega
  · rename_i many
    have int := room.resolve_right many
    have made : tail ≠ [] := by
      intro none
      rw [none, List.length_nil] at many
      omega
    have twice := few.resolve_left made
    have kept : (parts.leftRows (parts.window past rows')).length =
        parts.cif.chunkSize.left.toNat := by
      rw [leftRows, List.length_drop]
      omega
    have first : parts.cif.chunkSize.scoredRows (parts.window past rows' ++
        List.replicate (parts.cif.chunkSize.middle - tail.length).toNat parts.zeroRow) =
        ((parts.window past rows').drop parts.cif.chunkSize.left.toNat).take
          parts.cif.chunkSize.middle.toNat := by
      rw [scoredRows_eq left middle (.inl int), List.drop_append_of_le_length (by omega),
        List.take_append_of_le_length]
      rw [List.length_drop]
      omega
    have second : parts.cif.chunkSize.scoredRows (parts.leftRows (parts.window past rows') ++
        rows'.drop (parts.cif.chunkSize.middle - parts.cif.chunkSize.right).toNat) =
        ((parts.window past rows').drop parts.cif.chunkSize.left.toNat).drop
          parts.cif.chunkSize.middle.toNat := by
      have before := length_window left right sum past []
      rw [List.length_nil] at before
      have split : parts.window past rows' = parts.window past [] ++ rows' :=
        (window_append past [] rows').symm
      have gone : (parts.window past []).drop (parts.cif.chunkSize.left.toNat +
          parts.cif.chunkSize.middle.toNat) = [] :=
        List.drop_eq_nil_of_le (by omega)
      rw [scoredRows_eq left middle (.inl int), List.drop_left' kept, List.take_of_length_le, split,
        List.drop_drop, List.drop_append, gone, List.nil_append]
      · congr 1
        omega
      · rw [List.length_drop]
        omega
    rw [List.map_cons, List.map_singleton, List.flatten_cons, List.flatten_singleton, first,
      second, List.take_append_drop, window]

end

section
variable {parts : OnlineParts F α ρ K δ} (left : 0 ≤ parts.cif.chunkSize.left)
  (right : 0 ≤ parts.cif.chunkSize.right)
  (large : 2 ^ 31 ≤ parts.cif.chunkSize.left + parts.cif.chunkSize.middle)
include left right large

/-- Where nothing behind the left context is masked, every call before the last one scores its
    look-ahead, too. -/
theorem length_scored_windows (sum : parts.cif.chunkSize.left + parts.cif.chunkSize.right < 2 ^ 31)
    (past : List ρ) {outputs : List (List ρ)}
    (full : ∀ rows ∈ outputs, (rows.length : Int) = parts.cif.chunkSize.middle) :
    (((parts.windows past outputs).map parts.cif.chunkSize.scoredRows).flatten.length : Int) =
      outputs.flatten.length + outputs.length * parts.cif.chunkSize.right := by
  have bound := parts.cif.chunkSize.isInt parts.cif.chunkSize.left (by simp)
  induction outputs generalizing past with
  | nil => simp [windows]
  | cons rows outputs inductionHypothesis =>
    obtain ⟨whole, rest⟩ := List.forall_mem_cons.mp full
    have later := inductionHypothesis (past ++ parts.embedFrom past.length rows) rest
    have length := length_window left right sum past (parts.embedFrom past.length rows)
    have made : parts.embedFrom past.length rows ≠ [] := by
      rw [← List.length_pos_iff, length_embedFrom]
      omega
    rw [length_embedFrom] at length
    rw [windows, if_neg made, List.singleton_append, List.map_cons, List.flatten_cons,
      List.length_append, scoredRows_eq_drop left large, List.length_drop, Nat.cast_add, later,
      List.flatten_cons, List.length_append, List.length_cons]
    push_cast
    rw [add_mul, one_mul]
    omega

theorem length_scored_lastLists
    (sum : parts.cif.chunkSize.left + parts.cif.chunkSize.right < 2 ^ 31) (past tail : List ρ) :
    (((parts.lastLists past tail).map parts.cif.chunkSize.scoredRows).flatten.length : Int) =
      if tail.length + parts.cif.chunkSize.right ≤ parts.cif.chunkSize.middle then
        parts.cif.chunkSize.right + tail.length
      else parts.cif.chunkSize.right + max parts.cif.chunkSize.middle tail.length +
        (tail.length - (parts.cif.chunkSize.middle - parts.cif.chunkSize.right)) := by
  have bound := parts.cif.chunkSize.isInt parts.cif.chunkSize.left (by simp)
  have length := length_window left right sum past (parts.embedFrom past.length tail)
  rw [length_embedFrom] at length
  unfold lastLists
  split
  · rw [List.map_singleton, List.flatten_singleton, scoredRows_eq_drop left large,
      List.length_drop]
    omega
  · rw [List.map_cons, List.map_singleton, List.flatten_cons, List.flatten_singleton,
      List.length_append, scoredRows_eq_drop left large, scoredRows_eq_drop left large,
      List.length_drop, List.length_drop, List.length_append, List.length_append,
      List.length_replicate, List.length_drop, length_embedFrom, leftRows, List.length_drop]
    omega

omit right in
theorem length_scored_bareLists {tail : List ρ} (long : parts.cif.chunkSize.left ≤ tail.length) :
    ((parts.bareLists tail).map parts.cif.chunkSize.scoredRows).flatten.length =
      tail.length + (wrap (parts.cif.chunkSize.total - tail.length)).toNat -
          parts.cif.chunkSize.left.toNat +
        (tail.length - (parts.cif.chunkSize.middle - parts.cif.chunkSize.right).toNat) := by
  unfold bareLists
  rw [List.map_cons, List.map_singleton, List.flatten_cons, List.flatten_singleton,
    List.length_append, scoredRows_eq_drop left large, scoredRows_eq_drop left large,
    List.length_drop, List.length_drop, List.length_append, List.length_append,
    List.length_replicate, List.length_drop, length_embedFrom, leftRows, List.length_drop,
    length_embedFrom]
  omega

end

/-- The sums that the code forms of the entries are `int`s; that of the first two may be none where
    no row follows that it would have to mask. -/
structure SumsFit (parts : OnlineParts F α ρ K δ) (outputs : List (List ρ)) (tail : List ρ) :
    Prop where
  context : parts.cif.chunkSize.left + parts.cif.chunkSize.right < 2 ^ 31
  suffix : parts.cif.chunkSize.left + parts.cif.chunkSize.middle < 2 ^ 31 ∨
    (outputs = [] ∨ parts.cif.chunkSize.right = 0) ∧
      tail.length + parts.cif.chunkSize.right ≤ parts.cif.chunkSize.middle

section
variable [Field K] [LinearOrder K] {parts : OnlineParts F α ρ K δ} {chunks : List (List α)}
  {last : List α} {outputs : List (List ρ)} {tail : List ρ}

/-- The rows that the calls of an utterance score are its rows, each once and in their order, behind
    `chunk_size[2]` of the zero rows before its start. -/
def ScoredOnce (parts : OnlineParts F α ρ K δ) (chunks : List (List α)) (last : List α)
    (outputs : List (List ρ)) (tail : List ρ) : Prop :=
  ∃ presented online,
    parts.forwards parts.fresh (utteranceCalls chunks last) = some (presented, online) ∧
    (presented.map parts.cif.chunkSize.scoredRows).flatten =
      List.replicate parts.cif.chunkSize.right.toNat parts.zeroRow ++
        parts.embedFrom 0 (outputs.flatten ++ tail)

omit [Field K] [LinearOrder K] in
theorem Utterance.few (utterance : parts.Utterance chunks last outputs tail) :
    tail = [] ∨ tail.length ≤ 2 * parts.cif.chunkSize.middle - parts.cif.chunkSize.right := by
  obtain ⟨features, -, ends⟩ := utterance.ends
  rcases ends with ⟨-, -, none⟩ | ⟨-, -, -, few⟩
  · exact .inl none
  · exact .inr few

variable (shape : parts.EncoderShape) (utterance : parts.Utterance chunks last outputs tail)
  (left : 0 ≤ parts.cif.chunkSize.left) (right : 0 ≤ parts.cif.chunkSize.right)
  (most : parts.cif.chunkSize.right ≤ parts.cif.chunkSize.middle)
include shape utterance left right most

theorem scoredOnce_of_fit (fit : parts.SumsFit outputs tail) :
    parts.ScoredOnce chunks last outputs tail := by
  have sum := fit.context
  obtain ⟨online, returned⟩ := utterance.forwards shape left right sum most
  refine ⟨_, online, returned, ?_⟩
  have before := scored_windows left right sum (by omega) [] utterance.full
    (fit.suffix.imp_right And.left)
  have after := scored_lastLists left right sum most (parts.embedFrom 0 outputs.flatten)
    utterance.few (fit.suffix.imp_right And.right)
  have count := parts.length_embedFrom 0 outputs.flatten
  rw [List.length_nil, List.take_zero, List.nil_append, List.nil_append, Nat.zero_add, ← count,
    take_scoredFrom (parts.embedFrom 0 outputs.flatten) (parts.embedFrom
      (parts.embedFrom 0 outputs.flatten).length tail)] at before
  rw [List.map_append, List.flatten_append, before, after, List.take_append_drop,
    embedFrom_append, Nat.zero_add, count]
  rfl

/-- With other sums there are too many rows or too few. -/
theorem fit_of_scoredOnce (scored : parts.ScoredOnce chunks last outputs tail) :
    parts.SumsFit outputs tail := by
  obtain ⟨presented, online, returned, same⟩ := scored
  have counted := congrArg List.length same
  rw [List.length_append, List.length_replicate, length_embedFrom, List.length_append] at counted
  have few := utterance.few
  have bounds := parts.cif.chunkSize.isInt
  have first := bounds parts.cif.chunkSize.left (by simp)
  have second := bounds parts.cif.chunkSize.middle (by simp)
  have third := bounds parts.cif.chunkSize.right (by simp)
  have sum : parts.cif.chunkSize.left + parts.cif.chunkSize.right < 2 ^ 31 := by
    by_contra large
    obtain ⟨rfl, long, rfl⟩ :=
      (utterance.forwards_large left most (not_lt.mp large) shape).mp ⟨online, returned⟩
    rw [length_scored_bareLists left (by omega) long, ChunkSize.wrap_total_sub, wrap,
      Int.bmod_def, List.flatten_nil, List.length_nil] at counted
    have some : tail ≠ [] := by
      rw [← List.length_pos_iff]
      omega
    have fewer := few.resolve_left some
    omega
  refine ⟨sum, or_iff_not_imp_left.mpr fun large => ?_⟩
  obtain ⟨online', returned'⟩ := utterance.forwards shape left right sum most
  rw [returned] at returned'
  cases returned'
  rw [List.map_append, List.flatten_append, List.length_append] at counted
  have windows := length_scored_windows left right (not_lt.mp large) sum [] utterance.full
  have lists := length_scored_lastLists left right (not_lt.mp large) sum
    (parts.embedFrom 0 outputs.flatten) tail
  have product := mul_nonneg (Int.natCast_nonneg outputs.length) right
  by_cases one : tail.length + parts.cif.chunkSize.right ≤ parts.cif.chunkSize.middle
  · rw [if_pos one] at lists
    refine ⟨?_, one⟩
    have none : (outputs.length : Int) * parts.cif.chunkSize.right = 0 := by omega
    refine (mul_eq_zero.mp none).imp_left fun none => ?_
    exact List.length_eq_zero_iff.mp (by exact_mod_cast none)
  · rw [if_neg one] at lists
    omega

/-- Every row is scored once exactly when the sums of the entries fit.  The rows may be of any type,
    in particular carry their positions. -/
theorem scoredOnce_iff :
    parts.ScoredOnce chunks last outputs tail ↔ parts.SumsFit outputs tail :=
  ⟨fit_of_scoredOnce shape utterance left right most,
    scoredOnce_of_fit shape utterance left right most⟩

end

end OnlineParts

/-! ## A small model -/

/-- Every sample is a frame, and there is one row of context on either side. -/
def smallModel : OnlineModel Nat Nat ℚ Unit :=
  plainModel ⟨1, 1, Nat.one_pos, Nat.le_refl 1⟩ { left := 1, middle := 1, right := 1 }

theorem smallModel_shape : smallModel.parts.EncoderShape where
  rows := by
    intro rows hidden alphas encoded
    cases encoded
    exact List.length_map _
  alphas := by
    intro rows hidden alphas encoded
    cases encoded
    exact List.length_map _
  sizes := by
    intro rows hidden alphas encoded row member
    cases encoded
    obtain ⟨given, -, rfl⟩ := List.mem_map.mp member
    rfl

/-- Two calls of one row each, and a short tail. -/
theorem scoredOnce_twoRows :
    smallModel.parts.ScoredOnce [[1, 2, 3, 4], [5, 6, 7, 8, 9, 10]] [11]
      [[[1, 1, 1, 1, 2, 3, 4]], [[4, 5, 6, 7, 8, 9, 10]]] [] :=
  (OnlineParts.scoredOnce_iff smallModel_shape
    ⟨by decide, _, rfl, .inl ⟨by decide, by decide, rfl⟩⟩ (by decide) (by decide) (by decide)).mpr
    ⟨by decide, .inl (by decide)⟩

/-- With these entries `InitCache` keeps no rows, and the left context is copied from before the
    beginning of the one row that there is. -/
def largeModel : OnlineModel Nat Nat ℚ Unit :=
  plainModel ⟨1, 1, Nat.one_pos, Nat.le_refl 1⟩ { left := 2147483647, middle := 10, right := 10 }

theorem not_scoredOnce_large :
    largeModel.parts.Utterance [] [1, 2, 3, 4] [] [[1, 1, 1, 1, 2, 3, 4]] ∧
      ¬ largeModel.parts.ScoredOnce [] [1, 2, 3, 4] [] [[1, 1, 1, 1, 2, 3, 4]] := by
  constructor
  · exact ⟨by simp, _, rfl, .inr ⟨by simp, ⟨_, rfl⟩, by simp, by decide⟩⟩
  · rintro ⟨presented, online, returned, -⟩
    have none : largeModel.parts.forwards largeModel.parts.fresh
        (OnlineParts.utteranceCalls [] [1, 2, 3, 4]) = none := by
      decide +kernel
    rw [none] at returned
    cases returned

end Asr2Pass.Online
