import Mathlib.Data.List.GetD
import Asr2Pass.Online.ScoredRows

/-! # The rows around the scored ones

A list is presented in context when it is a run of neighbouring rows of the utterance, with zero
rows before the first and after the last.  Of the two lists of a long last call the second is
built on `feats_cache_` after the first was put through `AddOverlapChunk`: its left context is the
end of the utterance and not what precedes the rows it scores.
-/

namespace Asr2Pass.Online

variable {F α ρ K δ : Type}

/-- The row at a position of an utterance, a zero row outside of it. -/
def rowAt (zeroRow : ρ) (rows : List ρ) (position : Int) : ρ :=
  if position < 0 then zeroRow else rows.getD position.toNat zeroRow

/-- `count` rows from a position on. -/
def neighbours (zeroRow : ρ) (rows : List ρ) (start : Int) (count : Nat) : List ρ :=
  (List.range count).map fun index : Nat => rowAt zeroRow rows (start + index)

/-- The rows of a list between its left context and its look-ahead. -/
def ChunkSize.between (chunkSize : ChunkSize) (chunk : List ρ) : List ρ :=
  (chunk.drop chunkSize.left.toNat).take chunkSize.middle.toNat

/-- Every list is a run of neighbours around the rows between its contexts, the first of which is
    `first` in the first list. -/
def InContext (chunkSize : ChunkSize) (zeroRow : ρ) (rows : List ρ) :
    Int → List (List ρ) → Prop
  | _, [] => True
  | first, chunk :: rest =>
    chunk = neighbours zeroRow rows (first - chunkSize.left) chunk.length ∧
      InContext chunkSize zeroRow rows (first + (chunkSize.between chunk).length) rest

section
variable (zeroRow : ρ) (rows : List ρ)

@[simp] theorem length_neighbours (start : Int) (count : Nat) :
    (neighbours zeroRow rows start count).length = count := by
  simp [neighbours]

theorem neighbours_add (start : Int) (first second : Nat) :
    neighbours zeroRow rows start (first + second) =
      neighbours zeroRow rows start first ++ neighbours zeroRow rows (start + first) second := by
  unfold neighbours
  rw [List.range_add, List.map_append, List.map_map]
  congr 1
  apply List.map_congr_left
  intro index _
  simp only [Function.comp_apply, Nat.cast_add, Int.add_assoc]

theorem inContext_append (chunkSize : ChunkSize) (first : Int) (before after : List (List ρ)) :
    InContext chunkSize zeroRow rows first (before ++ after) ↔
      InContext chunkSize zeroRow rows first before ∧
        InContext chunkSize zeroRow rows
          (first + ((before.map chunkSize.between).flatten).length) after := by
  induction before generalizing first with
  | nil => simp [InContext]
  | cons chunk before inductionHypothesis =>
    simp only [List.cons_append, InContext, inductionHypothesis, List.map_cons, List.flatten_cons,
      List.length_append, Nat.cast_add, and_assoc, Int.add_assoc]

end

/-- Rows of an utterance between zero rows are neighbours. -/
theorem neighbours_eq (zeroRow : ρ) (rows : List ρ) (zeros more start count : Nat)
    (inside : start + count ≤ zeros + rows.length + more) :
    neighbours zeroRow rows ((start : Int) - zeros) count =
      ((List.replicate zeros zeroRow ++ rows ++ List.replicate more zeroRow).drop start).take
        count := by
  apply List.ext_getElem
  · simp
    omega
  · intro index left right
    rw [length_neighbours] at left
    simp only [neighbours, List.getElem_map, List.getElem_range, rowAt, List.getElem_take,
      List.getElem_drop, List.append_assoc]
    by_cases before : start + index < zeros
    · rw [if_pos (by omega), List.getElem_append_left (by simpa using before),
        List.getElem_replicate]
    · rw [if_neg (by omega), List.getElem_append_right (by simpa using before)]
      have position : ((start : Int) - zeros + index).toNat = start + index - zeros := by omega
      simp only [List.length_replicate, position]
      by_cases within : start + index - zeros < rows.length
      · rw [List.getElem_append_left within, List.getD_eq_getElem _ _ within]
      · rw [List.getElem_append_right (by omega), List.getElem_replicate,
          List.getD_eq_default _ _ (by omega)]

namespace OnlineParts

section
variable {parts : OnlineParts F α ρ K δ} (left : 0 ≤ parts.cif.chunkSize.left)
  (right : 0 ≤ parts.cif.chunkSize.right)
  (sum : parts.cif.chunkSize.left + parts.cif.chunkSize.right < 2 ^ 31)
include left right sum

/-- A window is a run of neighbours, zero rows after its end included. -/
theorem window_neighbours (past rows : List ρ) (more : Nat) :
    parts.window past rows ++ List.replicate more parts.zeroRow =
      neighbours parts.zeroRow (past ++ rows)
        (past.length - parts.cif.chunkSize.right - parts.cif.chunkSize.left)
        (parts.window past rows ++ List.replicate more parts.zeroRow).length := by
  have length := length_window left right sum past rows
  have zeros := length_zeroRows left right sum
  have start : (past.length : Int) - parts.cif.chunkSize.right - parts.cif.chunkSize.left =
      (past.length : Int) - parts.zeroRows.length := by
    omega
  rw [start, neighbours_eq parts.zeroRow (past ++ rows) parts.zeroRows.length more]
  · have zeroRows : List.replicate parts.zeroRows.length parts.zeroRow = parts.zeroRows := by
      rw [OnlineParts.zeroRows, List.length_replicate]
    have inside : past.length ≤ (parts.zeroRows ++ past ++ rows).length := by
      rw [List.length_append, List.length_append]
      omega
    rw [zeroRows, ← List.append_assoc, List.drop_append_of_le_length inside]
    exact (List.take_length).symm
  · rw [List.length_append, List.length_append, List.length_replicate]
    omega

/-- A window is not changed by what comes after it. -/
theorem window_neighbours_append (past rows future : List ρ) :
    parts.window past rows =
      neighbours parts.zeroRow (past ++ rows ++ future)
        (past.length - parts.cif.chunkSize.right - parts.cif.chunkSize.left)
        (parts.window past rows).length := by
  have whole := window_neighbours left right sum past (rows ++ future) 0
  rw [List.replicate_zero, List.append_nil, ← window_append, List.length_append, neighbours_add]
    at whole
  rw [List.append_assoc]
  exact (List.append_inj whole (by simp)).1

theorem length_between_window (middle : 0 ≤ parts.cif.chunkSize.middle) (past rows : List ρ) :
    ((parts.cif.chunkSize.between (parts.window past rows)).length : Int) =
      min parts.cif.chunkSize.middle (parts.cif.chunkSize.right + rows.length) := by
  have length := length_window left right sum past rows
  rw [ChunkSize.between, List.length_take, List.length_drop]
  omega

/-- The calls before the last one present their lists in context. -/
theorem inContext_windows (middle : 0 ≤ parts.cif.chunkSize.middle) (past : List ρ)
    {outputs : List (List ρ)}
    (full : ∀ rows ∈ outputs, (rows.length : Int) = parts.cif.chunkSize.middle)
    (future : List ρ) :
    InContext parts.cif.chunkSize parts.zeroRow
      (past ++ parts.embedFrom past.length outputs.flatten ++ future)
      (past.length - parts.cif.chunkSize.right) (parts.windows past outputs) := by
  -- On the calls: each window begins where the rows scored before it end.
  induction outputs generalizing past with
  | nil => trivial
  | cons rows outputs inductionHypothesis =>
    obtain ⟨whole, rest⟩ := List.forall_mem_cons.mp full
    have later := inductionHypothesis (past ++ parts.embedFrom past.length rows) rest
    have same : past ++ parts.embedFrom past.length (rows :: outputs).flatten ++ future =
        past ++ parts.embedFrom past.length rows ++ parts.embedFrom
          (past ++ parts.embedFrom past.length rows).length outputs.flatten ++ future := by
      rw [List.flatten_cons, embedFrom_append, List.length_append, length_embedFrom]
      simp only [List.append_assoc]
    rw [windows, same]
    by_cases none : parts.embedFrom past.length rows = []
    · simp only [none, List.append_nil, List.nil_append, if_true] at later ⊢
      exact later
    · simp only [none, if_false, List.singleton_append, InContext]
      have count := length_between_window left right sum middle past (parts.embedFrom past.length rows)
      rw [length_embedFrom] at count
      constructor
      · rw [List.append_assoc (past ++ parts.embedFrom past.length rows)]
        exact window_neighbours_append left right sum past _ _
      · have next : (past.length : Int) - parts.cif.chunkSize.right +
            (parts.cif.chunkSize.between
              (parts.window past (parts.embedFrom past.length rows))).length =
            (past ++ parts.embedFrom past.length rows).length - parts.cif.chunkSize.right := by
          rw [List.length_append, length_embedFrom]
          omega
        rw [next]
        exact later

theorem length_between_windows (middle : 0 ≤ parts.cif.chunkSize.middle) (past : List ρ)
    {outputs : List (List ρ)}
    (full : ∀ rows ∈ outputs, (rows.length : Int) = parts.cif.chunkSize.middle) :
    ((parts.windows past outputs).map parts.cif.chunkSize.between).flatten.length =
      outputs.flatten.length := by
  induction outputs generalizing past with
  | nil => rfl
  | cons rows outputs inductionHypothesis =>
    obtain ⟨whole, rest⟩ := List.forall_mem_cons.mp full
    have count := length_between_window left right sum middle past
      (parts.embedFrom past.length rows)
    have size := parts.length_embedFrom past.length rows
    rw [windows, List.map_append, List.flatten_append, List.length_append,
      inductionHypothesis _ rest, List.flatten_cons, List.length_append]
    by_cases none : parts.embedFrom past.length rows = []
    · rw [none, List.length_nil] at size
      simp [none, ← size]
    · rw [if_neg none, List.map_singleton, List.flatten_singleton]
      omega

theorem leftRows_window (past rows : List ρ) :
    parts.leftRows (parts.window past rows) =
      parts.leftRows (parts.zeroRows ++ (past ++ rows)) := by
  have zeros := length_zeroRows left right sum
  rw [leftRows, leftRows, window, List.drop_drop, List.append_assoc]
  congr 1
  simp only [List.length_drop, List.length_append]
  omega

/-- The second of two lists is in context if the rows that end the utterance are those before the
    rows that it scores. -/
theorem inContext_lastLists (most : parts.cif.chunkSize.right ≤ parts.cif.chunkSize.middle)
    (past tail : List ρ) :
    InContext parts.cif.chunkSize parts.zeroRow (past ++ parts.embedFrom past.length tail)
        (past.length - parts.cif.chunkSize.right) (parts.lastLists past tail) ↔
      tail.length + parts.cif.chunkSize.right ≤ parts.cif.chunkSize.middle ∨
        parts.leftRows (parts.zeroRows ++ (past ++ parts.embedFrom past.length tail)) =
          neighbours parts.zeroRow (past ++ parts.embedFrom past.length tail)
            (past.length + parts.cif.chunkSize.middle - parts.cif.chunkSize.right -
              parts.cif.chunkSize.left) parts.cif.chunkSize.left.toNat := by
  have rows : (parts.embedFrom past.length tail).length = tail.length :=
    parts.length_embedFrom past.length tail
  unfold lastLists
  generalize parts.embedFrom past.length tail = rows' at rows ⊢
  have length := length_window left right sum past rows'
  have first := window_neighbours left right sum past rows'
  split
  · rename_i few
    simp only [few, true_or, iff_true, InContext, and_true]
    have one := first 0
    rw [List.replicate_zero, List.append_nil] at one
    exact one
  · rename_i many
    have middle : 0 ≤ parts.cif.chunkSize.middle := by omega
    have kept := leftRows_window left right sum past rows'
    have size : (parts.leftRows (parts.window past rows')).length =
        parts.cif.chunkSize.left.toNat := by
      rw [leftRows, List.length_drop]
      omega
    -- the first list has as many rows between its contexts as any other
    have scored : ((parts.cif.chunkSize.between (parts.window past rows' ++ List.replicate
        (parts.cif.chunkSize.middle - tail.length).toNat parts.zeroRow)).length : Int) =
        parts.cif.chunkSize.middle := by
      rw [ChunkSize.between, List.length_take, List.length_drop, List.length_append]
      omega
    have start : (past.length : Int) - parts.cif.chunkSize.right + parts.cif.chunkSize.middle -
        parts.cif.chunkSize.left = past.length + parts.cif.chunkSize.middle -
          parts.cif.chunkSize.right - parts.cif.chunkSize.left := by
      omega
    have behind : ((past.length : Int) + parts.cif.chunkSize.middle -
        parts.cif.chunkSize.right - parts.cif.chunkSize.left) +
          parts.cif.chunkSize.left.toNat = ((past.length +
            (parts.cif.chunkSize.middle - parts.cif.chunkSize.right).toNat : Nat) : Int) -
              ((0 : Nat) : Int) := by
      omega
    have rest : neighbours parts.zeroRow (past ++ rows') (((past.length +
        (parts.cif.chunkSize.middle - parts.cif.chunkSize.right).toNat : Nat) : Int) -
          ((0 : Nat) : Int)) (rows'.drop
            (parts.cif.chunkSize.middle - parts.cif.chunkSize.right).toNat).length =
        rows'.drop (parts.cif.chunkSize.middle - parts.cif.chunkSize.right).toNat := by
      rw [neighbours_eq parts.zeroRow (past ++ rows') 0 0]
      · have gone : past.drop (past.length + (parts.cif.chunkSize.middle -
            parts.cif.chunkSize.right).toNat) = [] :=
          List.drop_eq_nil_of_le (by omega)
        rw [List.replicate_zero, List.nil_append, List.append_nil, List.drop_append, gone,
          List.nil_append, Nat.add_sub_cancel_left, List.take_length]
      · rw [List.length_drop, List.length_append]
        omega
    have second : (parts.leftRows (parts.window past rows') ++
        rows'.drop (parts.cif.chunkSize.middle - parts.cif.chunkSize.right).toNat =
        neighbours parts.zeroRow (past ++ rows')
          (past.length + parts.cif.chunkSize.middle - parts.cif.chunkSize.right -
            parts.cif.chunkSize.left) (parts.leftRows (parts.window past rows') ++
              rows'.drop (parts.cif.chunkSize.middle - parts.cif.chunkSize.right).toNat).length) ↔
        parts.leftRows (parts.zeroRows ++ (past ++ rows')) =
          neighbours parts.zeroRow (past ++ rows')
            (past.length + parts.cif.chunkSize.middle - parts.cif.chunkSize.right -
              parts.cif.chunkSize.left) parts.cif.chunkSize.left.toNat := by
      rw [List.length_append, size, neighbours_add, behind, rest, List.append_cancel_right_eq,
        kept]
    simp only [many, false_or, InContext, and_true, scored, start]
    exact ⟨fun both => second.mp both.2, fun same => ⟨first _, second.mpr same⟩⟩

omit left right sum in
/-- Rows that are pairwise different, and not zero rows, end in the same way only at the end. -/
theorem leftRows_eq_iff {rows : List ρ} (distinct : rows.Nodup) (nonzero : parts.zeroRow ∉ rows)
    (made : rows ≠ []) (left : 0 ≤ parts.cif.chunkSize.left) {stop : Int}
    (before : stop < rows.length) :
    parts.leftRows (parts.zeroRows ++ rows) = neighbours parts.zeroRow rows
        (stop - parts.cif.chunkSize.left) parts.cif.chunkSize.left.toNat ↔
      parts.cif.chunkSize.left = 0 := by
  constructor
  · intro same
    by_contra some
    have length := List.length_pos_of_ne_nil made
    obtain ⟨count, succ⟩ : ∃ count, parts.cif.chunkSize.left.toNat = count + 1 :=
      ⟨parts.cif.chunkSize.left.toNat - 1, by omega⟩
    -- The two lists would have to end in the same row, the last one of the utterance.
    have last : rowAt parts.zeroRow rows (stop - 1) = rows.getLast made := by
      have ends := congrArg List.getLast? same
      have position : stop - parts.cif.chunkSize.left + count = stop - 1 := by omega
      have outside : ¬ (parts.zeroRows ++ rows).length ≤
          (parts.zeroRows ++ rows).length - parts.cif.chunkSize.left.toNat := by
        rw [List.length_append]
        omega
      rw [leftRows, List.getLast?_drop, if_neg outside, List.getLast?_append_of_ne_nil _ made,
        List.getLast?_eq_some_getLast made, succ, neighbours, List.range_succ, List.map_append,
        List.map_singleton, List.getLast?_concat, position] at ends
      exact (Option.some.inj ends).symm
    unfold rowAt at last
    split at last
    · exact nonzero (last ▸ List.getLast_mem made)
    · rw [List.getD_eq_getElem _ _ (by omega), List.getLast_eq_getElem,
        distinct.getElem_inj_iff] at last
      omega
  · intro none
    simp [leftRows, neighbours, none]

end

section
variable [Field K] [LinearOrder K] {parts : OnlineParts F α ρ K δ}

variable {chunks : List (List α)} {last : List α} {outputs : List (List ρ)} {tail : List ρ}
  (shape : parts.EncoderShape) (utterance : parts.Utterance chunks last outputs tail)
  (left : 0 ≤ parts.cif.chunkSize.left) (right : 0 ≤ parts.cif.chunkSize.right)
  (most : parts.cif.chunkSize.right ≤ parts.cif.chunkSize.middle)
include shape utterance left right most

/-- With the zero rows of `InitCache` all lists but the second one of a last call are in context. -/
theorem inContext_of_sum (sum : parts.cif.chunkSize.left + parts.cif.chunkSize.right < 2 ^ 31) :
    (∃ presented online,
      parts.forwards parts.fresh (utteranceCalls chunks last) = some (presented, online) ∧
      InContext parts.cif.chunkSize parts.zeroRow (parts.embedFrom 0 (outputs.flatten ++ tail))
        (-parts.cif.chunkSize.right) presented) ↔
    tail.length + parts.cif.chunkSize.right ≤ parts.cif.chunkSize.middle ∨
      parts.leftRows (parts.zeroRows ++ parts.embedFrom 0 (outputs.flatten ++ tail)) =
        neighbours parts.zeroRow (parts.embedFrom 0 (outputs.flatten ++ tail))
          (outputs.flatten.length + parts.cif.chunkSize.middle - parts.cif.chunkSize.right -
            parts.cif.chunkSize.left) parts.cif.chunkSize.left.toNat := by
  obtain ⟨online, returned⟩ := utterance.forwards shape left right sum most
  have middle : 0 ≤ parts.cif.chunkSize.middle := by omega
  have count := parts.length_embedFrom 0 outputs.flatten
  have rows : parts.embedFrom 0 (outputs.flatten ++ tail) =
      parts.embedFrom 0 outputs.flatten ++
        parts.embedFrom (parts.embedFrom 0 outputs.flatten).length tail := by
    rw [embedFrom_append, Nat.zero_add, count]
  -- The windows of the chunks are in context; only the lists of the last call can be wrong.
  have before := inContext_windows left right sum middle [] utterance.full
    (parts.embedFrom (parts.embedFrom 0 outputs.flatten).length tail)
  have between := length_between_windows left right sum middle [] utterance.full
  have after := inContext_lastLists left right sum most (parts.embedFrom 0 outputs.flatten) tail
  rw [List.length_nil, List.nil_append, Nat.cast_zero, Int.zero_sub] at before
  have first : -parts.cif.chunkSize.right + (((parts.windows [] outputs).map
      parts.cif.chunkSize.between).flatten.length : Int) =
      (parts.embedFrom 0 outputs.flatten).length - parts.cif.chunkSize.right := by
    omega
  have presented : InContext parts.cif.chunkSize parts.zeroRow
        (parts.embedFrom 0 (outputs.flatten ++ tail)) (-parts.cif.chunkSize.right)
        (parts.windows [] outputs ++ parts.lastLists (parts.embedFrom 0 outputs.flatten) tail) ↔
      InContext parts.cif.chunkSize parts.zeroRow (parts.embedFrom 0 (outputs.flatten ++ tail))
        ((parts.embedFrom 0 outputs.flatten).length - parts.cif.chunkSize.right)
        (parts.lastLists (parts.embedFrom 0 outputs.flatten) tail) := by
    rw [inContext_append, first, rows]
    exact ⟨fun both => both.2, fun later => ⟨before, later⟩⟩
  rw [← rows, count] at after
  rw [count] at presented
  rw [← after, ← presented]
  constructor
  · rintro ⟨lists, online', ran, context⟩
    rw [returned] at ran
    cases ran
    exact context
  · exact fun context => ⟨_, online, returned, context⟩

omit shape utterance left right most [Field K] [LinearOrder K] in
/-- Rows that stand where nothing was before them are the zero rows. -/
theorem zeros_of_inContext (large : 2 ^ 31 ≤ parts.cif.chunkSize.left + parts.cif.chunkSize.right)
    (context : InContext parts.cif.chunkSize parts.zeroRow (parts.embedFrom 0 tail)
      (-parts.cif.chunkSize.right) (parts.bareLists tail)) :
    ∀ row ∈ parts.embedFrom 0 tail, row = parts.zeroRow := by
  have own := context.1
  generalize parts.embedFrom 0 tail = rows at own ⊢
  have entry (index : Nat) (inside : index < rows.length) : rows.get ⟨index, inside⟩ =
      rowAt parts.zeroRow rows (-parts.cif.chunkSize.right - parts.cif.chunkSize.left + index) := by
    have same := congrArg (fun list => list[index]?) own
    simp only [neighbours, List.getElem?_map, List.getElem?_append_left inside] at same
    rw [List.getElem?_eq_getElem inside, List.getElem?_range (by
      rw [List.length_append]; omega), Option.map_some] at same
    exact Option.some.inj same
  have zeros (index : Nat) (inside : index < rows.length) :
      rows.get ⟨index, inside⟩ = parts.zeroRow := by
    -- each row is one that stands the whole context before it
    induction index using Nat.strongRecOn with
    | ind index inductionHypothesis =>
      rw [entry index inside, rowAt]
      split
      · rfl
      · have earlier : (-parts.cif.chunkSize.right - parts.cif.chunkSize.left +
            (index : Int)).toNat < index := by omega
        rw [List.getD_eq_getElem _ _ (earlier.trans inside)]
        exact inductionHypothesis _ earlier (earlier.trans inside)
  intro row member
  obtain ⟨position, rfl⟩ := List.mem_iff_get.mp member
  exact zeros position position.isLt

omit shape utterance left right most [Field K] [LinearOrder K] in
theorem inContext_of_zeros (zeros : ∀ row ∈ parts.embedFrom 0 tail, row = parts.zeroRow)
    (first : Int) : InContext parts.cif.chunkSize parts.zeroRow (parts.embedFrom 0 tail) first
      (parts.bareLists tail) := by
  unfold bareLists
  generalize parts.embedFrom 0 tail = rows at zeros ⊢
  have around (start : Int) (count : Nat) :
      neighbours parts.zeroRow rows start count = List.replicate count parts.zeroRow := by
    refine List.eq_replicate_iff.mpr ⟨length_neighbours _ _ _ _, fun row member => ?_⟩
    obtain ⟨index, -, rfl⟩ := List.mem_map.mp member
    unfold rowAt
    split
    · rfl
    · rcases lt_or_ge (start + index).toNat rows.length with inside | outside
      · rw [List.getD_eq_getElem _ _ inside]
        exact zeros _ (List.getElem_mem inside)
      · exact List.getD_eq_default _ _ outside
  have alone {chunk : List ρ} (member : ∀ row ∈ chunk, row ∈ rows ∨ row = parts.zeroRow)
      (start : Int) : chunk = neighbours parts.zeroRow rows start chunk.length := by
    rw [around]
    exact List.eq_replicate_of_mem fun row inside => (member row inside).elim (zeros row) id
  refine ⟨alone (fun row member => ?_) _, alone (fun row member => ?_) _, trivial⟩
  · exact (List.mem_append.mp member).imp_right List.eq_of_mem_replicate
  · left
    exact (List.mem_append.mp member).elim List.mem_of_mem_drop List.mem_of_mem_drop

/-- An utterance is presented in context if and only if `InitCache` makes the zero rows before it,
    and its last call presents one list, or its last rows are the same as those before the rows that
    the second list scores.  Without the zero rows it has to be one call of nothing but zero rows. -/
theorem inContext_iff :
    (∃ presented online,
      parts.forwards parts.fresh (utteranceCalls chunks last) = some (presented, online) ∧
      InContext parts.cif.chunkSize parts.zeroRow (parts.embedFrom 0 (outputs.flatten ++ tail))
        (-parts.cif.chunkSize.right) presented) ↔
    (parts.cif.chunkSize.left + parts.cif.chunkSize.right < 2 ^ 31 ∧
      (tail.length + parts.cif.chunkSize.right ≤ parts.cif.chunkSize.middle ∨
        parts.leftRows (parts.zeroRows ++ parts.embedFrom 0 (outputs.flatten ++ tail)) =
          neighbours parts.zeroRow (parts.embedFrom 0 (outputs.flatten ++ tail))
            (outputs.flatten.length + parts.cif.chunkSize.middle - parts.cif.chunkSize.right -
              parts.cif.chunkSize.left) parts.cif.chunkSize.left.toNat)) ∨
      (2 ^ 31 ≤ parts.cif.chunkSize.left + parts.cif.chunkSize.right ∧ outputs = [] ∧
        parts.cif.chunkSize.left ≤ tail.length ∧
        ∀ row ∈ parts.embedFrom 0 tail, row = parts.zeroRow) := by
  rcases lt_or_ge (parts.cif.chunkSize.left + parts.cif.chunkSize.right) (2 ^ 31) with sum | large
  · have one := inContext_of_sum shape utterance left right most sum
    simp only [sum, not_le.mpr sum, true_and, false_and, or_false]
    exact one
  · have returns := fun presented =>
      @Utterance.forwards_large _ _ _ _ _ _ _ parts left most large _ _ _ _ utterance shape presented
    simp only [not_lt.mpr large, large, false_and, false_or, true_and]
    constructor
    · rintro ⟨presented, online, returned, context⟩
      obtain ⟨rfl, long, rfl⟩ := (returns presented).mp ⟨online, returned⟩
      exact ⟨rfl, long, zeros_of_inContext large context⟩
    · rintro ⟨rfl, long, zeros⟩
      obtain ⟨online, returned⟩ := (returns _).mpr ⟨rfl, long, rfl⟩
      exact ⟨_, online, returned, inContext_of_zeros zeros _⟩

end

end OnlineParts

/-- Two calls of one row each, and a short tail. -/
theorem inContext_twoRows : ∃ presented online,
    smallModel.parts.forwards smallModel.parts.fresh
        (OnlineParts.utteranceCalls [[1, 2, 3, 4], [5, 6, 7, 8, 9, 10]] [11]) =
      some (presented, online) ∧
    InContext smallModel.parts.cif.chunkSize smallModel.parts.zeroRow
      (smallModel.parts.embedFrom 0 ([[[1, 1, 1, 1, 2, 3, 4]], [[4, 5, 6, 7, 8, 9, 10]]].flatten ++
        [])) (-smallModel.parts.cif.chunkSize.right) presented := by
  apply (OnlineParts.inContext_iff smallModel_shape ?_ ?_ ?_ ?_).mpr
  · exact .inl ⟨by decide, .inl (by decide)⟩
  · exact ⟨by decide, _, rfl, .inl ⟨by decide, by decide, rfl⟩⟩
  · decide
  · decide
  · decide

/-- One row in a last call: the second list has the row itself as its left context. -/
theorem not_inContext_oneRow :
    smallModel.parts.Utterance [] [1, 2, 3, 4] [] [[1, 1, 1, 1, 2, 3, 4]] ∧
      ¬ ∃ presented online,
        smallModel.parts.forwards smallModel.parts.fresh
            (OnlineParts.utteranceCalls [] [1, 2, 3, 4]) = some (presented, online) ∧
          InContext smallModel.parts.cif.chunkSize smallModel.parts.zeroRow
            (smallModel.parts.embedFrom 0 ([].flatten ++ [[1, 1, 1, 1, 2, 3, 4]]))
            (-smallModel.parts.cif.chunkSize.right) presented := by
  constructor
  · exact ⟨by simp, _, rfl, .inr ⟨by simp, ⟨_, rfl⟩, by simp, by decide⟩⟩
  · rintro ⟨presented, online, ran, context⟩
    have lists : (smallModel.parts.forwards smallModel.parts.fresh
        (OnlineParts.utteranceCalls [] [1, 2, 3, 4])).map (·.1) =
        some [[[0, 0, 0, 0, 0, 0, 0], [0, 0, 0, 0, 0, 0, 0], [1, 1, 1, 1, 2, 3, 4]],
          [[1, 1, 1, 1, 2, 3, 4], [1, 1, 1, 1, 2, 3, 4]]] := by
      decide +kernel
    rw [ran] at lists
    cases lists
    obtain ⟨-, second, -⟩ := context
    revert second
    decide

end Asr2Pass.Online
