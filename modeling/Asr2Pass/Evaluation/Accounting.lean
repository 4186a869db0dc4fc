import Asr2Pass.Evaluation.Calculator
import Asr2Pass.Library.EditDistance

/-! # What is counted

The cells of the table depend on the tokens alone.  Each of them has an edit distance, and its mark
leads to a cell from which one step makes this distance.
-/

namespace Asr2Pass.Evaluation

open Library

/-! ## Cells -/

/-- The cell of the first `i` and the first `j` tokens. -/
def value (lab recs : List Token) : Nat → Nat → Cell
  | 0, 0 => ⟨0, .non⟩
  | i + 1, 0 => ⟨i + 1, .del⟩
  | 0, j + 1 => ⟨j + 1, .ins⟩
  | i + 1, j + 1 =>
    nearest (lab.getD i []) (recs.getD j []) (value lab recs i (j + 1)) (value lab recs (i + 1) j)
      (value lab recs i j)
termination_by i j => i + j

variable {lab recs : List Token} {i j : Nat}

theorem value_zero_right (i : Nat) : value lab recs i 0 = ⟨i, if i = 0 then .non else .del⟩ := by
  cases i with
  | zero => simp [value]
  | succ i => simp [value]

theorem value_zero_left (j : Nat) : value lab recs 0 j = ⟨j, if j = 0 then .non else .ins⟩ := by
  cases j with
  | zero => simp [value]
  | succ j => simp [value]

/-- The mark of a cell says which of the three candidates its distance is, the smallest. -/
theorem nearest_cases {labToken recToken : Token} {above left diagonal : Cell}
    (small : diagonal.dist + 1 < sysMaxsize) :
    let cell := nearest labToken recToken above left diagonal
    cell.dist ≤ above.dist + 1 ∧ cell.dist ≤ left.dist + 1 ∧
      cell.dist ≤ diagonal.dist + (if labToken = recToken then 0 else 1) ∧
      (cell.error = .del ∧ cell.dist = above.dist + 1 ∨ cell.error = .ins ∧ cell.dist = left.dist + 1 ∨
        cell.error = .cor ∧ labToken = recToken ∧ cell.dist = diagonal.dist ∨
        cell.error = .sub ∧ labToken ≠ recToken ∧ cell.dist = diagonal.dist + 1) := by
  generalize isMax : sysMaxsize = max at small
  simp only [nearest, closer, cost, isMax]
  by_cases same : labToken = recToken
  · simp only [if_pos same]
    grind
  · simp only [if_neg same]
    grind

/-- A cell is no farther than the longer of the two beginnings. -/
theorem value_dist_le (room : i < sysMaxsize) (room' : j < sysMaxsize) :
    (value lab recs i j).dist ≤ max i j := by
  fun_induction value lab recs i j with
  | case1 => simp
  | case2 i => simp
  | case3 j => simp
  | case4 i j above left diagonal =>
    have before := diagonal (by omega) (by omega)
    have cases' := @nearest_cases (lab.getD i []) (recs.getD j []) (value lab recs i (j + 1))
      (value lab recs (i + 1) j) (value lab recs i j) (by omega)
    have := cases'.2.2.1
    split at this <;> omega

theorem reverse_take_succ {list : List Token} (inside : i < list.length) :
    (list.take (i + 1)).reverse = list.getD i [] :: (list.take i).reverse := by
  rw [List.take_succ_eq_append_getElem inside, List.reverse_append, List.getD_eq_getElem?_getD,
    List.getElem?_eq_getElem inside]
  rfl

/-- The distances are edit distances, here from the ends of the beginnings. -/
theorem value_dist (rows : i ≤ lab.length) (cols : j ≤ recs.length) (room : lab.length < sysMaxsize)
    (room' : recs.length < sysMaxsize) :
    (value lab recs i j).dist = editDistance (lab.take i).reverse (recs.take j).reverse := by
  fun_induction value lab recs i j with
  | case1 => simp
  | case2 i => simp [rows]
  | case3 j => simp [cols]
  | case4 i j above left diagonal =>
    have far := @value_dist_le lab recs i j (by omega) (by omega)
    have chosen := @nearest_cases (lab.getD i []) (recs.getD j []) (value lab recs i (j + 1))
      (value lab recs (i + 1) j) (value lab recs i j) (by omega)
    have above := above (by omega) cols
    have left := left rows (by omega)
    have diagonal := diagonal (by omega) (by omega)
    rw [reverse_take_succ rows] at left ⊢
    rw [reverse_take_succ cols] at above ⊢
    -- Two equal tokens cost nothing: either neighbour is at most one nearer.
    have near := editDistance_cons_near (lab.getD i []) (lab.take i).reverse (recs.take j).reverse
    have near' := editDistance_cons_near (recs.getD j []) (recs.take j).reverse (lab.take i).reverse
    rw [editDistance_comm (recs.take j).reverse, editDistance_comm (_ :: (recs.take j).reverse)] at near'
    rw [editDistance_cons_cons]
    simp only [above, left, diagonal] at chosen
    obtain ⟨up, side, slant, mark⟩ := chosen
    split
    next same =>
      rw [if_pos same] at slant
      rcases mark with ⟨-, dist⟩ | ⟨-, dist⟩ | ⟨-, -, dist⟩ | ⟨-, differs, -⟩
      · omega
      · omega
      · exact dist
      · exact absurd same differs
    next differs =>
      rw [if_neg differs] at slant
      rcases mark with ⟨-, dist⟩ | ⟨-, dist⟩ | ⟨-, same, -⟩ | ⟨-, -, dist⟩
      · omega
      · omega
      · exact absurd same differs
      · omega

/-! ## Moves -/

/-- What one turn of tracing back goes over: the mark, a token of each list or an empty one, and the
    cell it leads to. -/
inductive Move (lab recs : List Token) : Nat → Nat → Mark → Token → Token → Nat → Nat → Prop
  | cor {i j : Nat} {token : Token} (inLab : lab[i]? = some token) (inRecs : recs[j]? = some token)
      (same : (value lab recs (i + 1) (j + 1)).dist = (value lab recs i j).dist) :
      Move lab recs (i + 1) (j + 1) .cor token token i j
  | sub {i j : Nat} {labToken recToken : Token} (inLab : lab[i]? = some labToken)
      (inRecs : recs[j]? = some recToken) (differs : labToken ≠ recToken)
      (more : (value lab recs (i + 1) (j + 1)).dist = (value lab recs i j).dist + 1) :
      Move lab recs (i + 1) (j + 1) .sub labToken recToken i j
  | del {i j : Nat} {labToken : Token} (inLab : lab[i]? = some labToken)
      (more : (value lab recs (i + 1) j).dist = (value lab recs i j).dist + 1) :
      Move lab recs (i + 1) j .del labToken [] i j
  | ins {i j : Nat} {recToken : Token} (inRecs : recs[j]? = some recToken)
      (more : (value lab recs i (j + 1)).dist = (value lab recs i j).dist + 1) :
      Move lab recs i (j + 1) .ins [] recToken i j

/-- What a move counts is how far it goes in either list, and in the distance. -/
theorem Move.count_eq {error : Mark} {labToken recToken : Token} {i' j' : Nat}
    (move : Move lab recs i j error labToken recToken i' j') (counts : Counts) :
    let counted := counts.count error
    counted.cor + counted.sub + counted.del + i' = counts.cor + counts.sub + counts.del + i ∧
      counted.cor + counted.sub + counted.ins + j' = counts.cor + counts.sub + counts.ins + j ∧
      counted.sub + counted.del + counted.ins + (value lab recs i' j').dist =
        counts.sub + counts.del + counts.ins + (value lab recs i j).dist := by
  cases move with
  | cor _ _ same =>
    simp only [Counts.count]
    omega
  | sub _ _ _ more =>
    simp only [Counts.count]
    omega
  | del _ more =>
    simp only [Counts.count, true_and]
    omega
  | ins _ more =>
    simp only [Counts.count, true_and]
    omega

theorem Move.less {error : Mark} {labToken recToken : Token} {i' j' : Nat}
    (move : Move lab recs i j error labToken recToken i' j') : i' ≤ i ∧ j' ≤ j ∧ i' + j' < i + j := by
  cases move with
  | cor => omega
  | sub => omega
  | del => omega
  | ins => omega

theorem getElem?_eq_getD {list : List Token} (inside : i < list.length) :
    list[i]? = some (list.getD i []) := by
  simp [List.getD_eq_getElem?_getD, List.getElem?_eq_getElem inside]

/-- From every cell but the first its mark leads on. -/
theorem exists_move (rows : i ≤ lab.length) (cols : j ≤ recs.length) (room : lab.length < sysMaxsize)
    (room' : recs.length < sysMaxsize) (more : ¬(i = 0 ∧ j = 0)) :
    ∃ error labToken recToken i' j', (value lab recs i j).error = error ∧
      Move lab recs i j error labToken recToken i' j' := by
  match i, j with
  | 0, 0 => exact absurd ⟨rfl, rfl⟩ more
  | i + 1, 0 =>
    have error : (value lab recs (i + 1) 0).error = .del := by simp [value_zero_right]
    exact ⟨_, _, _, _, _, error, .del (getElem?_eq_getD rows) (by simp [value_zero_right])⟩
  | 0, j + 1 =>
    have error : (value lab recs 0 (j + 1)).error = .ins := by simp [value_zero_left]
    exact ⟨_, _, _, _, _, error, .ins (getElem?_eq_getD cols) (by simp [value_zero_left])⟩
  | i + 1, j + 1 =>
    have far := @value_dist_le lab recs i j (by omega) (by omega)
    have chosen := (@nearest_cases (lab.getD i []) (recs.getD j []) (value lab recs i (j + 1))
      (value lab recs (i + 1) j) (value lab recs i j) (by omega)).2.2.2
    have isCell : value lab recs (i + 1) (j + 1) = nearest (lab.getD i []) (recs.getD j [])
        (value lab recs i (j + 1)) (value lab recs (i + 1) j) (value lab recs i j) := by rw [value]
    have inLab := getElem?_eq_getD rows
    have inRecs := getElem?_eq_getD cols
    rw [← isCell] at chosen
    rcases chosen with ⟨error, dist⟩ | ⟨error, dist⟩ | ⟨error, same, dist⟩ | ⟨error, differs, dist⟩
    · exact ⟨_, _, _, _, _, error, .del inLab dist⟩
    · exact ⟨_, _, _, _, _, error, .ins inRecs dist⟩
    · exact ⟨_, _, _, _, _, error, .cor inLab (same ▸ inRecs) dist⟩
    · exact ⟨_, _, _, _, _, error, .sub inLab inRecs differs dist⟩

/-! ## One turn -/

/-- The result with one more column. -/
def Result.extend (result : Result) (error : Mark) (labToken recToken : Token) : Result :=
  ⟨labToken :: result.lab, recToken :: result.recs, result.counts.count error⟩

/-- Tracing back in the cells alone. -/
def retrace (lab recs : List Token) : Nat → Nat → Nat → Result → Result
  | 0, _, _, result => result
  | turns + 1, i, j, result =>
    match (value lab recs i j).error with
    | .cor =>
      retrace lab recs turns (i - 1) (j - 1)
        (result.extend .cor (lab.getD (i - 1) []) (recs.getD (j - 1) []))
    | .sub =>
      retrace lab recs turns (i - 1) (j - 1)
        (result.extend .sub (lab.getD (i - 1) []) (recs.getD (j - 1) []))
    | .del => retrace lab recs turns (i - 1) j (result.extend .del (lab.getD (i - 1) []) [])
    | .ins => retrace lab recs turns i (j - 1) (result.extend .ins [] (recs.getD (j - 1) []))
    | .non | .none => result

theorem retrace_move {error : Mark} {labToken recToken : Token} {i' j' : Nat}
    (isError : (value lab recs i j).error = error)
    (move : Move lab recs i j error labToken recToken i' j') (turns : Nat) (result : Result) :
    retrace lab recs (turns + 1) i j result =
      retrace lab recs turns i' j' (result.extend error labToken recToken) := by
  cases move with
  | cor inLab inRecs => simp [retrace, isError, List.getD_eq_getElem?_getD, inLab, inRecs]
  | sub inLab inRecs => simp [retrace, isError, List.getD_eq_getElem?_getD, inLab, inRecs]
  | del inLab => simp [retrace, isError, List.getD_eq_getElem?_getD, inLab]
  | ins inRecs => simp [retrace, isError, List.getD_eq_getElem?_getD, inRecs]

/-! ## The counts of the tokens -/

theorem exists_tally {data : Data} {token : Token} (known : token ∈ data.map Prod.fst) (error : Mark) :
    ∃ data', tally data token error = some data' ∧ data'.map Prod.fst = data.map Prod.fst := by
  induction data with
  | nil => simp at known
  | cons item rest inductionHypothesis =>
    obtain ⟨key, counts⟩ := item
    rw [tally]
    split
    next => exact ⟨_, rfl, rfl⟩
    next other =>
      have later : token ∈ rest.map Prod.fst :=
        (List.mem_cons.mp known).resolve_left fun same => other same.symm
      obtain ⟨data', tallied, same⟩ := inductionHypothesis later
      exact ⟨_, by rw [tallied, Option.map_some], by simp [same]⟩

theorem add_counts (counts other : Counts) :
    counts + other = ⟨counts.all + other.all, counts.cor + other.cor, counts.sub + other.sub,
      counts.ins + other.ins, counts.del + other.del⟩ := rfl

theorem count_add (counts other : Counts) (error : Mark) :
    (counts + other).count error = counts.count error + other := by
  cases error <;> simp [Counts.count, add_counts] <;> omega

theorem add_count (counts other : Counts) (error : Mark) :
    (counts + other).count error = counts + other.count error := by
  cases error <;> simp [Counts.count, add_counts] <;> omega

theorem foldl_count (data : Data) (counts : Counts) (error : Mark) :
    data.foldl (fun result item => result + item.2) (counts.count error) =
      (data.foldl (fun result item => result + item.2) counts).count error := by
  induction data generalizing counts with
  | nil => rfl
  | cons item rest inductionHypothesis =>
    rw [List.foldl_cons, List.foldl_cons, ← count_add, inductionHypothesis]

/-- The overall counts grow with those of a token. -/
theorem total_tally {data data' : Data} {token : Token} {error : Mark}
    (tallied : tally data token error = some data') : total data' = (total data).count error := by
  have each : ∀ counts : Counts, data'.foldl (fun result item => result + item.2) counts =
      (data.foldl (fun result item => result + item.2) counts).count error := by
    induction data generalizing data' with
    | nil => cases tallied
    | cons item rest inductionHypothesis =>
      intro counts
      obtain ⟨key, before⟩ := item
      rw [tally] at tallied
      split at tallied
      next =>
        cases tallied
        rw [List.foldl_cons, List.foldl_cons, ← foldl_count, add_count]
      next =>
        obtain ⟨rest', later, rfl⟩ := Option.map_eq_some_iff.mp tallied
        rw [List.foldl_cons, List.foldl_cons, inductionHypothesis later]
  exact each {}

theorem total_addToken (data : Data) (tokens : List Token) :
    total (tokens.foldl addToken data) = total data := by
  induction tokens generalizing data with
  | nil => rfl
  | cons token tokens inductionHypothesis =>
    rw [List.foldl_cons, inductionHypothesis, addToken]
    split
    · simp [total, add_counts]
    · rfl

theorem mem_addToken {data : Data} {tokens : List Token} {token : Token}
    (known : token ∈ data.map Prod.fst ∨ token ∈ tokens ∧ token ≠ []) :
    token ∈ (tokens.foldl addToken data).map Prod.fst := by
  induction tokens generalizing data with
  | nil => simpa using known
  | cons first tokens inductionHypothesis =>
    rw [List.foldl_cons]
    apply inductionHypothesis
    rcases known with before | ⟨member, nonempty⟩
    · left
      rw [addToken]
      split
      · simp [before]
      · exact before
    · rcases List.mem_cons.mp member with rfl | later
      · left
        rw [addToken]
        by_cases before : token ∈ data.map Prod.fst
        · simp [before]
        · rw [if_pos ⟨before, List.length_pos_iff.mpr nonempty⟩]
          simp
      · exact .inr ⟨later, nonempty⟩

/-! ## Tracing back -/

/-- The inputs of `calculate`: no token is empty, and `''` can be inserted into the list. -/
structure Tokens where
  list : List Token
  nonempty : ∀ token ∈ list, token ≠ []
  room : list.length < sysMaxsize

/-- All tokens have counts. -/
structure Known (lab recs : List Token) (data : Data) : Prop where
  lab : ∀ token ∈ lab, token ∈ data.map Prod.fst
  recs : ∀ token ∈ recs, token ∈ data.map Prod.fst

theorem Known.of_keys {data data' : Data} (known : Known lab recs data)
    (same : data'.map Prod.fst = data.map Prod.fst) : Known lab recs data' :=
  ⟨same ▸ known.lab, same ▸ known.recs⟩

theorem exists_count {data : Data} {token : Token} (nonempty : token ≠ [])
    (known : token ∈ data.map Prod.fst) (error : Mark) (result : Result) :
    ∃ data', (∀ i j, (⟨i, j, data, result⟩ : Tracing).count token error =
        some ⟨i, j, data', { result with counts := result.counts.count error }⟩) ∧
      data'.map Prod.fst = data.map Prod.fst ∧ total data' = (total data).count error := by
  obtain ⟨data', tallied, same⟩ := exists_tally known error
  refine ⟨data', fun i j => ?_, same, total_tally tallied⟩
  simp [Tracing.count, List.length_pos_iff.mpr nonempty, tallied]

section
variable (words : ∀ token ∈ lab, token ≠ []) (words' : ∀ token ∈ recs, token ≠ [])
  {space : Table Cell} {data : Data} {result : Result}
include words words'

/-- One turn of the loop makes the move of its cell. -/
theorem traceBack_move (known : Known lab recs data)
    (cell : space.entry i j = some (value lab recs i j)) {error : Mark} {labToken recToken : Token}
    {i' j' : Nat} (isError : (value lab recs i j).error = error)
    (move : Move lab recs i j error labToken recToken i' j') (turns : Nat) :
    ∃ data', traceBack ([] :: lab) ([] :: recs) space (turns + 1) ⟨i, j, data, result⟩ =
        traceBack ([] :: lab) ([] :: recs) space turns
          ⟨i', j', data', result.extend error labToken recToken⟩ ∧
      Known lab recs data' ∧ total data' = (total data).count error := by
  cases move with
  | cor inLab inRecs =>
    have member := List.mem_of_getElem? inLab
    obtain ⟨data', counted, same, sums⟩ :=
      exists_count (words _ member) (known.lab _ member) .cor result
    refine ⟨data', ?_, known.of_keys same, sums⟩
    simp [traceBack, cell, isError, inLab, inRecs, counted, lower, Tracing.insert, Result.extend]
  | sub inLab inRecs =>
    have member := List.mem_of_getElem? inLab
    obtain ⟨data', counted, same, sums⟩ :=
      exists_count (words _ member) (known.lab _ member) .sub result
    refine ⟨data', ?_, known.of_keys same, sums⟩
    simp [traceBack, cell, isError, inLab, inRecs, counted, lower, Tracing.insert, Result.extend]
  | del inLab =>
    have member := List.mem_of_getElem? inLab
    obtain ⟨data', counted, same, sums⟩ :=
      exists_count (words _ member) (known.lab _ member) .del result
    refine ⟨data', ?_, known.of_keys same, sums⟩
    simp [traceBack, cell, isError, inLab, counted, lower, Tracing.insert, Result.extend]
  | ins inRecs =>
    have member := List.mem_of_getElem? inRecs
    obtain ⟨data', counted, same, sums⟩ :=
      exists_count (words' _ member) (known.recs _ member) .ins result
    refine ⟨data', ?_, known.of_keys same, sums⟩
    simp [traceBack, cell, isError, inRecs, counted, lower, Tracing.insert, Result.extend]

end

/-- How the loop has ended that began at cell `i`, `j`. -/
structure Ends (lab recs : List Token) (turns i j : Nat) (data : Data) (result : Result)
    (last : Tracing) : Prop where
  start : last.i = 0 ∧ last.j = 0
  retraced : last.result = retrace lab recs turns i j result
  labCount : last.result.counts.cor + last.result.counts.sub + last.result.counts.del =
    result.counts.cor + result.counts.sub + result.counts.del + i
  recsCount : last.result.counts.cor + last.result.counts.sub + last.result.counts.ins =
    result.counts.cor + result.counts.sub + result.counts.ins + j
  distance : last.result.counts.sub + last.result.counts.del + last.result.counts.ins =
    result.counts.sub + result.counts.del + result.counts.ins + (value lab recs i j).dist
  overall : ∀ counts, total data = counts + result.counts →
    total last.data = counts + last.result.counts

/-- A move more. -/
theorem Ends.move {turns i' j' : Nat} {error : Mark} {labToken recToken : Token} {data data' : Data}
    {result : Result} {last : Tracing} (isError : (value lab recs i j).error = error)
    (move : Move lab recs i j error labToken recToken i' j')
    (sums : total data' = (total data).count error)
    (ends : Ends lab recs turns i' j' data' (result.extend error labToken recToken) last) :
    Ends lab recs (turns + 1) i j data result last := by
  obtain ⟨start, retraced, inLab, inRecs, distance, overall⟩ := ends
  obtain ⟨oneLab, oneRec, farther⟩ := move.count_eq result.counts
  simp only [Result.extend] at inLab inRecs distance
  refine ⟨start, ?_, by omega, by omega, by omega, fun counts balanced => ?_⟩
  · rw [← retrace_move isError move] at retraced
    exact retraced
  · exact overall counts (by rw [sums, balanced, add_count]; rfl)

/-- The loop comes to the first cell. -/
theorem exists_traceBack (words : Tokens) (words' : Tokens) {space : Table Cell}
    (cells : ∀ i ≤ words.list.length, ∀ j ≤ words'.list.length,
      space.entry i j = some (value words.list words'.list i j))
    {turns : Nat} (rows : i ≤ words.list.length) (cols : j ≤ words'.list.length)
    (enough : i + j < turns) {data : Data} (known : Known words.list words'.list data)
    (result : Result) :
    ∃ last, traceBack ([] :: words.list) ([] :: words'.list) space turns ⟨i, j, data, result⟩ =
        some last ∧
      Ends words.list words'.list turns i j data result last := by
  induction turns generalizing i j data result with
  | zero => omega
  | succ turns inductionHypothesis =>
    have cell := cells i rows j cols
    by_cases first : i = 0 ∧ j = 0
    · obtain ⟨rfl, rfl⟩ := first
      refine ⟨⟨0, 0, data, result⟩, by simp [traceBack, cell, value], ⟨rfl, rfl⟩, ?_, rfl, rfl, ?_,
        fun _ same => same⟩
      · simp [retrace, value]
      · simp [value]
    · obtain ⟨error, labToken, recToken, i', j', isError, move⟩ :=
        exists_move rows cols words.room words'.room first
      obtain ⟨data', stepped, known, sums⟩ :=
        @traceBack_move _ _ _ _ words.nonempty words'.nonempty _ _ result known cell _ _ _ _ _ isError
          move turns
      have less := move.less
      obtain ⟨last, ran, ends⟩ := @inductionHypothesis i' j' (by omega) (by omega) (by omega) _ known
        (result.extend error labToken recToken)
      exact ⟨last, stepped.trans ran, ends.move isError move sums⟩

/-! ## The table -/

theorem covers_resize (rows cols : Nat) (space : Table Cell) :
    Table.Covers (resize rows cols space) rows cols := by
  intro i row j col
  have isRow : i < (space ++ List.replicate (rows - space.length) []).length := by simp; omega
  rw [Table.entry, resize, List.getElem?_map, List.getElem?_eq_getElem isRow, Option.map_some,
    Option.bind_some, resizeRow]
  simp
  omega

theorem exists_border {rows cols : Nat} {space : Table Cell} (covers : space.Covers rows cols)
    (positive : 0 < rows) (positive' : 0 < cols) :
    ∃ last, border rows cols space = some last ∧ last.Covers rows cols ∧
      ∀ i < rows, ∀ j < cols, i = 0 ∨ j = 0 → last.entry i j = some (value lab recs i j) := by
  obtain ⟨space, ran, covers, column, -⟩ := @Table.exists_writes _ _ (fun i => (i, 0))
    (fun i i' same => (Prod.mk.inj same).1) (fun i => ⟨i, .del⟩) rows cols rows covers
    fun i row => ⟨row, positive'⟩
  obtain ⟨space', ran', covers, row, others⟩ := @Table.exists_writes _ _ (fun j => (0, j))
    (fun j j' same => (Prod.mk.inj same).2) (fun j => ⟨j, .ins⟩) rows cols cols covers
    fun j col => ⟨positive, col⟩
  have first := row 0 positive'
  obtain ⟨last, written⟩ := Table.exists_write (covers 0 positive 0 positive') ⟨0, .non⟩
  refine ⟨last, ?_, covers.write written, ?_⟩
  · simp only at ran ran' first
    rw [border, ran, Option.bind_eq_bind, Option.bind_some, ran', Option.bind_eq_bind, Option.bind_some,
      first]
    exact written
  · intro i isRow j isCol edge
    rw [Table.entry_write written]
    split
    next here => simp [here.1, here.2, value]
    next elsewhere =>
      by_cases top : i = 0
      · subst top
        have other : j ≠ 0 := fun same => elsewhere ⟨rfl, same⟩
        simp [row j isCol, value_zero_left, other]
      · obtain rfl := edge.resolve_left top
        rw [others i 0 fun done _ same => top (Prod.mk.inj same).1.symm, column i isRow]
        simp [value_zero_right, top]

/-! ## One utterance after the other -/

/-- What `calculate` counts in the tokens of two lists. -/
structure Accounts (lab recs : List Token) (last : Tracing) : Prop where
  labCount : last.result.counts.cor + last.result.counts.sub + last.result.counts.del = lab.length
  recsCount : last.result.counts.cor + last.result.counts.sub + last.result.counts.ins = recs.length
  distance : last.result.counts.sub + last.result.counts.del + last.result.counts.ins =
    editDistance lab recs
  start : last.i = 0 ∧ last.j = 0

/-- Whatever has been calculated before, the result is that of the tokens. -/
theorem exists_calculate (calculator : Calculator) (lab recs : Tokens) :
    ∃ next last, calculate calculator lab.list recs.list = some (next, last) ∧
      Accounts lab.list recs.list last ∧
      last.result = retrace lab.list recs.list ((lab.list.length + 1) + (recs.list.length + 1))
        lab.list.length recs.list.length {} ∧
      overall next = overall calculator + last.result.counts := by
  obtain ⟨space, bordered, covers, edges⟩ := @exists_border lab.list recs.list _ _ _
    (covers_resize (lab.list.length + 1) (recs.list.length + 1) calculator.space) (Nat.succ_pos _)
    (Nat.succ_pos _)
  obtain ⟨filled, ran, cells⟩ := @Table.exists_fill _ _
    (fun i j => nearest (([] :: lab.list).getD i []) (([] :: recs.list).getD j [])) _ _ _
    (fun i j => by rw [value]; rfl) covers edges
  have known : Known lab.list recs.list
      (([] :: recs.list).foldl addToken (([] :: lab.list).foldl addToken calculator.data)) :=
    ⟨fun token member => mem_addToken (.inl (mem_addToken
        (.inr ⟨List.mem_cons_of_mem _ member, lab.nonempty token member⟩))),
      fun token member => mem_addToken
        (.inr ⟨List.mem_cons_of_mem _ member, recs.nonempty token member⟩)⟩
  obtain ⟨last, traced, ends⟩ := @exists_traceBack lab.list.length recs.list.length lab recs filled
    (fun i row j col => cells i (Nat.lt_succ_of_le row) j (Nat.lt_succ_of_le col))
    ((lab.list.length + 1) + (recs.list.length + 1)) (Nat.le_refl _) (Nat.le_refl _) (by omega) _ known
    {}
  have sums := ends.overall (total calculator.data) (by
    rw [total_addToken, total_addToken]
    simp [add_counts])
  have distance := @value_dist lab.list recs.list _ _ (Nat.le_refl _) (Nat.le_refl _) lab.room recs.room
  rw [List.take_length, List.take_length, editDistance_reverse lab.nonempty recs.nonempty] at distance
  refine ⟨⟨last.data, filled⟩, last, ?_, ⟨?_, ?_, ?_, ends.start⟩, ends.retraced, sums⟩
  · simp only [calculate, List.length_cons, bordered, ran, traced, Option.bind_eq_bind, Option.bind_some,
      Nat.add_sub_cancel]
  · simpa using ends.labCount
  · simpa using ends.recsCount
  · simpa [distance] using ends.distance

/-- A calculator that has not been used. -/
theorem result_eq_fresh {calculator next : Calculator} {lab recs : Tokens} {last : Tracing}
    (calculated : calculate calculator lab.list recs.list = some (next, last)) :
    ∃ next' last', calculate {} lab.list recs.list = some (next', last') ∧
      last'.result = last.result := by
  obtain ⟨_, _, same, -, retraced, -⟩ := exists_calculate calculator lab recs
  obtain ⟨next', last', fresh, -, retraced', -⟩ := exists_calculate {} lab recs
  cases calculated.symm.trans same
  exact ⟨next', last', fresh, retraced'.trans retraced.symm⟩

/-- The two lists of an utterance. -/
structure Utterance where
  lab : Tokens
  recs : Tokens

def Utterance.lists (utterance : Utterance) : List Token × List Token :=
  (utterance.lab.list, utterance.recs.list)

/-- The result accounts for the tokens, and it is that of a new calculator. -/
structure IsRight (utterance : Utterance) (last : Tracing) : Prop where
  accounts : Accounts utterance.lab.list utterance.recs.list last
  fresh : ∃ next' last', calculate {} utterance.lab.list utterance.recs.list = some (next', last') ∧
    last'.result = last.result

/-- The overall counts are those of all results together. -/
theorem exists_calculateAll (calculator : Calculator) (utterances : List Utterance) :
    ∃ final lasts, calculateAll calculator (utterances.map Utterance.lists) = some (final, lasts) ∧
      List.Forall₂ IsRight utterances lasts ∧
      overall final =
        lasts.foldl (fun counts last => counts + last.result.counts) (overall calculator) := by
  induction utterances generalizing calculator with
  | nil => exact ⟨calculator, [], rfl, .nil, rfl⟩
  | cons utterance utterances inductionHypothesis =>
    obtain ⟨next, last, calculated, accounts, -, sums⟩ :=
      exists_calculate calculator utterance.lab utterance.recs
    obtain ⟨final, lasts, ran, others, sums'⟩ := inductionHypothesis next
    refine ⟨final, last :: lasts, ?_, .cons ⟨accounts, result_eq_fresh calculated⟩ others, ?_⟩
    · simp [calculateAll, Utterance.lists, calculated, ran]
    · rw [sums', List.foldl_cons, sums]

/-- In every sequence of utterances on one calculator the loop comes back to the first cell, and the
    result accounts for the tokens with their edit distance. -/
theorem calculateAll_accounts (utterances : List Utterance) :
    ∃ final lasts, calculateAll {} (utterances.map Utterance.lists) = some (final, lasts) ∧
      List.Forall₂ IsRight utterances lasts := by
  obtain ⟨final, lasts, ran, right, -⟩ := exists_calculateAll {} utterances
  exact ⟨final, lasts, ran, right⟩

/-- A shorter utterance after a longer one. -/
example :
    (calculateAll {} [([['a'], ['b'], ['c']], [['a'], ['c']]), ([['x']], [['y'], ['x']])]).map
        (fun (_, lasts) => lasts.map fun last => last.result) =
      some [⟨[['a'], ['b'], ['c']], [['a'], [], ['c']], ⟨3, 2, 0, 0, 1⟩⟩,
        ⟨[[], ['x']], [['y'], ['x']], ⟨1, 1, 0, 1, 0⟩⟩] := by
  decide +kernel

end Asr2Pass.Evaluation
