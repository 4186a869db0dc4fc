import Asr2Pass.Library.EditDistance
import Asr2Pass.Timestamps.TimestampSmooth

/-! # How good the alignment is

The table of `TimestampSmooth` holds edit distances, but the backtracking takes two tokens for equal
wherever the distance is that of the cell before both.  An alignment has as many columns that differ
as the distance says, and one more for every two tokens that were taken for equal wrongly.
-/

namespace Asr2Pass.Timestamps

open Library
open Text (CString bytes)

variable {characters charactersItn : List CString} {i j : Nat}

/-! ## The table -/

/-- The distances of `xs` to longer and longer beginnings; `before` is what is in front of them, in
    reverse order. -/
def distances (xs before : List CString) : List CString → List Nat
  | [] => [editDistance xs before]
  | y :: ys => editDistance xs before :: distances xs (y :: before) ys

theorem distances_head (xs before ys : List CString) :
    ∃ rest, distances xs before ys = editDistance xs before :: rest := by
  cases ys with
  | nil => exact ⟨[], rfl⟩
  | cons y ys => exact ⟨_, rfl⟩

theorem fillRow_distances (character : CString) (xs before ys : List CString) :
    editDistance (character :: xs) before ::
        fillRow character (editDistance (character :: xs) before) ys (distances xs before ys) =
      distances (character :: xs) before ys := by
  induction ys generalizing before with
  | nil => rfl
  | cons y ys inductionHypothesis =>
    obtain ⟨rest, above⟩ := distances_head xs (y :: before) ys
    have later := inductionHypothesis (y :: before)
    rw [above, editDistance_cons_cons] at later
    rw [distances, distances, above, fillRow, ← later]

theorem nextRow_distances (character : CString) (xs ys : List CString) :
    nextRow ys (distances xs [] ys) character = distances (character :: xs) [] ys := by
  have filled := fillRow_distances character xs [] ys
  obtain ⟨rest, above⟩ := distances_head xs [] ys
  rw [editDistance_nil_right, List.length_cons] at filled
  rw [← filled, nextRow, above, List.headD_cons, editDistance_nil_right]

theorem distances_nil (before ys : List CString) :
    distances [] before ys = List.range' before.length (ys.length + 1) := by
  induction ys generalizing before with
  | nil => simp [distances]
  | cons y ys inductionHypothesis =>
    rw [distances, inductionHypothesis, editDistance_nil_left, List.length_cons, List.length_cons]
    rfl

theorem foldl_nextRow (characters xs ys : List CString) :
    characters.foldl (nextRow ys) (distances xs [] ys) = distances (characters.reverse ++ xs) [] ys := by
  induction characters generalizing xs with
  | nil => rfl
  | cons character characters inductionHypothesis =>
    rw [List.foldl_cons, nextRow_distances, inductionHypothesis]
    simp

theorem distances_getD {xs before ys : List CString} (inside : j ≤ ys.length) :
    (distances xs before ys).getD j 0 = editDistance xs ((ys.take j).reverse ++ before) := by
  induction ys generalizing before j with
  | nil =>
    obtain rfl : j = 0 := Nat.le_zero.mp inside
    rfl
  | cons y ys inductionHypothesis =>
    cases j with
    | zero => rfl
    | succ j =>
      rw [distances, List.getD_cons_succ, inductionHypothesis (Nat.le_of_succ_le_succ inside)]
      simp

/-- `dp[i][j]` is the edit distance of the first `i` and the first `j` tokens, here from their ends. -/
theorem dp_eq_editDistance (columns : j ≤ charactersItn.length) (i : Nat) :
    dp characters charactersItn i j =
      editDistance (characters.take i).reverse (charactersItn.take j).reverse := by
  have first : List.range (charactersItn.length + 1) = distances [] [] charactersItn := by
    rw [distances_nil, List.range_eq_range']
    rfl
  rw [dp, first, foldl_nextRow, distances_getD columns, List.append_nil, List.append_nil]

/-! ## Where the backtracking goes wrong -/

/-- Going back from the ends of two lists, given here in reverse order, wherever the distance is that
    of the lists without their last tokens these two tokens are the same. -/
def NoSlip : List CString → List CString → Prop
  | x :: xs, y :: ys =>
    if editDistance (x :: xs) (y :: ys) = editDistance xs ys then x = y ∧ NoSlip xs ys
    else if editDistance (x :: xs) (y :: ys) = editDistance xs (y :: ys) + 1 then NoSlip xs (y :: ys)
    else if editDistance (x :: xs) (y :: ys) = editDistance (x :: xs) ys + 1 then NoSlip (x :: xs) ys
    else NoSlip xs ys
  | _, _ => True
termination_by xs ys => xs.length + ys.length

/-- `NoSlip` of the first `i` and the first `j` tokens. -/
def NoSlipAt (characters charactersItn : List CString) (i j : Nat) : Prop :=
  NoSlip (characters.take i).reverse (charactersItn.take j).reverse

theorem reverse_take_pos {list : List CString} (positive : 0 < i) (inside : i ≤ list.length) :
    (list.take i).reverse = list.getD (i - 1) [] :: (list.take (i - 1)).reverse := by
  rw [take_pos positive inside, List.reverse_append]
  rfl

theorem noSlip_nil_right (xs : List CString) : NoSlip xs [] := by
  cases xs with
  | nil => simp [NoSlip]
  | cons x xs => simp [NoSlip]

/-- A cell with a token of both lists, as the backtracking sees it. -/
theorem noSlipAt_iff (rows : i ≤ characters.length) (columns : j ≤ charactersItn.length)
    (positive : 0 < i ∧ 0 < j) :
    NoSlipAt characters charactersItn i j ↔
      if dp characters charactersItn i j = dp characters charactersItn (i - 1) (j - 1) then
        characters.getD (i - 1) [] = charactersItn.getD (j - 1) [] ∧
          NoSlipAt characters charactersItn (i - 1) (j - 1)
      else if dp characters charactersItn i j = dp characters charactersItn (i - 1) j + 1 then
        NoSlipAt characters charactersItn (i - 1) j
      else if dp characters charactersItn i j = dp characters charactersItn i (j - 1) + 1 then
        NoSlipAt characters charactersItn i (j - 1)
      else NoSlipAt characters charactersItn (i - 1) (j - 1) := by
  have before : j - 1 ≤ charactersItn.length := by omega
  simp only [NoSlipAt, dp_eq_editDistance columns, dp_eq_editDistance before]
  rw [reverse_take_pos positive.1 rows, reverse_take_pos positive.2 columns, NoSlip]

theorem dp_eq_ite (rows : i ≤ characters.length) (columns : j ≤ charactersItn.length)
    (positive : 0 < i ∧ 0 < j) :
    dp characters charactersItn i j =
      if characters.getD (i - 1) [] = charactersItn.getD (j - 1) [] then
        dp characters charactersItn (i - 1) (j - 1)
      else min (min (dp characters charactersItn (i - 1) j) (dp characters charactersItn i (j - 1)))
        (dp characters charactersItn (i - 1) (j - 1)) + 1 := by
  have before : j - 1 ≤ charactersItn.length := by omega
  simp only [dp_eq_editDistance columns, dp_eq_editDistance before]
  rw [reverse_take_pos positive.1 rows, reverse_take_pos positive.2 columns, editDistance_cons_cons]

theorem noSlipAt_deletion (rows : i ≤ characters.length) (columns : j ≤ charactersItn.length)
    (notEqual : ¬ (0 < i ∧ 0 < j ∧
      dp characters charactersItn i j = dp characters charactersItn (i - 1) (j - 1)))
    (deleted : 0 < i ∧ dp characters charactersItn i j = dp characters charactersItn (i - 1) j + 1) :
    NoSlipAt characters charactersItn i j ↔ NoSlipAt characters charactersItn (i - 1) j := by
  by_cases positive : 0 < j
  · have apart := fun equal => notEqual ⟨deleted.1, positive, equal⟩
    rw [noSlipAt_iff rows columns ⟨deleted.1, positive⟩, if_neg apart, if_pos deleted.2]
  · obtain rfl : j = 0 := by omega
    exact iff_of_true (noSlip_nil_right _) (noSlip_nil_right _)

theorem noSlipAt_insertion (rows : i ≤ characters.length) (columns : j ≤ charactersItn.length)
    (notEqual : ¬ (0 < i ∧ 0 < j ∧
      dp characters charactersItn i j = dp characters charactersItn (i - 1) (j - 1)))
    (notDeleted : ¬ (0 < i ∧
      dp characters charactersItn i j = dp characters charactersItn (i - 1) j + 1))
    (inserted : 0 < j ∧ dp characters charactersItn i j = dp characters charactersItn i (j - 1) + 1) :
    NoSlipAt characters charactersItn i j ↔ NoSlipAt characters charactersItn i (j - 1) := by
  by_cases positive : 0 < i
  · have apart := fun equal => notEqual ⟨positive, inserted.1, equal⟩
    have kept := fun deleted => notDeleted ⟨positive, deleted⟩
    rw [noSlipAt_iff rows columns ⟨positive, inserted.1⟩, if_neg apart, if_neg kept,
      if_pos inserted.2]
  · obtain rfl : i = 0 := by omega
    simp [NoSlipAt, NoSlip]

/-- In the last branch the tokens differ, and what is left of the minimum is the cell before both. -/
theorem dp_of_last (rows : i ≤ characters.length) (columns : j ≤ charactersItn.length)
    (positive : 0 < i ∧ 0 < j)
    (apart : dp characters charactersItn i j ≠ dp characters charactersItn (i - 1) (j - 1))
    (kept : dp characters charactersItn i j ≠ dp characters charactersItn (i - 1) j + 1)
    (missing : dp characters charactersItn i j ≠ dp characters charactersItn i (j - 1) + 1) :
    characters.getD (i - 1) [] ≠ charactersItn.getD (j - 1) [] ∧
      dp characters charactersItn i j = dp characters charactersItn (i - 1) (j - 1) + 1 := by
  have table := dp_eq_ite rows columns positive
  have differs : characters.getD (i - 1) [] ≠ charactersItn.getD (j - 1) [] :=
    fun same => apart (table.trans (if_pos same))
  rw [if_neg differs] at table
  exact ⟨differs, by omega⟩

/-! ## The columns -/

theorem timestampAdd_word {token : CString} (word : isWord token) (alignmentStr : List CString) :
    timestampAdd alignmentStr token = token :: alignmentStr := by
  rw [timestampAdd_eq, List.filter_cons_of_pos word]
  rfl

theorem differing_both (alignment : Alignment) {token tokenItn : CString} (word : isWord token)
    (wordItn : isWord tokenItn) :
    differing (columns ⟨timestampAdd alignment.str1 token, timestampAdd alignment.str2 tokenItn⟩) =
      differing (columns alignment) + if token = tokenItn then 0 else 1 := by
  rw [timestampAdd_word word, timestampAdd_word wordItn]
  exact differing_cons (token, tokenItn) (columns alignment)

theorem differing_deletion (alignment : Alignment) {token : CString} (word : isWord token) :
    differing (columns ⟨timestampAdd alignment.str1 token, [] :: alignment.str2⟩) =
      differing (columns alignment) + 1 := by
  rw [timestampAdd_word word]
  exact (differing_cons (token, []) (columns alignment)).trans (by simp [isWord_ne_nil word])

theorem differing_insertion (alignment : Alignment) {tokenItn : CString} (wordItn : isWord tokenItn) :
    differing (columns ⟨[] :: alignment.str1, timestampAdd alignment.str2 tokenItn⟩) =
      differing (columns alignment) + 1 := by
  rw [timestampAdd_word wordItn]
  exact (differing_cons ([], tokenItn) (columns alignment)).trans (by simp [(isWord_ne_nil wordItn).symm])

theorem isWord_getD {tokens : List CString} (words : ∀ token ∈ tokens, isWord token) (positive : 0 < i)
    (inside : i ≤ tokens.length) : isWord (tokens.getD (i - 1) []) := by
  rw [List.getD_eq_getElem?_getD, List.getElem?_eq_getElem (by omega)]
  exact words _ (List.getElem_mem _)

section
variable (words : ∀ token ∈ characters, isWord token) (wordsItn : ∀ token ∈ charactersItn, isWord token)
include words wordsItn

/-- How many columns differ after the loop: as many as before and as the distance says, exactly where
    no two tokens are taken for equal wrongly. -/
theorem backtrack_differing {turns : Nat} (rows : i ≤ characters.length)
    (cols : j ≤ charactersItn.length) (enough : i + j ≤ turns) (alignment : Alignment) :
    differing (columns alignment) + dp characters charactersItn i j ≤
        differing (columns (backtrack characters charactersItn turns i j alignment)) ∧
      (differing (columns (backtrack characters charactersItn turns i j alignment)) =
          differing (columns alignment) + dp characters charactersItn i j ↔
        NoSlipAt characters charactersItn i j) := by
  induction turns generalizing i j alignment with
  | zero =>
    obtain ⟨rfl, rfl⟩ : i = 0 ∧ j = 0 := by omega
    rw [dp_zero_left (Nat.zero_le _)]
    simp [backtrack, NoSlipAt, NoSlip]
  | succ turns inductionHypothesis =>
    unfold backtrack
    dsimp only
    split
    · rename_i ends
      obtain ⟨rfl, rfl⟩ := ends
      rw [dp_zero_left (Nat.zero_le _)]
      simp [NoSlipAt, NoSlip]
    · rename_i more
      split
      · rename_i equal
        have word := isWord_getD words equal.1 rows
        have wordItn := isWord_getD wordsItn equal.2.1 cols
        obtain ⟨least, exactly⟩ := @inductionHypothesis (i - 1) (j - 1) (by omega) (by omega) (by omega)
          ⟨timestampAdd alignment.str1 (characters.getD (i - 1) []),
            timestampAdd alignment.str2 (charactersItn.getD (j - 1) [])⟩
        rw [differing_both alignment word wordItn] at least exactly
        rw [noSlipAt_iff rows cols ⟨equal.1, equal.2.1⟩, if_pos equal.2.2, equal.2.2]
        -- two different tokens cost a column that the distance does not count
        by_cases same : characters.getD (i - 1) [] = charactersItn.getD (j - 1) []
        · rw [if_pos same] at least exactly
          exact ⟨least, exactly.trans (and_iff_right same).symm⟩
        · rw [if_neg same] at least
          exact ⟨by omega, iff_of_false (by omega) fun both => same both.1⟩
      · rename_i notEqual
        split
        · rename_i deleted
          have word := isWord_getD words deleted.1 rows
          obtain ⟨least, exactly⟩ := @inductionHypothesis (i - 1) j (by omega) cols (by omega)
            ⟨timestampAdd alignment.str1 (characters.getD (i - 1) []), [] :: alignment.str2⟩
          rw [differing_deletion alignment word, add_assoc, add_comm 1] at least exactly
          rw [noSlipAt_deletion rows cols notEqual deleted, deleted.2]
          exact ⟨least, exactly⟩
        · rename_i notDeleted
          split
          · rename_i inserted
            have wordItn := isWord_getD wordsItn inserted.1 cols
            obtain ⟨least, exactly⟩ := @inductionHypothesis i (j - 1) rows (by omega) (by omega)
              ⟨[] :: alignment.str1, timestampAdd alignment.str2 (charactersItn.getD (j - 1) [])⟩
            rw [differing_insertion alignment wordItn, add_assoc, add_comm 1] at least exactly
            rw [noSlipAt_insertion rows cols notEqual notDeleted inserted, inserted.2]
            exact ⟨least, exactly⟩
          · rename_i notInserted
            have positive := positive_of_last rows cols more notDeleted notInserted
            have word := isWord_getD words positive.1 rows
            have wordItn := isWord_getD wordsItn positive.2 cols
            have apart := fun equal => notEqual ⟨positive.1, positive.2, equal⟩
            have kept := fun deleted => notDeleted ⟨positive.1, deleted⟩
            have missing := fun inserted => notInserted ⟨positive.2, inserted⟩
            obtain ⟨differs, replaced⟩ := dp_of_last rows cols positive apart kept missing
            obtain ⟨least, exactly⟩ := @inductionHypothesis (i - 1) (j - 1) (by omega) (by omega)
              (by omega) ⟨timestampAdd alignment.str1 (characters.getD (i - 1) []),
                timestampAdd alignment.str2 (charactersItn.getD (j - 1) [])⟩
            rw [differing_both alignment word wordItn, if_neg differs, add_assoc, add_comm 1]
              at least exactly
            rw [noSlipAt_iff rows cols positive, if_neg apart, if_neg kept, if_neg missing, replaced]
            exact ⟨least, exactly⟩

/-- `dp[m][n]` is the least number of columns that differ in an alignment of the two lists. -/
theorem dp_isLeast :
    IsLeast {count | ∃ columns, Aligns [] columns characters charactersItn ∧ differing columns = count}
      (dp characters charactersItn characters.length charactersItn.length) := by
  have noGap : ∀ token ∈ characters, token ≠ [] := fun token member =>
    isWord_ne_nil (words token member)
  have noGap' : ∀ token ∈ charactersItn, token ≠ [] := fun token member =>
    isWord_ne_nil (wordsItn token member)
  rw [dp_eq_editDistance le_rfl, List.take_length, List.take_length,
    editDistance_reverse noGap noGap']
  exact editDistance_isLeast noGap noGap'

end

/-- The strings are an alignment of the two lists, with as many columns that differ as `dp[m][n]`
    says. -/
structure IsOptimal (characters charactersItn : List CString) : Prop where
  lengths : (align characters charactersItn).str1.length = (align characters charactersItn).str2.length
  tokens : (align characters charactersItn).str1.filter (· ≠ []) = characters
  tokensItn : (align characters charactersItn).str2.filter (· ≠ []) = charactersItn
  differing : differing (columns (align characters charactersItn)) =
    dp characters charactersItn characters.length charactersItn.length

/-- The alignment is optimal exactly when no two different tokens are taken for equal. -/
theorem isOptimal_iff (words : ∀ token ∈ characters, isWord token)
    (wordsItn : ∀ token ∈ charactersItn, isWord token) :
    IsOptimal characters charactersItn ↔ NoSlip characters.reverse charactersItn.reverse := by
  obtain ⟨-, exactly⟩ := backtrack_differing words wordsItn le_rfl le_rfl le_rfl {}
  have nothing : differing (columns {}) = 0 := rfl
  rw [nothing, Nat.zero_add, NoSlipAt, List.take_length, List.take_length] at exactly
  rw [← exactly]
  constructor
  · exact IsOptimal.differing
  · intro count
    -- Without marks the alignment shows all tokens, and only the count is left to compare.
    have tokens := align_words characters charactersItn
    have lengths := align_lengths characters charactersItn
    have noMark : characters.countP timestampIsPunctuation = 0 :=
      List.countP_eq_zero.mpr fun token member => by simpa [isWord] using words token member
    have noMark' : charactersItn.countP timestampIsPunctuation = 0 :=
      List.countP_eq_zero.mpr fun token member => by simpa [isWord] using wordsItn token member
    rw [List.filter_eq_self.mpr words, List.filter_eq_self.mpr wordsItn] at tokens
    exact ⟨by omega, tokens.1, tokens.2, count⟩

/-- A token is appended: the distance is 1, and two columns differ. -/
theorem not_isOptimal_appended :
    (∀ token ∈ [bytes "a", bytes "b"], isWord token) ∧ ¬ IsOptimal [bytes "a"] [bytes "a", bytes "b"] := by
  refine ⟨by decide, fun optimal => ?_⟩
  have count := optimal.differing
  revert count
  decide

/-- Put in front, it is found. -/
theorem isOptimal_prepended : IsOptimal [bytes "a"] [bytes "b", bytes "a"] := by
  refine (isOptimal_iff (by decide) (by decide)).mpr ?_
  have equal : bytes "a" = [0x61] := rfl
  have other : bytes "b" = [0x62] := rfl
  simp [NoSlip, editDistance_cons_cons, equal, other]

end Asr2Pass.Timestamps
