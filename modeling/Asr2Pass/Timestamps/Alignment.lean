import Asr2Pass.Timestamps.Characters

/-! # The alignment of two token lists

`TimestampSmooth` aligns the tokens of a text with those of its rewritten form along the table of
their edit distances.  Punctuation marks are dropped, and an empty string stands opposite a token
that was deleted or inserted.
-/

namespace Asr2Pass.Timestamps

open Text (CString)

/-! ## The table -/

/-- The rest of a row: `left` is the entry before it, `previous` the row above from there on. -/
def fillRow (character : CString) (left : Nat) : List CString → List Nat → List Nat
  | characterItn :: charactersItn, diagonal :: above :: previous =>
    let value :=
      if character = characterItn then diagonal else min (min above left) diagonal + 1
    value :: fillRow character value charactersItn (above :: previous)
  | _, _ => []

def nextRow (charactersItn : List CString) (previous : List Nat) (character : CString) : List Nat :=
  let first := previous.headD 0 + 1
  first :: fillRow character first charactersItn previous

/-- `dp[i][j]`. -/
def dp (characters charactersItn : List CString) (i j : Nat) : Nat :=
  ((characters.take i).foldl (nextRow charactersItn) (List.range (charactersItn.length + 1))).getD j 0

/-! ## Backtracking -/

/-- `alignment_str1` and `alignment_str2`. -/
structure Alignment where
  str1 : List CString := []
  str2 : List CString := []
  deriving DecidableEq

/-- `TimestampAdd`. -/
def timestampAdd (alignmentStr : List CString) (strWord : CString) : List CString :=
  if timestampIsPunctuation strWord then alignmentStr else strWord :: alignmentStr

/-- The loop, at most so many turns.  Its last branch is taken only where both indices are
    positive. -/
def backtrack (characters charactersItn : List CString) : Nat → Nat → Nat → Alignment → Alignment
  | 0, _, _, alignment => alignment
  | turns + 1, i, j, alignment =>
    let here := dp characters charactersItn i j
    let word := characters.getD (i - 1) []
    let wordItn := charactersItn.getD (j - 1) []
    let both := ⟨timestampAdd alignment.str1 word, timestampAdd alignment.str2 wordItn⟩
    if i = 0 ∧ j = 0 then alignment
    -- Whether the two tokens are equal is not asked.
    else if 0 < i ∧ 0 < j ∧ here = dp characters charactersItn (i - 1) (j - 1) then
      backtrack characters charactersItn turns (i - 1) (j - 1) both
    else if 0 < i ∧ here = dp characters charactersItn (i - 1) j + 1 then
      backtrack characters charactersItn turns (i - 1) j
        ⟨timestampAdd alignment.str1 word, [] :: alignment.str2⟩
    else if 0 < j ∧ here = dp characters charactersItn i (j - 1) + 1 then
      backtrack characters charactersItn turns i (j - 1)
        ⟨[] :: alignment.str1, timestampAdd alignment.str2 wordItn⟩
    else backtrack characters charactersItn turns (i - 1) (j - 1) both

/-- The alignment from the ends of both lists.  Every turn goes over a token. -/
def align (characters charactersItn : List CString) : Alignment :=
  backtrack characters charactersItn (characters.length + charactersItn.length) characters.length
    charactersItn.length {}

/-! ## What an alignment keeps -/

def isWord (token : CString) : Bool := !timestampIsPunctuation token

section
variable {characters charactersItn : List CString} {i j : Nat}

theorem isWord_ne_nil {token : CString} (word : isWord token) : token ≠ [] := by
  rintro rfl
  exact absurd word (by decide)

theorem dp_zero_left (inside : j ≤ charactersItn.length) : dp characters charactersItn 0 j = j := by
  unfold dp
  rw [List.take_zero, List.foldl_nil, List.getD_eq_getElem?_getD,
    List.getElem?_range (Nat.lt_succ_of_le inside)]
  rfl

theorem dp_zero_right (inside : i ≤ characters.length) : dp characters charactersItn i 0 = i := by
  have first : ∀ (list : List CString) (row : List Nat),
      (list.foldl (nextRow charactersItn) row).headD 0 = row.headD 0 + list.length := by
    intro list
    induction list with
    | nil => exact fun row => rfl
    | cons character list inductionHypothesis =>
      intro row
      rw [List.foldl_cons, inductionHypothesis, List.length_cons]
      simp only [nextRow, List.headD_cons]
      omega
  have here := first (characters.take i) (List.range (charactersItn.length + 1))
  rw [List.length_take, Nat.min_eq_left inside] at here
  unfold dp
  rw [List.getD_eq_getElem?_getD, ← List.head?_eq_getElem?, ← List.headD_eq_head?_getD, here,
    List.range_succ_eq_map]
  simp

/-- In the last branch both indices are positive: on an edge the distance is the other index. -/
theorem positive_of_last (rows : i ≤ characters.length) (columns : j ≤ charactersItn.length)
    (more : ¬ (i = 0 ∧ j = 0))
    (noDeletion : ¬ (0 < i ∧ dp characters charactersItn i j = dp characters charactersItn (i - 1) j + 1))
    (noInsertion : ¬ (0 < j ∧ dp characters charactersItn i j = dp characters charactersItn i (j - 1) + 1)) :
    0 < i ∧ 0 < j := by
  constructor
  · by_contra edge
    have zero : i = 0 := by omega
    subst zero
    apply noInsertion
    rw [dp_zero_left columns, dp_zero_left (by omega)]
    omega
  · by_contra edge
    have zero : j = 0 := by omega
    subst zero
    apply noDeletion
    rw [dp_zero_right rows, dp_zero_right (by omega)]
    omega

theorem timestampAdd_words (alignmentStr : List CString) (strWord : CString) :
    (timestampAdd alignmentStr strWord).filter (· ≠ []) =
      [strWord].filter isWord ++ alignmentStr.filter (· ≠ []) := by
  unfold timestampAdd
  split
  · rename_i mark
    simp [isWord, mark]
  · rename_i noMark
    have word : isWord strWord := by simpa [isWord] using noMark
    simp [word, isWord_ne_nil word]

theorem timestampAdd_length (alignmentStr : List CString) (strWord : CString) :
    (timestampAdd alignmentStr strWord).length + [strWord].countP timestampIsPunctuation =
      alignmentStr.length + 1 := by
  unfold timestampAdd
  split
  · rename_i mark
    simp [mark]
  · rename_i noMark
    simp [noMark]

theorem take_pos {list : List CString} (positive : 0 < i) (inside : i ≤ list.length) :
    list.take i = list.take (i - 1) ++ [list.getD (i - 1) []] := by
  obtain ⟨before, rfl⟩ : ∃ before, i = before + 1 := ⟨i - 1, by omega⟩
  rw [Nat.add_sub_cancel, List.take_succ_eq_append_getElem (by omega), List.getD_eq_getElem?_getD,
    List.getElem?_eq_getElem (by omega)]
  rfl

/-- What is left of the tokens when the loop has come to `i` and `j`. -/
structure Kept (characters charactersItn : List CString) (i j : Nat)
    (before after : Alignment) : Prop where
  words1 : after.str1.filter (· ≠ []) = (characters.take i).filter isWord ++ before.str1.filter (· ≠ [])
  words2 : after.str2.filter (· ≠ []) =
    (charactersItn.take j).filter isWord ++ before.str2.filter (· ≠ [])
  lengths : after.str1.length + (characters.take i).countP timestampIsPunctuation + before.str2.length =
    after.str2.length + (charactersItn.take j).countP timestampIsPunctuation + before.str1.length

theorem Kept.done (alignment : Alignment) :
    Kept characters charactersItn 0 0 alignment alignment := by
  refine ⟨by simp, by simp, ?_⟩
  simp only [List.take_zero, List.countP_nil, Nat.add_zero]
  omega

/-- A turn over a token of both lists. -/
theorem Kept.both {before after : Alignment} (rows : i ≤ characters.length)
    (columns : j ≤ charactersItn.length) (positive : 0 < i ∧ 0 < j)
    (kept : Kept characters charactersItn (i - 1) (j - 1)
      ⟨timestampAdd before.str1 (characters.getD (i - 1) []),
        timestampAdd before.str2 (charactersItn.getD (j - 1) [])⟩ after) :
    Kept characters charactersItn i j before after := by
  obtain ⟨words1, words2, lengths⟩ := kept
  have one := timestampAdd_length before.str1 (characters.getD (i - 1) [])
  have two := timestampAdd_length before.str2 (charactersItn.getD (j - 1) [])
  simp only [timestampAdd_words, ← List.append_assoc, ← List.filter_append] at words1 words2
  constructor
  · rw [take_pos positive.1 rows, words1]
  · rw [take_pos positive.2 columns, words2]
  · rw [take_pos positive.1 rows, take_pos positive.2 columns, List.countP_append, List.countP_append]
    simp only at lengths
    omega

/-- A turn over a token that was deleted. -/
theorem Kept.deletion {before after : Alignment} (rows : i ≤ characters.length) (positive : 0 < i)
    (kept : Kept characters charactersItn (i - 1) j
      ⟨timestampAdd before.str1 (characters.getD (i - 1) []), [] :: before.str2⟩ after) :
    Kept characters charactersItn i j before after := by
  obtain ⟨words1, words2, lengths⟩ := kept
  have one := timestampAdd_length before.str1 (characters.getD (i - 1) [])
  simp only [timestampAdd_words, ← List.append_assoc, ← List.filter_append] at words1
  constructor
  · rw [take_pos positive rows, words1]
  · simpa using words2
  · rw [take_pos positive rows, List.countP_append]
    simp only [List.length_cons] at lengths
    omega

/-- A turn over a token that was inserted. -/
theorem Kept.insertion {before after : Alignment} (columns : j ≤ charactersItn.length)
    (positive : 0 < j)
    (kept : Kept characters charactersItn i (j - 1)
      ⟨[] :: before.str1, timestampAdd before.str2 (charactersItn.getD (j - 1) [])⟩ after) :
    Kept characters charactersItn i j before after := by
  obtain ⟨words1, words2, lengths⟩ := kept
  have two := timestampAdd_length before.str2 (charactersItn.getD (j - 1) [])
  simp only [timestampAdd_words, ← List.append_assoc, ← List.filter_append] at words2
  constructor
  · simpa using words1
  · rw [take_pos positive columns, words2]
  · rw [take_pos positive columns, List.countP_append]
    simp only [List.length_cons] at lengths
    omega

/-- A run of the loop goes over all tokens. -/
theorem backtrack_kept {turns : Nat} (rows : i ≤ characters.length)
    (columns : j ≤ charactersItn.length) (enough : i + j ≤ turns) (alignment : Alignment) :
    Kept characters charactersItn i j alignment
      (backtrack characters charactersItn turns i j alignment) := by
  -- On the turns; where neither of the first two tests holds, the last branch has both tokens.
  induction turns generalizing i j alignment with
  | zero =>
    obtain ⟨rfl, rfl⟩ : i = 0 ∧ j = 0 := by omega
    exact Kept.done alignment
  | succ turns inductionHypothesis =>
    unfold backtrack
    dsimp only
    split
    · rename_i ends
      obtain ⟨rfl, rfl⟩ := ends
      exact Kept.done alignment
    · rename_i more
      split
      · rename_i equal
        exact Kept.both rows columns ⟨equal.1, equal.2.1⟩
          (inductionHypothesis (by omega) (by omega) (by omega) _)
      · split
        · rename_i deleted
          exact Kept.deletion rows deleted.1 (inductionHypothesis (by omega) columns (by omega) _)
        · rename_i noDeletion
          split
          · rename_i inserted
            exact Kept.insertion columns inserted.1
              (inductionHypothesis rows (by omega) (by omega) _)
          · rename_i noInsertion
            have positive := positive_of_last rows columns more noDeletion noInsertion
            exact Kept.both rows columns positive
              (inductionHypothesis (by omega) (by omega) (by omega) _)

/-- Every word of a list stands in its string, in order. -/
theorem align_words (characters charactersItn : List CString) :
    (align characters charactersItn).str1.filter (· ≠ []) = characters.filter isWord ∧
      (align characters charactersItn).str2.filter (· ≠ []) = charactersItn.filter isWord := by
  have kept := backtrack_kept (Nat.le_refl characters.length) (Nat.le_refl charactersItn.length)
    (Nat.le_refl _) {}
  have words1 := kept.words1
  have words2 := kept.words2
  rw [List.take_length, List.filter_nil, List.append_nil] at words1 words2
  exact ⟨words1, words2⟩

/-- The strings differ in length as the lists differ in their marks. -/
theorem align_lengths (characters charactersItn : List CString) :
    (align characters charactersItn).str1.length + characters.countP timestampIsPunctuation =
      (align characters charactersItn).str2.length +
        charactersItn.countP timestampIsPunctuation := by
  have kept := backtrack_kept (Nat.le_refl characters.length) (Nat.le_refl charactersItn.length)
    (Nat.le_refl _) {}
  have lengths := kept.lengths
  rw [List.take_length, List.take_length] at lengths
  exact lengths

/-! ## A list with itself -/

theorem fillRow_length {character : CString} {left : Nat} {previous : List Nat}
    (full : previous.length = charactersItn.length + 1) :
    (fillRow character left charactersItn previous).length = charactersItn.length := by
  induction charactersItn generalizing left previous with
  | nil => rfl
  | cons characterItn charactersItn inductionHypothesis =>
    match previous with
    | diagonal :: above :: previous =>
      unfold fillRow
      dsimp only
      rw [List.length_cons, List.length_cons, inductionHypothesis (by simpa using full)]

/-- Where the tokens are the same, the distance is the one before both. -/
theorem fillRow_same {character : CString} {left : Nat} {previous : List Nat}
    (full : previous.length = charactersItn.length + 1)
    (same : charactersItn[j]? = some character) :
    (fillRow character left charactersItn previous)[j]? = previous[j]? := by
  induction charactersItn generalizing left previous j with
  | nil => cases same
  | cons characterItn charactersItn inductionHypothesis =>
    match previous with
    | diagonal :: above :: previous =>
      unfold fillRow
      dsimp only
      cases j with
      | zero =>
        cases same
        simp
      | succ j =>
        rw [List.getElem?_cons_succ, List.getElem?_cons_succ]
        exact inductionHypothesis (by simpa using full) same

theorem rows_length (characters : List CString) {row : List Nat}
    (full : row.length = charactersItn.length + 1) :
    (characters.foldl (nextRow charactersItn) row).length = charactersItn.length + 1 := by
  induction characters generalizing row with
  | nil => exact full
  | cons character characters inductionHypothesis =>
    rw [List.foldl_cons]
    apply inductionHypothesis
    rw [nextRow, List.length_cons, fillRow_length full]

theorem dp_self (characters : List CString) (inside : i ≤ characters.length) :
    dp characters characters i i = 0 := by
  induction i with
  | zero => exact dp_zero_left (Nat.zero_le _)
  | succ i inductionHypothesis =>
    have same := List.getElem?_eq_getElem (Nat.lt_of_succ_le inside)
    have before := inductionHypothesis (Nat.le_of_succ_le inside)
    unfold dp at before ⊢
    rw [List.take_succ_eq_append_getElem (Nat.lt_of_succ_le inside), List.foldl_append,
      List.foldl_cons, List.foldl_nil, nextRow, List.getD_eq_getElem?_getD,
      List.getElem?_cons_succ, fillRow_same (rows_length _ List.length_range) same, ← List.getD_eq_getElem?_getD]
    exact before

theorem timestampAdd_eq (alignmentStr : List CString) (strWord : CString) :
    timestampAdd alignmentStr strWord = [strWord].filter isWord ++ alignmentStr := by
  unfold timestampAdd isWord
  split
  · rename_i mark
    simp [mark]
  · rename_i noMark
    simp [noMark]

theorem backtrack_self {characters : List CString} {turns : Nat} (inside : i ≤ characters.length)
    (enough : i ≤ turns) (alignment : Alignment) :
    backtrack characters characters turns i i alignment =
      ⟨(characters.take i).filter isWord ++ alignment.str1,
        (characters.take i).filter isWord ++ alignment.str2⟩ := by
  induction turns generalizing i alignment with
  | zero =>
    obtain rfl : i = 0 := Nat.le_zero.mp enough
    rfl
  | succ turns inductionHypothesis =>
    unfold backtrack
    dsimp only
    split
    · rename_i ends
      obtain rfl : i = 0 := ends.1
      rfl
    · rename_i more
      have positive : 0 < i := by omega
      have diagonal : dp characters characters i i = dp characters characters (i - 1) (i - 1) := by
        rw [dp_self characters inside, dp_self characters (by omega)]
      rw [if_pos ⟨positive, positive, diagonal⟩, inductionHypothesis (by omega) (by omega),
        take_pos positive inside, List.filter_append, timestampAdd_eq, timestampAdd_eq,
        List.append_assoc, List.append_assoc]

/-- Aligned with itself, a list keeps its words in both strings. -/
theorem align_self (characters : List CString) :
    align characters characters = ⟨characters.filter isWord, characters.filter isWord⟩ := by
  unfold align
  rw [backtrack_self (Nat.le_refl _) (Nat.le_add_right _ _), List.take_length, List.append_nil]

end

end Asr2Pass.Timestamps
