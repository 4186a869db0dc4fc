import Asr2Pass.Ctc.BuildContextGraph

/-! # `SplitUTF8StringToWords`

From `start` on, the longest piece that the symbol table has is taken for a word.  The loop over `end`
moves `start` itself, and leaves since its condition fails in the next turn.
-/

namespace Asr2Pass.Ctc

open Text Itn

/-- `start`, `words` and `no_oov`. -/
structure Segmentation where
  start : Nat
  words : List CString
  noOov : Bool
  deriving DecidableEq, Repr

namespace Segmentation

variable {symbolTable : CString → Option Nat} {useLmSymbols : Bool} {chars : List CString}

/-- A piece as it is looked up: an English one has the mark in front. -/
def marked (useLmSymbols : Bool) (word : CString) : CString :=
  if isAlpha word && !useLmSymbols then kSpaceSymbol ++ word else word

/-- The characters from `start` to `stop` as one piece. -/
def piece (chars : List CString) (start stop : Nat) : CString := ((chars.take stop).drop start).flatten

/-- The loop over `end`. -/
def wordLoop (symbolTable : CString → Option Nat) (useLmSymbols : Bool) (chars : List CString) :
    Nat → Segmentation → Segmentation
  | 0, state => state
  | stop + 1, state =>
    if stop + 1 > state.start then
      let word := piece chars state.start (stop + 1)
      if word = bytes " " then
        wordLoop symbolTable useLmSymbols chars stop { state with start := stop + 1 }
      else
        let word := marked useLmSymbols word
        if (symbolTable word).isSome then
          wordLoop symbolTable useLmSymbols chars stop
            { state with start := stop + 1, words := state.words ++ [word] }
        else if stop + 1 = state.start + 1 then
          wordLoop symbolTable useLmSymbols chars stop
            { state with start := state.start + 1, noOov := false }
        else wordLoop symbolTable useLmSymbols chars stop state
    else state

/-- With `start` moved to `end` the loop is left. -/
theorem wordLoop_of_le {stop : Nat} {state : Segmentation} (moved : stop ≤ state.start) :
    wordLoop symbolTable useLmSymbols chars stop state = state := by
  cases stop with
  | zero => rfl
  | succ stop => rw [wordLoop, if_neg (by omega)]

/-- What the loop over `end` can do. -/
theorem wordLoop_cases {stop : Nat} {state : Segmentation} (inside : state.start < stop) :
    (∃ stop' ≤ stop, state.start < stop' ∧ piece chars state.start stop' = bytes " " ∧
      wordLoop symbolTable useLmSymbols chars stop state = { state with start := stop' }) ∨
    (∃ stop' ≤ stop, state.start < stop' ∧
      (symbolTable (marked useLmSymbols (piece chars state.start stop'))).isSome ∧
      wordLoop symbolTable useLmSymbols chars stop state =
        { state with
          start := stop'
          words := state.words ++ [marked useLmSymbols (piece chars state.start stop')] }) ∨
    wordLoop symbolTable useLmSymbols chars stop state =
      { state with start := state.start + 1, noOov := false } := by
  induction stop with
  | zero => omega
  | succ stop inductionHypothesis =>
    simp only [wordLoop, if_pos inside]
    by_cases space : piece chars state.start (stop + 1) = bytes " "
    · rw [if_pos space, wordLoop_of_le (Nat.le_succ stop)]
      exact .inl ⟨stop + 1, Nat.le_refl _, inside, space, rfl⟩
    · rw [if_neg space]
      by_cases found : (symbolTable (marked useLmSymbols (piece chars state.start (stop + 1)))).isSome
      · rw [if_pos found, wordLoop_of_le (Nat.le_succ stop)]
        exact .inr (.inl ⟨stop + 1, Nat.le_refl _, inside, found, rfl⟩)
      · rw [if_neg found]
        by_cases single : stop + 1 = state.start + 1
        · rw [if_pos single, wordLoop_of_le (by simp only; omega)]
          exact .inr (.inr rfl)
        · rw [if_neg single]
          rcases inductionHypothesis (by omega) with ⟨stop', most, space'⟩ | ⟨stop', most, found'⟩ | oov
          · exact .inl ⟨stop', by omega, space'⟩
          · exact .inr (.inl ⟨stop', by omega, found'⟩)
          · exact .inr (.inr oov)

/-- Every turn of the outer loop moves `start`. -/
theorem wordLoop_start {stop : Nat} {state : Segmentation} (inside : state.start < stop) :
    state.start < (wordLoop symbolTable useLmSymbols chars stop state).start := by
  rcases @wordLoop_cases symbolTable useLmSymbols chars _ _ inside with
    ⟨stop', -, later, -, same⟩ | ⟨stop', -, later, -, same⟩ | same
  · simpa [same] using later
  · simpa [same] using later
  · simp [same]

/-- The loop over `start`. -/
def wordsLoop (symbolTable : CString → Option Nat) (useLmSymbols : Bool) (chars : List CString)
    (state : Segmentation) : Segmentation :=
  if _inside : state.start < chars.length then
    wordsLoop symbolTable useLmSymbols chars
      (wordLoop symbolTable useLmSymbols chars chars.length state)
  else state
termination_by chars.length - state.start
decreasing_by
  have := @wordLoop_start symbolTable useLmSymbols chars _ _ _inside
  omega

/-- `SplitUTF8StringToWords`: `words`, and what is returned. -/
def splitUTF8StringToWords (symbolTable : CString → Option Nat) (str : CString) (words : List CString)
    (useLmSymbols : Bool) : List CString × Bool :=
  let last := wordsLoop symbolTable useLmSymbols (splitUTF8StringToChars (trim str)) ⟨0, words, true⟩
  (last.words, last.noOov)

/-! ## Characters -/

theorem flatten_splitCharsLoop {bytes turns : Nat} {str : CString} (pos : 0 < bytes)
    (enough : str.length ≤ turns) : (splitCharsLoop bytes turns str).flatten = str := by
  induction turns generalizing bytes str with
  | zero =>
    obtain rfl := List.length_eq_zero_iff.mp (Nat.le_zero.mp enough)
    rfl
  | succ turns inductionHypothesis =>
    cases str with
    | nil => rfl
    | cons ch rest =>
      have next := utf8Bytes_pos pos ch
      have later := @inductionHypothesis (utf8Bytes bytes ch) ((ch :: rest).drop (utf8Bytes bytes ch)) next
        (by simp at enough ⊢; omega)
      simp only [splitCharsLoop, List.flatten_cons, later, List.take_append_drop]

/-- The characters of any bytes make up these bytes. -/
theorem flatten_splitUTF8StringToChars (str : CString) : (splitUTF8StringToChars str).flatten = str :=
  flatten_splitCharsLoop Nat.one_pos (Nat.le_refl _)

/-! ## Soundness -/

def withoutSpaces (text : CString) : CString := text.filter (· ≠ 0x20)

@[simp] theorem withoutSpaces_append (text text' : CString) :
    withoutSpaces (text ++ text') = withoutSpaces text ++ withoutSpaces text' :=
  List.filter_append ..

/-- The pieces up to `start` are symbols, as long as nothing has been out of the table. -/
def Sound (symbolTable : CString → Option Nat) (useLmSymbols : Bool) (chars words : List CString)
    (state : Segmentation) : Prop :=
  state.noOov = true → ∃ pieces : List CString, state.words = words ++ pieces.map (marked useLmSymbols) ∧
    withoutSpaces pieces.flatten = withoutSpaces (chars.take state.start).flatten ∧
    ∀ word ∈ pieces, (symbolTable (marked useLmSymbols word)).isSome

theorem take_flatten_piece {start stop : Nat} (order : start ≤ stop) :
    (chars.take stop).flatten = (chars.take start).flatten ++ piece chars start stop := by
  have front : (chars.take stop).take start = chars.take start := by rw [List.take_take, Nat.min_eq_left order]
  rw [piece, ← front, ← List.flatten_append, List.take_append_drop]

theorem Sound.wordLoop {words : List CString} {state : Segmentation} {stop : Nat}
    (sound : Sound symbolTable useLmSymbols chars words state) (inside : state.start < stop) :
    Sound symbolTable useLmSymbols chars words
      (wordLoop symbolTable useLmSymbols chars stop state) := by
  rcases @wordLoop_cases symbolTable useLmSymbols chars _ _ inside with
    ⟨stop', -, later, space, same⟩ | ⟨stop', -, later, found, same⟩ | same
  · rw [same]
    intro noOov
    obtain ⟨pieces, added, text, symbols⟩ := sound noOov
    refine ⟨pieces, added, ?_, symbols⟩
    have nothing : withoutSpaces (bytes " ") = [] := by decide
    simp [take_flatten_piece (Nat.le_of_lt later), space, nothing, text]
  · rw [same]
    intro noOov
    obtain ⟨pieces, added, text, symbols⟩ := sound noOov
    refine ⟨pieces ++ [piece chars state.start stop'], by simp [added], ?_, ?_⟩
    · simp [take_flatten_piece (Nat.le_of_lt later), text]
    · exact List.forall_mem_append.mpr ⟨symbols, by simpa using found⟩
  · rw [same]
    intro noOov
    cases noOov

theorem Sound.wordsLoop {words : List CString} {state : Segmentation}
    (sound : Sound symbolTable useLmSymbols chars words state) :
    Sound symbolTable useLmSymbols chars words (wordsLoop symbolTable useLmSymbols chars state) ∧
      chars.length ≤ (Segmentation.wordsLoop symbolTable useLmSymbols chars state).start := by
  fun_induction Segmentation.wordsLoop symbolTable useLmSymbols chars state with
  | case1 state inside inductionHypothesis => exact inductionHypothesis (sound.wordLoop inside)
  | case2 state past => exact ⟨sound, by omega⟩

/-- Where the function returns true, what it added are pieces of the table, with the mark where it
    puts one, and the pieces make up the trimmed string but for spaces. -/
theorem splitUTF8StringToWords_sound {str : CString} {words words' : List CString}
    (found : splitUTF8StringToWords symbolTable str words useLmSymbols = (words', true)) :
    ∃ pieces : List CString, words' = words ++ pieces.map (marked useLmSymbols) ∧
      withoutSpaces pieces.flatten = withoutSpaces (trim str) ∧
      ∀ word ∈ pieces, (symbolTable (marked useLmSymbols word)).isSome := by
  have start : Sound symbolTable useLmSymbols (splitUTF8StringToChars (trim str)) words ⟨0, words, true⟩ :=
    fun _ => ⟨[], by simp, by simp, by simp⟩
  obtain ⟨sound, past⟩ := start.wordsLoop
  obtain ⟨rfl, noOov⟩ := Prod.mk.inj found
  obtain ⟨pieces, added, text, symbols⟩ := sound noOov
  rw [List.take_of_length_le past, flatten_splitUTF8StringToChars] at text
  exact ⟨pieces, added, text, symbols⟩

/-- A piece in Chinese and a letter, with a space before each. -/
theorem splitUTF8StringToWords_sound_letter :
    let symbolTable : CString → Option Nat := fun word =>
      if word = kSpaceSymbol ++ bytes "a" then some 0 else if word = bytes "中" then some 1 else none
    splitUTF8StringToWords symbolTable (bytes " a 中") [] false =
        ([kSpaceSymbol ++ bytes "a", bytes "中"], true) ∧
      ∃ pieces : List CString, [kSpaceSymbol ++ bytes "a", bytes "中"] = [] ++ pieces.map (marked false) ∧
        withoutSpaces pieces.flatten = withoutSpaces (trim (bytes " a 中")) ∧
        ∀ word ∈ pieces, (symbolTable (marked false word)).isSome := by
  intro symbolTable
  have found : splitUTF8StringToWords symbolTable (bytes " a 中") [] false =
      ([kSpaceSymbol ++ bytes "a", bytes "中"], true) := by decide +kernel
  exact ⟨found, splitUTF8StringToWords_sound found⟩

/-! ## The words of the graph -/

/-- What the graph keeps of a word. -/
def symbol (symbolTable : CString → Option Nat) (word : CString) : Option Word :=
  (symbolTable word).map fun id => ⟨id, utf8StringLength word⟩

theorem piece_eq (start count : Nat) :
    piece chars start (start + count) = ((chars.drop start).take count).flatten := by
  rw [piece, List.drop_take, Nat.add_sub_cancel_left]

theorem marked_false (word : CString) :
    marked false word = if isAlpha word then kSpaceSymbol ++ word else word := by
  simp [marked]

theorem symbol_of_findWord {start count passed : Nat} {word : Word}
    (found : findWord symbolTable (chars.drop start) count = .word word passed) :
    symbol symbolTable (marked false (piece chars start (start + passed))) = some word := by
  induction count with
  | zero => cases found
  | succ count inductionHypothesis =>
    simp only [findWord] at found
    split at found
    · cases found
    · split at found
      next id isId =>
        cases found
        rw [piece_eq, marked_false, symbol, isId, Option.map_some]
      next => exact inductionHypothesis found

/-- The loop over `end` finds what the graph is built from. -/
theorem wordLoop_findWord (count : Nat) (state : Segmentation) :
    wordLoop symbolTable false chars (state.start + count) state =
      match findWord symbolTable (chars.drop state.start) count with
      | .space passed => { state with start := state.start + passed }
      | .word _ passed =>
        { state with
          start := state.start + passed
          words := state.words ++ [marked false (piece chars state.start (state.start + passed))] }
      | .oov => if count = 0 then state else { state with start := state.start + 1, noOov := false } := by
  induction count with
  | zero => simp [wordLoop_of_le, findWord]
  | succ count inductionHypothesis =>
    have here := @piece_eq chars state.start (count + 1)
    rw [← Nat.add_assoc] at here ⊢
    rw [wordLoop, if_pos (by omega), findWord]
    simp only [here, marked_false]
    by_cases space : ((chars.drop state.start).take (count + 1)).flatten = bytes " "
    · simp only [if_pos space]
      exact wordLoop_of_le (Nat.le_succ _)
    · simp only [if_neg space]
      rw [← marked_false]
      cases found : symbolTable (marked false ((chars.drop state.start).take (count + 1)).flatten) with
      | some id =>
        simp only [Option.isSome_some, if_true]
        rw [wordLoop_of_le (Nat.le_succ _)]
        simp only [← Nat.add_assoc, here, marked_false]
      | none =>
        simp only [Option.isSome_none, Bool.false_eq_true, if_false, inductionHypothesis]
        by_cases last : count = 0
        · subst last
          simp [wordLoop_of_le, findWord]
        · have more : ¬state.start + count + 1 = state.start + 1 := by omega
          simp only [if_neg more, if_neg last, if_neg (Nat.succ_ne_zero count),
            marked_false]

/-- The turns of the two loops, from the same place. -/
theorem wordsLoop_splitWordsLoop {turns : Nat} (state : Segmentation)
    (enough : chars.length - state.start ≤ turns) :
    (wordsLoop symbolTable false chars state).words.filterMap (symbol symbolTable) =
        state.words.filterMap (symbol symbolTable) ++
          (splitWordsLoop symbolTable turns (chars.drop state.start)).1 ∧
      (wordsLoop symbolTable false chars state).noOov =
        (state.noOov && (splitWordsLoop symbolTable turns (chars.drop state.start)).2) := by
  induction turns generalizing state with
  | zero =>
    rw [wordsLoop, dif_neg (by omega)]
    simp [splitWordsLoop]
  | succ turns inductionHypothesis =>
    rw [wordsLoop]
    by_cases inside : state.start < chars.length
    · have later := @wordLoop_start symbolTable false chars _ _ inside
      have step := @wordLoop_findWord symbolTable chars (chars.length - state.start) state
      rw [Nat.add_sub_cancel' (Nat.le_of_lt inside)] at step
      have next := inductionHypothesis (wordLoop symbolTable false chars chars.length state) (by omega)
      have rest : (chars.drop state.start).length = chars.length - state.start := List.length_drop
      rw [dif_pos inside, next.1, next.2]
      cases left : chars.drop state.start with
      | nil => simp [left] at rest; omega
      | cons ch after =>
        rw [left, List.length_cons] at rest
        rw [left, ← rest] at step
        simp only [splitWordsLoop]
        cases found : findWord symbolTable (ch :: after) (after.length + 1) with
        | space count =>
          simp only [found] at step
          simp [step, ← left, List.drop_drop]
        | word word count =>
          simp only [found] at step
          have isSymbol := symbol_of_findWord (left.symm ▸ found)
          simp [step, ← left, List.drop_drop, isSymbol]
        | oov =>
          simp only [found, if_neg (Nat.succ_ne_zero _)] at step
          have tail : chars.drop (state.start + 1) = after := by rw [← List.drop_drop, left]; rfl
          simp [step, tail]
    · rw [dif_neg inside, List.drop_eq_nil_of_le (by omega)]
      simp [splitWordsLoop]

/-- The graph is built from the words that `SplitUTF8StringToWords` adds. -/
theorem splitUTF8StringToWords_eq (str : CString) :
    Ctc.splitUTF8StringToWords symbolTable str =
      ((splitUTF8StringToWords symbolTable str [] false).1.filterMap (symbol symbolTable),
        (splitUTF8StringToWords symbolTable str [] false).2) := by
  have same := @wordsLoop_splitWordsLoop symbolTable (splitUTF8StringToChars (trim str))
    (splitUTF8StringToChars (trim str)).length ⟨0, [], true⟩ (Nat.sub_le ..)
  simp only [List.drop_zero, List.filterMap_nil, List.nil_append, Bool.true_and] at same
  exact Prod.ext same.1.symm same.2.symm

end Segmentation

end Asr2Pass.Ctc
