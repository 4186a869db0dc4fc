import Asr2Pass.Ctc.ContextGraph
import Asr2Pass.Itn.Utf8String
import Mathlib.Algebra.Field.Rat
import Mathlib.Tactic.Ring

/-! # Building the hotword graph

`BuildContextGraph` splits every hotword into symbols of the table and adds a path for it from
state 0 back to state 0, with an escape arc at every state in between.  The symbol table is a
function here.  What `Determinize` makes of the graph is not part of this module.
-/

namespace Asr2Pass.Ctc

open Text Itn

/-! ## Symbols of a hotword -/

/-- How many bytes a character has; a byte that begins none leaves `bytes` as it was. -/
def utf8Bytes (bytes : Nat) (ch : UInt8) : Nat :=
  if ch &&& 0x80 = 0x00 then 1
  else if ch &&& 0xE0 = 0xC0 then 2
  else if ch &&& 0xF0 = 0xE0 then 3
  else if ch &&& 0xF8 = 0xF0 then 4
  else bytes

/-- The loop of `SplitUTF8StringToChars`, with at most `turns` turns. -/
def splitCharsLoop (bytes : Nat) : Nat → CString → List CString
  | 0, _ | _, [] => []
  | turns + 1, ch :: rest =>
    let bytes := utf8Bytes bytes ch
    (ch :: rest).take bytes :: splitCharsLoop bytes turns ((ch :: rest).drop bytes)

def splitUTF8StringToChars (str : CString) : List CString := splitCharsLoop 1 str.length str

/-- `UTF8StringLength`, whose loop is that of `SplitUTF8StringToChars`. -/
def utf8StringLength (str : CString) : Nat := (splitUTF8StringToChars str).length

/-- `IsAlpha`, in the C locale. -/
def isAlpha (str : CString) : Bool :=
  str.all fun ch => (0x41 ≤ ch && ch ≤ 0x5A) || (0x61 ≤ ch && ch ≤ 0x7A)

def kSpaceSymbol : CString := [0xE2, 0x96, 0x81]

/-- A word of a hotword: its symbol, and how many characters the word has. -/
structure Word where
  id : Nat
  length : Nat
  deriving DecidableEq, Repr

/-- What the loop over `end` finds at `start`, and how many characters it passes. -/
inductive Found where
  | space (count : Nat)
  | word (word : Word) (count : Nat)
  | oov
  deriving DecidableEq, Repr

/-- The loop over `end`, with `count` characters from `start` to `end`. -/
def findWord (symbolTable : CString → Option Nat) (chars : List CString) : Nat → Found
  | 0 => .oov
  | count + 1 =>
    let word := (chars.take (count + 1)).flatten
    if word = bytes " " then .space (count + 1)
    else
      let word := if isAlpha word then kSpaceSymbol ++ word else word
      match symbolTable word with
      | some id => .word ⟨id, utf8StringLength word⟩ (count + 1)
      | none => findWord symbolTable chars count

/-- The loop over `start`, with at most `turns` turns: the words, and `no_oov`. -/
def splitWordsLoop (symbolTable : CString → Option Nat) : Nat → List CString → List Word × Bool
  | 0, _ | _, [] => ([], true)
  | turns + 1, ch :: rest =>
    match findWord symbolTable (ch :: rest) (rest.length + 1) with
    | .space count => splitWordsLoop symbolTable turns ((ch :: rest).drop count)
    | .word word count =>
      let (words, noOov) := splitWordsLoop symbolTable turns ((ch :: rest).drop count)
      (word :: words, noOov)
    | .oov => ((splitWordsLoop symbolTable turns rest).1, false)

/-- `SplitUTF8StringToWords` -/
def splitUTF8StringToWords (symbolTable : CString → Option Nat) (str : CString) :
    List Word × Bool :=
  let chars := splitUTF8StringToChars (trim str)
  splitWordsLoop symbolTable chars.length chars

/-! ## The graph -/

/-- The members of `ContextConfig` that `BuildContextGraph` reads. -/
structure ContextConfig (K : Type*) where
  maxContexts : Nat := 5000
  maxContextLength : Nat := 100
  incrementalContextScore : K

/-- The arcs of every state in the order of `AddArc`.  Only state 0 is final. -/
structure Fst (K : Type*) where
  arcs : List (List (Arc K))
  deriving DecidableEq, Repr

variable {K : Type*}

namespace Fst

def addState (fst : Fst K) : Nat × Fst K := (fst.arcs.length, ⟨fst.arcs ++ [[]]⟩)

def addArc (fst : Fst K) (state : Nat) (arc : Arc K) : Fst K :=
  ⟨fst.arcs.modify state (· ++ [arc])⟩

def toContextGraph (fst : Fst K) : ContextGraph K where
  arcs state := fst.arcs.getD state []
  final state := state = 0

end Fst

variable [CommRing K]

def wordScore (config : ContextConfig K) (curContextScore : K) (i : Nat) (word : Word) : K :=
  (i * config.incrementalContextScore + curContextScore) * word.length

/-- The loop over the words, from the `i`-th on. -/
def addWords (config : ContextConfig K) (curContextScore : K) (fst : Fst K) (i prevState : Nat)
    (escapeScore : K) : List Word → Fst K
  | [] => fst
  | word :: words =>
    let score := wordScore config curContextScore i word
    let (nextState, fst) := if words ≠ [] then fst.addState else (0, fst)
    let fst := fst.addArc prevState ⟨word.id, score, nextState⟩
    let fst := if 0 < i then fst.addArc prevState ⟨0, -escapeScore, 0⟩ else fst
    addWords config curContextScore fst (i + 1) nextState (escapeScore + score) words

/-- The loop over the hotwords; none where `context_scores` is read outside. -/
def addContexts (config : ContextConfig K) (symbolTable : CString → Option Nat)
    (contextScores : List K) (count : Nat) (fst : Fst K) : List CString → Option (Fst K)
  | [] => some fst
  | context :: contexts =>
    -- A hotword that is too long is left out before it is counted, so the next one gets its score.
    if config.maxContextLength < context.length then
      addContexts config symbolTable contextScores count fst contexts
    else
      contextScores[count]?.bind fun curContextScore =>
        -- The limit ends the loop; a hotword outside the table is counted, but adds no path.
        if config.maxContexts < count + 1 then some fst
        else
          match splitUTF8StringToWords symbolTable (trim context) with
          | (_, false) => addContexts config symbolTable contextScores (count + 1) fst contexts
          | (words, true) => addContexts config symbolTable contextScores (count + 1)
              (addWords config curContextScore fst 0 0 0 words) contexts

/-- `BuildContextGraph` up to `Determinize`. -/
def buildContextGraph (config : ContextConfig K) (symbolTable : CString → Option Nat)
    (queryContexts : List CString) (contextScores : List K) : Option (Fst K) :=
  addContexts config symbolTable contextScores 0 ⟨[[]]⟩ queryContexts

/-! ## What is compiled -/

/-- A hotword that is compiled: its place in the list, its words, and the score it is given. -/
structure Compiled (K : Type*) where
  index : Nat
  words : List Word
  score : K
  deriving DecidableEq, Repr

def TooLong (config : ContextConfig K) (context : CString) : Prop :=
  config.maxContextLength < context.length

instance (config : ContextConfig K) (context : CString) : Decidable (TooLong config context) :=
  inferInstanceAs (Decidable (_ < _))

/-- The hotwords from the `index`-th on that are compiled, when `count` have been counted. -/
def compiledFrom (config : ContextConfig K) (symbolTable : CString → Option Nat)
    (contextScores : List K) (index count : Nat) : List CString → List (Compiled K)
  | [] => []
  | context :: contexts =>
    if TooLong config context then
      compiledFrom config symbolTable contextScores (index + 1) count contexts
    else
      match contextScores[count]? with
      | none => []
      | some curContextScore =>
        if config.maxContexts < count + 1 then []
        else
          let later := compiledFrom config symbolTable contextScores (index + 1) (count + 1) contexts
          match splitUTF8StringToWords symbolTable (trim context) with
          | (_, false) => later
          | (words, true) => ⟨index, words, curContextScore⟩ :: later

def compiled (config : ContextConfig K) (symbolTable : CString → Option Nat)
    (queryContexts : List CString) (contextScores : List K) : List (Compiled K) :=
  compiledFrom config symbolTable contextScores 0 0 queryContexts

def addCompiled (config : ContextConfig K) (fst : Fst K) (hotword : Compiled K) : Fst K :=
  addWords config hotword.score fst 0 0 0 hotword.words

variable {config : ContextConfig K} {symbolTable : CString → Option Nat} {contextScores : List K}

theorem addContexts_eq {contexts : List CString} {count : Nat} (index : Nat) (fst : Fst K)
    (enough : count + contexts.length ≤ contextScores.length) :
    addContexts config symbolTable contextScores count fst contexts =
      some ((compiledFrom config symbolTable contextScores index count contexts).foldl
        (addCompiled config) fst) := by
  induction contexts generalizing index count fst with
  | nil => rfl
  | cons context contexts inductionHypothesis =>
    rw [List.length_cons] at enough
    simp only [addContexts, compiledFrom, TooLong]
    split
    next long => exact inductionHypothesis (index + 1) fst (by omega)
    next short =>
      have inside : count < contextScores.length := by omega
      simp only [List.getElem?_eq_getElem inside, Option.bind_some]
      split
      next full => rfl
      next room =>
        cases split : splitUTF8StringToWords symbolTable (trim context) with
        | mk words noOov =>
          cases noOov with
          | false => exact inductionHypothesis (index + 1) fst (by omega)
          | true => exact inductionHypothesis (index + 1) _ (by omega)

/-- The graph is built from the hotwords that are compiled, each with the score it is given. -/
theorem buildContextGraph_eq {queryContexts : List CString}
    (lengths : queryContexts.length = contextScores.length) :
    buildContextGraph config symbolTable queryContexts contextScores =
      some ((compiled config symbolTable queryContexts contextScores).foldl
        (addCompiled config) ⟨[[]]⟩) :=
  addContexts_eq 0 ⟨[[]]⟩ (by omega)

omit [CommRing K] in
/-- A score is read behind as many places as hotwords were too long. -/
theorem compiledFrom_score {contexts : List CString} {index count : Nat} (before : count ≤ index)
    {hotword : Compiled K}
    (member : hotword ∈ compiledFrom config symbolTable contextScores index count contexts) :
    index ≤ hotword.index ∧ contextScores[hotword.index - (index - count) -
        (contexts.take (hotword.index - index)).countP (fun context => TooLong config context)]? =
      some hotword.score := by
  induction contexts generalizing index count with
  | nil => cases member
  | cons context contexts inductionHypothesis =>
    -- A hotword found later: only those that were too long have moved the score away.
    have next {count' : Nat} (counted : count' = if TooLong config context then count else count + 1)
        (later : hotword ∈ compiledFrom config symbolTable contextScores (index + 1) count' contexts) :
        index ≤ hotword.index ∧ contextScores[hotword.index - (index - count) -
            ((context :: contexts).take (hotword.index - index)).countP
              (fun context => TooLong config context)]? = some hotword.score := by
      obtain ⟨reached, score⟩ := inductionHypothesis (by split at counted <;> omega) later
      refine ⟨by omega, ?_⟩
      have taken : (context :: contexts).take (hotword.index - index) =
          context :: contexts.take (hotword.index - (index + 1)) := by
        rw [show hotword.index - index = (hotword.index - (index + 1)) + 1 by omega, List.take_succ_cons]
      rw [taken, List.countP_cons, ← score]
      congr 1
      split at counted
      next long => simp only [long, decide_true, if_true]; omega
      next short => simp only [short, decide_false, Bool.false_eq_true, if_false]; omega
    simp only [compiledFrom] at member
    split at member
    next long => exact next (by rw [if_pos long]) member
    next short =>
      split at member
      next => cases member
      next curContextScore read =>
        split at member
        next full => cases member
        next room =>
          split at member
          next => exact next (by rw [if_neg short]) member
          next =>
            rcases List.mem_cons.mp member with rfl | later
            · refine ⟨le_refl _, ?_⟩
              rw [← read]
              simp only [Nat.sub_self, List.take_zero, List.countP_nil, Nat.sub_zero]
              congr 1
              omega
            · exact next (by rw [if_neg short]) later

/-! ## A word has a character -/

theorem utf8Bytes_pos {bytes : Nat} (pos : 0 < bytes) (ch : UInt8) : 0 < utf8Bytes bytes ch := by
  unfold utf8Bytes
  repeat' split
  all_goals omega

theorem splitCharsLoop_ne_nil {bytes turns : Nat} {str : CString} (pos : 0 < bytes) :
    ∀ unit ∈ splitCharsLoop bytes turns str, unit ≠ [] := by
  induction turns generalizing bytes str with
  | zero => simp [splitCharsLoop]
  | succ turns inductionHypothesis =>
    cases str with
    | nil => simp [splitCharsLoop]
    | cons ch rest =>
      have next := utf8Bytes_pos pos ch
      intro unit member
      rcases List.mem_cons.mp member with rfl | later
      · simp only [ne_eq, List.take_eq_nil_iff, reduceCtorEq, or_false]
        omega
      · exact inductionHypothesis next unit later

theorem utf8StringLength_pos {str : CString} (nonempty : str ≠ []) : 0 < utf8StringLength str := by
  cases str with
  | nil => exact absurd rfl nonempty
  | cons ch rest => simp [utf8StringLength, splitUTF8StringToChars, splitCharsLoop]

theorem findWord_word {symbolTable : CString → Option Nat} {chars : List CString} {turns count : Nat}
    {word : Word} (some : chars ≠ []) (units : ∀ unit ∈ chars, unit ≠ [])
    (found : findWord symbolTable chars turns = .word word count) : 0 < word.length := by
  induction turns with
  | zero => cases found
  | succ turns inductionHypothesis =>
    simp only [findWord] at found
    split at found
    next => cases found
    next =>
      split at found
      next id symbol =>
        cases found
        apply utf8StringLength_pos
        cases chars with
        | nil => exact absurd rfl some
        | cons unit chars =>
          have first := units unit List.mem_cons_self
          split
          · simp [kSpaceSymbol]
          · simp [first]
      next => exact inductionHypothesis found

theorem splitWordsLoop_pos {symbolTable : CString → Option Nat} {turns : Nat} {chars : List CString}
    (units : ∀ unit ∈ chars, unit ≠ []) :
    ∀ word ∈ (splitWordsLoop symbolTable turns chars).1, 0 < word.length := by
  induction turns generalizing chars with
  | zero => simp [splitWordsLoop]
  | succ turns inductionHypothesis =>
    cases chars with
    | nil => simp [splitWordsLoop]
    | cons ch rest =>
      have dropped (count : Nat) : ∀ unit ∈ (ch :: rest).drop count, unit ≠ [] :=
        fun unit member => units unit (List.mem_of_mem_drop member)
      simp only [splitWordsLoop]
      split
      next count found => exact inductionHypothesis (dropped count)
      next word count found =>
        intro word' member
        rcases List.mem_cons.mp member with rfl | later
        · exact findWord_word (by simp) units found
        · exact inductionHypothesis (dropped count) word' later
      next => exact inductionHypothesis fun unit member => units unit (List.mem_cons_of_mem _ member)

theorem splitUTF8StringToWords_pos (symbolTable : CString → Option Nat) (str : CString) :
    ∀ word ∈ (splitUTF8StringToWords symbolTable str).1, 0 < word.length :=
  splitWordsLoop_pos (splitCharsLoop_ne_nil Nat.one_pos)

omit [CommRing K] in
theorem compiledFrom_pos {contexts : List CString} {index count : Nat} {hotword : Compiled K}
    (member : hotword ∈ compiledFrom config symbolTable contextScores index count contexts) :
    ∀ word ∈ hotword.words, 0 < word.length := by
  induction contexts generalizing index count with
  | nil => cases member
  | cons context contexts inductionHypothesis =>
    have words := splitUTF8StringToWords_pos symbolTable (trim context)
    simp only [compiledFrom] at member
    split at member
    next => exact inductionHypothesis member
    next =>
      split at member
      next => cases member
      next =>
        split at member
        next => cases member
        next =>
          split at member
          next => exact inductionHypothesis member
          next compiledWords same =>
            rw [same] at words
            rcases List.mem_cons.mp member with rfl | later
            · exact words
            · exact inductionHypothesis later

/-! ## Whose score a hotword has -/

/-- The weights of the hotword's arcs are those of its own score. -/
def HasOwnScore (config : ContextConfig K) (contextScores : List K) (hotword : Compiled K) : Prop :=
  ∀ i word, hotword.words[i]? = some word → ∃ score, contextScores[hotword.index]? = some score ∧
    wordScore config hotword.score i word = wordScore config score i word

/-- Every hotword is compiled with its own score exactly when no hotword that was too long has moved
    another score into the place of its own. -/
theorem hasOwnScore_iff [NoZeroDivisors K] [CharZero K] {queryContexts : List CString}
    (lengths : queryContexts.length = contextScores.length) :
    buildContextGraph config symbolTable queryContexts contextScores =
        some ((compiled config symbolTable queryContexts contextScores).foldl
          (addCompiled config) ⟨[[]]⟩) ∧
      ((∀ hotword ∈ compiled config symbolTable queryContexts contextScores,
          HasOwnScore config contextScores hotword) ↔
        ∀ hotword ∈ compiled config symbolTable queryContexts contextScores, hotword.words ≠ [] →
          contextScores[hotword.index -
              (queryContexts.take hotword.index).countP fun context => TooLong config context]? =
            contextScores[hotword.index]?) := by
  refine ⟨buildContextGraph_eq lengths, ?_⟩
  have given : ∀ hotword ∈ compiled config symbolTable queryContexts contextScores,
      contextScores[hotword.index -
        (queryContexts.take hotword.index).countP fun context => TooLong config context]? =
          some hotword.score :=
    fun hotword member => (compiledFrom_score (le_refl 0) member).2
  constructor
  -- A word has at least one byte, so its own score can be read off its own weight.
  · intro own hotword member words
    obtain ⟨word, others, first⟩ := List.exists_cons_of_ne_nil words
    obtain ⟨score, read, same⟩ := own hotword member 0 word (by rw [first]; rfl)
    have length : (word.length : K) ≠ 0 :=
      Nat.cast_ne_zero.mpr (compiledFrom_pos member word (by rw [first]; exact List.mem_cons_self)).ne'
    simp only [wordScore, Nat.cast_zero, zero_mul, zero_add] at same
    rw [given hotword member, read, mul_right_cancel₀ length same]
  · intro shifted hotword member i word at_i
    have words : hotword.words ≠ [] := by
      intro none
      rw [none] at at_i
      cases at_i
    exact ⟨hotword.score, (shifted hotword member words).symm.trans (given hotword member), rfl⟩

/-- A hotword of 101 letters, and one that is in the table. -/
def longFirst : List CString := [List.replicate 101 0x61, [0x62]]

def oneLetter (word : CString) : Option Nat :=
  if word = kSpaceSymbol ++ [0x62] then some 5 else none

theorem hasOwnScore_longFirst :
    ¬ ∀ hotword ∈ compiled ⟨5000, 100, 0⟩ oneLetter longFirst [(1 : ℚ), 2],
      HasOwnScore ⟨5000, 100, 0⟩ [1, 2] hotword := by
  have only : compiled ⟨5000, 100, 0⟩ oneLetter longFirst [(1 : ℚ), 2] = [⟨1, [⟨5, 2⟩], 1⟩] := by
    decide +kernel
  intro own
  rw [only] at own
  obtain ⟨score, read, same⟩ := own _ List.mem_cons_self 0 _ rfl
  cases read
  simp [wordScore] at same

theorem hasOwnScore_iff_longFirst :
    buildContextGraph ⟨5000, 100, 0⟩ oneLetter longFirst [(1 : ℚ), 2] =
        some ((compiled ⟨5000, 100, 0⟩ oneLetter longFirst [(1 : ℚ), 2]).foldl
          (addCompiled ⟨5000, 100, 0⟩) ⟨[[]]⟩) ∧
      ((∀ hotword ∈ compiled ⟨5000, 100, 0⟩ oneLetter longFirst [(1 : ℚ), 2],
          HasOwnScore ⟨5000, 100, 0⟩ [1, 2] hotword) ↔
        ∀ hotword ∈ compiled ⟨5000, 100, 0⟩ oneLetter longFirst [(1 : ℚ), 2], hotword.words ≠ [] →
          [(1 : ℚ), 2][hotword.index - (longFirst.take hotword.index).countP fun context =>
              TooLong (⟨5000, 100, 0⟩ : ContextConfig ℚ) context]? =
            [(1 : ℚ), 2][hotword.index]?) :=
  hasOwnScore_iff rfl

end Asr2Pass.Ctc
