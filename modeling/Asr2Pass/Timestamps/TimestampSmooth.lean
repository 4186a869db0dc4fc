import Asr2Pass.Timestamps.Alignment
import Asr2Pass.Timestamps.Spans

/-! # `TimestampSmooth`

The timestamps of a text become those of its rewritten form: a token that is the same keeps its
timestamp, and the tokens between two such tokens share the time of the tokens that they replace.
-/

namespace Asr2Pass.Timestamps

open Text (CString bytes)

/-- A value of type `int` after an operation that can overflow. -/
def wrapInt (number : Int) : Int := Int.bmod number (2 ^ 32)

/-- The variables of the loop. -/
structure Smoothing where
  itnCount : Nat := 0
  idxTp : Nat := 0
  idxItn : Nat := 0
  timestampsTmp : List Span := []
  timestampsOut : List Span := []

/-- The time of some timestamps in equal parts; the last part takes the rest. -/
def spread (timestampsTmp : List Span) (itnCount : Nat) : List Span :=
  let begin := (timestampsTmp.headD (0, 0)).1
  let last := (timestampsTmp.getLastD (0, 0)).2
  let interval := (wrapInt (last - begin)).tdiv itnCount
  (List.range itnCount).map fun idxCnt =>
    (wrapInt (begin + wrapInt (interval * idxCnt)),
      if idxCnt = itnCount - 1 then last else wrapInt (begin + wrapInt (interval * (idxCnt + 1))))

/-- What `timestamps_tmp` and `itn_count` give. -/
def settleTmp (timestampsTmp : List Span) (itnCount : Nat) : List Span :=
  if timestampsTmp ≠ [] ∧ 0 < itnCount then spread timestampsTmp itnCount else []

namespace Smoothing

/-- A turn where both entries are the same; none where there is no timestamp left. -/
def same (timestamps : List Span) (smoothing : Smoothing) (wordItn : CString) : Option Smoothing := do
  let timestamp ← timestamps[smoothing.idxTp]?
  let subsidy := 0 < smoothing.itnCount ∧ smoothing.timestampsTmp = []
  return {
    itnCount := 0
    idxTp := smoothing.idxTp + 1
    idxItn := if wordItn = [] then smoothing.idxItn else smoothing.idxItn + 1
    timestampsTmp := []
    timestampsOut := smoothing.timestampsOut ++
      if subsidy then settleTmp [timestamp] (smoothing.itnCount + 1)
      else settleTmp smoothing.timestampsTmp smoothing.itnCount ++ [timestamp] }

/-- A turn where they differ. -/
def differ (timestamps : List Span) (smoothing : Smoothing) (word wordItn : CString) :
    Option Smoothing := do
  let smoothing ←
    if word = [] then pure smoothing
    else do
      let timestamp ← timestamps[smoothing.idxTp]?
      pure { smoothing with
        idxTp := smoothing.idxTp + 1
        timestampsTmp := smoothing.timestampsTmp ++ [timestamp] }
  return if wordItn = [] then smoothing
    else { smoothing with itnCount := smoothing.itnCount + 1, idxItn := smoothing.idxItn + 1 }

def step (timestamps : List Span) (smoothing : Smoothing) (word wordItn : CString) :
    Option Smoothing :=
  if word = wordItn then smoothing.same timestamps wordItn
  else smoothing.differ timestamps word wordItn

end Smoothing

/-- How the loop ends early: with an error message, or with an entry of `alignment_str2` that is
    not there. -/
inductive Stop where
  | failed
  | outOfRange
  deriving DecidableEq

/-- The loop over `alignment_str1`. -/
def smoothLoop (timestamps : List Span) :
    List CString → List CString → Smoothing → Except Stop Smoothing
  | [], _, smoothing => .ok smoothing
  | _ :: _, [], _ => .error .outOfRange
  | word :: str1, wordItn :: str2, smoothing =>
    match smoothing.step timestamps word wordItn with
    | none => .error .failed
    | some smoothing => smoothLoop timestamps str1 str2 smoothing

/-- `timestamps_out` after the block behind the loop; none where the last tokens have no timestamp
    to share. -/
def Smoothing.finish (smoothing : Smoothing) : Option (List Span) :=
  if 0 < smoothing.itnCount ∧ smoothing.timestampsTmp = [] then
    smoothing.timestampsOut.getLast?.map fun last =>
      smoothing.timestampsOut.dropLast ++ settleTmp [last] (smoothing.itnCount + 1)
  else some (smoothing.timestampsOut ++ settleTmp smoothing.timestampsTmp smoothing.itnCount)

/-- What the smoothing of an alignment returns; none where it reads past the end. -/
def smoothAligned (timestamps : List Span) (alignment : Alignment) : Option CString :=
  match smoothLoop timestamps alignment.str1 alignment.str2 {} with
  | .error .failed => some []
  | .error .outOfRange => none
  | .ok smoothing =>
    match smoothing.finish with
    | none => some []
    | some timestampsOut =>
      if timestampsOut.length ≠ smoothing.idxItn then some []
      else some (vectorToString timestampsOut true)

/-- `TimestampSmooth`; none where `std::stoi` throws, or it reads past the end. -/
def timestampSmooth (text textItn strTime : CString) : Option CString := do
  let timestamps ← parseTimestamps strTime
  if timestamps = [] then return []
  else
    smoothAligned timestamps
      (align (timestampSplitChiEngCharacters text) (timestampSplitChiEngCharacters textItn))

/-! ## What the loop counts -/

/-- Whether a turn takes a timestamp. -/
def consumes (column : CString × CString) : Bool := column.1 ≠ [] || column.2 = []

/-- Whether both entries of a turn are empty. -/
def blank (column : CString × CString) : Bool := column.1 = [] && column.2 = []

theorem isInt_wrapInt (number : Int) : IsInt (wrapInt number) := by
  have least := @Int.le_bmod number (2 ^ 32) (by decide)
  have most := @Int.bmod_lt number (2 ^ 32) (by decide)
  unfold wrapInt IsInt
  omega

section
variable {timestamps timestampsTmp : List Span} {smoothing : Smoothing} {itnCount : Nat}

theorem settleTmp_length (timestampsTmp : List Span) (itnCount : Nat) :
    (settleTmp timestampsTmp itnCount).length = if timestampsTmp = [] then 0 else itnCount := by
  unfold settleTmp
  by_cases empty : timestampsTmp = []
  · simp [empty]
  · cases itnCount with
    | zero => simp [empty]
    | succ itnCount => simp [empty, spread]

theorem settleTmp_isSpan (spans : ∀ span ∈ timestampsTmp, IsSpan span) :
    ∀ span ∈ settleTmp timestampsTmp itnCount, IsSpan span := by
  intro span member
  unfold settleTmp at member
  split at member
  · rename_i some
    obtain ⟨idxCnt, -, rfl⟩ := List.mem_map.mp member
    obtain ⟨first, rest, rfl⟩ := List.exists_cons_of_ne_nil some.1
    refine ⟨isInt_wrapInt _, ?_⟩
    dsimp only
    split
    · rw [List.getLastD_cons]
      exact (spans _ (List.getLastD_mem_cons ..)).2
    · exact isInt_wrapInt _
  · cases member

/-- What the variables count after the turns for some columns. -/
structure Smoothing.Counted (columns : List (CString × CString)) (smoothing : Smoothing) : Prop where
  idxTp : smoothing.idxTp = columns.countP consumes
  idxItn : smoothing.idxItn = columns.countP (·.2 ≠ [])
  out : smoothing.timestampsOut.length + smoothing.itnCount =
    smoothing.idxItn + columns.countP blank
  used : smoothing.timestampsOut = [] ∧ smoothing.timestampsTmp = [] ↔ smoothing.idxTp = 0
  spans : ∀ span ∈ smoothing.timestampsOut ++ smoothing.timestampsTmp, IsSpan span

/-- What a turn with two equal entries puts into `timestamps_out`. -/
def sameGain (smoothing : Smoothing) (timestamp : Span) : List Span :=
  if 0 < smoothing.itnCount ∧ smoothing.timestampsTmp = [] then
    settleTmp [timestamp] (smoothing.itnCount + 1)
  else settleTmp smoothing.timestampsTmp smoothing.itnCount ++ [timestamp]

theorem sameGain_length (smoothing : Smoothing) (timestamp : Span) :
    (sameGain smoothing timestamp).length = smoothing.itnCount + 1 := by
  unfold sameGain
  split
  · rw [settleTmp_length, if_neg (List.cons_ne_nil _ _)]
  · rename_i noSubsidy
    rw [List.length_append, settleTmp_length, List.length_singleton]
    split
    · rename_i empty
      have none : smoothing.itnCount = 0 := by
        by_contra some
        exact noSubsidy ⟨by omega, empty⟩
      rw [none]
    · rfl

theorem sameGain_isSpan {timestamp : Span} (isSpan : IsSpan timestamp)
    (spans : ∀ span ∈ smoothing.timestampsTmp, IsSpan span) :
    ∀ span ∈ sameGain smoothing timestamp, IsSpan span := by
  have one : ∀ span ∈ [timestamp], IsSpan span := by
    intro span member
    rw [List.mem_singleton.mp member]
    exact isSpan
  unfold sameGain
  split
  · exact settleTmp_isSpan one
  · intro span member
    cases List.mem_append.mp member with
    | inl shared => exact settleTmp_isSpan spans span shared
    | inr own => exact one span own

namespace Smoothing.Counted

variable {columns : List (CString × CString)} {word wordItn : CString}

theorem start : Counted [] {} := by
  constructor
  all_goals simp

/-- A turn with two equal entries takes a timestamp. -/
theorem same (counted : Counted columns smoothing) (areSpans : ∀ span ∈ timestamps, IsSpan span)
    (inside : smoothing.idxTp < timestamps.length) (word : CString) :
    ∃ next, smoothing.step timestamps word word = some next ∧
      Counted (columns ++ [(word, word)]) next := by
  obtain ⟨idxTp, idxItn, out, used, spans⟩ := counted
  have found := List.getElem?_eq_getElem inside
  have isSpan := areSpans _ (List.getElem_mem inside)
  generalize timestamps[smoothing.idxTp] = timestamp at found isSpan
  have consumed : consumes (word, word) = true := by
    unfold consumes
    by_cases empty : word = [] <;> simp [empty]
  have gain := sameGain_length smoothing timestamp
  have stepped : smoothing.step timestamps word word = some {
      itnCount := 0
      idxTp := smoothing.idxTp + 1
      idxItn := if word = [] then smoothing.idxItn else smoothing.idxItn + 1
      timestampsTmp := []
      timestampsOut := smoothing.timestampsOut ++ sameGain smoothing timestamp } := by
    unfold Smoothing.step Smoothing.same
    rw [if_pos rfl, found]
    rfl
  refine ⟨_, stepped, ?_, ?_, ?_, ?_, ?_⟩
  · simp [idxTp, consumed]
  · by_cases empty : word = [] <;> simp [idxItn, empty]
  · have blankIs : blank (word, word) = decide (word = []) := Bool.and_self _
    rw [List.length_append, gain, List.countP_append, List.countP_singleton, blankIs]
    by_cases empty : word = []
    · simp only [empty, decide_true, if_true]
      omega
    · simp only [empty, decide_false, Bool.false_eq_true, if_false]
      omega
  · constructor
    · rintro ⟨none, -⟩
      have length := congrArg List.length none
      rw [List.length_append, gain] at length
      exact absurd length (by simp)
    · exact fun zero => absurd zero (Nat.succ_ne_zero _)
  · intro span member
    rw [List.append_nil] at member
    cases List.mem_append.mp member with
    | inl old => exact spans span (List.mem_append_left _ old)
    | inr new =>
      exact sameGain_isSpan isSpan (fun span member => spans span (List.mem_append_right _ member))
        span new

/-- A turn with an inserted entry takes none. -/
theorem insert (counted : Counted columns smoothing) (rewritten : wordItn ≠ []) :
    ∃ next, smoothing.step timestamps [] wordItn = some next ∧
      Counted (columns ++ [([], wordItn)]) next := by
  obtain ⟨idxTp, idxItn, out, used, spans⟩ := counted
  have stepped : smoothing.step timestamps [] wordItn = some { smoothing with
      itnCount := smoothing.itnCount + 1
      idxItn := smoothing.idxItn + 1 } := by
    simp [Smoothing.step, Smoothing.differ, rewritten, rewritten.symm]
  refine ⟨_, stepped, ?_, ?_, ?_, used, spans⟩
  · simp [idxTp, consumes, rewritten]
  · simp [idxItn, rewritten]
  · simp only [List.countP_append, List.countP_singleton, blank, rewritten, decide_false,
      Bool.and_false, Bool.false_eq_true, if_false]
    omega

/-- A turn with a replaced or deleted entry takes one. -/
theorem replace (counted : Counted columns smoothing) (areSpans : ∀ span ∈ timestamps, IsSpan span)
    (different : word ≠ wordItn) (written : word ≠ []) (inside : smoothing.idxTp < timestamps.length) :
    ∃ next, smoothing.step timestamps word wordItn = some next ∧
      Counted (columns ++ [(word, wordItn)]) next := by
  obtain ⟨idxTp, idxItn, out, used, spans⟩ := counted
  have found := List.getElem?_eq_getElem inside
  have isSpan := areSpans _ (List.getElem_mem inside)
  generalize timestamps[smoothing.idxTp] = timestamp at found isSpan
  have stepped : smoothing.step timestamps word wordItn = some { smoothing with
      itnCount := if wordItn = [] then smoothing.itnCount else smoothing.itnCount + 1
      idxTp := smoothing.idxTp + 1
      idxItn := if wordItn = [] then smoothing.idxItn else smoothing.idxItn + 1
      timestampsTmp := smoothing.timestampsTmp ++ [timestamp] } := by
    by_cases deleted : wordItn = []
    · simp [Smoothing.step, Smoothing.differ, written, found, deleted]
    · simp [Smoothing.step, Smoothing.differ, different, written, found, deleted]
  have notBlank : blank (word, wordItn) = false := by simp [blank, written]
  refine ⟨_, stepped, ?_, ?_, ?_, ?_, ?_⟩
  · simp [idxTp, consumes, written]
  · by_cases deleted : wordItn = [] <;> simp [idxItn, deleted]
  · simp only [List.countP_append, List.countP_singleton, notBlank, Bool.false_eq_true, if_false]
    split <;> omega
  · constructor
    · rintro ⟨-, wrong⟩
      exact absurd wrong (by simp)
    · exact fun zero => absurd zero (Nat.succ_ne_zero _)
  · intro span member
    rw [← List.append_assoc] at member
    cases List.mem_append.mp member with
    | inl old => exact spans span old
    | inr new =>
      rw [List.mem_singleton.mp new]
      exact isSpan

/-- A turn, whether it takes a timestamp or not. -/
theorem step (counted : Counted columns smoothing) (areSpans : ∀ span ∈ timestamps, IsSpan span)
    (inside : (columns ++ [(word, wordItn)]).countP consumes ≤ timestamps.length) :
    ∃ next, smoothing.step timestamps word wordItn = some next ∧
      Counted (columns ++ [(word, wordItn)]) next := by
  have idxTp := counted.idxTp
  rw [List.countP_append, List.countP_singleton] at inside
  by_cases equal : word = wordItn
  · subst equal
    have consumed : consumes (word, word) = true := by
      unfold consumes
      by_cases empty : word = [] <;> simp [empty]
    rw [if_pos consumed] at inside
    exact counted.same areSpans (by omega) word
  · by_cases empty : word = []
    · subst empty
      exact counted.insert (Ne.symm equal)
    · have consumed : consumes (word, wordItn) = true := by simp [consumes, empty]
      rw [if_pos consumed] at inside
      exact counted.replace areSpans equal empty (by omega)

/-- A turn that finds no timestamp. -/
theorem step_none (counted : Counted columns smoothing)
    (all : columns.countP consumes = timestamps.length) (consumed : consumes (word, wordItn)) :
    smoothing.step timestamps word wordItn = none := by
  have idxTp := counted.idxTp
  have absent : timestamps[smoothing.idxTp]? = none := by
    rw [List.getElem?_eq_none_iff]
    omega
  unfold Smoothing.step
  by_cases equal : word = wordItn
  · rw [if_pos equal, Smoothing.same, absent]
    rfl
  · have written : word ≠ [] := by
      rintro rfl
      simp [consumes, Ne.symm equal] at consumed
    rw [if_neg equal, Smoothing.differ, if_neg written, absent]
    rfl

/-- A run of the loop: it fails where the timestamps run out, and reads past the end where the
    second string is shorter. -/
theorem loop (counted : Counted columns smoothing) (areSpans : ∀ span ∈ timestamps, IsSpan span)
    (within : columns.countP consumes ≤ timestamps.length) (str1 str2 : List CString) :
    (timestamps.length < (columns ++ str1.zip str2).countP consumes ∧
        smoothLoop timestamps str1 str2 smoothing = .error .failed) ∨
      (columns ++ str1.zip str2).countP consumes ≤ timestamps.length ∧
        (str2.length < str1.length ∧ smoothLoop timestamps str1 str2 smoothing = .error .outOfRange ∨
          str1.length ≤ str2.length ∧ ∃ last,
            smoothLoop timestamps str1 str2 smoothing = .ok last ∧
            Counted (columns ++ str1.zip str2) last) := by
  -- On `str1`: a turn goes wrong only where it wants a timestamp and none is left.
  induction str1 generalizing str2 columns smoothing with
  | nil =>
    rw [List.zip_nil_left, List.append_nil]
    exact Or.inr ⟨within, Or.inr ⟨Nat.zero_le _, _, rfl, counted⟩⟩
  | cons word str1 inductionHypothesis =>
    cases str2 with
    | nil =>
      rw [List.zip_nil_right, List.append_nil]
      exact Or.inr ⟨within, Or.inl ⟨Nat.succ_pos _, rfl⟩⟩
    | cons wordItn str2 =>
      have parts : columns ++ (word :: str1).zip (wordItn :: str2) =
          (columns ++ [(word, wordItn)]) ++ str1.zip str2 := by simp
      rw [parts]
      unfold smoothLoop
      by_cases inside : (columns ++ [(word, wordItn)]).countP consumes ≤ timestamps.length
      · obtain ⟨next, stepped, counted⟩ := counted.step areSpans inside
        rw [stepped]
        simpa only [List.length_cons, Nat.add_lt_add_iff_right, Nat.add_le_add_iff_right] using
          inductionHypothesis counted inside str2
      · left
        have consumed : consumes (word, wordItn) := by
          by_contra skipped
          rw [List.countP_append, List.countP_singleton, if_neg skipped] at inside
          exact inside within
        have one : (columns ++ [(word, wordItn)]).countP consumes = columns.countP consumes + 1 := by
          rw [List.countP_append, List.countP_singleton, if_pos consumed]
        rw [counted.step_none (by omega) consumed, List.countP_append]
        exact ⟨by omega, rfl⟩

/-- Behind the loop, the last tokens need a timestamp to share. -/
theorem finish (counted : Counted columns smoothing) :
    (smoothing.finish = none ∧ 0 < smoothing.itnCount ∧ columns.countP consumes = 0) ∨
      ∃ timestampsOut, smoothing.finish = some timestampsOut ∧
        (smoothing.itnCount = 0 ∨ 0 < columns.countP consumes) ∧
        timestampsOut.length = smoothing.idxItn + columns.countP blank ∧
        ∀ span ∈ timestampsOut, IsSpan span := by
  obtain ⟨idxTp, idxItn, out, used, spans⟩ := counted
  have tmpSpans : ∀ span ∈ smoothing.timestampsTmp, IsSpan span := fun span member =>
    spans span (List.mem_append_right _ member)
  have outSpans : ∀ span ∈ smoothing.timestampsOut, IsSpan span := fun span member =>
    spans span (List.mem_append_left _ member)
  unfold Smoothing.finish
  split
  -- Tokens wait without a timestamp: the source takes the last one back and shares it.
  · rename_i waiting
    cases last : smoothing.timestampsOut using List.reverseRecOn with
    | nil =>
      left
      exact ⟨rfl, waiting.1, idxTp ▸ used.mp ⟨last, waiting.2⟩⟩
    | append_singleton others timestamp =>
      right
      have taken : smoothing.idxTp ≠ 0 := by
        intro zero
        have none := (used.mpr zero).1
        rw [last] at none
        exact absurd none (by simp)
      rw [last] at out outSpans
      refine ⟨others ++ settleTmp [timestamp] (smoothing.itnCount + 1), by simp, Or.inr (by omega),
        ?_, ?_⟩
      · rw [List.length_append, settleTmp_length, if_neg (List.cons_ne_nil _ _)]
        rw [List.length_append, List.length_singleton] at out
        omega
      · intro span member
        cases List.mem_append.mp member with
        | inl old => exact outSpans span (List.mem_append_left _ old)
        | inr new =>
          exact settleTmp_isSpan (fun span member => outSpans span (List.mem_append_right _ member))
            span new
  · rename_i ready
    right
    refine ⟨_, rfl, ?_, ?_, ?_⟩
    · by_cases waiting : smoothing.itnCount = 0
      · exact Or.inl waiting
      · right
        have tmp : smoothing.timestampsTmp ≠ [] := fun none => ready ⟨by omega, none⟩
        have taken : smoothing.idxTp ≠ 0 := fun zero => tmp (used.mpr zero).2
        omega
    · rw [List.length_append, settleTmp_length]
      split
      · rename_i none
        have waiting : smoothing.itnCount = 0 := by
          by_contra some
          exact ready ⟨by omega, none⟩
        omega
      · omega
    · intro span member
      cases List.mem_append.mp member with
      | inl old => exact outSpans span old
      | inr new => exact settleTmp_isSpan tmpSpans span new

end Smoothing.Counted

/-! ## What is answered -/

/-- The columns that the loop goes through. -/
def columns (alignment : Alignment) : List (CString × CString) := alignment.str1.zip alignment.str2

/-- The loop runs out of timestamps, or its result has to be refused: an entry of both strings is
    empty, or there is no token at all on one side. -/
def Refused (timestamps : List Span) (alignment : Alignment) : Prop :=
  timestamps.length < (columns alignment).countP consumes ∨
    alignment.str1.length ≤ alignment.str2.length ∧
      ((∃ column ∈ columns alignment, blank column) ∨
        (∀ column ∈ columns alignment, column.1 = []) ∨ ∀ column ∈ columns alignment, column.2 = [])

/-- With nothing but inserted tokens there is no timestamp for them. -/
theorem waits {columns : List (CString × CString)} (counted : Smoothing.Counted columns smoothing)
    (inserted : ∀ column ∈ columns, column.1 = []) (noBlank : ∀ column ∈ columns, ¬ blank column)
    (settled : smoothing.itnCount = 0 ∨ 0 < columns.countP consumes) (tokens : 0 < smoothing.idxItn) :
    False := by
  obtain ⟨idxTp, idxItn, out, used, -⟩ := counted
  have nothing : columns.countP consumes = 0 := by
    rw [List.countP_eq_zero]
    intro column member
    have rewritten := noBlank column member
    simp only [blank, inserted column member, decide_true, Bool.true_and, decide_eq_true_eq]
      at rewritten
    simp [consumes, inserted column member, rewritten]
  have blanks : columns.countP blank = 0 := List.countP_eq_zero.mpr noBlank
  have none := (used.mpr (idxTp.trans nothing)).1
  rw [none, List.length_nil, blanks] at out
  omega

/-- The answer is empty where it is refused, and else has a timestamp for every rewritten token
    that the loop has seen. -/
theorem smoothAligned_cases (areSpans : ∀ span ∈ timestamps, IsSpan span) (alignment : Alignment) :
    (Refused timestamps alignment ∧ smoothAligned timestamps alignment = some []) ∨
      ¬ Refused timestamps alignment ∧
        (alignment.str2.length < alignment.str1.length ∧ smoothAligned timestamps alignment = none ∨
          alignment.str1.length ≤ alignment.str2.length ∧ ∃ timestampsOut,
            smoothAligned timestamps alignment = some (vectorToString timestampsOut true) ∧
            timestampsOut ≠ [] ∧
            timestampsOut.length = (columns alignment).countP (·.2 ≠ []) ∧
            ∀ span ∈ timestampsOut, IsSpan span) := by
  have run := Smoothing.Counted.start.loop areSpans (Nat.zero_le _) alignment.str1 alignment.str2
  rw [List.nil_append] at run
  change (_ < (columns alignment).countP consumes ∧ _) ∨ (columns alignment).countP consumes ≤ _ ∧ _
    at run
  unfold smoothAligned
  rcases run with ⟨more, failed⟩ | ⟨within, ⟨shorter, outOfRange⟩ | ⟨length, last, ended, counted⟩⟩
  · rw [failed]
    exact Or.inl ⟨Or.inl more, rfl⟩
  · rw [outOfRange]
    right
    refine ⟨?_, Or.inl ⟨shorter, rfl⟩⟩
    rintro (more | ⟨wrong, -⟩)
    · omega
    · omega
  · rw [ended]
    dsimp only
    change Smoothing.Counted (columns alignment) last at counted
    have idxItn := counted.idxItn
    rcases counted.finish with ⟨none, -, nothing⟩ | ⟨timestampsOut, finished, waiting, size, spans⟩
    · rw [none]
      left
      refine ⟨Or.inr ⟨length, Or.inr (Or.inl ?_)⟩, rfl⟩
      intro column member
      have skipped := List.countP_eq_zero.mp nothing column member
      simp only [consumes, Bool.or_eq_true, decide_eq_true_eq, not_or, not_not] at skipped
      exact skipped.1
    · rw [finished]
      dsimp only
      -- A blank column has a timestamp but no token: the counts differ, the answer is refused.
      by_cases blanks : (columns alignment).countP blank = 0
      · rw [if_neg (by omega)]
        have noBlank := List.countP_eq_zero.mp blanks
        by_cases empty : timestampsOut = []
        · left
          rw [empty] at size ⊢
          rw [List.length_nil, blanks, Nat.add_zero] at size
          refine ⟨Or.inr ⟨length, Or.inr (Or.inr ?_)⟩, rfl⟩
          rw [← size, eq_comm, List.countP_eq_zero] at idxItn
          intro column member
          simpa using idxItn column member
        · right
          have some : 0 < timestampsOut.length := List.length_pos_iff.mpr empty
          refine ⟨?_, Or.inr ⟨length, timestampsOut, rfl, empty, by omega, spans⟩⟩
          rintro (more | ⟨-, ⟨column, member, isBlank⟩ | deleted | inserted⟩)
          · omega
          · exact noBlank column member isBlank
          · exact waits counted deleted noBlank waiting (by omega)
          · have none : (columns alignment).countP (·.2 ≠ []) = 0 := by
              rw [List.countP_eq_zero]
              intro column member
              simp [inserted column member]
            omega
      · rw [if_pos (by omega)]
        left
        obtain ⟨column, member, isBlank⟩ := List.countP_pos_iff.mp (Nat.pos_of_ne_zero blanks)
        exact ⟨Or.inr ⟨length, Or.inl ⟨column, member, isBlank⟩⟩, rfl⟩

end

/-- The tokens of a text that are not punctuation. -/
def wordsOf (text : CString) : List CString := (timestampSplitChiEngCharacters text).filter isWord

/-- How many tokens of a text are punctuation. -/
def marksOf (text : CString) : Nat :=
  (timestampSplitChiEngCharacters text).countP timestampIsPunctuation

/-- The answer is empty, or it has one timestamp for every word of the rewritten text.  Where
    `str_time` cannot be read, `std::stoi` throws. -/
def AnswersCompletely (text textItn strTime : CString) : Prop :=
  ∀ timestamps ∈ parseTimestamps strTime, ∃ answer, timestampSmooth text textItn strTime = some answer ∧
    (answer ≠ [] → ∃ spans, parseTimestamps answer = some spans ∧
      spans.length = (wordsOf textItn).length)

/-- The strings that are aligned for two texts. -/
def alignTexts (text textItn : CString) : Alignment :=
  align (timestampSplitChiEngCharacters text) (timestampSplitChiEngCharacters textItn)

/-- There is nothing to answer; or the rewritten text has no more marks than the text, and no word
    stands in its string behind the end of the other string. -/
def Covered (text textItn strTime : CString) : Prop :=
  ∀ timestamps ∈ parseTimestamps strTime,
    timestamps = [] ∨ Refused timestamps (alignTexts text textItn) ∨
      marksOf textItn ≤ marksOf text ∧
        ∀ word ∈ (alignTexts text textItn).str2.drop (alignTexts text textItn).str1.length, word = []

section
variable {text textItn strTime : CString}

theorem alignTexts_length_le :
    (alignTexts text textItn).str1.length ≤ (alignTexts text textItn).str2.length ↔
      marksOf textItn ≤ marksOf text := by
  have lengths := align_lengths (timestampSplitChiEngCharacters text)
    (timestampSplitChiEngCharacters textItn)
  unfold alignTexts marksOf
  omega

theorem map_snd_zip (first second : List CString) :
    (first.zip second).map (·.2) = second.take first.length := by
  induction first generalizing second with
  | nil => simp
  | cons word first inductionHypothesis =>
    cases second with
    | nil => simp
    | cons wordItn second => simp [inductionHypothesis]

theorem no_words (strings : List CString) :
    strings.countP (· ≠ []) = 0 ↔ ∀ word ∈ strings, word = [] := by
  rw [List.countP_eq_zero]
  simp

/-- The loop sees all words but those behind the end of the first string. -/
theorem words_seen (text textItn : CString) :
    (columns (alignTexts text textItn)).countP (·.2 ≠ []) +
        ((alignTexts text textItn).str2.drop (alignTexts text textItn).str1.length).countP (· ≠ []) =
      (wordsOf textItn).length := by
  have seen : (columns (alignTexts text textItn)).map (·.2) =
      (alignTexts text textItn).str2.take (alignTexts text textItn).str1.length :=
    map_snd_zip _ _
  have all := (align_words (timestampSplitChiEngCharacters text)
    (timestampSplitChiEngCharacters textItn)).2
  have count : (columns (alignTexts text textItn)).countP (·.2 ≠ []) =
      ((alignTexts text textItn).str2.take (alignTexts text textItn).str1.length).countP (· ≠ []) := by
    rw [← seen, List.countP_map]
    rfl
  rw [count, ← List.countP_append, List.take_append_drop, wordsOf, ← all, List.countP_eq_length_filter]
  rfl

theorem timestampSmooth_eq {timestamps : List Span}
    (parsed : parseTimestamps strTime = some timestamps) :
    timestampSmooth text textItn strTime =
      if timestamps = [] then some []
      else smoothAligned timestamps (alignTexts text textItn) := by
  unfold timestampSmooth
  rw [parsed]
  rfl

/-- `TimestampSmooth` answers completely or not at all exactly where the words are covered. -/
theorem answersCompletely_iff (text textItn strTime : CString) :
    AnswersCompletely text textItn strTime ↔ Covered text textItn strTime := by
  unfold AnswersCompletely Covered
  apply forall_congr'
  intro timestamps
  apply imp_congr_right
  intro parsed
  rw [timestampSmooth_eq (Option.mem_def.mp parsed)]
  by_cases nothing : timestamps = []
  · rw [if_pos nothing]
    constructor
    · exact fun _ => Or.inl nothing
    · exact fun _ => ⟨[], rfl, fun wrong => absurd rfl wrong⟩
  · rw [if_neg nothing]
    rcases smoothAligned_cases (isSpan_of_parseTimestamps parsed) (alignTexts text textItn) with
      ⟨refused, empty⟩ | ⟨kept, ⟨shorter, outOfRange⟩ | ⟨length, timestampsOut, answer, some, size, spans⟩⟩
    · rw [empty]
      constructor
      · exact fun _ => Or.inr (Or.inl refused)
      · exact fun _ => ⟨[], rfl, fun wrong => absurd rfl wrong⟩
    · rw [outOfRange]
      constructor
      · rintro ⟨answer, wrong, -⟩
        cases wrong
      · rintro (wrong | wrong | ⟨marks, -⟩)
        · exact absurd wrong nothing
        · exact absurd wrong kept
        · have longer := alignTexts_length_le.mpr marks
          omega
    · have seen := words_seen text textItn
      rw [answer]
      have hidden : timestampsOut.length = (wordsOf textItn).length ↔
          ∀ word ∈ (alignTexts text textItn).str2.drop (alignTexts text textItn).str1.length,
            word = [] := by
        rw [← no_words]
        omega
      constructor
      · rintro ⟨_, same, complete⟩
        cases same
        obtain ⟨read, parsed, complete⟩ := complete (vectorToString_ne_nil some)
        rw [parseTimestamps_vectorToString spans] at parsed
        cases parsed
        exact Or.inr (Or.inr ⟨alignTexts_length_le.mp length, hidden.mp complete⟩)
      · rintro (wrong | wrong | ⟨-, covered⟩)
        · exact absurd wrong nothing
        · exact absurd wrong kept
        · exact ⟨_, rfl, fun _ =>
            ⟨timestampsOut, parseTimestamps_vectorToString spans true, hidden.mpr covered⟩⟩

/-- Where the loop does not read past the end. -/
theorem timestampSmooth_isSome_iff {timestamps : List Span}
    (parsed : parseTimestamps strTime = some timestamps) (nonempty : timestamps ≠ []) :
    (timestampSmooth text textItn strTime).isSome ↔
      Refused timestamps (alignTexts text textItn) ∨ marksOf textItn ≤ marksOf text := by
  rw [timestampSmooth_eq parsed, if_neg nonempty, ← alignTexts_length_le]
  rcases smoothAligned_cases (isSpan_of_parseTimestamps parsed) (alignTexts text textItn) with
    ⟨refused, empty⟩ | ⟨kept, ⟨shorter, outOfRange⟩ | ⟨length, timestampsOut, answer, -⟩⟩
  · rw [empty]
    exact iff_of_true rfl (Or.inl refused)
  · rw [outOfRange]
    refine iff_of_false Bool.false_ne_true ?_
    rintro (refused | length)
    · exact kept refused
    · omega
  · rw [answer]
    exact iff_of_true rfl (Or.inr length)

/-- The answer is empty or a list of timestamps. -/
theorem timestampSmooth_answer {answer : CString}
    (answered : timestampSmooth text textItn strTime = some answer) :
    answer = [] ∨ ∃ spans, spans ≠ [] ∧ (∀ span ∈ spans, IsSpan span) ∧
      answer = vectorToString spans true := by
  cases parsed : parseTimestamps strTime with
  | none =>
    unfold timestampSmooth at answered
    rw [parsed] at answered
    cases answered
  | some timestamps =>
    rw [timestampSmooth_eq parsed] at answered
    split at answered
    · exact Or.inl (Option.some.inj answered).symm
    · rcases smoothAligned_cases (isSpan_of_parseTimestamps parsed) (alignTexts text textItn) with
        ⟨-, empty⟩ | ⟨-, ⟨-, outOfRange⟩ | ⟨-, timestampsOut, some, nonempty, -, spans⟩⟩
      · rw [empty] at answered
        exact Or.inl (Option.some.inj answered).symm
      · rw [outOfRange] at answered
        cases answered
      · rw [some] at answered
        exact Or.inr ⟨timestampsOut, nonempty, spans, (Option.some.inj answered).symm⟩

/-- With as many marks in both texts the words are covered. -/
theorem covered_of_same_marks (same : marksOf textItn = marksOf text) :
    Covered text textItn strTime := by
  intro timestamps _
  have lengths := align_lengths (timestampSplitChiEngCharacters text)
    (timestampSplitChiEngCharacters textItn)
  refine Or.inr (Or.inr ⟨same.le, ?_⟩)
  unfold marksOf at same
  unfold alignTexts
  rw [List.drop_eq_nil_of_le (by omega)]
  exact fun word member => absurd member (List.not_mem_nil)

end

/-! ## The lengths of the two strings -/

/-- Wherever two strings are aligned, they have the same length, and the loop finds an entry of the
    second one at every index of the first. -/
def InStep (text textItn strTime : CString) : Prop :=
  ∀ timestamps ∈ parseTimestamps strTime, timestamps ≠ [] →
    (alignTexts text textItn).str1.length = (alignTexts text textItn).str2.length ∧
      ∀ index < (alignTexts text textItn).str1.length,
        ((alignTexts text textItn).str2[index]?).isSome

/-- The strings are in step exactly when none are aligned, or both texts have as many marks. -/
theorem inStep_iff (text textItn strTime : CString) :
    InStep text textItn strTime ↔
      (∀ timestamps ∈ parseTimestamps strTime, timestamps = []) ∨ marksOf textItn = marksOf text := by
  have lengths : (alignTexts text textItn).str1.length + marksOf text =
      (alignTexts text textItn).str2.length + marksOf textItn := align_lengths _ _
  constructor
  · intro inStep
    by_cases nothing : ∀ timestamps ∈ parseTimestamps strTime, timestamps = []
    · exact Or.inl nothing
    · push Not at nothing
      obtain ⟨timestamps, parsed, some⟩ := nothing
      have same := (inStep timestamps parsed some).1
      exact Or.inr (by omega)
  · rintro (nothing | marks) timestamps parsed some
    · exact absurd (nothing timestamps parsed) some
    · have same : (alignTexts text textItn).str1.length = (alignTexts text textItn).str2.length := by
        omega
      refine ⟨same, fun index inside => ?_⟩
      rw [List.getElem?_eq_getElem (same ▸ inside)]
      rfl

/-- A word that is rewritten as a mark: the second string has no entry for it. -/
theorem not_inStep_mark : ¬ InStep (bytes "你a") (bytes "你，") (bytes "[[0,10],[10,20]]") := by
  intro inStep
  have parsed : parseTimestamps (bytes "[[0,10],[10,20]]") = some [(0, 10), (10, 20)] := by decide
  have inside := (inStep _ parsed (by decide)).2 1
  revert inside
  decide

/-! ## A text that is not rewritten -/

/-- So many turns with the same word in both strings, each of which takes its timestamp. -/
def Smoothing.taken (timestamps : List Span) (count : Nat) : Smoothing where
  idxTp := count
  idxItn := count
  timestampsOut := timestamps.take count

theorem Smoothing.step_taken {timestamps : List Span} {count : Nat} {word : CString}
    (written : word ≠ []) :
    (Smoothing.taken timestamps count).step timestamps word word =
      if count < timestamps.length then some (Smoothing.taken timestamps (count + 1)) else none := by
  unfold Smoothing.step
  rw [if_pos rfl]
  split
  · rename_i inside
    have found := List.getElem?_eq_getElem inside
    unfold Smoothing.same Smoothing.taken
    rw [List.take_succ_eq_append_getElem inside]
    simp [found, written, settleTmp]
  · rename_i outside
    have absent : timestamps[count]? = none := List.getElem?_eq_none (Nat.le_of_not_lt outside)
    unfold Smoothing.same Smoothing.taken
    rw [absent]
    rfl

theorem smoothLoop_self {timestamps : List Span} {words : List CString}
    (written : ∀ word ∈ words, word ≠ []) {count : Nat} (within : count ≤ timestamps.length) :
    smoothLoop timestamps words words (Smoothing.taken timestamps count) =
      if count + words.length ≤ timestamps.length then
        .ok (Smoothing.taken timestamps (count + words.length))
      else .error .failed := by
  induction words generalizing count with
  | nil => exact (if_pos within).symm
  | cons word words inductionHypothesis =>
    obtain ⟨first, others⟩ := List.forall_mem_cons.mp written
    unfold smoothLoop
    rw [Smoothing.step_taken first, List.length_cons, Nat.add_left_comm, Nat.add_comm words.length]
    by_cases inside : count < timestamps.length
    · rw [if_pos inside]
      dsimp only
      rw [inductionHypothesis others inside]
    · rw [if_neg inside]
      exact (if_neg (by omega)).symm

/-- The words keep the first timestamps; where there are not enough of them, nothing is answered. -/
theorem timestampSmooth_self {text strTime : CString} {timestamps : List Span}
    (parsed : parseTimestamps strTime = some timestamps) :
    timestampSmooth text text strTime =
      some (if (wordsOf text).length ≤ timestamps.length then
        vectorToString (timestamps.take (wordsOf text).length) true else []) := by
  have written : ∀ word ∈ wordsOf text, word ≠ [] := fun word member =>
    isWord_ne_nil (List.mem_filter.mp member).2
  have loop := smoothLoop_self written (Nat.zero_le timestamps.length)
  rw [Nat.zero_add] at loop
  have answered : smoothAligned timestamps ⟨wordsOf text, wordsOf text⟩ =
      some (if (wordsOf text).length ≤ timestamps.length then
        vectorToString (timestamps.take (wordsOf text).length) true else []) := by
    unfold smoothAligned
    rw [show ({} : Smoothing) = Smoothing.taken timestamps 0 from rfl, loop]
    by_cases enough : (wordsOf text).length ≤ timestamps.length
    · have finished : (Smoothing.taken timestamps (wordsOf text).length).finish =
          some (timestamps.take (wordsOf text).length) := by
        simp [Smoothing.finish, Smoothing.taken, settleTmp]
      rw [if_pos enough, if_pos enough]
      dsimp only
      rw [finished]
      exact if_neg (not_not.mpr (List.length_take_of_le enough))
    · rw [if_neg enough, if_neg enough]
  have aligned : alignTexts text text = ⟨wordsOf text, wordsOf text⟩ := align_self _
  -- No timestamps at all is answered with nothing, as no words are.
  rw [timestampSmooth_eq parsed, aligned]
  split
  · rename_i none
    rw [none, List.take_nil]
    split <;> rfl
  · exact answered

/-- A mark that is rewritten as a word: the one timestamp is not enough for the two words. -/
theorem not_answersCompletely_mark :
    ¬ AnswersCompletely (bytes "你，") (bytes "你a") (bytes "[[0,10]]") := by
  intro answers
  obtain ⟨answer, answered, complete⟩ := answers [(0, 10)] (by decide)
  have one : timestampSmooth (bytes "你，") (bytes "你a") (bytes "[[0,10]]") =
      some (bytes "[[0,10]]") := by decide
  rw [one] at answered
  cases answered
  obtain ⟨spans, parsed, length⟩ := complete (by decide)
  have read : parseTimestamps (bytes "[[0,10]]") = some [(0, 10)] := by decide
  rw [read] at parsed
  cases parsed
  exact absurd length (by decide)

end Asr2Pass.Timestamps
