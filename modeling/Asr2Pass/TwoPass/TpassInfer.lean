import Asr2Pass.Library.Runs
import Asr2Pass.Timestamps.Messages
import Asr2Pass.Timestamps.Sentences
import Asr2Pass.Timestamps.TimestampSmooth

/-! # The offline results of a call

`FunTpassInferBuffer` recognizes the offline segments that `Split` has queued, one after the other,
and puts their texts, timestamps and sentences into one result.
-/

namespace Asr2Pass.TwoPass

open Library
open Text (CString bytes splitStr)
open Timestamps (Span Stamp IsInt IsSpan spanText vectorToString parseTimestamps timestampSmooth
  timestampSentence funTpassInferBufferRead wordsOf marksOf alignTexts Refused)

/-- A segment of the queue, and what the recognizer's `Forward` returns for it. -/
structure Segment where
  globalStart : Int
  msgs : List CString

/-- `PuncModel`. -/
structure PuncModel where
  isOnline : Bool
  addPunc : CString → List CString → CString × List CString

/-- What a call does not change: whether the model is `MODEL_PARA`, whether both `UseITN()` and the
    argument ask for the rewriting, and `itn_handle->Normalize`. -/
structure TpassCall where
  isPara : Bool
  itn : Bool
  inputFinished : Bool
  punc : PuncModel
  normalize : CString → CString

/-- The variables of the loop and the fields of `p_result` that it writes. -/
structure TpassResult where
  curStamp : CString := bytes "["
  stamp : CString := []
  tpassMsg : CString := []
  stampSents : CString := []
  puncCache : List CString := []

/-! ## Timestamps -/

/-- A `float` as an `int`; none out of range, where the conversion is undefined. -/
def toInt (value : ℚ) : Option Int :=
  let whole := if 0 ≤ value then ⌊value⌋ else ⌈value⌉
  if -2147483648 ≤ whole ∧ whole ≤ 2147483647 then some whole else none

theorem toInt_floor {value : ℚ} (nonneg : 0 ≤ value) (short : value < 2 ^ 31) :
    toInt value = some ⌊value⌋ := by
  have low := Int.floor_nonneg.mpr nonneg
  have high : ⌊value⌋ < 2 ^ 31 := Int.floor_lt.mpr (by exact_mod_cast short)
  rw [toInt, if_pos nonneg, if_pos (by omega)]

/-- `(int)(1000*begin)` and `(int)(1000*end)`. -/
def toMs (stamp : Stamp) : Option Span := do
  return (← toInt (toFloat (1000 * stamp.1)), ← toInt (toFloat (1000 * stamp.2)))

namespace Segment

def msg (segment : Segment) : CString := segment.msgs.headD []

/-- `msg_vec[0]`. -/
def text (segment : Segment) : CString := (splitStr segment.msg (bytes " | ")).headD []

/-- The timestamps behind the text, in milliseconds from the beginning of the audio. -/
def spans (segment : Segment) : Option (List Span) := do
  let (_, pairs) ← funTpassInferBufferRead segment.globalStart segment.msg
  pairs.mapM toMs

end Segment

namespace TpassResult

def addSpans (result : TpassResult) (spans : List Span) : TpassResult :=
  { result with
    curStamp := result.curStamp ++ spans.flatMap fun span => spanText span ++ bytes "," }

/-- The last byte of `cur_stamp` is erased, also when no timestamp was added. -/
def appendStamp (result : TpassResult) : TpassResult :=
  if result.curStamp = bytes "[" then result
  else
    { result with
      curStamp := result.curStamp.dropLast
      stamp := result.stamp ++ (result.curStamp.dropLast ++ bytes "]") }

def addSentences (result : TpassResult) : Option TpassResult :=
  if result.stamp = [] then some result
  else
    (timestampSentence result.tpassMsg result.stamp).map fun stampSents =>
      { result with stampSents }

end TpassResult

/-! ## The loop -/

namespace TpassCall

/-- `msg_punc`, and the cache. -/
def punctuate (call : TpassCall) (msg : CString) (cache : List CString) :
    CString × List CString :=
  let (msgPunc, cache) := call.punc.addPunc (msg.takeWhile (· ≠ 0)) cache
  (if call.inputFinished && call.punc.isOnline then msgPunc ++ bytes "。" else msgPunc, cache)

/-- The inverse text normalization, which also fits the timestamps to the new text. -/
def rewrite (call : TpassCall) (result : TpassResult) : Option TpassResult := do
  let msgItn := call.normalize result.tpassMsg
  let newStamp ←
    if result.stamp = [] then pure [] else timestampSmooth result.tpassMsg msgItn result.stamp
  return { result with
    stamp := if newStamp = [] then result.stamp else newStamp
    tpassMsg := msgItn }

def setMessage (call : TpassCall) (result : TpassResult) (msg : CString) : Option TpassResult :=
  if call.isPara then
    let (msgPunc, puncCache) := call.punctuate msg result.puncCache
    let result := { result with tpassMsg := msgPunc, puncCache }
    if call.itn then call.rewrite result else some result
  else some { result with tpassMsg := msg }

/-- One turn of the loop; none where an exception leaves the function or it reads past an end. -/
def step (call : TpassCall) (result : TpassResult) (segment : Segment) : Option TpassResult :=
  if splitStr segment.msg (bytes " | ") = [] then some result
  else do
    let spans ← segment.spans
    let result ← call.setMessage (result.addSpans spans).appendStamp segment.text
    result.addSentences

end TpassCall

/-! ## What is to be delivered -/

/-- The parts stand in the text, one behind the other. -/
def InOrder : List CString → CString → Prop
  | [], _ => True
  | part :: parts, text => ∃ before after, text = before ++ part ++ after ∧ InOrder parts after

namespace TpassCall

/-- What becomes of the text of a segment, and the cache behind it. -/
def deliver (call : TpassCall) (text : CString) (cache : List CString) : CString × List CString :=
  if call.isPara then
    let (msgPunc, cache) := call.punctuate text cache
    (if call.itn then call.normalize msgPunc else msgPunc, cache)
  else (text, cache)

/-- The texts of the segments, with their punctuation and rewritten. -/
def messages (call : TpassCall) : List CString → List Segment → List CString
  | _, [] => []
  | cache, segment :: segments =>
    let (message, cache) := call.deliver segment.text cache
    message :: call.messages cache segments

/-- The cache of the punctuation model after some segments. -/
def cacheAfter (call : TpassCall) (cache : List CString) (segments : List Segment) :
    List CString :=
  segments.foldl (fun cache segment => (call.deliver segment.text cache).2) cache

/-- The text of a segment with its punctuation, after the segments before it. -/
def punctuated (call : TpassCall) (cache : List CString) (before : List Segment)
    (segment : Segment) : CString :=
  (call.punctuate segment.text (call.cacheAfter cache before)).1

/-- The inverse text normalization is applied and changes the text of a segment. -/
def Rewrites (call : TpassCall) (cache : List CString) (segments : List Segment) : Prop :=
  call.isPara ∧ call.itn ∧ ∃ before segment after, segments = before ++ segment :: after ∧
    call.normalize (call.punctuated cache before segment) ≠ call.punctuated cache before segment

/-- All texts in order, and all timestamps where no text is rewritten. -/
structure Delivers (call : TpassCall) (cache : List CString) (segments : List Segment)
    (result : TpassResult) : Prop where
  messages : InOrder (call.messages cache segments) result.tpassMsg
  stamps : ¬ call.Rewrites cache segments →
    parseTimestamps result.stamp = some (segments.flatMap fun segment => segment.spans.getD [])

/-- The last segment's timestamps go with its text: rewriting does not read past the end of the
    alignment, and where it changes nothing, it does not cut off timestamps. -/
def KeepsStamps (call : TpassCall) (cache : List CString) (before : List Segment) (last : Segment)
    (spans : List Span) : Prop :=
  (Refused spans (alignTexts (call.punctuated cache before last)
      (call.normalize (call.punctuated cache before last))) ∨
    marksOf (call.normalize (call.punctuated cache before last)) ≤
      marksOf (call.punctuated cache before last)) ∧
  (¬ call.Rewrites cache (before ++ [last]) →
    wordsOf (call.punctuated cache before last) = [] ∨
      spans.length ≤ (wordsOf (call.punctuated cache before last)).length)

/-- Only the last segment says anything, and it can be read. -/
def OnlyLast (call : TpassCall) (cache : List CString) (segments : List Segment) : Prop :=
  segments = [] ∨ ∃ before last spans, segments = before ++ [last] ∧
    (∀ segment ∈ before, segment.spans = some []) ∧
    (∀ message ∈ call.messages cache before, message = []) ∧
    last.spans = some spans ∧
    (call.isPara → call.itn → spans ≠ [] → call.KeepsStamps cache before last spans)

end TpassCall

theorem InOrder.length_le {parts : List CString} {text : CString} (inOrder : InOrder parts text) :
    parts.flatten.length ≤ text.length := by
  induction parts generalizing text with
  | nil => exact Nat.zero_le _
  | cons part parts inductionHypothesis =>
    obtain ⟨before, after, rfl, others⟩ := inOrder
    have rest := inductionHypothesis others
    rw [List.flatten_cons, List.length_append, List.length_append, List.length_append]
    omega

/-- The last part alone is the whole text. -/
theorem inOrder_snoc_iff (parts : List CString) (last : CString) :
    InOrder (parts ++ [last]) last ↔ ∀ part ∈ parts, part = [] := by
  constructor
  · intro inOrder part member
    have length := inOrder.length_le
    rw [List.flatten_append, List.length_append, List.flatten_singleton] at length
    have none : parts.flatten = [] := List.length_eq_zero_iff.mp (by omega)
    exact List.flatten_eq_nil_iff.mp none part member
  · intro empty
    induction parts with
    | nil => exact ⟨[], [], by simp, trivial⟩
    | cons part parts inductionHypothesis =>
      obtain ⟨first, others⟩ := List.forall_mem_cons.mp empty
      exact ⟨[], last, by simp [first], inductionHypothesis others⟩

namespace TpassCall

variable {call : TpassCall} {cache : List CString}

theorem messages_append (segments more : List Segment) :
    call.messages cache (segments ++ more) =
      call.messages cache segments ++ call.messages (call.cacheAfter cache segments) more := by
  induction segments generalizing cache with
  | nil => rfl
  | cons segment segments inductionHypothesis =>
    exact congrArg (_ :: ·) (@inductionHypothesis (call.deliver segment.text cache).2)

/-! ## One turn -/

/-- `p_result->stamp` behind the rewriting of a text. -/
def keptStamp (call : TpassCall) (msg : CString) (cache : List CString) (stamp : CString) :
    Option CString :=
  if call.isPara ∧ call.itn ∧ stamp ≠ [] then
    let msgPunc := (call.punctuate msg cache).1
    (timestampSmooth msgPunc (call.normalize msgPunc) stamp).map fun newStamp =>
      if newStamp = [] then stamp else newStamp
  else some stamp

theorem setMessage_eq (call : TpassCall) (result : TpassResult) (msg : CString) :
    call.setMessage result msg =
      (call.keptStamp msg result.puncCache result.stamp).map fun stamp =>
        { result with
          stamp
          tpassMsg := (call.deliver msg result.puncCache).1
          puncCache := (call.deliver msg result.puncCache).2 } := by
  obtain ⟨isPara, itn, inputFinished, punc, normalize⟩ := call
  unfold setMessage keptStamp deliver
  cases isPara with
  | false => simp
  | true =>
    cases itn with
    | false => simp
    | true =>
      unfold rewrite
      by_cases none : result.stamp = []
      · simp [none]
      · simp only [none, if_false, if_true, ne_eq, not_false_eq_true, and_self]
        cases timestampSmooth _ _ result.stamp with
        | none => rfl
        | some newStamp => rfl

theorem step_eq (call : TpassCall) (result : TpassResult) (segment : Segment) :
    call.step result segment =
      segment.spans.bind fun spans =>
        (call.setMessage (result.addSpans spans).appendStamp segment.text).bind
          TpassResult.addSentences :=
  if_neg (Text.splitStr_ne_nil _ _)

theorem toInt_isInt {value : ℚ} {number : Int} (converted : toInt value = some number) :
    IsInt number := by
  unfold toInt at converted
  obtain ⟨range, same⟩ := Option.ite_none_right_eq_some.mp converted
  rw [← Option.some.inj same]
  unfold IsInt
  omega

/-- The timestamps of a segment are `int`. -/
theorem isSpan_of_spans {segment : Segment} {spans : List Span}
    (read : segment.spans = some spans) : ∀ span ∈ spans, IsSpan span := by
  obtain ⟨⟨text, pairs⟩, -, mapped⟩ := Option.bind_eq_some_iff.mp read
  have each := map_some_of_mapM mapped
  intro span member
  have inside : some span ∈ pairs.map toMs := each ▸ List.mem_map_of_mem member
  obtain ⟨pair, -, converted⟩ := List.mem_map.mp inside
  obtain ⟨begin, first, converted⟩ := Option.bind_eq_some_iff.mp converted
  obtain ⟨last, second, same⟩ := Option.bind_eq_some_iff.mp converted
  rw [← Option.some.inj same]
  exact ⟨toInt_isInt first, toInt_isInt second⟩

end TpassCall

namespace TpassResult

/-- No segment has had a timestamp yet. -/
structure Silent (result : TpassResult) : Prop where
  curStamp : result.curStamp = bytes "["
  stamp : result.stamp = []

/-- A segment had timestamps: `cur_stamp` keeps them. -/
structure Loud (result : TpassResult) : Prop where
  curStamp : ∃ more, more ≠ [] ∧ result.curStamp = bytes "[[" ++ more
  stamp : ∃ spans outEmpty, spans ≠ [] ∧ (∀ span ∈ spans, IsSpan span) ∧
    result.stamp = vectorToString spans outEmpty

variable {result : TpassResult} {spans : List Span}

theorem Silent.appendStamp_nil (silent : Silent result) :
    (result.addSpans []).appendStamp = result := by
  unfold addSpans appendStamp
  rw [List.flatMap_nil, List.append_nil, if_pos silent.curStamp]

theorem flatMap_dropLast {spans : List Span} (some : spans ≠ []) :
    (spans.flatMap fun span => spanText span ++ bytes ",").dropLast =
      List.intercalate (bytes ",") (spans.map spanText) := by
  have comma : ∀ text : CString, (text ++ bytes ",").dropLast = text := fun text =>
    List.dropLast_concat
  induction spans with
  | nil => exact absurd rfl some
  | cons span spans inductionHypothesis =>
    cases spans with
    | nil =>
      rw [List.flatMap_singleton, comma, List.map_singleton, List.intercalate_singleton]
    | cons next spans =>
      have later := inductionHypothesis (List.cons_ne_nil _ _)
      have there : ((next :: spans).flatMap fun span => spanText span ++ bytes ",") ≠ [] := by
        rw [List.flatMap_cons, List.append_assoc]
        exact List.append_ne_nil_of_right_ne_nil _ (List.cons_ne_nil _ _)
      rw [List.flatMap_cons, List.dropLast_append_of_ne_nil there, later]
      exact List.intercalate_cons_cons.symm

/-- The first timestamps. -/
theorem Silent.appendStamp (silent : Silent result) (some : spans ≠ []) :
    (result.addSpans spans).appendStamp =
      { result with
        curStamp := bytes "[" ++ List.intercalate (bytes ",") (spans.map spanText)
        stamp := vectorToString spans false } := by
  have there : (spans.flatMap fun span => spanText span ++ bytes ",") ≠ [] := by
    obtain ⟨span, spans, rfl⟩ := List.exists_cons_of_ne_nil some
    rw [List.flatMap_cons, List.append_assoc]
    exact List.append_ne_nil_of_right_ne_nil _ (List.cons_ne_nil _ _)
  have dropped : (bytes "[" ++ spans.flatMap fun span => spanText span ++ bytes ",").dropLast =
      bytes "[" ++ List.intercalate (bytes ",") (spans.map spanText) := by
    rw [List.dropLast_append_of_ne_nil there, flatMap_dropLast some]
  unfold addSpans TpassResult.appendStamp
  rw [silent.curStamp, silent.stamp]
  dsimp only
  rw [if_neg fun wrong => there (List.append_cancel_left (wrong.trans (List.append_nil _).symm)),
    dropped]
  unfold vectorToString
  rw [if_neg (fun empty => some empty.1)]
  rfl

/-- Any further segment writes a second list behind the first one. -/
theorem Loud.appendStamp (loud : Loud result) (spans : List Span) :
    (result.addSpans spans).appendStamp.stamp ≠ [] ∧
      parseTimestamps (result.addSpans spans).appendStamp.stamp = none := by
  obtain ⟨⟨more, some, curStamp⟩, others, outEmpty, nonempty, areSpans, stamp⟩ := loud
  have longer : more ++ (spans.flatMap fun span => spanText span ++ bytes ",") ≠ [] :=
    List.append_ne_nil_of_left_ne_nil some _
  have written : (result.addSpans spans).appendStamp.stamp =
      vectorToString others outEmpty ++ (bytes "[[" ++
        ((more ++ spans.flatMap fun span => spanText span ++ bytes ",").dropLast ++
          bytes "]")) := by
    have closed : bytes "[[" ++ (more ++ spans.flatMap fun span => spanText span ++ bytes ",") ≠
        bytes "[" := by
      intro wrong
      cases (List.cons.inj wrong).2
    unfold addSpans TpassResult.appendStamp
    dsimp only
    rw [curStamp, stamp, List.append_assoc, if_neg closed, List.dropLast_append_of_ne_nil longer,
      List.append_assoc]
  rw [written]
  refine ⟨?_, Timestamps.parseTimestamps_twice areSpans nonempty outEmpty _⟩
  exact List.append_ne_nil_of_left_ne_nil (Timestamps.vectorToString_ne_nil nonempty) _

end TpassResult

/-! ## A run of the loop -/

namespace TpassCall

variable {result next : TpassResult} {segment : Segment} {spans : List Span}

/-- A stamp that cannot be read. -/
theorem setMessage_unreadable (call : TpassCall) (msg : CString) (some : result.stamp ≠ [])
    (unreadable : parseTimestamps result.stamp = none) :
    (call.setMessage result msg).bind TpassResult.addSentences = none := by
  rw [setMessage_eq]
  unfold keptStamp
  split
  · -- `TimestampSmooth` throws.
    have thrown : ∀ text textItn, timestampSmooth text textItn result.stamp = none := by
      intro text textItn
      unfold timestampSmooth
      rw [unreadable]
      rfl
    dsimp only
    rw [thrown]
    rfl
  · -- `TimestampSentence` throws.
    have thrown : ∀ text, timestampSentence text result.stamp = none := by
      intro text
      unfold timestampSentence
      rw [unreadable]
      rfl
    rw [Option.map_some, Option.bind_some]
    unfold TpassResult.addSentences
    dsimp only
    rw [if_neg some, thrown]
    rfl

theorem step_loud (call : TpassCall) (loud : result.Loud) (segment : Segment) :
    call.step result segment = none := by
  rw [step_eq]
  cases segment.spans with
  | none => rfl
  | some spans =>
    obtain ⟨some, unreadable⟩ := loud.appendStamp spans
    exact call.setMessage_unreadable segment.text some unreadable

/-- What a turn leaves when the segment has no timestamp, like those before it. -/
theorem step_silent (call : TpassCall) (silent : result.Silent) (read : segment.spans = some []) :
    call.step result segment = some { result with
      tpassMsg := (call.deliver segment.text result.puncCache).1
      puncCache := (call.deliver segment.text result.puncCache).2 } := by
  have kept : call.keptStamp segment.text result.puncCache result.stamp = some result.stamp :=
    if_neg fun wrong => wrong.2.2 silent.stamp
  rw [step_eq, read, Option.bind_some, silent.appendStamp_nil, setMessage_eq, kept, Option.map_some,
    Option.bind_some]
  unfold TpassResult.addSentences
  dsimp only
  rw [if_pos silent.stamp]

theorem brackets (nonempty : spans ≠ []) :
    ∃ more, more ≠ [] ∧ bytes "[" ++ List.intercalate (bytes ",") (spans.map spanText) =
      bytes "[[" ++ more := by
  obtain ⟨span, spans, rfl⟩ := List.exists_cons_of_ne_nil nonempty
  have ends : ∀ text : CString, Text.toStringInt span.1 ++ text ≠ [] := fun text =>
    List.append_ne_nil_of_left_ne_nil (Timestamps.toStringInt_ne_nil _) _
  cases spans with
  | nil =>
    rw [List.map_singleton, List.intercalate_singleton]
    unfold spanText
    simp only [List.append_assoc]
    exact ⟨_, ends _, rfl⟩
  | cons next spans =>
    rw [List.map_cons, List.map_cons, List.intercalate_cons_cons]
    unfold spanText
    simp only [List.append_assoc]
    exact ⟨_, ends _, rfl⟩

/-- What a turn leaves after the first timestamps. -/
theorem step_first (call : TpassCall) (silent : result.Silent) (read : segment.spans = some spans)
    (nonempty : spans ≠ []) :
    (call.step result segment = none ∧
        call.keptStamp segment.text result.puncCache (vectorToString spans false) = none) ∨
      ∃ stamp next, call.keptStamp segment.text result.puncCache (vectorToString spans false) =
          some stamp ∧
        call.step result segment = some next ∧ next.Loud ∧ next.stamp = stamp ∧
        next.tpassMsg = (call.deliver segment.text result.puncCache).1 := by
  have areSpans := isSpan_of_spans read
  rw [step_eq, read, Option.bind_some, silent.appendStamp nonempty, setMessage_eq]
  dsimp only
  cases kept : call.keptStamp segment.text result.puncCache (vectorToString spans false) with
  | none => exact .inl ⟨rfl, rfl⟩
  | some stamp =>
    right
    -- The stamp is the first one, or what `TimestampSmooth` has made of it; both are written alike.
    obtain ⟨others, outEmpty, some, areOthers, rfl⟩ : ∃ others outEmpty, others ≠ [] ∧
        (∀ span ∈ others, IsSpan span) ∧ stamp = vectorToString others outEmpty := by
      unfold keptStamp at kept
      split at kept
      · obtain ⟨newStamp, answered, same⟩ := Option.map_eq_some_iff.mp kept
        split at same
        · exact ⟨spans, false, nonempty, areSpans, same.symm⟩
        · rename_i written
          obtain ⟨others, some, areOthers, written⟩ :=
            (Timestamps.timestampSmooth_answer answered).resolve_left written
          exact ⟨others, true, some, areOthers, same.symm.trans written⟩
      · exact ⟨spans, false, nonempty, areSpans, (Option.some.inj kept).symm⟩
    have written := @Timestamps.vectorToString_ne_nil others outEmpty some
    have readable := Timestamps.parseTimestamps_vectorToString areOthers outEmpty
    obtain ⟨more, brackets⟩ := brackets nonempty
    unfold TpassResult.addSentences
    rw [Option.map_some, Option.bind_some]
    dsimp only
    rw [if_neg written, Timestamps.timestampSentence_eq readable]
    exact ⟨_, _, rfl, rfl, ⟨⟨more, brackets⟩, others, outEmpty, some, areOthers, rfl⟩, rfl, rfl⟩

/-- A segment that is not the last one may not have a timestamp. -/
theorem run_none (call : TpassCall) {before : List Segment} (silent : result.Silent)
    (wrong : ¬ ∀ segment ∈ before, segment.spans = some []) (last : Segment) :
    run call.step result (before ++ [last]) = none := by
  induction before generalizing result with
  | nil => exact absurd (fun segment member => absurd member List.not_mem_nil) wrong
  | cons segment before inductionHypothesis =>
    rw [List.cons_append, run_cons]
    cases read : segment.spans with
    | none =>
      rw [step_eq, read]
      rfl
    | some spans =>
      by_cases none : spans = []
      · subst none
        rw [call.step_silent silent read]
        exact inductionHypothesis ⟨silent.curStamp, silent.stamp⟩
          fun others => wrong (List.forall_mem_cons.mpr ⟨read, others⟩)
      · rcases call.step_first silent read none with ⟨failed, -⟩ | ⟨_, next, -, stepped, loud, -⟩
        · rw [failed]
          rfl
        · rw [stepped, Option.bind_some]
          obtain ⟨following, rest, more⟩ : ∃ following rest, before ++ [last] = following :: rest :=
            List.exists_cons_of_ne_nil (List.append_ne_nil_of_right_ne_nil _ (List.cons_ne_nil _ _))
          rw [more, run_cons, call.step_loud loud]
          rfl

/-- Segments without timestamps leave nothing but the last text. -/
theorem run_silent (call : TpassCall) {before : List Segment} (silent : result.Silent)
    (quiet : ∀ segment ∈ before, segment.spans = some []) :
    ∃ next, run call.step result before = some next ∧ next.Silent ∧
      next.puncCache = call.cacheAfter result.puncCache before := by
  induction before generalizing result with
  | nil => exact ⟨result, rfl, silent, rfl⟩
  | cons segment before inductionHypothesis =>
    obtain ⟨first, others⟩ := List.forall_mem_cons.mp quiet
    rw [run_cons, call.step_silent silent first, Option.bind_some]
    exact inductionHypothesis ⟨silent.curStamp, silent.stamp⟩ others

/-- A text that is not rewritten keeps its timestamps when it has a word for each, or no word. -/
theorem keptStamp_self (areSpans : ∀ span ∈ spans, IsSpan span) (text : CString) :
    ∃ stamp, (timestampSmooth text text (vectorToString spans false)).map (fun newStamp =>
        if newStamp = [] then vectorToString spans false else newStamp) = some stamp ∧
      (parseTimestamps stamp = some spans ↔
        wordsOf text = [] ∨ spans.length ≤ (wordsOf text).length) := by
  have readable := Timestamps.parseTimestamps_vectorToString areSpans false
  rw [Timestamps.timestampSmooth_self readable, Option.map_some]
  refine ⟨_, rfl, ?_⟩
  by_cases enough : (wordsOf text).length ≤ spans.length
  · rw [if_pos enough]
    by_cases none : wordsOf text = []
    · rw [none, List.length_nil, List.take_zero]
      exact iff_of_true readable (.inl rfl)
    · have some : spans.take (wordsOf text).length ≠ [] := by
        intro empty
        have zero := congrArg List.length empty
        rw [List.length_take_of_le enough] at zero
        exact none (List.length_eq_zero_iff.mp zero)
      rw [if_neg (Timestamps.vectorToString_ne_nil some),
        Timestamps.parseTimestamps_vectorToString fun span member =>
          areSpans span (List.mem_of_mem_take member),
        Option.some.injEq, List.take_eq_self_iff]
      exact (or_iff_right none).symm
  · rw [if_neg enough, if_pos rfl]
    exact iff_of_true readable (.inr (Nat.le_of_not_le enough))

/-- Which timestamps are read from the stamp of the last segment. -/
theorem keptStamp_iff (call : TpassCall) (cache : List CString) (before : List Segment)
    (last : Segment) (areSpans : ∀ span ∈ spans, IsSpan span) (nonempty : spans ≠ []) :
    (∃ stamp, call.keptStamp last.text (call.cacheAfter cache before) (vectorToString spans false) =
        some stamp ∧
      (¬ call.Rewrites cache (before ++ [last]) → parseTimestamps stamp = some spans)) ↔
      (call.isPara → call.itn → call.KeepsStamps cache before last spans) := by
  have readable := Timestamps.parseTimestamps_vectorToString areSpans false
  have written := @Timestamps.vectorToString_ne_nil spans false nonempty
  unfold keptStamp
  by_cases applied : call.isPara ∧ call.itn
  · have unchanged : ¬ call.Rewrites cache (before ++ [last]) →
        call.normalize (call.punctuated cache before last) = call.punctuated cache before last := by
      intro kept
      by_contra changed
      exact kept ⟨applied.1, applied.2, before, last, [], rfl, changed⟩
    have self := keptStamp_self areSpans (call.punctuated cache before last)
    have isSome := @Timestamps.timestampSmooth_isSome_iff (call.punctuated cache before last)
      (call.normalize (call.punctuated cache before last)) _ _ readable nonempty
    rw [if_pos ⟨applied.1, applied.2, written⟩, forall_prop_of_true applied.1,
      forall_prop_of_true applied.2]
    unfold KeepsStamps
    rw [← isSome]
    change (∃ stamp, (timestampSmooth (call.punctuated cache before last)
      (call.normalize (call.punctuated cache before last)) _).map _ = some stamp ∧ _) ↔ _
    generalize call.punctuated cache before last = msgPunc at *
    -- A text that is rewritten needs an answer only; one that is kept has to get its times back.
    by_cases rewritten : call.Rewrites cache (before ++ [last])
    · constructor
      · rintro ⟨stamp, kept, -⟩
        obtain ⟨newStamp, answered, -⟩ := Option.map_eq_some_iff.mp kept
        exact ⟨Option.isSome_of_eq_some answered, fun notRewritten => absurd rewritten notRewritten⟩
      · rintro ⟨answered, -⟩
        obtain ⟨newStamp, answered⟩ := Option.isSome_iff_exists.mp answered
        exact ⟨_, Option.map_eq_some_iff.mpr ⟨newStamp, answered, rfl⟩,
          fun notRewritten => absurd rewritten notRewritten⟩
    · obtain ⟨stamp, kept, read⟩ := self
      rw [unchanged rewritten]
      rw [forall_prop_of_true rewritten, kept]
      constructor
      · rintro ⟨_, same, parsed⟩
        cases same
        obtain ⟨newStamp, answered, -⟩ := Option.map_eq_some_iff.mp kept
        exact ⟨Option.isSome_of_eq_some answered, read.mp (parsed rewritten)⟩
      · rintro ⟨-, enough⟩
        exact ⟨stamp, rfl, fun _ => read.mpr enough⟩
  · rw [if_neg fun wrong => applied ⟨wrong.1, wrong.2.1⟩]
    refine iff_of_true ⟨_, rfl, fun _ => readable⟩ ?_
    exact fun isPara itn => absurd ⟨isPara, itn⟩ applied

/-- What is delivered when only the last segment has timestamps. -/
theorem delivers_snoc {call : TpassCall} {cache : List CString} {before : List Segment}
    {last : Segment} (quiet : ∀ segment ∈ before, segment.spans = some []) (read : last.spans = some spans)
    (tpassMsg : result.tpassMsg = (call.deliver last.text (call.cacheAfter cache before)).1) :
    call.Delivers cache (before ++ [last]) result ↔
      (∀ message ∈ call.messages cache before, message = []) ∧
        (¬ call.Rewrites cache (before ++ [last]) → parseTimestamps result.stamp = some spans) := by
  have messages : call.messages cache (before ++ [last]) =
      call.messages cache before ++ [result.tpassMsg] := by
    rw [messages_append, tpassMsg]
    rfl
  have stamps : (before ++ [last]).flatMap (fun segment => segment.spans.getD []) = spans := by
    have none : before.flatMap (fun segment => segment.spans.getD []) = [] := by
      rw [List.flatMap_eq_nil_iff]
      intro segment member
      rw [quiet segment member]
      rfl
    rw [List.flatMap_append, none, List.flatMap_singleton, read]
    rfl
  constructor
  · rintro ⟨inOrder, parsed⟩
    rw [messages, inOrder_snoc_iff] at inOrder
    rw [stamps] at parsed
    exact ⟨inOrder, parsed⟩
  · rintro ⟨empty, parsed⟩
    refine ⟨?_, ?_⟩
    · rw [messages, inOrder_snoc_iff]
      exact empty
    · rw [stamps]
      exact parsed

/-- Whether only the last segment says anything, when there is one. -/
theorem onlyLast_snoc {call : TpassCall} {cache : List CString} {before : List Segment}
    {last : Segment} :
    call.OnlyLast cache (before ++ [last]) ↔ ∃ spans,
      (∀ segment ∈ before, segment.spans = some []) ∧
      (∀ message ∈ call.messages cache before, message = []) ∧ last.spans = some spans ∧
      (call.isPara → call.itn → spans ≠ [] → call.KeepsStamps cache before last spans) := by
  constructor
  · rintro (none | ⟨before', last', spans, same, conditions⟩)
    · exact absurd none (List.append_ne_nil_of_right_ne_nil _ (List.cons_ne_nil _ _))
    · obtain ⟨rfl, one⟩ := List.append_inj' same rfl
      cases one
      exact ⟨spans, conditions⟩
  · rintro ⟨spans, conditions⟩
    exact .inr ⟨before, last, spans, rfl, conditions⟩

/-- The last segment is delivered when its timestamps are kept, if it has any. -/
theorem deliversLast_iff {call : TpassCall} {cache : List CString} {before : List Segment}
    {last : Segment} {middle : TpassResult}
    (quiet : ∀ segment ∈ before, segment.spans = some []) (silent : middle.Silent)
    (puncCache : middle.puncCache = call.cacheAfter cache before) (read : last.spans = some spans) :
    (∃ result, call.step middle last = some result ∧
        call.Delivers cache (before ++ [last]) result) ↔
      (∀ message ∈ call.messages cache before, message = []) ∧
        (call.isPara → call.itn → spans ≠ [] → call.KeepsStamps cache before last spans) := by
  by_cases none : spans = []
  · -- Without timestamps the stamp stays empty, and nothing but the text is to be delivered.
    subst none
    rw [call.step_silent silent read, puncCache]
    constructor
    · rintro ⟨result, same, delivers⟩
      cases same
      exact ⟨((delivers_snoc quiet read rfl).mp delivers).1, fun _ _ wrong => absurd rfl wrong⟩
    · rintro ⟨empty, -⟩
      refine ⟨_, rfl, (delivers_snoc quiet read rfl).mpr ⟨empty, fun _ => ?_⟩⟩
      rw [silent.stamp]
      rfl
  · have kept := call.keptStamp_iff cache before last (isSpan_of_spans read) none
    rcases call.step_first silent read none with
      ⟨failed, noStamp⟩ | ⟨stamp, next, hasStamp, stepped, -, rfl, tpassMsg⟩
    · rw [puncCache] at noStamp
      rw [failed]
      constructor
      · rintro ⟨result, wrong, -⟩
        cases wrong
      · rintro ⟨-, keeps⟩
        obtain ⟨stamp, wrong, -⟩ := kept.mpr fun isPara itn => keeps isPara itn none
        rw [noStamp] at wrong
        cases wrong
    · rw [puncCache] at hasStamp tpassMsg
      rw [stepped]
      rw [hasStamp] at kept
      constructor
      · rintro ⟨result, same, delivers⟩
        cases same
        obtain ⟨empty, parsed⟩ := (delivers_snoc quiet read tpassMsg).mp delivers
        exact ⟨empty, fun isPara itn _ => kept.mp ⟨_, rfl, parsed⟩ isPara itn⟩
      · rintro ⟨empty, keeps⟩
        obtain ⟨stamp, same, parsed⟩ := kept.mpr fun isPara itn => keeps isPara itn none
        cases same
        exact ⟨next, rfl, (delivers_snoc quiet read tpassMsg).mpr ⟨empty, parsed⟩⟩

/-- All is delivered exactly where only the last segment says anything. -/
theorem delivers_iff (call : TpassCall) (cache : List CString) (tpassMsg : CString)
    (segments : List Segment) :
    (∃ result, run call.step { tpassMsg, puncCache := cache } segments = some result ∧
        call.Delivers cache segments result) ↔
      call.OnlyLast cache segments := by
  have silent : TpassResult.Silent { tpassMsg, puncCache := cache } := ⟨rfl, rfl⟩
  induction segments using List.reverseRecOn with
  | nil => exact iff_of_true ⟨_, rfl, trivial, fun _ => rfl⟩ (.inl rfl)
  | append_singleton before last _ =>
    rw [onlyLast_snoc]
    by_cases quiet : ∀ segment ∈ before, segment.spans = some []
    · -- What comes before leaves the result as it is, but for the cache.
      obtain ⟨middle, ran, middleSilent, puncCache⟩ := call.run_silent silent quiet
      have one : run call.step middle [last] = call.step middle last := by
        rw [run_cons]
        exact Option.bind_fun_some _
      rw [run_append, ran, Option.bind_some, one]
      cases read : last.spans with
      | none =>
        rw [step_eq, read]
        constructor
        · rintro ⟨result, wrong, -⟩
          cases wrong
        · rintro ⟨spans, -, -, wrong, -⟩
          cases wrong
      | some spans =>
        rw [deliversLast_iff quiet middleSilent puncCache read]
        constructor
        · rintro ⟨empty, keeps⟩
          exact ⟨spans, quiet, empty, rfl, keeps⟩
        · rintro ⟨spans', -, empty, same, keeps⟩
          cases same
          exact ⟨empty, keeps⟩
    · rw [call.run_none silent quiet]
      constructor
      · rintro ⟨result, wrong, -⟩
        cases wrong
      · rintro ⟨spans, wrong, -⟩
        exact absurd wrong quiet

end TpassCall

/-- A recognizer and a punctuation model that leave the texts as they are. -/
def plainCall : TpassCall where
  isPara := true
  itn := false
  inputFinished := false
  punc := ⟨false, fun text cache => (text, cache)⟩
  normalize := id

/-- Two segments with a timestamp each: the second one's stamp cannot be read. -/
theorem not_delivers_two :
    ¬ ∃ result, run plainCall.step {}
        [⟨0, [bytes "你 | 0.1,0.2"]⟩, ⟨1000, [bytes "好 | 0.1,0.2"]⟩] = some result ∧
      plainCall.Delivers [] [⟨0, [bytes "你 | 0.1,0.2"]⟩, ⟨1000, [bytes "好 | 0.1,0.2"]⟩]
        result := by
  have thrown : (run plainCall.step {}
      [⟨0, [bytes "你 | 0.1,0.2"]⟩, ⟨1000, [bytes "好 | 0.1,0.2"]⟩]).isNone := by decide +kernel
  rintro ⟨result, returned, -⟩
  rw [returned] at thrown
  cases thrown

end Asr2Pass.TwoPass
