import Asr2Pass.Timestamps.EqualParts

/-! # The order of the smoothed timestamps

Between two tokens that are the same, the time of the tokens that were replaced is shared among the
new ones; where none was replaced, the timestamp of the next token is shared.  The answer is in order
where all of this time is shared evenly.
-/

namespace Asr2Pass.Timestamps

open Library
open Text (CString bytes)

/-! ## What the loop shares -/

/-- What a turn with two equal entries shares. -/
def shareAt (timestampsTmp : List Span) (itnCount : Nat) (timestamp : Span) : Share :=
  if timestampsTmp = [] then ⟨[timestamp], itnCount + 1⟩ else ⟨timestampsTmp, itnCount⟩

/-- What is shared for some columns: `latest` is the timestamp of the latest token that was the same,
    `timestampsTmp` those of the tokens replaced since, for `itnCount` new ones, and `rest` those of the
    columns. -/
def shares (latest : Option Span) (timestampsTmp : List Span) (itnCount : Nat) (rest : List Span) :
    List (CString × CString) → List Share
  | [] => [if timestampsTmp = [] then ⟨latest.toList, itnCount + 1⟩ else ⟨timestampsTmp, itnCount⟩]
  | (word, wordItn) :: columns =>
    if word = wordItn then
      match rest with
      | [] => []
      | timestamp :: rest =>
        -- A token that is the same ends a share.
        shareAt timestampsTmp itnCount timestamp :: shares (some timestamp) [] 0 rest columns
    else
      let itnCount := if wordItn = [] then itnCount else itnCount + 1
      if word = [] then shares latest timestampsTmp itnCount rest columns
      else shares latest (timestampsTmp ++ rest.take 1) itnCount rest.tail columns

section
variable {latest : Option Span} {timestampsTmp rest : List Span} {itnCount : Nat} {timestamp : Span}
  {word wordItn : CString} {columns : List (CString × CString)}

theorem shares_same : shares latest timestampsTmp itnCount (timestamp :: rest) ((word, word) :: columns) =
    shareAt timestampsTmp itnCount timestamp :: shares (some timestamp) [] 0 rest columns := by
  simp [shares]

theorem shares_inserted (written : wordItn ≠ []) :
    shares latest timestampsTmp itnCount rest (([], wordItn) :: columns) =
      shares latest timestampsTmp (itnCount + 1) rest columns := by
  simp [shares, written, written.symm]

theorem shares_replaced (differs : word ≠ wordItn) (written : word ≠ []) :
    shares latest timestampsTmp itnCount (timestamp :: rest) ((word, wordItn) :: columns) =
      shares latest (timestampsTmp ++ [timestamp]) (if wordItn = [] then itnCount else itnCount + 1) rest
        columns := by
  simp [shares, differs, written]

end

/-- A turn of the loop. -/
inductive Turn (timestamps : List Span) (smoothing next : Smoothing) : CString → CString → Prop
  | same {word : CString} {timestamp : Span} (found : timestamps[smoothing.idxTp]? = some timestamp)
      (idxTp : next.idxTp = smoothing.idxTp + 1) (itnCount : next.itnCount = 0)
      (timestampsTmp : next.timestampsTmp = [])
      (timestampsOut : next.timestampsOut =
        smoothing.timestampsOut ++ sameGain smoothing timestamp) :
      Turn timestamps smoothing next word word
  | inserted {wordItn : CString} (written : wordItn ≠ []) (idxTp : next.idxTp = smoothing.idxTp)
      (itnCount : next.itnCount = smoothing.itnCount + 1)
      (timestampsTmp : next.timestampsTmp = smoothing.timestampsTmp)
      (timestampsOut : next.timestampsOut = smoothing.timestampsOut) :
      Turn timestamps smoothing next [] wordItn
  | replaced {word wordItn : CString} {timestamp : Span} (differs : word ≠ wordItn) (written : word ≠ [])
      (found : timestamps[smoothing.idxTp]? = some timestamp)
      (idxTp : next.idxTp = smoothing.idxTp + 1)
      (itnCount : next.itnCount =
        if wordItn = [] then smoothing.itnCount else smoothing.itnCount + 1)
      (timestampsTmp : next.timestampsTmp = smoothing.timestampsTmp ++ [timestamp])
      (timestampsOut : next.timestampsOut = smoothing.timestampsOut) :
      Turn timestamps smoothing next word wordItn

theorem turn_of_step {timestamps : List Span} {smoothing next : Smoothing} {word wordItn : CString}
    (stepped : smoothing.step timestamps word wordItn = some next) :
    Turn timestamps smoothing next word wordItn := by
  unfold Smoothing.step at stepped
  split at stepped
  · rename_i equal
    subst equal
    cases found : timestamps[smoothing.idxTp]? with
    | none => simp [Smoothing.same, found] at stepped
    | some timestamp =>
      simp only [Smoothing.same, found] at stepped
      cases stepped
      exact .same found rfl rfl rfl rfl
  · rename_i differs
    by_cases empty : word = []
    · subst empty
      have written : wordItn ≠ [] := Ne.symm differs
      simp only [Smoothing.differ, if_true, written, if_false] at stepped
      cases stepped
      exact .inserted written rfl rfl rfl rfl
    · cases found : timestamps[smoothing.idxTp]? with
      | none => simp [Smoothing.differ, found, empty] at stepped
      | some timestamp =>
        by_cases deleted : wordItn = []
        · simp [Smoothing.differ, found, empty, deleted] at stepped
          subst stepped
          exact .replaced differs empty found rfl (by simp [deleted]) rfl rfl
        · simp [Smoothing.differ, found, empty, deleted] at stepped
          subst stepped
          exact .replaced differs empty found rfl (by simp [deleted]) rfl rfl

section
variable {timestamps : List Span} {smoothing next : Smoothing} {word wordItn : CString}

theorem settleTmp_single {timestamp : Span} (isSpan : IsSpan timestamp) :
    settleTmp [timestamp] 1 = [timestamp] := by
  have one := @spread_one ⟨[timestamp], 1⟩ isSpan.1 rfl
  rw [settleTmp, if_pos ⟨List.cons_ne_nil _ _, Nat.one_pos⟩]
  exact one

theorem sameGain_eq {timestamp : Span} (isSpan : IsSpan timestamp) (smoothing : Smoothing) :
    sameGain smoothing timestamp =
      if smoothing.timestampsTmp = [] then settleTmp [timestamp] (smoothing.itnCount + 1)
      else settleTmp smoothing.timestampsTmp smoothing.itnCount ++ [timestamp] := by
  unfold sameGain
  by_cases empty : smoothing.timestampsTmp = []
  · cases count : smoothing.itnCount with
    | zero =>
      rw [if_pos empty, Nat.zero_add, settleTmp_single isSpan]
      simp [empty, settleTmp]
    | succ count => simp [empty]
  · simp [empty]

theorem Turn.spans (turn : Turn timestamps smoothing next word wordItn)
    (areSpans : ∀ span ∈ timestamps, IsSpan span)
    (spans : ∀ span ∈ smoothing.timestampsOut ++ smoothing.timestampsTmp, IsSpan span) :
    ∀ span ∈ next.timestampsOut ++ next.timestampsTmp, IsSpan span := by
  obtain ⟨outSpans, tmpSpans⟩ := List.forall_mem_append.mp spans
  cases turn with
  | same found idxTp itnCount timestampsTmp timestampsOut =>
    rw [timestampsOut, timestampsTmp, List.append_nil]
    have isSpan := areSpans _ (List.mem_of_getElem? found)
    exact List.forall_mem_append.mpr ⟨outSpans, sameGain_isSpan isSpan tmpSpans⟩
  | inserted written idxTp itnCount timestampsTmp timestampsOut =>
    rw [timestampsOut, timestampsTmp]
    exact spans
  | replaced differs written found idxTp itnCount timestampsTmp timestampsOut =>
    rw [timestampsOut, timestampsTmp]
    have isSpan := areSpans _ (List.mem_of_getElem? found)
    exact List.forall_mem_append.mpr ⟨outSpans,
      List.forall_mem_append.mpr ⟨tmpSpans, List.forall_mem_singleton.mpr isSpan⟩⟩

/-- What the block behind the loop answers. -/
theorem finish_cases {result : List Span} (finished : smoothing.finish = some result) :
    (∃ earlier last, 0 < smoothing.itnCount ∧ smoothing.timestampsTmp = [] ∧
        smoothing.timestampsOut = earlier ++ [last] ∧
        result = earlier ++ settleTmp [last] (smoothing.itnCount + 1)) ∨
      ¬ (0 < smoothing.itnCount ∧ smoothing.timestampsTmp = []) ∧
        result = smoothing.timestampsOut ++ settleTmp smoothing.timestampsTmp smoothing.itnCount := by
  unfold Smoothing.finish at finished
  split at finished
  · rename_i waiting
    obtain ⟨last, ends, rfl⟩ := Option.map_eq_some_iff.mp finished
    obtain ⟨earlier, parts⟩ := List.getLast?_eq_some_iff.mp ends
    exact .inl ⟨earlier, last, waiting.1, waiting.2, parts, by rw [parts, List.dropLast_concat]⟩
  · rename_i ready
    exact .inr ⟨ready, (Option.some.inj finished).symm⟩

/-- What is in `timestamps_out` stays there, up to the parts of its last timestamp. -/
theorem out_sublist (areSpans : ∀ span ∈ timestamps, IsSpan span) {str1 str2 : List CString}
    {final : Smoothing} {result : List Span}
    (ran : smoothLoop timestamps str1 str2 smoothing = .ok final)
    (finished : final.finish = some result)
    (spans : ∀ span ∈ smoothing.timestampsOut ++ smoothing.timestampsTmp, IsSpan span) :
    (endpoints smoothing.timestampsOut).Sublist (endpoints result) := by
  -- On the tokens; only a turn with two equal entries adds to `timestamps_out`.
  induction str1 generalizing str2 smoothing with
  | nil =>
    cases ran
    rcases finish_cases finished with ⟨earlier, last, waiting, -, out, rfl⟩ | ⟨-, rfl⟩
    · have isSpan : IsSpan last := spans last (by simp [out])
      have kept := @sublist_spread ⟨[last], final.itnCount + 1⟩ isSpan.1 (Nat.succ_pos _)
      rw [out, endpoints_append, endpoints_append, settleTmp,
        if_pos ⟨List.cons_ne_nil _ _, Nat.succ_pos _⟩]
      exact kept.append_left _
    · rw [endpoints_append]
      exact List.sublist_append_left _ _
  | cons word str1 inductionHypothesis =>
    cases str2 with
    | nil => cases ran
    | cons wordItn str2 =>
      unfold smoothLoop at ran
      cases stepped : smoothing.step timestamps word wordItn with
      | none => simp [stepped] at ran
      | some next =>
        rw [stepped] at ran
        have turn := turn_of_step stepped
        have later := inductionHypothesis ran (turn.spans areSpans spans)
        cases turn with
        | same found idxTp itnCount timestampsTmp timestampsOut =>
          rw [timestampsOut, endpoints_append] at later
          exact (List.sublist_append_left _ _).trans later
        | inserted written idxTp itnCount timestampsTmp timestampsOut => rwa [timestampsOut] at later
        | replaced differs written found idxTp itnCount timestampsTmp timestampsOut =>
          rwa [timestampsOut] at later

/-- The latest timestamp of a token that was the same is shared among so many tokens, and its parts
    are the last ones. -/
def Recent (latest : Option Span) (smoothing : Smoothing) : Prop :=
  smoothing.timestampsTmp = [] → smoothing.timestampsOut = [] ∨
    ∃ timestamp ∈ latest, ∃ count earlier, IsSpan timestamp ∧ timestamp.1 ≤ timestamp.2 ∧
      0 < count ∧ Share.Even ⟨[timestamp], count⟩ ∧
      smoothing.timestampsOut = earlier ++ settleTmp [timestamp] count

/-- The last part of a timestamp is as easy to share as the timestamp. -/
theorem even_last {timestamp last : Span} {count : Nat} (isSpan : IsSpan timestamp)
    (forward : timestamp.1 ≤ timestamp.2) (some : 0 < count) (even : Share.Even ⟨[timestamp], count⟩)
    (ends : last ∈ (settleTmp [timestamp] count).getLast?) (tokens : Nat) :
    Share.Even ⟨[last], tokens⟩ ↔ Share.Even ⟨[timestamp], tokens⟩ := by
  have same : last = (partBegin timestamp.1 timestamp.2 count (count - 1), timestamp.2) := by
    rw [settleTmp, if_pos ⟨List.cons_ne_nil _ _, some⟩, spread_eq, List.getLast?_map,
      List.getLast?_range, if_neg some.ne'] at ends
    simpa [Share.begin, Share.last, eq_comm] using ends
  have begins := partBegin_zero isSpan.1 timestamp.2 count
  subst same
  by_cases one : count = 1
  · subst one
    rw [Nat.sub_self, begins]
  · obtain ⟨interval, least, most, short | none, parts⟩ :=
      exists_step isSpan.1 isSpan.2 forward some (even.resolve_left fun few => by
        change count ≤ 1 at few
        omega)
    · -- the part is no longer than the timestamp, which is short
      have ahead : 0 ≤ interval * ((count - 1 : Nat) : Int) := Int.mul_nonneg least (by omega)
      refine iff_of_true (.inr (.inl ?_)) (.inr (.inl short))
      change timestamp.2 - partBegin timestamp.1 timestamp.2 count (count - 1) < 2 ^ 31
      rw [parts _ (Nat.sub_le _ _)]
      omega
    · rw [parts _ (Nat.sub_le _ _), none, Int.zero_mul, add_zero]

theorem fits_sameGain {lo hi : Int} {timestamp : Span} {rest : List Span}
    (fits : Fits lo hi (smoothing.timestampsOut ++ smoothing.timestampsTmp ++ timestamp :: rest))
    (isSpan : IsSpan timestamp) (tmpSpans : ∀ span ∈ smoothing.timestampsTmp, IsSpan span)
    (even : (shareAt smoothing.timestampsTmp smoothing.itnCount timestamp).Even) :
    Fits lo hi (smoothing.timestampsOut ++ sameGain smoothing timestamp ++ rest) := by
  rw [sameGain_eq isSpan]
  unfold shareAt at even
  split at even
  · rename_i empty
    rw [empty, List.append_nil] at fits
    have shared := @fits_settleTmp ⟨[timestamp], smoothing.itnCount + 1⟩ lo hi smoothing.timestampsOut rest
      (by simpa using fits) (by simpa using isSpan) even
    rwa [if_pos empty]
  · rename_i replaced
    have shared := @fits_settleTmp ⟨smoothing.timestampsTmp, smoothing.itnCount⟩ lo hi
      smoothing.timestampsOut (timestamp :: rest) fits tmpSpans even
    rw [if_neg replaced]
    simpa using shared

theorem recent_same {timestamp : Span}
    (timestampsOut : next.timestampsOut = smoothing.timestampsOut ++ sameGain smoothing timestamp)
    (isSpan : IsSpan timestamp) (forward : timestamp.1 ≤ timestamp.2)
    (even : (shareAt smoothing.timestampsTmp smoothing.itnCount timestamp).Even) :
    Recent (some timestamp) next := by
  rw [sameGain_eq isSpan] at timestampsOut
  unfold shareAt at even
  refine fun _ => .inr ⟨timestamp, rfl, ?_⟩
  split at even
  · rename_i empty
    rw [if_pos empty] at timestampsOut
    exact ⟨_, _, isSpan, forward, Nat.succ_pos _, even, timestampsOut⟩
  · rename_i replaced
    rw [if_neg replaced, ← List.append_assoc, ← settleTmp_single isSpan] at timestampsOut
    exact ⟨1, _, isSpan, forward, Nat.one_pos, .inl le_rfl, timestampsOut⟩

theorem even_of_sameGain {timestamp : Span} (isSpan : IsSpan timestamp)
    (tmpSpans : ∀ span ∈ smoothing.timestampsTmp, IsSpan span)
    (inOrder : InOrder (sameGain smoothing timestamp)) :
    (shareAt smoothing.timestampsTmp smoothing.itnCount timestamp).Even := by
  rw [sameGain_eq isSpan] at inOrder
  unfold shareAt
  split at inOrder
  · rename_i empty
    rw [if_pos empty]
    exact even_of_settleTmp (List.cons_ne_nil _ _) (List.forall_mem_singleton.mpr isSpan) inOrder
  · rename_i replaced
    rw [if_neg replaced]
    refine even_of_settleTmp replaced tmpSpans (inOrder.sublist ?_)
    rw [endpoints_append]
    exact List.sublist_append_left _ _

theorem drop_eq_cons {index : Nat} {timestamp : Span} (found : timestamps[index]? = some timestamp) :
    timestamps.drop index = timestamp :: timestamps.drop (index + 1) := by
  obtain ⟨inside, rfl⟩ := List.getElem?_eq_some_iff.mp found
  exact List.drop_eq_getElem_cons inside

/-- Behind the loop. -/
theorem fits_finish {lo hi : Int} {latest : Option Span} {rest result : List Span}
    (fits : Fits lo hi (smoothing.timestampsOut ++ smoothing.timestampsTmp ++ rest))
    (spans : ∀ span ∈ smoothing.timestampsOut ++ smoothing.timestampsTmp, IsSpan span)
    (recent : Recent latest smoothing) (finished : smoothing.finish = some result) :
    Fits lo hi result ↔ Share.Even (if smoothing.timestampsTmp = [] then
      ⟨latest.toList, smoothing.itnCount + 1⟩ else ⟨smoothing.timestampsTmp, smoothing.itnCount⟩) := by
  obtain ⟨outSpans, tmpSpans⟩ := List.forall_mem_append.mp spans
  rcases finish_cases finished with ⟨earlier, last, waiting, empty, out, rfl⟩ | ⟨ready, rfl⟩
  · rw [if_pos empty]
    rcases recent empty with none | ⟨timestamp, isLatest, count, before, isSpan, forward, some, even, parts⟩
    · rw [none] at out
      exact absurd out (by simp)
    · have ends : last ∈ (settleTmp [timestamp] count).getLast? := by
        have shared : settleTmp [timestamp] count ≠ [] := by
          rw [← List.length_pos_iff, settleTmp_length, if_neg (List.cons_ne_nil _ _)]
          exact some
        have same := congrArg List.getLast? (out.symm.trans parts)
        rwa [List.getLast?_concat, List.getLast?_append_of_ne_nil _ shared, eq_comm] at same
      have lastSpan : ∀ span ∈ [last], IsSpan span := fun span member =>
        outSpans span (by rw [out]; exact List.mem_append_right _ member)
      obtain rfl : latest = Option.some timestamp := isLatest
      rw [Option.toList_some, ← even_last isSpan forward some even ends]
      constructor
      · intro resultFits
        refine even_of_settleTmp (List.cons_ne_nil _ _) lastSpan (resultFits.inOrder.sublist ?_)
        rw [endpoints_append]
        exact List.sublist_append_right _ _
      · intro evenLast
        have before : Fits lo hi (earlier ++ [last] ++ []) := by
          rw [List.append_nil, ← out]
          exact fits.sublist ((List.sublist_append_left _ _).trans (List.sublist_append_left _ _))
        simpa using @fits_settleTmp ⟨[last], smoothing.itnCount + 1⟩ lo hi earlier [] before lastSpan
          evenLast
  · by_cases empty : smoothing.timestampsTmp = []
    · have none : smoothing.itnCount = 0 := by
        by_contra some
        exact ready ⟨Nat.pos_of_ne_zero some, empty⟩
      rw [if_pos empty]
      refine iff_of_true ?_ (.inl (by simp [none]))
      have nothing : settleTmp smoothing.timestampsTmp smoothing.itnCount = [] := by
        simp [settleTmp, empty]
      rw [nothing, List.append_nil]
      exact fits.sublist ((List.sublist_append_left _ _).trans (List.sublist_append_left _ _))
    · rw [if_neg empty]
      constructor
      · intro resultFits
        refine even_of_settleTmp empty tmpSpans (resultFits.inOrder.sublist ?_)
        rw [endpoints_append]
        exact List.sublist_append_right _ _
      · intro even
        have shared := @fits_settleTmp ⟨smoothing.timestampsTmp, smoothing.itnCount⟩ lo hi
          smoothing.timestampsOut rest fits tmpSpans even
        exact shared.sublist (List.sublist_append_left _ _)

/-- The answer is in order exactly when everything that is shared is shared evenly. -/
theorem fits_iff_even (areSpans : ∀ span ∈ timestamps, IsSpan span) {lo hi : Int}
    {latest : Option Span}
    (fits : Fits lo hi (smoothing.timestampsOut ++ smoothing.timestampsTmp ++
      timestamps.drop smoothing.idxTp))
    (spans : ∀ span ∈ smoothing.timestampsOut ++ smoothing.timestampsTmp, IsSpan span)
    (recent : Recent latest smoothing) {str1 str2 : List CString} {final : Smoothing}
    {result : List Span} (ran : smoothLoop timestamps str1 str2 smoothing = .ok final)
    (finished : final.finish = some result) :
    Fits lo hi result ↔ ∀ share ∈ shares latest smoothing.timestampsTmp smoothing.itnCount
      (timestamps.drop smoothing.idxTp) (str1.zip str2), share.Even := by
  induction str1 generalizing str2 smoothing latest with
  | nil =>
    cases ran
    rw [List.zip_nil_left, shares, List.forall_mem_singleton]
    exact fits_finish fits spans recent finished
  | cons word str1 inductionHypothesis =>
    cases str2 with
    | nil => cases ran
    | cons wordItn str2 =>
      unfold smoothLoop at ran
      cases stepped : smoothing.step timestamps word wordItn with
      | none => simp [stepped] at ran
      | some next =>
        rw [stepped] at ran
        have turn := turn_of_step stepped
        have nextSpans := turn.spans areSpans spans
        obtain ⟨outSpans, tmpSpans⟩ := List.forall_mem_append.mp spans
        rw [List.zip_cons_cons]
        cases turn with
        | @same _ timestamp found idxTp itnCount timestampsTmp timestampsOut =>
          have isSpan := areSpans _ (List.mem_of_getElem? found)
          have rest := drop_eq_cons found
          rw [rest, shares_same, List.forall_mem_cons]
          rw [rest] at fits
          by_cases even : (shareAt smoothing.timestampsTmp smoothing.itnCount timestamp).Even
          · have nextFits : Fits lo hi (next.timestampsOut ++ next.timestampsTmp ++
                timestamps.drop next.idxTp) := by
              rw [timestampsOut, timestampsTmp, List.append_nil, idxTp]
              exact fits_sameGain fits isSpan tmpSpans even
            have forward : timestamp.1 ≤ timestamp.2 :=
              fits.inOrder.each timestamp (by simp)
            have nextRecent := recent_same timestampsOut isSpan forward even
            have later := inductionHypothesis nextFits nextSpans nextRecent ran
            rw [timestampsTmp, itnCount, idxTp] at later
            exact later.trans (and_iff_right even).symm
          · -- the parts that are out of order stay in the answer
            refine iff_of_false (fun resultFits => even ?_) fun both => even both.1
            have kept := out_sublist areSpans ran finished nextSpans
            rw [timestampsOut, endpoints_append] at kept
            exact even_of_sameGain isSpan tmpSpans
              (resultFits.inOrder.sublist ((List.sublist_append_right _ _).trans kept))
        | @inserted _ written idxTp itnCount timestampsTmp timestampsOut =>
          have later := @inductionHypothesis next latest
            (by rw [timestampsOut, timestampsTmp, idxTp]; exact fits) nextSpans
            (by rw [Recent, timestampsTmp, timestampsOut]; exact recent) str2 ran
          rwa [timestampsTmp, itnCount, idxTp, ← shares_inserted written] at later
        | @replaced _ _ timestamp differs written found idxTp itnCount timestampsTmp timestampsOut =>
          have rest := drop_eq_cons found
          have nextFits : Fits lo hi (next.timestampsOut ++ next.timestampsTmp ++
              timestamps.drop next.idxTp) := by
            rw [timestampsOut, timestampsTmp, idxTp]
            rw [rest] at fits
            simpa using fits
          have nextRecent : Recent latest next := fun empty => by
            rw [timestampsTmp] at empty
            exact absurd empty (by simp)
          have later := inductionHypothesis nextFits nextSpans nextRecent ran
          rwa [timestampsTmp, itnCount, idxTp, ← shares_replaced differs written, ← rest] at later

end

/-! ## The answer -/

/-- An answer to timestamps in order is in order, and between the first begin and the last end. -/
def KeepsOrder (text textItn strTime : CString) : Prop :=
  ∀ timestamps ∈ parseTimestamps strTime, InOrder timestamps →
    ∀ answer ∈ timestampSmooth text textItn strTime, answer ≠ [] →
      ∃ spans, parseTimestamps answer = some spans ∧ InOrder spans ∧
        ∀ span ∈ spans, ∀ first ∈ timestamps.head?, ∀ last ∈ timestamps.getLast?,
          first.1 ≤ span.1 ∧ span.2 ≤ last.2

/-- There is no answer, or all that is shared for it is shared evenly. -/
def SharesEvenly (text textItn strTime : CString) : Prop :=
  ∀ timestamps ∈ parseTimestamps strTime, InOrder timestamps →
    timestamps = [] ∨ Refused timestamps (alignTexts text textItn) ∨ marksOf text < marksOf textItn ∨
      ∀ share ∈ shares none [] 0 timestamps (columns (alignTexts text textItn)), share.Even

theorem result_isSpan {timestamps result : List Span} {str1 str2 : List CString} {final : Smoothing}
    (areSpans : ∀ span ∈ timestamps, IsSpan span)
    (ran : smoothLoop timestamps str1 str2 {} = .ok final) (finished : final.finish = some result) :
    ∀ span ∈ result, IsSpan span := by
  have run := Smoothing.Counted.start.loop areSpans (Nat.zero_le _) str1 str2
  rcases run with ⟨-, failed⟩ | ⟨-, ⟨-, outOfRange⟩ | ⟨-, last, ended, counted⟩⟩
  · rw [failed] at ran
    cases ran
  · rw [outOfRange] at ran
    cases ran
  · obtain rfl : last = final := Except.ok.inj (ended.symm.trans ran)
    rcases counted.finish with ⟨none, -⟩ | ⟨timestampsOut, same, -, -, spans⟩
    · rw [none] at finished
      cases finished
    · rw [same] at finished
      cases finished
      exact spans

/-- An answer is what the loop and the block behind it give. -/
theorem smoothAligned_eq_some {timestamps timestampsOut : List Span} {alignment : Alignment}
    (areSpans : ∀ span ∈ timestamps, IsSpan span)
    (answered : smoothAligned timestamps alignment = some (vectorToString timestampsOut true))
    (nonempty : timestampsOut ≠ []) (spans : ∀ span ∈ timestampsOut, IsSpan span) :
    ∃ final, smoothLoop timestamps alignment.str1 alignment.str2 {} = .ok final ∧
      final.finish = some timestampsOut := by
  have some := @vectorToString_ne_nil timestampsOut true nonempty
  unfold smoothAligned at answered
  cases ran : smoothLoop timestamps alignment.str1 alignment.str2 {} with
  | error stop => cases stop <;> simp [ran, some.symm] at answered
  | ok final =>
    cases finished : final.finish with
    | none => simp [ran, finished, some.symm] at answered
    | some result =>
      simp only [ran, finished] at answered
      split at answered
      · exact absurd (Option.some.inj answered).symm some
      · have read := parseTimestamps_vectorToString (result_isSpan areSpans ran finished) true
        rw [Option.some.inj answered, parseTimestamps_vectorToString spans true] at read
        exact ⟨final, rfl, finished.trans read.symm⟩

/-- `TimestampSmooth` keeps the order exactly where no time that is shared is too long. -/
theorem keepsOrder_iff (text textItn strTime : CString) :
    KeepsOrder text textItn strTime ↔ SharesEvenly text textItn strTime := by
  unfold KeepsOrder SharesEvenly
  apply forall_congr'
  intro timestamps
  apply imp_congr_right
  intro parsed
  apply imp_congr_right
  intro inOrder
  have areSpans := isSpan_of_parseTimestamps parsed
  rw [timestampSmooth_eq (Option.mem_def.mp parsed)]
  -- Where nothing is answered both sides hold; else the answer is what the loop has made.
  by_cases nothing : timestamps = []
  · rw [if_pos nothing]
    refine iff_of_true (fun answer isAnswer some => ?_) (.inl nothing)
    exact absurd (Option.mem_some.mp isAnswer).symm some
  · rw [if_neg nothing]
    rcases smoothAligned_cases areSpans (alignTexts text textItn) with
      ⟨refused, empty⟩ | ⟨kept, ⟨shorter, outOfRange⟩ | ⟨length, timestampsOut, answered, some, -, spans⟩⟩
    · rw [empty]
      refine iff_of_true (fun answer isAnswer some => ?_) (.inr (.inl refused))
      exact absurd (Option.mem_some.mp isAnswer).symm some
    · rw [outOfRange]
      refine iff_of_true (fun answer wrong => ?_) (.inr (.inr (.inl ?_)))
      · cases wrong
      · exact not_le.mp fun marks => absurd (alignTexts_length_le.mpr marks) (by omega)
    · obtain ⟨final, ran, finished⟩ := smoothAligned_eq_some areSpans answered some spans
      have begins := List.head?_eq_some_head nothing
      have ends := List.getLast?_eq_some_getLast nothing
      have all := inOrder.fits begins ends
      have exactly := @fits_iff_even timestamps {} areSpans _ _ none all (by simp) (fun _ => .inl rfl)
        _ _ _ _ ran finished
      have marks : ¬ marksOf text < marksOf textItn := not_lt.mpr (alignTexts_length_le.mp length)
      have read := parseTimestamps_vectorToString spans true
      rw [answered]
      -- It fits between the first and the last time exactly if every share is even.
      constructor
      · intro keeps
        obtain ⟨_, same, ordered, within⟩ := keeps _ rfl (vectorToString_ne_nil some)
        rw [read] at same
        cases same
        refine .inr (.inr (.inr (exactly.mp (fits_iff_within.mpr ⟨?_, ordered, fun span inside => ?_⟩))))
        · exact (fits_iff_within.mp all).1
        · exact within span inside _ begins _ ends
      · rintro (wrong | wrong | wrong | even) answer isAnswer -
        · exact absurd wrong nothing
        · exact absurd wrong kept
        · exact absurd wrong marks
        · obtain rfl := Option.mem_some.mp isAnswer
          obtain ⟨-, ordered, within⟩ := fits_iff_within.mp (exactly.mpr even)
          refine ⟨timestampsOut, read, ordered, fun span inside first isFirst last isLast => ?_⟩
          obtain rfl : _ = first := Option.some.inj (begins.symm.trans isFirst)
          obtain rfl : _ = last := Option.some.inj (ends.symm.trans isLast)
          exact within span inside

/-- Where no timestamp begins before 0, every share is short enough. -/
theorem even_of_nonneg {share : Share}
    (within : ∀ span ∈ share.timestamps, 0 ≤ span.1 ∧ IsSpan span) : share.Even := by
  refine .inr (.inl ?_)
  by_cases empty : share.timestamps = []
  · simp [Share.begin, Share.last, empty]
  · obtain ⟨first, begins, last, ends, same, same'⟩ := Share.exists_ends empty
    have least := (within first (List.mem_of_mem_head? begins)).1
    have most := (within last (List.mem_of_mem_getLast? ends)).2.2.2
    omega

theorem shares_even_of_nonneg {latest : Option Span} {timestampsTmp rest : List Span} {itnCount : Nat}
    {columns : List (CString × CString)}
    (before : ∀ span ∈ latest, 0 ≤ span.1 ∧ IsSpan span)
    (held : ∀ span ∈ timestampsTmp, 0 ≤ span.1 ∧ IsSpan span)
    (behind : ∀ span ∈ rest, 0 ≤ span.1 ∧ IsSpan span) :
    ∀ share ∈ shares latest timestampsTmp itnCount rest columns, share.Even := by
  -- On the columns; every share is made of timestamps that have been in the list.
  induction columns generalizing latest timestampsTmp itnCount rest with
  | nil =>
    rw [shares, List.forall_mem_singleton]
    apply even_of_nonneg
    split
    · simpa using before
    · exact held
  | cons column columns inductionHypothesis =>
    obtain ⟨word, wordItn⟩ := column
    unfold shares
    split
    · cases rest with
      | nil => exact fun share member => absurd member List.not_mem_nil
      | cons timestamp rest =>
        obtain ⟨own, others⟩ := List.forall_mem_cons.mp behind
        refine List.forall_mem_cons.mpr ⟨even_of_nonneg ?_, inductionHypothesis (by simpa using own)
          (by simp) others⟩
        unfold shareAt
        split
        · exact List.forall_mem_singleton.mpr own
        · exact held
    · dsimp only
      split
      · exact inductionHypothesis before held behind
      · refine inductionHypothesis before (List.forall_mem_append.mpr ⟨held, fun span member => ?_⟩)
          fun span member => behind span (List.mem_of_mem_tail member)
        exact behind span (List.mem_of_mem_take member)

/-- Timestamps that do not begin before 0 are kept in order. -/
theorem keepsOrder_of_nonneg {text textItn strTime : CString}
    (nonneg : ∀ timestamps ∈ parseTimestamps strTime, ∀ span ∈ timestamps, 0 ≤ span.1) :
    KeepsOrder text textItn strTime := by
  rw [keepsOrder_iff]
  refine fun timestamps parsed _ => .inr (.inr (.inr ?_))
  refine shares_even_of_nonneg (by simp) (by simp) fun span member => ?_
  exact ⟨nonneg timestamps parsed span member, isSpan_of_parseTimestamps parsed span member⟩

/-- Two tokens share a time that is too long for an `int`. -/
theorem not_keepsOrder_long :
    ¬ KeepsOrder (bytes "a") (bytes "b c") (bytes "[[-2000000000,2000000000]]") := by
  intro keeps
  have parsed : parseTimestamps (bytes "[[-2000000000,2000000000]]") =
      some [(-2000000000, 2000000000)] := by decide
  have answered : timestampSmooth (bytes "a") (bytes "b c") (bytes "[[-2000000000,2000000000]]") =
      some (bytes "[[-2000000000,-2147483648],[-2147483648,2000000000]]") := by decide
  have inOrder : InOrder [((-2000000000 : Int), (2000000000 : Int))] :=
    ⟨by simp, List.isChain_singleton _⟩
  obtain ⟨spans, read, ordered, -⟩ := keeps _ parsed inOrder _ answered (by decide)
  have same : parseTimestamps (bytes "[[-2000000000,-2147483648],[-2147483648,2000000000]]") =
      some [(-2000000000, -2147483648), (-2147483648, 2000000000)] := by decide
  rw [same] at read
  cases read
  exact absurd (ordered.each _ List.mem_cons_self) (by decide)

end Asr2Pass.Timestamps
