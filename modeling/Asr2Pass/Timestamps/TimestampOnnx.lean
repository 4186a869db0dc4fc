import Mathlib.Algebra.BigOperators.Ring.List
import Mathlib.Tactic.NormNum
import Mathlib.Tactic.Positivity
import Asr2Pass.Library.Payouts
import Asr2Pass.Timestamps.PostProcess

/-! # `TimestampOnnx`

The tokens of a recognizer get their times from the peaks of its predictor: a token lasts from one
peak to the next.  When there is not one peak more than tokens, the peaks are made again from the
weights of the frames.  Everything is exact here.
-/

namespace Asr2Pass.Timestamps

open Library (settle settled exactSettled)
open Text (CString bytes isSpecial toStringFloat)

/-- A value above it is a peak. -/
def fireThreshold : ℚ := 1 - 1 / 10 ^ 4

def startEndThreshold : ℚ := 5

def maxTokenDuration : ℚ := 30

def timeRate : ℚ := 10 * 6 / 1000 / 3

/-- An entry of `new_char_list` and the entry of `timestamp_list` that is pushed with it. -/
abbrev Entry := CString × Stamp

def sil : CString := bytes "<sil>"

/-- The tokens without a `</s>` at their end. -/
def popEnd (charList : List CString) : List CString :=
  if charList.getLast? = some (bytes "</s>") then charList.dropLast else charList

/-- `fire_place`; none where the loop reads past the end of the peaks. -/
def firePlaces (cifPeak : List ℚ) (numFrames : Nat) (totalOffset : ℚ) : Option (List ℚ) :=
  if cifPeak.length < numFrames then none
  else
    some ((cifPeak.take numFrames).zipIdx.filterMap fun (peak, frame) =>
      if fireThreshold < peak then some (frame + totalOffset) else none)

/-- The loop over the fire places; none where it reads past the end of `char_list`. -/
def tokenEntries : List ℚ → List CString → Option (List Entry)
  | here :: next :: places, charList => do
    let char ← charList.head?
    let rest ← tokenEntries (next :: places) charList.tail
    if places = [] ∨ maxTokenDuration < 0 ∨ next - here < maxTokenDuration then
      return (char, (here * timeRate, next * timeRate)) :: rest
    else
      let split := here + maxTokenDuration
      return (char, (here * timeRate, split * timeRate)) ::
        (sil, (split * timeRate, next * timeRate)) :: rest
  | _, _ => some []

/-- `timestamp_list.back()[1] = last`. -/
def setLast (entries : List Entry) (last : ℚ) : List Entry :=
  entries.dropLast ++ entries.getLast?.toList.map fun entry => (entry.1, (entry.2.1, last))

/-- The end silence, or the end of the last token. -/
def closeEntries (entries : List Entry) (numFrames lastPlace : ℚ) : List Entry :=
  if startEndThreshold < numFrames - lastPlace then
    let last := (numFrames + lastPlace) / 2
    setLast entries (last * timeRate) ++ [(sil, (last * timeRate, numFrames * timeRate))]
  else setLast entries (numFrames * timeRate)

def addBeginTime (beginTime : ℚ) (entry : Entry) : Entry :=
  if beginTime = 0 then entry
  else (entry.1, (entry.2.1 + beginTime / 1000, entry.2.2 + beginTime / 1000))

/-- What goes to `res_str`. -/
def entriesText (entries : List Entry) : CString :=
  (entries.map fun entry => entry.1 ++ bytes " " ++ toStringFloat entry.2.1 ++ bytes " " ++
    toStringFloat entry.2.2 ++ bytes ";").flatten

/-- From the fire places to `res_str` and `timestamp_vec`. -/
def stampEntries (charList : List CString) (numFrames : Nat) (beginTime : ℚ) (places : List ℚ) :
    Option (CString × List Stamp) :=
  match places with
  | [] => some ([], [])
  | first :: others => do
    -- What comes before the first peak is silence, if it is long enough.
    let silence : List Entry :=
      if startEndThreshold < first then [(sil, (0, first * timeRate))] else []
    let tokens ← tokenEntries (first :: others) charList
    if silence ++ tokens = [] then return ([], [])
    else
      let entries := (closeEntries (silence ++ tokens) numFrames (others.getLastD first)).map
        (addBeginTime beginTime)
      return (entriesText entries, (entries.filter (·.1 ≠ sil)).map (·.2))

/-- `us_alphas` when it has been divided by `scale`. -/
def scaledAlphas (usAlphas : List ℚ) (tokens : Nat) : List ℚ :=
  usAlphas.map (· / (usAlphas.sum / (tokens + 1)))

/-- `TimestampOnnx`: what it appends to `res_str` and to `timestamp_vec`; none where it reads past
    the end of a vector. -/
def timestampOnnx (usAlphas usCifPeak : List ℚ) (charList : List CString) (beginTime totalOffset : ℚ) :
    Option (CString × List Stamp) := do
  let charList := popEnd charList
  if charList = [] then return ([], [])
  else
    let numFrames := usCifPeak.length
    let firePlace ← firePlaces usCifPeak numFrames totalOffset
    if firePlace.length = charList.length + 1 then
      stampEntries charList numFrames beginTime firePlace
    -- The peaks are made again from weights that are scaled to the number of tokens.
    else if usAlphas.sum / (charList.length + 1) = 0 then return ([], [])
    else
      let cifPeak := settle fireThreshold (scaledAlphas usAlphas charList.length)
      let firePlace ← firePlaces cifPeak numFrames totalOffset
      stampEntries charList numFrames beginTime firePlace

/-- The end of `GreedySearch` with timestamps, for the tokens of the best path. -/
def stampedText (usAlphas usCifPeak : List ℚ) (rawChar : List CString) : Option CString := do
  let (_, timestampList) ← timestampOnnx usAlphas usCifPeak rawChar 0 (-3 / 2)
  postProcess rawChar timestampList

/-! ## How many timestamps there are -/

/-- The tokens of entries that get a timestamp. -/
def stampedTokens (charList : List CString) : List CString := charList.filter (· ≠ sil)

theorem length_filterMap_zipIdx {α β : Type*} (values : List α) (start : Nat) (keep : α → Prop)
    [DecidablePred keep] (place : Nat → β) :
    ((values.zipIdx start).filterMap fun (value, index) =>
      if keep value then some (place index) else none).length = values.countP (keep ·) := by
  induction values generalizing start with
  | nil => rfl
  | cons value values inductionHypothesis =>
    rw [List.zipIdx_cons, List.filterMap_cons, List.countP_cons]
    by_cases kept : keep value
    · simp [kept, inductionHypothesis]
    · simp [kept, inductionHypothesis]

section
variable {cifPeak places : List ℚ} {numFrames : Nat} {totalOffset beginTime : ℚ}
  {charList : List CString} {entries : List Entry}

theorem firePlaces_length (inside : numFrames ≤ cifPeak.length) :
    ∃ places, firePlaces cifPeak numFrames totalOffset = some places ∧
      places.length = (cifPeak.take numFrames).countP (fireThreshold < ·) := by
  unfold firePlaces
  rw [if_neg (Nat.not_lt.mpr inside)]
  exact ⟨_, rfl, length_filterMap_zipIdx (cifPeak.take numFrames) 0 (fireThreshold < ·)
    (fun frame => (frame : ℚ) + totalOffset)⟩

/-- The tokens of the entries are those of `char_list`, one for every fire place but the last. -/
theorem tokenEntries_tokens (inside : places.length - 1 ≤ charList.length) :
    ∃ entries, tokenEntries places charList = some entries ∧
      stampedTokens (entries.map (·.1)) = stampedTokens (charList.take (places.length - 1)) := by
  induction places generalizing charList with
  | nil => exact ⟨[], rfl, by simp⟩
  | cons here places inductionHypothesis =>
    cases places with
    | nil => exact ⟨[], rfl, by simp⟩
    | cons next places =>
      cases charList with
      | nil => cases inside
      | cons char charList =>
        obtain ⟨rest, read, same⟩ := @inductionHypothesis charList (by
          simp only [List.length_cons] at inside ⊢
          omega)
        simp only [List.length_cons, Nat.add_sub_cancel, List.take_succ_cons] at same ⊢
        unfold tokenEntries
        simp only [List.head?_cons, List.tail_cons, read, Option.bind_eq_bind, Option.bind_some]
        split
        · exact ⟨_, rfl, by simp only [stampedTokens, List.map_cons, List.filter_cons] at same ⊢
                            rw [same]⟩
        · refine ⟨_, rfl, ?_⟩
          simp only [stampedTokens, List.map_cons, List.filter_cons] at same ⊢
          rw [same]
          simp

/-- With more fire places the loop reads past the end. -/
theorem tokenEntries_none (outside : charList.length < places.length - 1) :
    tokenEntries places charList = none := by
  induction places generalizing charList with
  | nil => cases outside
  | cons here places inductionHypothesis =>
    cases places with
    | nil => cases outside
    | cons next places =>
      unfold tokenEntries
      cases charList with
      | nil => rfl
      | cons char charList =>
        have rest := @inductionHypothesis charList (by
          simp only [List.length_cons] at outside ⊢
          omega)
        simp [rest]

theorem setLast_tokens (entries : List Entry) (last : ℚ) :
    (setLast entries last).map (·.1) = entries.map (·.1) := by
  unfold setLast
  cases entries using List.reverseRecOn with
  | nil => rfl
  | append_singleton entries entry => simp

theorem closeEntries_tokens (entries : List Entry) (numFrames lastPlace : ℚ) :
    stampedTokens ((closeEntries entries numFrames lastPlace).map (·.1)) =
      stampedTokens (entries.map (·.1)) := by
  unfold closeEntries
  split
  · rw [List.map_append, setLast_tokens]
    simp [stampedTokens]
  · rw [setLast_tokens]

@[simp] theorem addBeginTime_token (beginTime : ℚ) (entry : Entry) :
    (addBeginTime beginTime entry).1 = entry.1 := by
  unfold addBeginTime
  split <;> rfl

theorem length_timed (beginTime : ℚ) (entries : List Entry) :
    (((entries.map (addBeginTime beginTime)).filter (·.1 ≠ sil)).map (·.2)).length =
      (stampedTokens (entries.map (·.1))).length := by
  unfold stampedTokens
  rw [List.length_map, List.filter_map, List.filter_map, List.length_map, List.length_map]
  congr 1
  apply List.filter_congr
  intro entry _
  simp

/-- One timestamp for every token that is read, but not for a `<sil>`. -/
theorem stampEntries_length (inside : places.length - 1 ≤ charList.length) :
    ∃ resStr stamps, stampEntries charList numFrames beginTime places = some (resStr, stamps) ∧
      stamps.length = (stampedTokens (charList.take (places.length - 1))).length := by
  cases places with
  | nil => exact ⟨[], [], rfl, by simp [stampedTokens]⟩
  | cons first others =>
    obtain ⟨tokens, read, same⟩ := tokenEntries_tokens inside
    unfold stampEntries
    simp only [read, Option.bind_eq_bind, Option.bind_some]
    generalize silenceIs : (if startEndThreshold < first then [(sil, ((0 : ℚ), first * timeRate))]
      else ([] : List Entry)) = silence
    have silent : stampedTokens (silence.map (·.1)) = [] := by
      rw [← silenceIs]
      split <;> simp [stampedTokens]
    have all : stampedTokens ((silence ++ tokens).map (·.1)) =
        stampedTokens ((charList.take ((first :: others).length - 1))) := by
      rw [← same, List.map_append]
      unfold stampedTokens at silent ⊢
      rw [List.filter_append, silent, List.nil_append]
    split
    · rename_i none
      rw [none] at all
      exact ⟨[], [], rfl, by rw [← all]; rfl⟩
    · refine ⟨_, _, rfl, ?_⟩
      rw [← all, ← closeEntries_tokens (silence ++ tokens) numFrames (others.getLastD first)]
      exact length_timed _ _

theorem stampEntries_none (outside : charList.length < places.length - 1) :
    stampEntries charList numFrames beginTime places = none := by
  cases places with
  | nil => cases outside
  | cons first others =>
    unfold stampEntries
    simp [tokenEntries_none outside]

/-- Timestamps for all tokens, from these fire places. -/
theorem stampEntries_complete (tokens : charList ≠ []) :
    (∃ resStr stamps, stampEntries charList numFrames beginTime places = some (resStr, stamps) ∧
        stamps.length = charList.length) ↔
      places.length = charList.length + 1 ∧ sil ∉ charList := by
  have least := List.length_pos_iff.mpr tokens
  have plain : (stampedTokens charList).length = charList.length ↔ sil ∉ charList := by
    unfold stampedTokens
    rw [List.length_filter_eq_length_iff]
    simp only [ne_eq, decide_not, Bool.not_eq_eq_eq_not, Bool.not_true, decide_eq_false_iff_not]
    exact ⟨fun all member => all _ member rfl, fun absent token member same =>
      absent (same ▸ member)⟩
  -- One place more than tokens; with too many of them a token outside the list is read.
  by_cases inside : places.length - 1 ≤ charList.length
  · obtain ⟨resStr, stamps, stamped, length⟩ := @stampEntries_length places numFrames beginTime
      charList inside
    have kept : (stampedTokens (charList.take (places.length - 1))).length ≤ places.length - 1 :=
      (List.length_filter_le _ _).trans (List.length_take_le _ _)
    have whole : charList.length ≤ places.length - 1 →
        (stampedTokens (charList.take (places.length - 1))) = stampedTokens charList := by
      intro all
      rw [List.take_of_length_le all]
    constructor
    · rintro ⟨resStr', stamps', stamped', complete⟩
      obtain ⟨rfl, rfl⟩ := Prod.mk.inj (Option.some.inj (stamped.symm.trans stamped'))
      have all : charList.length ≤ places.length - 1 := by omega
      refine ⟨by omega, plain.mp ?_⟩
      rw [← whole all, ← length, complete]
    · rintro ⟨count, absent⟩
      refine ⟨resStr, stamps, stamped, ?_⟩
      rw [length, whole (by omega)]
      exact plain.mpr absent
  · have outside : charList.length < places.length - 1 := by omega
    rw [stampEntries_none outside]
    constructor
    · rintro ⟨_, _, wrong, _⟩
      cases wrong
    · rintro ⟨count, _⟩
      omega

end

/-! ## The claim's two parts -/

/-- The output of the recognizer: `us_alphas`, `us_cif_peak` and the tokens. -/
structure Recognized where
  usAlphas : List ℚ
  usCifPeak : List ℚ
  rawChar : List CString
  nonneg : ∀ alpha ∈ usAlphas, 0 ≤ alpha

/-- `TimestampOnnx` reads nothing past an end and gives every token but a trailing `</s>` a
    timestamp, and then `PostProcess` finds one for every token that it needs one for. -/
def Recognized.Fits (recognized : Recognized) : Prop :=
  (∃ resStr stamps,
      timestampOnnx recognized.usAlphas recognized.usCifPeak recognized.rawChar 0 (-3 / 2) =
        some (resStr, stamps) ∧
      stamps.length = (popEnd recognized.rawChar).length) ∧
    (stampedText recognized.usAlphas recognized.usCifPeak recognized.rawChar).isSome

/-- There is one peak more than tokens, or there is when the peaks have been made again: then the
    weights of the frames give one payout more than tokens that does not end exactly. -/
def Recognized.Countable (recognized : Recognized) : Prop :=
  let charList := popEnd recognized.rawChar
  let numFrames := recognized.usCifPeak.length
  let weights := scaledAlphas recognized.usAlphas charList.length
  charList = [] ∨ sil ∉ charList ∧
    (recognized.usCifPeak.countP (fireThreshold < ·) = charList.length + 1 ∨
      recognized.usAlphas.sum ≠ 0 ∧ numFrames ≤ recognized.usAlphas.length ∧
        settled fireThreshold weights numFrames =
          charList.length + 1 + exactSettled fireThreshold weights numFrames)

/-- Only a `</s>` stands behind the tokens that get a timestamp. -/
theorem special_after {rawChar : List CString} {position : Nat} {token : CString}
    (found : rawChar[position]? = some token) :
    isSpecial token ∨ position < (popEnd rawChar).length := by
  unfold popEnd
  split
  · rename_i last
    obtain ⟨inside, rfl⟩ := List.getElem?_eq_some_iff.mp found
    by_cases before : position < rawChar.dropLast.length
    · exact Or.inr before
    · left
      rw [List.length_dropLast] at before
      rw [List.getLast?_eq_getElem?] at last
      have here : rawChar.length - 1 = position := by omega
      rw [here, found] at last
      rw [Option.some.inj last]
      decide
  · exact Or.inr (List.getElem?_eq_some_iff.mp found).1

theorem scaledAlphas_nonneg {usAlphas : List ℚ} (nonneg : ∀ alpha ∈ usAlphas, 0 ≤ alpha)
    (tokens : Nat) : ∀ weight ∈ scaledAlphas usAlphas tokens, 0 ≤ weight := by
  intro weight member
  obtain ⟨alpha, inside, rfl⟩ := List.mem_map.mp member
  have total : 0 ≤ usAlphas.sum := List.sum_nonneg nonneg
  have alpha := nonneg alpha inside
  positivity

namespace Recognized

variable {recognized : Recognized}

/-- Timestamps for all tokens, when the peaks have been made again. -/
theorem made_again_complete {charList : List CString} (tokens : charList ≠ []) {numFrames : Nat}
    {beginTime totalOffset : ℚ} :
    (∃ resStr stamps,
        (firePlaces (settle fireThreshold (scaledAlphas recognized.usAlphas charList.length))
          numFrames totalOffset).bind (stampEntries charList numFrames beginTime) =
            some (resStr, stamps) ∧
        stamps.length = charList.length) ↔
      sil ∉ charList ∧ numFrames ≤ recognized.usAlphas.length ∧
        settled fireThreshold (scaledAlphas recognized.usAlphas charList.length) numFrames =
          charList.length + 1 + exactSettled fireThreshold
            (scaledAlphas recognized.usAlphas charList.length) numFrames := by
  have positive : 0 < fireThreshold := by
    unfold fireThreshold
    norm_num
  have nonneg := scaledAlphas_nonneg recognized.nonneg charList.length
  have frames : (settle fireThreshold
      (scaledAlphas recognized.usAlphas charList.length)).length = recognized.usAlphas.length := by
    rw [Library.settle_length, scaledAlphas, List.length_map]
  -- More frames than alphas are read outside the vector.
  by_cases inside : numFrames ≤ recognized.usAlphas.length
  · obtain ⟨places, placed, count⟩ := @firePlaces_length _ _ totalOffset (frames.symm ▸ inside)
    have within : numFrames ≤ (scaledAlphas recognized.usAlphas charList.length).length := by
      rwa [scaledAlphas, List.length_map]
    have exceeding := Library.settle_exceeding positive nonneg within
    rw [placed, Option.bind_some, stampEntries_complete tokens]
    constructor
    · rintro ⟨length, absent⟩
      exact ⟨absent, inside, by omega⟩
    · rintro ⟨absent, -, length⟩
      exact ⟨by omega, absent⟩
  · have outside : firePlaces (settle fireThreshold
        (scaledAlphas recognized.usAlphas charList.length)) numFrames totalOffset = none := by
      unfold firePlaces
      rw [if_pos (by omega)]
    rw [outside]
    constructor
    · rintro ⟨_, _, wrong, _⟩
      cases wrong
    · rintro ⟨-, within, -⟩
      exact absurd within inside

theorem timestampOnnx_complete :
    (∃ resStr stamps,
        timestampOnnx recognized.usAlphas recognized.usCifPeak recognized.rawChar 0 (-3 / 2) =
          some (resStr, stamps) ∧
        stamps.length = (popEnd recognized.rawChar).length) ↔ recognized.Countable := by
  unfold timestampOnnx Countable
  generalize popEnd recognized.rawChar = charList
  by_cases empty : charList = []
  · subst empty
    simp
  · obtain ⟨places, placed, count⟩ := @firePlaces_length recognized.usCifPeak _ (-3 / 2) (le_refl _)
    rw [List.take_length] at count
    simp only [placed, empty, false_or, if_false, Option.bind_eq_bind, Option.bind_some, count]
    by_cases enough : recognized.usCifPeak.countP (fireThreshold < ·) = charList.length + 1
    · rw [if_pos enough, stampEntries_complete empty, count]
      simp only [enough, true_and, true_or, and_true]
    · rw [if_neg enough]
      have divisor : (charList.length : ℚ) + 1 ≠ 0 := by positivity
      by_cases zero : recognized.usAlphas.sum = 0
      · rw [zero, zero_div, if_pos rfl]
        constructor
        · rintro ⟨resStr, stamps, stamped, length⟩
          cases stamped
          exact absurd (List.length_eq_zero_iff.mp length.symm) empty
        · rintro ⟨-, same | ⟨wrong, -⟩⟩
          · exact absurd same enough
          · exact absurd rfl wrong
      · rw [if_neg (div_ne_zero zero divisor), made_again_complete empty]
        simp only [enough, zero, ne_eq, not_false_eq_true, true_and, false_or]

/-- The timestamps fit the tokens exactly where the peaks can be counted. -/
theorem fits_iff (recognized : Recognized) : recognized.Fits ↔ recognized.Countable := by
  rw [← timestampOnnx_complete]
  constructor
  · exact fun fits => fits.1
  · intro complete
    refine ⟨complete, ?_⟩
    obtain ⟨resStr, stamps, stamped, length⟩ := complete
    unfold stampedText
    rw [stamped]
    apply postProcess_isSome
    intro position token found
    rw [length]
    exact special_after found

/-- Below 9998 tokens, with a weight for every peak, there must be a frame for every peak that is
    needed, and no payout may end exactly. -/
theorem settled_short {usAlphas : List ℚ} {tokens : Nat} (weight : usAlphas.sum ≠ 0)
    (few : tokens + 1 < 9999) :
    settled fireThreshold (scaledAlphas usAlphas tokens) usAlphas.length =
        tokens + 1 + exactSettled fireThreshold (scaledAlphas usAlphas tokens) usAlphas.length ↔
      tokens + 1 ≤ usAlphas.length ∧
        Library.exactPayouts fireThreshold (scaledAlphas usAlphas tokens) = 0 := by
  have length : (scaledAlphas usAlphas tokens).length = usAlphas.length := by
    rw [scaledAlphas, List.length_map]
  have total : (scaledAlphas usAlphas tokens).sum = ((tokens + 1 : Nat) : ℚ) := by
    unfold scaledAlphas
    simp only [div_eq_mul_inv]
    rw [List.sum_map_mul_right, List.map_id']
    push_cast
    field_simp
  have few : ((tokens + 1 : Nat) : ℚ) < 9999 := by exact_mod_cast few
  have least : (1 : ℚ) ≤ ((tokens + 1 : Nat) : ℚ) := by exact_mod_cast Nat.succ_pos tokens
  have floor : ⌊(scaledAlphas usAlphas tokens).sum / fireThreshold⌋₊ = tokens + 1 := by
    rw [total, Nat.floor_eq_iff (by unfold fireThreshold; positivity)]
    unfold fireThreshold
    constructor
    · rw [le_div_iff₀ (by norm_num)]
      linarith
    · rw [div_lt_iff₀ (by norm_num)]
      linarith
  have allowed := @Library.payouts_le_floor ℚ _ _ _ fireThreshold (scaledAlphas usAlphas tokens) _
  have each := @Library.payouts_le_length ℚ _ _ _ fireThreshold (scaledAlphas usAlphas tokens)
  have all : (scaledAlphas usAlphas tokens).take usAlphas.length = scaledAlphas usAlphas tokens :=
    List.take_of_length_le length.le
  have count : settled fireThreshold (scaledAlphas usAlphas tokens) usAlphas.length =
      min usAlphas.length (tokens + 1) := by
    unfold settled
    rw [all, floor, length]
    omega
  -- the last payout cannot end exactly: the threshold is below one
  have inexact : ∀ payouts ≤ tokens + 1, (scaledAlphas usAlphas tokens).sum ≠
      ((payouts + (usAlphas.length - usAlphas.length) : Nat) : ℚ) * fireThreshold := by
    intro payouts most same
    have most : (payouts : ℚ) ≤ ((tokens + 1 : Nat) : ℚ) := by exact_mod_cast most
    simp only [total, Nat.sub_self, Nat.add_zero, fireThreshold] at same
    linarith
  unfold exactSettled
  rw [all, count, length, if_neg (fun exactly => inexact _ (Nat.min_le_right _ _) exactly.2)]
  omega

/-- A token, and no weight in any frame. -/
def noWeight : Recognized := ⟨[0, 0, 0], [0, 0, 0], [bytes "a"], by simp⟩

/-- The call returns early without a timestamp for the token. -/
theorem not_fits_noWeight : ¬ noWeight.Fits := by
  rintro ⟨⟨resStr, stamps, stamped, length⟩, -⟩
  have early : timestampOnnx noWeight.usAlphas noWeight.usCifPeak noWeight.rawChar 0 (-3 / 2) =
      some ([], []) := by decide +kernel
  rw [early] at stamped
  cases stamped
  exact absurd length (by decide)

end Recognized

end Asr2Pass.Timestamps
