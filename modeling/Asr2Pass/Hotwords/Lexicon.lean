import Asr2Pass.Hotwords.BiasLm
import Asr2Pass.Library.FallibleMaps
import Asr2Pass.Timestamps.Characters
import Mathlib.Data.Rat.Cast.Order

/-! # Hotwords in the ids of their phones

The constructor of `BiasLm` looks every word of a hotword up in the lexicon.  A word that is not
there has the empty text, which has no units, and the check of the units passes over it.
-/

namespace Asr2Pass.Hotwords

open Text (CString bytes)
open Timestamps (utf8ToUtf16 unitText isChineseCharacter flushWord)

/-! ## Words and units -/

/-- The loop over the units of UTF-16. -/
def splitChiEngUnits (engWord : CString) : List Nat → List CString
  | [] => flushWord engWord
  | unit :: units =>
    if isChineseCharacter unit then
      flushWord engWord ++ unitText unit :: splitChiEngUnits [] units
    else if unit = 0x20 then flushWord engWord ++ splitChiEngUnits [] units
    else splitChiEngUnits (engWord ++ unitText unit) units

def splitChiEngCharacters (inputStr : CString) : List CString :=
  splitChiEngUnits [] (utf8ToUtf16 inputStr)

/-- Cuts at each byte of `delim`. -/
def splitStringToVector (full delim : CString) (omitEmptyStrings : Bool) : List CString :=
  let out := full.splitOnP (· ∈ delim)
  if omitEmptyStrings then out.filter (· ≠ []) else out

/-- `lex_map`. -/
abbrev LexMap := CString → Option CString

def word2Lex (lexMap : LexMap) (word : CString) : CString := (lexMap word).getD []

/-- `phone_`; `phn2Id_` has the first place of each. -/
structure PhoneSet where
  phone : List CString

namespace PhoneSet

def size (phnSet : PhoneSet) : Int := phnSet.phone.length

def find (phnSet : PhoneSet) (phnStr : CString) : Bool := phnStr ∈ phnSet.phone

def string2Id (phnSet : PhoneSet) (phnStr : CString) : Int :=
  if phnSet.find phnStr then phnSet.phone.idxOf phnStr else -1

def getBlkPhnId (phnSet : PhoneSet) : Int := phnSet.string2Id (bytes "<blank>")

theorem string2Id_bounds {phnSet : PhoneSet} {phnStr : CString} (found : phnSet.find phnStr) :
    0 ≤ phnSet.string2Id phnStr ∧ phnSet.string2Id phnStr < phnSet.size := by
  have inside := List.idxOf_lt_length_of_mem (of_decide_eq_true found)
  rw [string2Id, if_pos found, size]
  omega

end PhoneSet

/-! ## The constructor -/

/-- `split_id` and `is_oov`. -/
structure Spelled where
  splitId : List Int := []
  isOov : Bool := false
  deriving DecidableEq

/-- The loop over `lex_vec`, which breaks off at a unit that is not in the set. -/
def pushUnits (phnSet : PhoneSet) (spelled : Spelled) : List CString → Spelled
  | [] => spelled
  | token :: rest =>
    let splitId := spelled.splitId ++ [phnSet.string2Id token]
    if !phnSet.find token then ⟨splitId, true⟩
    else pushUnits phnSet { spelled with splitId } rest

/-- The units of a word. -/
def lexVec (lexMap : LexMap) (word : CString) : List CString :=
  splitStringToVector (word2Lex lexMap word) (bytes " ") true

/-- The loop over `split_str`. -/
def spell (phnSet : PhoneSet) (lexMap : LexMap) (splitStr : List CString) : Spelled :=
  splitStr.foldl (fun spelled str => pushUnits phnSet spelled (lexVec lexMap str)) {}

variable {R : Type*} [Field R]

/-- `split_id_vec` with `custom_weight`. -/
def splitIdVec (R : Type*) [Field R] (phnSet : PhoneSet) (lexMap : LexMap)
    (hwsMap : List (CString × Int)) : List (Hotword R) :=
  hwsMap.filterMap fun kv =>
    let spelled := spell phnSet lexMap (splitChiEngCharacters kv.1)
    if !spelled.isOov then some ⟨spelled.splitId, (kv.2 : R)⟩ else none

/-- What the constructor calls `BuildGraph` with; the map of hotwords is a list in the order in which
    it is walked. -/
def biasLm (R : Type*) [Field R] (phnSet : PhoneSet) (lexMap : LexMap) (hwsMap : List (CString × Int))
    (incBias : Int) : SplitIds R where
  hotwords := splitIdVec R phnSet lexMap hwsMap
  increBias := incBias
  size := phnSet.size
  blkPhnId := phnSet.getBlkPhnId

/-! ## The loops -/

/-- The units of the words of a hotword, as far as they are known. -/
theorem pushUnits_eq (phnSet : PhoneSet) (spelled : Spelled) (lexVec : List CString) :
    (pushUnits phnSet spelled lexVec).isOov = (spelled.isOov || !lexVec.all phnSet.find) ∧
      (lexVec.all phnSet.find → (pushUnits phnSet spelled lexVec).splitId =
        spelled.splitId ++ lexVec.map phnSet.string2Id) := by
  induction lexVec generalizing spelled with
  | nil => simp [pushUnits]
  | cons token rest inductionHypothesis =>
    rw [pushUnits]
    cases found : phnSet.find token with
    | false => simp [found]
    | true =>
      obtain ⟨oov, ids⟩ := inductionHypothesis
        { spelled with splitId := spelled.splitId ++ [phnSet.string2Id token] }
      simp only [Bool.not_true, Bool.false_eq_true, if_false, List.all_cons, found, Bool.true_and]
      exact ⟨oov, fun known => by rw [ids known]; simp⟩

theorem foldl_pushUnits_eq (phnSet : PhoneSet) (lexMap : LexMap) (spelled : Spelled)
    (splitStr : List CString) :
    let spelled' := splitStr.foldl (fun spelled str => pushUnits phnSet spelled (lexVec lexMap str))
      spelled
    spelled'.isOov = (spelled.isOov || !(splitStr.flatMap (lexVec lexMap)).all phnSet.find) ∧
      ((splitStr.flatMap (lexVec lexMap)).all phnSet.find → spelled'.splitId =
        spelled.splitId ++ (splitStr.flatMap (lexVec lexMap)).map phnSet.string2Id) := by
  induction splitStr generalizing spelled with
  | nil => simp
  | cons str rest inductionHypothesis =>
    obtain ⟨oov, ids⟩ := pushUnits_eq phnSet spelled (lexVec lexMap str)
    obtain ⟨oov', ids'⟩ := inductionHypothesis (pushUnits phnSet spelled (lexVec lexMap str))
    rw [List.foldl_cons, List.flatMap_cons, List.all_append]
    refine ⟨by rw [oov', oov, Bool.not_and, Bool.or_assoc], fun known => ?_⟩
    obtain ⟨first, others⟩ := Bool.and_eq_true_iff.mp known
    rw [ids' others, ids first, List.map_append, List.append_assoc]

/-- A hotword is left out for a unit that is not in the set; else its ids are those of all units. -/
theorem spell_eq (phnSet : PhoneSet) (lexMap : LexMap) (splitStr : List CString) :
    (spell phnSet lexMap splitStr).isOov = !(splitStr.flatMap (lexVec lexMap)).all phnSet.find ∧
      ((splitStr.flatMap (lexVec lexMap)).all phnSet.find →
        (spell phnSet lexMap splitStr).splitId =
          (splitStr.flatMap (lexVec lexMap)).map phnSet.string2Id) := by
  have loop := foldl_pushUnits_eq phnSet lexMap {} splitStr
  rw [spell]
  simpa only [Bool.false_or, List.nil_append] using loop

/-! ## Whole hotwords -/

/-- The ids of all units of all words of a hotword, none where a word has no units or a unit is not
    in the set. -/
def wholeIds (phnSet : PhoneSet) (lexMap : LexMap) (hotword : CString) : Option (List Int) :=
  let words := splitChiEngCharacters hotword
  if ∀ word ∈ words, lexVec lexMap word ≠ [] ∧ ∀ unit ∈ lexVec lexMap word, unit ∈ phnSet.phone then
    some ((words.flatMap (lexVec lexMap)).map phnSet.string2Id)
  else none

/-- Hotwords are passed on whole, and the others are skipped. -/
def CompilesWhole (R : Type*) [Field R] (phnSet : PhoneSet) (lexMap : LexMap)
    (hwsMap : List (CString × Int)) (incBias : Int) : Prop :=
  (biasLm R phnSet lexMap hwsMap incBias).hotwords = hwsMap.filterMap fun kv =>
    (wholeIds phnSet lexMap kv.1).map fun labels => ⟨labels, (kv.2 : R)⟩

/-- All words have units, or there is a unit that the set does not have. -/
def IsSettled (phnSet : PhoneSet) (lexMap : LexMap) (hotword : CString) : Prop :=
  (∀ word ∈ splitChiEngCharacters hotword, lexVec lexMap word ≠ []) ∨
    ∃ word ∈ splitChiEngCharacters hotword, ∃ unit ∈ lexVec lexMap word, unit ∉ phnSet.phone

/-- What the constructor passes on of a hotword. -/
def passedIds (phnSet : PhoneSet) (lexMap : LexMap) (hotword : CString) : Option (List Int) :=
  let spelled := spell phnSet lexMap (splitChiEngCharacters hotword)
  if !spelled.isOov then some spelled.splitId else none

theorem passedIds_eq (phnSet : PhoneSet) (lexMap : LexMap) (hotword : CString) :
    passedIds phnSet lexMap hotword =
      if ∀ word ∈ splitChiEngCharacters hotword, ∀ unit ∈ lexVec lexMap word, unit ∈ phnSet.phone then
        some (((splitChiEngCharacters hotword).flatMap (lexVec lexMap)).map phnSet.string2Id)
      else none := by
  obtain ⟨oov, ids⟩ := spell_eq phnSet lexMap (splitChiEngCharacters hotword)
  have known : ((splitChiEngCharacters hotword).flatMap (lexVec lexMap)).all phnSet.find ↔
      ∀ word ∈ splitChiEngCharacters hotword, ∀ unit ∈ lexVec lexMap word, unit ∈ phnSet.phone := by
    simp only [List.all_eq_true, List.mem_flatMap, PhoneSet.find, decide_eq_true_eq]
    exact ⟨fun all word member unit inside => all unit ⟨word, member, inside⟩,
      fun all unit ⟨word, member, inside⟩ => all word member unit inside⟩
  rw [passedIds, oov, Bool.not_not]
  by_cases all : ((splitChiEngCharacters hotword).flatMap (lexVec lexMap)).all phnSet.find
  · rw [if_pos all, if_pos (known.mp all), ids all]
  · rw [if_neg all, if_neg (mt known.mpr all)]

/-- What is passed on is the whole hotword exactly when no word is passed over. -/
theorem passedIds_eq_iff (phnSet : PhoneSet) (lexMap : LexMap) (hotword : CString) :
    (wholeIds phnSet lexMap hotword = none ∨
        wholeIds phnSet lexMap hotword = passedIds phnSet lexMap hotword) ∧
      (passedIds phnSet lexMap hotword = wholeIds phnSet lexMap hotword ↔
        IsSettled phnSet lexMap hotword) := by
  rw [passedIds_eq, wholeIds, IsSettled]
  by_cases known : ∀ word ∈ splitChiEngCharacters hotword, ∀ unit ∈ lexVec lexMap word,
      unit ∈ phnSet.phone
  · rw [if_pos known]
    have noUnknown : ¬ ∃ word ∈ splitChiEngCharacters hotword, ∃ unit ∈ lexVec lexMap word,
        unit ∉ phnSet.phone :=
      fun ⟨word, member, unit, inside, unknown⟩ => unknown (known word member unit inside)
    rw [or_iff_left noUnknown]
    by_cases units : ∀ word ∈ splitChiEngCharacters hotword, lexVec lexMap word ≠ []
    · have whole := fun word member => And.intro (units word member) (known word member)
      rw [if_pos whole]
      exact ⟨.inr rfl, iff_of_true rfl units⟩
    · have notWhole : ¬ ∀ word ∈ splitChiEngCharacters hotword, lexVec lexMap word ≠ [] ∧
          ∀ unit ∈ lexVec lexMap word, unit ∈ phnSet.phone :=
        fun whole => units fun word member => (whole word member).1
      rw [if_neg notWhole]
      exact ⟨.inl rfl, iff_of_false (by simp) units⟩
  · rw [if_neg known]
    have notWhole : ¬ ∀ word ∈ splitChiEngCharacters hotword, lexVec lexMap word ≠ [] ∧
        ∀ unit ∈ lexVec lexMap word, unit ∈ phnSet.phone :=
      fun whole => known fun word member => (whole word member).2
    rw [if_neg notWhole]
    push Not at known
    exact ⟨.inl rfl, iff_of_true rfl (.inr known)⟩

/-- Hotwords are passed on whole or not at all exactly when each of them is settled. -/
theorem compilesWhole_iff (phnSet : PhoneSet) (lexMap : LexMap) (hwsMap : List (CString × Int))
    (incBias : Int) :
    CompilesWhole R phnSet lexMap hwsMap incBias ↔
      ∀ kv ∈ hwsMap, IsSettled phnSet lexMap kv.1 := by
  have passed : splitIdVec R phnSet lexMap hwsMap = hwsMap.filterMap fun kv =>
      (passedIds phnSet lexMap kv.1).map fun labels => ⟨labels, (kv.2 : R)⟩ := by
    refine List.filterMap_congr fun kv _ => ?_
    rw [passedIds]
    dsimp only
    split
    · rfl
    · rfl
  have distinct (weight : R) : Function.Injective fun labels : List Int => Hotword.mk labels weight :=
    fun labels labels' same => congrArg Hotword.labels same
  rw [CompilesWhole, biasLm, passed, Library.filterMap_eq_iff]
  · refine forall_congr' fun kv => forall_congr' fun _ => ?_
    rw [(Option.map_injective (distinct kv.2)).eq_iff]
    exact (passedIds_eq_iff phnSet lexMap kv.1).2
  · intro kv _
    refine (passedIds_eq_iff phnSet lexMap kv.1).1.imp (fun out => ?_) fun same => ?_
    · rw [out, Option.map_none]
    · rw [same]

/-- Three phones, and a lexicon of one word. -/
def threePhones : PhoneSet := ⟨[bytes "<blank>", bytes "n", bytes "i"]⟩

def oneWord : LexMap := fun word => if word = bytes "你" then some (bytes "n i") else none

/-- The second word is in no lexicon, and the first one is passed on alone. -/
theorem not_compilesWhole_half :
    splitIdVec ℚ threePhones oneWord [(bytes "你好", 20)] = [⟨[1, 2], 20⟩] ∧
      ¬ CompilesWhole ℚ threePhones oneWord [(bytes "你好", 20)] 20 := by
  have spelled : spell threePhones oneWord (splitChiEngCharacters (bytes "你好")) = ⟨[1, 2], false⟩ := by
    decide +kernel
  have half : wholeIds threePhones oneWord (bytes "你好") = none := by decide +kernel
  have passed : splitIdVec ℚ threePhones oneWord [(bytes "你好", 20)] = [⟨[1, 2], 20⟩] := by
    simp [splitIdVec, spelled]
  refine ⟨passed, ?_⟩
  rw [CompilesWhole, biasLm, passed]
  simp [half]

end Asr2Pass.Hotwords
