import Asr2Pass.Text.Numbers
import Asr2Pass.Text.Vocab

/-! # `PostProcess`

The message of a recognizer: the words of its tokens, and where each of them begins and ends.
Sub-words are joined as `Vector2StringV2` joins them, with other spaces.
-/

namespace Asr2Pass.Timestamps

open Text (CString bytes contains isChinese isSpecial eraseMark toStringFloat)

/-- An entry of `timestamp_list`: where a token begins and ends, in seconds. -/
abbrev Stamp := ℚ × ℚ

/-- What one turn pushes to `words` and to `timestamp_merge`: maybe a space, a word and its
    stamp. -/
structure Word where
  spaced : Bool
  text : CString
  stamp : Stamp
  deriving DecidableEq, Repr

/-- The variables of the loop.  `pre_english_len` is left out: it chooses between two branches that
    do the same. -/
structure Merging where
  isCombining : Bool := false
  combine : CString := []
  begin : ℚ := -1
  isPreEnglish : Bool := false
  words : List Word := []

namespace Merging

/-- The third step for a complete word. -/
def push (merging : Merging) (word : CString) (stamp : Stamp) : Merging :=
  if isChinese word then
    { merging with words := merging.words ++ [⟨false, word, stamp⟩], isPreEnglish := false }
  else
    { merging with
      words := merging.words ++ [⟨merging.isPreEnglish, word,
        (if merging.begin = -1 then stamp.1 else merging.begin, stamp.2)⟩]
      begin := -1
      isPreEnglish := true }

/-- The end of a word: what has been collected goes before it. -/
def finish (merging : Merging) (word : CString) (stamp : Stamp) : Merging :=
  if merging.isCombining then
    { merging with isCombining := false, combine := [] }.push (merging.combine ++ word) stamp
  else merging.push word stamp

/-- A sub-word inside a word. -/
def collect (merging : Merging) (word : CString) (stamp : Option Stamp) : Option Merging := do
  let begin ← if merging.isCombining then pure merging.begin else stamp.map (·.1)
  return { merging with isCombining := true, combine := merging.combine ++ word, begin }

/-- One turn, with the next token and the token's own entry of `timestamp_list`; none where it reads
    that entry and there is none. -/
def step (merging : Merging) (word : CString) (next : Option CString) (stamp : Option Stamp) :
    Option Merging :=
  if isSpecial word then some merging
  else if contains word (bytes "@@") then
    if next.all isChinese then stamp.map (merging.finish (eraseMark word ++ bytes " "))
    else merging.collect (eraseMark word) stamp
  else stamp.map (merging.finish word)

def loop (merging : Merging) : List CString → List Stamp → Option Merging
  | [], _ => some merging
  | word :: rest, stamps => do
    loop (← merging.step word rest.head? stamps.head?) rest stamps.tail

end Merging

/-- `ss.str()`. -/
def wordsText (words : List Word) : CString :=
  (words.map fun word => (if word.spaced then bytes " " else []) ++ word.text).flatten

def stampText (stamp : Stamp) : CString :=
  toStringFloat stamp.1 ++ bytes ", " ++ toStringFloat stamp.2

/-- `stamp_str`. -/
def stampsText (words : List Word) : CString :=
  List.intercalate (bytes ",") (words.map fun word => stampText word.stamp)

/-- The words that `PostProcess` emits. -/
def emitted (rawChar : List CString) (timestampList : List Stamp) : Option (List Word) :=
  (Merging.loop {} rawChar timestampList).map (·.words)

def message (words : List Word) : CString := wordsText words ++ bytes " | " ++ stampsText words

/-- `PostProcess`; none where it reads past the end of `timestamp_list`. -/
def postProcess (rawChar : List CString) (timestampList : List Stamp) : Option CString :=
  (emitted rawChar timestampList).map message

/-! ## Where the timestamps are enough -/

section
variable {merging : Merging}

theorem Merging.step_isSome {word : CString} (next : Option CString) {stamp : Option Stamp}
    (enough : isSpecial word ∨ stamp.isSome) : (merging.step word next stamp).isSome := by
  unfold step
  split
  · rfl
  · rename_i plain
    obtain ⟨value, rfl⟩ := Option.isSome_iff_exists.mp (enough.resolve_left plain)
    split
    · split
      · rfl
      · unfold collect
        split <;> rfl
    · rfl

/-- Every token that is not left out needs its own timestamp. -/
theorem Merging.loop_isSome {rawChar : List CString} {timestampList : List Stamp}
    (enough : ∀ position token, rawChar[position]? = some token →
      isSpecial token ∨ position < timestampList.length) :
    (merging.loop rawChar timestampList).isSome := by
  induction rawChar generalizing merging timestampList with
  | nil => rfl
  | cons word rest inductionHypothesis =>
    have first : isSpecial word ∨ timestampList.head?.isSome := by
      cases enough 0 word rfl with
      | inl special => exact Or.inl special
      | inr there =>
        right
        cases timestampList with
        | nil => cases there
        | cons => rfl
    obtain ⟨next, stepped⟩ := Option.isSome_iff_exists.mp
      (merging.step_isSome rest.head? first)
    unfold loop
    rw [stepped]
    apply inductionHypothesis
    intro position token found
    rw [List.length_tail]
    cases enough (position + 1) token found with
    | inl special => exact Or.inl special
    | inr there => exact Or.inr (by omega)

end

theorem postProcess_isSome {rawChar : List CString} {timestampList : List Stamp}
    (enough : ∀ position token, rawChar[position]? = some token →
      isSpecial token ∨ position < timestampList.length) :
    (postProcess rawChar timestampList).isSome := by
  unfold postProcess emitted
  rw [Option.isSome_map, Option.isSome_map]
  exact Merging.loop_isSome enough

end Asr2Pass.Timestamps
