import Asr2Pass.Text.Strings

/-! # `Vocab`

`Vector2StringV2` joins the sub-words of a hypothesis into words and sets spaces between them.  The
member `last_is_complete_english_` tells it whether the text before ended with an English word.
A function answers `none` where the source reads outside a vector.
-/

namespace Asr2Pass.Text

structure Vocab where
  vocab : List CString
  lastIsCompleteEnglish : Bool := false

/-- `Str2Int`: the code of a character of three bytes. -/
def str2Int (byte byte' byte'' : UInt8) : Nat :=
  if byte &&& 0xf0 ≠ 0xe0 ∨ byte' &&& 0xc0 ≠ 0x80 ∨ byte'' &&& 0xc0 ≠ 0x80 then 0
  else (byte &&& 0x0f).toNat * 4096 + (byte' &&& 0x3f).toNat * 64 + (byte'' &&& 0x3f).toNat

def isChinese : CString → Bool
  | [byte, byte', byte''] => 19968 ≤ str2Int byte byte' byte'' && str2Int byte byte' byte'' ≤ 40959
  | _ => false

def wordFormat (word : CString) : CString :=
  if word = bytes "i" then bytes "I"
  else if word = bytes "i'm" then bytes "I'm"
  else if word = bytes "i've" then bytes "I've"
  else if word = bytes "i'll" then bytes "I'll"
  else word

/-- The tokens that are left out. -/
def isSpecial (word : CString) : Bool :=
  word = bytes "<s>" || word = bytes "</s>" || word = bytes "<unk>"

/-- `word.erase(word.length() - 2)`. -/
def eraseMark (word : CString) : CString := word.take (word.length - 2)

/-! ## `Vector2StringV2` -/

/-- `is_combining` and `combine`. -/
structure Spelling where
  isCombining : Bool := false
  combine : CString := []

namespace Spelling

/-- The end of a word: what has been collected goes before it. -/
def finish (spelling : Spelling) (word : CString) : Spelling × CString :=
  if spelling.isCombining then ({}, spelling.combine ++ word) else (spelling, word)

/-- The second step for a token: the word that it completes, and `sub_word`; no word when the
    token is only collected. -/
def spell (vocab : List CString) (spelling : Spelling) (word : CString) (rest : List Nat) :
    Option (Spelling × Option (CString × Bool)) :=
  if contains word (bytes "@@") then
    match rest with
    | [] =>
      -- `last_is_complete_english_` is false after this token in any case.
      let (spelling', word') := spelling.finish (eraseMark word)
      some (spelling', some (word', true))
    | next :: _ => do
      let nextWord ← vocab[next]?
      if isChinese nextWord then
        let (spelling', word') := spelling.finish (eraseMark word ++ bytes " ")
        return (spelling', some (word', true))
      else return ({ isCombining := true, combine := spelling.combine ++ eraseMark word }, none)
  else
    let (spelling', word') := spelling.finish word
    some (spelling', some (word', false))

end Spelling

/-- `words`, `is_pre_english` and `pre_english_len`. -/
structure Written where
  words : List CString := []
  isPreEnglish : Bool := false
  preEnglishLen : Nat := 0

namespace Written

def push (written : Written) (words : List CString) : List CString := written.words ++ words

/-- The third step for a word. -/
def write (firstWordNeedSpace : Bool) (written : Written) (word : CString) : Written :=
  if isChinese word then { written with words := written.push [word], isPreEnglish := false }
  else if !written.isPreEnglish then
    let spaced := if firstWordNeedSpace then [bytes " ", word] else [word]
    { words := written.push spaced, isPreEnglish := true, preEnglishLen := word.length }
  else
    let spaced := if written.preEnglishLen > 1 ∨ word.length > 1 then [bytes " ", word] else [word]
    { words := written.push spaced, isPreEnglish := true, preEnglishLen := word.length }

end Written

/-- The loop for a language other than `en-bpe`, with the member at its end. -/
def joinWords (vocab : List CString) (firstWordNeedSpace : Bool) (spelling : Spelling)
    (written : Written) (lastIsCompleteEnglish : Bool) : List Nat → Option (Written × Bool)
  | [] => some (written, lastIsCompleteEnglish)
  | id :: rest => do
    let word ← vocab[id]?
    -- Special symbols keep the flags as they are.
    if isSpecial word then
      joinWords vocab firstWordNeedSpace spelling written lastIsCompleteEnglish rest
    else
      let (spelling', spelled) ← spelling.spell vocab word rest
      match spelled with
      | none => joinWords vocab firstWordNeedSpace spelling' written lastIsCompleteEnglish rest
      | some (word', subWord) =>
        joinWords vocab firstWordNeedSpace spelling' (written.write firstWordNeedSpace word')
          (rest.isEmpty && !isChinese word' && !subWord) rest

/-- The word that has been collected for `en-bpe` goes to the end of `words`. -/
def pushCombine (words : List CString) (combine : CString) : List CString :=
  if combine = [] then words
  else if words = [] then [wordFormat combine]
  else words ++ [bytes " " ++ wordFormat combine]

/-- The loop for `en-bpe`: a word begins where a token holds `▁`. -/
def joinBpe (vocab : List CString) (words : List CString) (combine : CString) :
    List Nat → Option (List CString)
  | [] => some (pushCombine words combine)
  | id :: rest => do
    let word ← vocab[id]?
    if isSpecial word then joinBpe vocab words combine rest
    else if contains word (bytes "▁") then
      joinBpe vocab (pushCombine words combine) (word.drop 3) rest
    else joinBpe vocab words (combine ++ word) rest

/-- `Vector2StringV2`: the text, and the object after the call. -/
def Vocab.vector2StringV2 (vocab : Vocab) (ids : List Nat) (language : CString) :
    Option (CString × Vocab) :=
  if language = bytes "en-bpe" then do
    let words ← joinBpe vocab.vocab [] [] ids
    return (words.flatten, vocab)
  else do
    let (written, lastIsCompleteEnglish) ←
      joinWords vocab.vocab vocab.lastIsCompleteEnglish {} {} vocab.lastIsCompleteEnglish ids
    return (written.words.flatten, { vocab with lastIsCompleteEnglish })

end Asr2Pass.Text
