import Asr2Pass.Library.Alignments
import Asr2Pass.Punctuation.Infer
import Asr2Pass.Text.Strings

/-! # `SenseVoiceSmall::CTCSearch`

The best symbol of each frame is collapsed into tokens.  The first four of them say the language,
the emotion, the event and whether the text is normalised; the others are the text.  The check
before the first four asks for three.
-/

namespace Asr2Pass.Ctc

open Punctuation (argmax)
open Text (CString bytes contains)

variable {Score : Type*} [LinearOrder Score]

/-! ## The search -/

/-- `tokens` and `prev_id`. -/
structure Greedy where
  tokens : List Nat := []
  prevId : Int := -1

/-- A turn over `t`. -/
def Greedy.turn (blankId : Nat) (greedy : Greedy) (row : List Score) : Greedy :=
  let y := argmax row
  ⟨if y ≠ blankId ∧ (y : Int) ≠ greedy.prevId then greedy.tokens ++ [y] else greedy.tokens, y⟩

/-- `tokens` after the loop over `t`. -/
def greedyTokens (blankId : Nat) (rows : List (List Score)) : List Nat :=
  (rows.foldl (Greedy.turn blankId) {}).tokens

def id2String (vocab : List CString) (id : Nat) : CString := (vocab[id]?).getD []

/-- `str_lang` and `str_itn`; none where a token is read that is not there. -/
def readHeader (vocab : List CString) (tokens : List Nat) : Option (CString × CString) :=
  if 3 ≤ tokens.length then do
    let lang ← tokens[0]?
    let _emo ← tokens[1]?
    let _event ← tokens[2]?
    let itn ← tokens[3]?
    return (id2String vocab lang, id2String vocab itn)
  else some ([], [])

/-- What a token adds to the text. -/
def wordText (vocab : List CString) (token : Nat) : CString :=
  let word := id2String vocab token
  if contains word (bytes "▁") then bytes " " ++ word.drop 3 else word

/-- The space at the end. -/
def closing (strLang strItn : CString) : CString :=
  if strItn = bytes "<|withitn|>" then
    if strLang = bytes "<|en|>" then bytes " " else []
  else bytes " "

/-- The text of the loop over `i`. -/
def ctcText (vocab : List CString) (tokens : List Nat) : Option CString := do
  let (strLang, strItn) ← readHeader vocab tokens
  return (tokens.drop 4).flatMap (wordText vocab) ++ closing strLang strItn

def ctcSearch (vocab : List CString) (blankId : Nat) (rows : List (List Score)) : Option CString :=
  ctcText vocab (greedyTokens blankId rows)

/-! ## Tokens -/

/-- The loop keeps the collapse of the best symbols so far, and the last of them. -/
theorem foldl_turn (blankId : Nat) (rows : List (List Score)) :
    rows.foldl (Greedy.turn blankId) {} =
      ⟨Library.collapse blankId (rows.map argmax),
        (rows.map argmax).getLast?.elim (-1) Nat.cast⟩ := by
  induction rows using List.reverseRecOn with
  | nil => rfl
  | append_singleton earlier row inductionHypothesis =>
    have repeats : ((argmax row : Nat) : Int) = (earlier.map argmax).getLast?.elim (-1) Nat.cast ↔
        (earlier.map argmax).getLast? = some (argmax row) := by
      cases (earlier.map argmax).getLast? with
      | none => simp
      | some last => simp [eq_comm]
    rw [List.foldl_append, inductionHypothesis, List.foldl_cons, List.foldl_nil, Greedy.turn,
      List.map_append, List.map_singleton, Library.collapse_snoc, List.getLast?_concat]
    dsimp only
    simp only [ne_eq, repeats, ← not_or, ite_not]
    rfl

theorem greedyTokens_eq (blankId : Nat) (rows : List (List Score)) :
    greedyTokens blankId rows = Library.collapse blankId (rows.map argmax) := by
  rw [greedyTokens, foldl_turn]

/-- All tokens that are asked for are there unless there are three. -/
theorem readHeader_isSome_iff (vocab : List CString) (tokens : List Nat) :
    (readHeader vocab tokens).isSome ↔ tokens.length ≠ 3 := by
  rcases tokens with _ | ⟨lang, _ | ⟨emo, _ | ⟨event, _ | ⟨itn, rest⟩⟩⟩⟩
  · simp [readHeader]
  · simp [readHeader]
  · simp [readHeader]
  · simp [readHeader]
  · simp [readHeader]

theorem closing_eq (strLang strItn : CString) :
    closing strLang strItn = [] ∨ closing strLang strItn = bytes " " := by
  rw [closing]
  split
  · split
    · exact .inr rfl
    · exact .inl rfl
  · exact .inr rfl

/-! ## Texts -/

/-- The tokens are the collapse of the best symbols, and the search returns the text of those from
    the fifth one on, with a space or without. -/
def SearchesGreedily (vocab : List CString) (blankId : Nat) (rows : List (List Score)) : Prop :=
  let tokens := Library.collapse blankId (rows.map argmax)
  greedyTokens blankId rows = tokens ∧ ∃ space, (space = [] ∨ space = bytes " ") ∧
    ctcSearch vocab blankId rows = some ((tokens.drop 4).flatMap (wordText vocab) ++ space)

/-- The best symbol of the frame is no blank, and it is not that of the frame before. -/
def StartsToken (blankId : Nat) (rows : List (List Score)) (t : Nat) : Prop :=
  Library.StartsLabel blankId (rows.map argmax) t

instance (blankId : Nat) (rows : List (List Score)) (t : Nat) :
    Decidable (StartsToken blankId rows t) :=
  inferInstanceAs (Decidable (Library.StartsLabel _ _ _))

/-- The search reads existing tokens only, unless tokens start in just three frames. -/
theorem searchesGreedily_iff (vocab : List CString) (blankId : Nat) (rows : List (List Score)) :
    SearchesGreedily vocab blankId rows ↔
      ((List.range rows.length).countP fun t => StartsToken blankId rows t) ≠ 3 := by
  have count : (greedyTokens blankId rows).length =
      (List.range rows.length).countP fun t => StartsToken blankId rows t := by
    rw [greedyTokens_eq, Library.length_collapse, List.length_map]
    rfl
  rw [← count, ← readHeader_isSome_iff vocab, SearchesGreedily, ← greedyTokens_eq, ctcSearch, ctcText]
  cases header : readHeader vocab (greedyTokens blankId rows) with
  | none => simp
  | some strs =>
    obtain ⟨strLang, strItn⟩ := strs
    exact iff_of_true ⟨rfl, closing strLang strItn, closing_eq strLang strItn, rfl⟩ rfl

/-- Three frames with three symbols. -/
def threeTokens : List (List Nat) := [[0, 1, 0, 0], [0, 0, 1, 0], [0, 0, 0, 1]]

/-- The fourth of three tokens is read. -/
theorem not_searchesGreedily_three :
    greedyTokens 0 threeTokens = [1, 2, 3] ∧ ctcSearch [] 0 threeTokens = none ∧
      ¬ SearchesGreedily [] 0 threeTokens := by
  have tokens : greedyTokens 0 threeTokens = [1, 2, 3] := by decide
  have out : ctcSearch [] 0 threeTokens = none := by rw [ctcSearch, tokens]; rfl
  refine ⟨tokens, out, ?_⟩
  rw [SearchesGreedily, out]
  simp

end Asr2Pass.Ctc
