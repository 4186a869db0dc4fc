import Asr2Pass.Itn.Utf8String
import Mathlib.Logic.Function.Basic

/-! # The parser of the tagged tokens

The text that is left stands for `index` and `ch`: its head is `ch`, and `ch` is `EOS` when nothing
is left.  `EOS` is itself a string, and a loop that does not ask for it goes on with it.
-/

namespace Asr2Pass.Itn

open Text

def eos : CString := bytes "<EOS>"

def utf8Whitespace : List CString :=
  [bytes " ", bytes "\t", bytes "\n", bytes "\r", bytes "\x0b\x0c"]

def asciiLetters : List CString :=
  (bytes "abcdefghijklmnopqrstuvwxyzABCDEFGHIJKLMNOPQRSTUVWXYZ_").map ([·])

abbrev Orders := List (CString × List CString)

def tnOrders : Orders :=
  [(bytes "date", [bytes "year", bytes "month", bytes "day"]),
   (bytes "fraction", [bytes "denominator", bytes "numerator"]),
   (bytes "measure", [bytes "denominator", bytes "numerator", bytes "value"]),
   (bytes "money", [bytes "value", bytes "currency"]),
   (bytes "time", [bytes "noon", bytes "hour", bytes "minute", bytes "second"])]

def itnOrders : Orders :=
  [(bytes "date", [bytes "year", bytes "month", bytes "day"]),
   (bytes "fraction", [bytes "sign", bytes "numerator", bytes "denominator"]),
   (bytes "measure", [bytes "numerator", bytes "denominator", bytes "value"]),
   (bytes "money", [bytes "currency", bytes "value"]),
   (bytes "time", [bytes "hour", bytes "minute", bytes "second", bytes "noon"])]

inductive ParseType where
  | kTN
  | kITN
  deriving DecidableEq, Repr

/-- `orders` after the constructor. -/
def ParseType.orders : ParseType → Orders
  | kTN => tnOrders
  | kITN => itnOrders

/-! ## `Token` -/

structure Token where
  name : CString
  order : List CString
  members : CString → Option CString

def Token.new (name : CString) : Token := ⟨name, [], fun _ => none⟩

def Token.append (token : Token) (key value : CString) : Token :=
  { token with
    order := token.order ++ [key]
    members := Function.update token.members key (some value) }

/-- What `string` adds for one key. -/
def Token.entry (token : Token) (key : CString) : CString :=
  match token.members key with
  | none => []
  | some value => bytes " " ++ key ++ bytes ": \"" ++ value ++ bytes "\""

def Token.string (token : Token) (orders : Orders) : CString :=
  token.name ++ bytes " \x7b" ++
    ((orders.lookup token.name).getD token.order).flatMap token.entry ++ bytes " \x7d"

/-! ## Outcomes -/

/-- A `CHECK` may fail, and a loop may still be running when its turns are used up. -/
inductive Outcome (α : Type) where
  | done (result : α)
  | failed
  | running

def Outcome.bind {α β : Type} : Outcome α → (α → Outcome β) → Outcome β
  | done result, next => next result
  | failed, _ => failed
  | running, _ => running

@[simp] theorem Outcome.done_bind {α β : Type} (result : α) (next : α → Outcome β) :
    (done result).bind next = next result := rfl

@[simp] theorem Outcome.failed_bind {α β : Type} (next : α → Outcome β) :
    failed.bind next = failed := rfl

@[simp] theorem Outcome.running_bind {α β : Type} (next : α → Outcome β) :
    running.bind next = running := rfl

theorem Outcome.bind_eq_done {α β : Type} {outcome : Outcome α} {next : α → Outcome β} {result : β} :
    outcome.bind next = done result ↔ ∃ middle, outcome = done middle ∧ next middle = done result := by
  cases outcome with
  | done middle => exact ⟨fun same => ⟨middle, rfl, same⟩, fun ⟨_, same, same'⟩ => by cases same; exact same'⟩
  | failed => exact ⟨nofun, fun ⟨_, same, _⟩ => nomatch same⟩
  | running => exact ⟨nofun, fun ⟨_, same, _⟩ => nomatch same⟩

/-! ## `TokenParser` -/

/-- The text from `ch` on. -/
abbrev Left := List CString

/-- `ch`. -/
def ch (left : Left) : CString := left.headD eos

/-- `parse_ws`; it returns whether something is left. -/
def parseWs : Left → Left
  | [] => []
  | symbol :: rest => if symbol = bytes " " then parseWs rest else symbol :: rest

/-- `parse_char`; no caller of `parse_chars` reads what it returns. -/
def parseChar (exp : CString) : Left → Left
  | [] => []
  | symbol :: rest => if symbol = exp then rest else symbol :: rest

/-- `parse_chars` with the characters of its argument. -/
def parseChars (exps : List CString) (left : Left) : Left :=
  exps.foldl (fun left exp => parseChar exp left) left

/-- The loop of `parse_key`, which ends at `EOS`. -/
def takeLetters : Left → CString × Left
  | [] => ([], [])
  | symbol :: rest =>
    if symbol ∈ asciiLetters then (symbol ++ (takeLetters rest).1, (takeLetters rest).2)
    else ([], symbol :: rest)

def parseKey (left : Left) : Outcome (CString × Left) :=
  if left = [] ∨ ch left ∈ utf8Whitespace then .failed else .done (takeLetters left)

/-- The loop of `parse_value`. -/
def valueLoop : Nat → Bool → CString → Left → Outcome (CString × Left)
  | 0, _, _, _ => .running
  | fuel + 1, escape, value, left =>
    if ch left = bytes "\"" then .done (value, left)
    else
      let value := value ++ ch left
      let escape := ch left = bytes "\\" && !escape
      let left := left.tail
      if escape then valueLoop fuel escape (value ++ ch left) left.tail
      else valueLoop fuel escape value left

def parseValue (fuel : Nat) (left : Left) : Outcome (CString × Left) :=
  if left = [] then .failed else valueLoop fuel false [] left

/-- The inner loop of `parse`, for the members of a token. -/
def parseMembers : Nat → Token → Left → Outcome (Token × Left)
  | 0, _, _ => .running
  | fuel + 1, token, left =>
    let left := parseWs left
    if left = [] then .done (token, left)
    else if ch left = bytes "\x7d" then .done (token, parseChar (bytes "\x7d") left)
    else
      (parseKey left).bind fun key =>
        (parseValue fuel (parseChars [bytes ":", bytes " ", bytes "\""] key.2)).bind fun value =>
          parseMembers fuel (token.append key.1 value.1) (parseChar (bytes "\"") value.2)

/-- The outer loop of `parse`. -/
def parseTokens : Nat → List Token → Left → Outcome (List Token)
  | 0, _, _ => .running
  | fuel + 1, tokens, left =>
    let left := parseWs left
    if left = [] then .done tokens
    else
      (parseKey left).bind fun name =>
        (parseMembers fuel (.new name.1)
          (parseChars [bytes " ", bytes "\x7b", bytes " "] name.2)).bind fun token =>
            parseTokens fuel (tokens ++ [token.1]) token.2

/-- `load`. -/
def load (input : CString) : Outcome Left :=
  match string2chars input with
  | none => .failed
  | some text => if text = [] then .failed else .done text

/-- `parse` of a new parser. -/
def parse (fuel : Nat) (input : CString) : Outcome (List Token) :=
  (load input).bind (parseTokens fuel [])

def reorder (parseType : ParseType) (fuel : Nat) (input : CString) : Outcome CString :=
  (parse fuel input).bind fun tokens =>
    .done (trim (tokens.flatMap fun token => token.string parseType.orders ++ bytes " "))

/-- `parse` ends, with its tokens or at a `CHECK`. -/
def Terminates (input : CString) : Prop := ∃ fuel, parse fuel input ≠ .running

/-! ## The rest is an end of the text -/

theorem parseWs_suffix (left : Left) : parseWs left <:+ left := by
  induction left with
  | nil => exact List.suffix_rfl
  | cons symbol rest inductionHypothesis =>
    rw [parseWs]
    split
    · exact inductionHypothesis.trans (List.suffix_cons symbol rest)
    · exact List.suffix_rfl

theorem parseWs_head {left rest : Left} {symbol : CString} (skipped : parseWs left = symbol :: rest) :
    symbol ≠ bytes " " := by
  induction left with
  | nil => cases skipped
  | cons first further inductionHypothesis =>
    rw [parseWs] at skipped
    split at skipped
    case isTrue => exact inductionHypothesis skipped
    case isFalse other =>
      cases skipped
      exact other

theorem parseWs_of_ne {rest : Left} {symbol : CString} (other : symbol ≠ bytes " ") :
    parseWs (symbol :: rest) = symbol :: rest := if_neg other

theorem parseChar_suffix (exp : CString) (left : Left) : parseChar exp left <:+ left := by
  cases left with
  | nil => exact List.suffix_rfl
  | cons symbol rest =>
    rw [parseChar]
    split
    · exact List.suffix_cons symbol rest
    · exact List.suffix_rfl

theorem parseChars_suffix (exps : List CString) (left : Left) : parseChars exps left <:+ left := by
  induction exps generalizing left with
  | nil => exact List.suffix_rfl
  | cons exp rest inductionHypothesis =>
    exact (inductionHypothesis (parseChar exp left)).trans (parseChar_suffix exp left)

theorem takeLetters_suffix (left : Left) : (takeLetters left).2 <:+ left := by
  induction left with
  | nil => exact List.suffix_rfl
  | cons symbol rest inductionHypothesis =>
    rw [takeLetters]
    split
    · exact inductionHypothesis.trans (List.suffix_cons symbol rest)
    · exact List.suffix_rfl

theorem parseChars_append (exps : List CString) (left : Left) :
    parseChars exps (exps ++ left) = left := by
  induction exps with
  | nil => rfl
  | cons exp rest inductionHypothesis =>
    rw [parseChars, List.foldl_cons, List.cons_append, parseChar, if_pos rfl]
    exact inductionHypothesis

/-- Behind the letters and the characters that may follow. -/
theorem parseChars_takeLetters_suffix (exps : List CString) (left : Left) :
    parseChars exps (takeLetters left).2 <:+ left :=
  (parseChars_suffix exps _).trans (takeLetters_suffix left)

/-! ## One turn of the loops -/

section

variable {fuel : Nat} {escape : Bool} {value : CString} {token : Token} {tokens : List Token}
  {left rest : Left} {symbol : CString}

/-- At the end of the text `ch` is `EOS`, which is neither a quote nor a backslash. -/
theorem valueLoop_nil (fuel : Nat) (escape : Bool) (value : CString) :
    valueLoop fuel escape value [] = .running := by
  induction fuel generalizing escape value with
  | zero => rfl
  | succ fuel inductionHypothesis =>
    have notQuote : ch [] ≠ bytes "\"" := by decide
    have notBackslash : ch [] ≠ bytes "\\" := by decide
    simp [valueLoop, notQuote, notBackslash, inductionHypothesis]

theorem valueLoop_quote :
    valueLoop (fuel + 1) escape value (bytes "\"" :: rest) = .done (value, bytes "\"" :: rest) := by
  simp [valueLoop, ch]

theorem valueLoop_escape (other : symbol ≠ bytes "\"")
    (escapes : (decide (symbol = bytes "\\") && !escape) = true) :
    valueLoop (fuel + 1) escape value (symbol :: rest) =
      valueLoop fuel true (value ++ symbol ++ ch rest) rest.tail := by
  simp [valueLoop, ch, other, escapes]

theorem valueLoop_plain (other : symbol ≠ bytes "\"")
    (plain : (decide (symbol = bytes "\\") && !escape) = false) :
    valueLoop (fuel + 1) escape value (symbol :: rest) =
      valueLoop fuel false (value ++ symbol) rest := by
  simp [valueLoop, ch, other, plain]

theorem parseMembers_end (spaces : parseWs left = []) :
    parseMembers (fuel + 1) token left = .done (token, []) := by
  rw [parseMembers, spaces]
  rfl

theorem parseMembers_brace (spaces : parseWs left = bytes "\x7d" :: rest) :
    parseMembers (fuel + 1) token left = .done (token, rest) := by
  simp [parseMembers, spaces, ch, parseChar]

theorem parseMembers_white (spaces : parseWs left = symbol :: rest) (brace : symbol ≠ bytes "\x7d")
    (white : symbol ∈ utf8Whitespace) : parseMembers (fuel + 1) token left = .failed := by
  simp [parseMembers, spaces, ch, brace, parseKey, white]

theorem parseMembers_key (spaces : parseWs left = symbol :: rest) (brace : symbol ≠ bytes "\x7d")
    (white : symbol ∉ utf8Whitespace) :
    parseMembers (fuel + 1) token left =
      (parseValue fuel (parseChars [bytes ":", bytes " ", bytes "\""]
        (takeLetters (symbol :: rest)).2)).bind fun value =>
          parseMembers fuel (token.append (takeLetters (symbol :: rest)).1 value.1)
            (parseChar (bytes "\"") value.2) := by
  simp [parseMembers, spaces, ch, brace, parseKey, white]

theorem parseTokens_end (spaces : parseWs left = []) :
    parseTokens (fuel + 1) tokens left = .done tokens := by
  rw [parseTokens, spaces]
  rfl

theorem parseTokens_white (spaces : parseWs left = symbol :: rest)
    (white : symbol ∈ utf8Whitespace) : parseTokens (fuel + 1) tokens left = .failed := by
  simp [parseTokens, spaces, ch, parseKey, white]

theorem parseTokens_name (spaces : parseWs left = symbol :: rest)
    (white : symbol ∉ utf8Whitespace) :
    parseTokens (fuel + 1) tokens left =
      (parseMembers fuel (.new (takeLetters (symbol :: rest)).1)
        (parseChars [bytes " ", bytes "\x7b", bytes " "] (takeLetters (symbol :: rest)).2)).bind
          fun token => parseTokens fuel (tokens ++ [token.1]) token.2 := by
  simp [parseTokens, spaces, ch, parseKey, white]

end

end Asr2Pass.Itn
