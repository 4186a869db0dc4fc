import Asr2Pass.Itn.TokenParser

/-! # Where the parser is, and when it ends

The parser reads each character once, so an automaton over the characters says where it is.  The
loop for a value is the only one that goes on at the end of the text, and it is left there exactly
when a quote has been met.
-/

namespace Asr2Pass.Itn

open Text

/-! ## The automaton -/

/-- `named` and `braced` are the places behind the first and the second character of `" { "`, read
    or not, and `colon` and `gap` those of `": \""`.  A value has the flag `escape`. -/
inductive Place where
  | names
  | name
  | named
  | braced
  | members
  | key
  | colon
  | gap
  | opened
  | value (escape : Bool)
  | escaped
  | failed
  deriving DecidableEq, Repr

namespace Place

def nextValue (escape : Bool) (symbol : CString) : Place :=
  if symbol = bytes "\"" then members
  else if symbol = bytes "\\" && !escape then escaped
  else value false

def nextGap (symbol : CString) : Place :=
  if symbol = bytes "\"" then opened else nextValue false symbol

def nextColon (symbol : CString) : Place :=
  if symbol = bytes " " then gap else nextGap symbol

def nextKey (symbol : CString) : Place :=
  if symbol ∈ asciiLetters then key
  else if symbol = bytes ":" then colon
  else nextColon symbol

def nextMembers (symbol : CString) : Place :=
  if symbol = bytes " " then members
  else if symbol = bytes "\x7d" then names
  else if symbol ∈ utf8Whitespace then failed
  else nextKey symbol

def nextNamed (symbol : CString) : Place :=
  if symbol = bytes "\x7b" then braced else nextMembers symbol

def nextName (symbol : CString) : Place :=
  if symbol ∈ asciiLetters then name
  else if symbol = bytes " " then named
  else nextNamed symbol

def nextNames (symbol : CString) : Place :=
  if symbol = bytes " " then names
  else if symbol ∈ utf8Whitespace then failed
  else nextName symbol

def next : Place → CString → Place
  | names => nextNames
  | name => nextName
  | named => nextNamed
  | braced => nextMembers
  | members => nextMembers
  | key => nextKey
  | colon => nextColon
  | gap => nextGap
  | opened => nextValue false
  | value escape => nextValue escape
  | escaped => fun _ => value true
  | failed => fun _ => failed

/-- The place after the characters. -/
def run (place : Place) (left : Left) : Place := left.foldl next place

@[simp] theorem run_nil (place : Place) : place.run [] = place := rfl

@[simp] theorem run_cons (place : Place) (symbol : CString) (rest : Left) :
    place.run (symbol :: rest) = (place.next symbol).run rest := rfl

@[simp] theorem run_failed (left : Left) : failed.run left = failed := by
  induction left with
  | nil => rfl
  | cons symbol rest inductionHypothesis => exact inductionHypothesis

/-- At least one character of a value has been read, and not its quote. -/
def inValue : Place → Bool
  | value _ => true
  | escaped => true
  | _ => false

end Place

/-! ## What the helper parsers leave -/

theorem run_parseWs {place : Place} (stays : place.next (bytes " ") = place) (left : Left) :
    place.run (parseWs left) = place.run left := by
  induction left with
  | nil => rfl
  | cons symbol rest inductionHypothesis =>
    rw [parseWs]
    split
    case isTrue space => rw [inductionHypothesis, space, Place.run_cons, stays]
    case isFalse => rfl

/-- A character that may be skipped: the next place reads what is not it. -/
theorem run_parseChar {place place' : Place} {exp : CString} {left : Left}
    (outside : place.inValue = false) (outside' : place'.inValue = false)
    (skips : ∀ symbol ∈ left.head?,
      place.next symbol = if symbol = exp then place' else place'.next symbol) :
    (place.run left).inValue = (place'.run (parseChar exp left)).inValue := by
  cases left with
  | nil => exact outside.trans outside'.symm
  | cons symbol rest =>
    rw [Place.run_cons, skips symbol rfl, parseChar]
    split
    · rfl
    · rfl

theorem takeLetters_head {left : Left} :
    ∀ symbol ∈ (takeLetters left).2.head?, symbol ∉ asciiLetters := by
  induction left with
  | nil => intro symbol head; cases head
  | cons first rest inductionHypothesis =>
    rw [takeLetters]
    split
    case isTrue => exact inductionHypothesis
    case isFalse other =>
      intro symbol head
      cases head
      exact other

theorem run_takeLetters {place : Place} (stays : ∀ symbol ∈ asciiLetters, place.next symbol = place)
    (left : Left) : place.run (takeLetters left).2 = place.run left := by
  induction left with
  | nil => rfl
  | cons symbol rest inductionHypothesis =>
    rw [takeLetters]
    split
    case isTrue letter => rw [inductionHypothesis, Place.run_cons, stays symbol letter]
    case isFalse => rfl

/-! ## Outcomes for all fuel -/

/-- With enough fuel the outcome is settled, unless the parser is stuck: then it runs with any fuel.
    A result is good, and tells whether the parser gets stuck behind it. -/
inductive Settled {α : Type} (parser : Nat → Outcome α) (bound : Nat) (stuck : Bool)
    (good : α → Prop) (stuck' : α → Bool) : Prop where
  | done (result : α) (returns : ∀ fuel ≥ bound, parser fuel = .done result)
      (early : ∀ fuel, parser fuel = .running ∨ parser fuel = .done result)
      (isGood : good result) (same : stuck = stuck' result)
  | failed (fails : ∀ fuel ≥ bound, parser fuel = .failed) (free : stuck = false)
  | running (runs : ∀ fuel, parser fuel = .running) (isStuck : stuck = true)

namespace Settled

variable {α β : Type} {parser : Nat → Outcome α} {bound : Nat} {stuck : Bool} {good : α → Prop}
  {stuck' : α → Bool}

theorem mono (settled : Settled parser bound stuck good stuck') {bound' : Nat}
    (le : bound ≤ bound') : Settled parser bound' stuck good stuck' := by
  cases settled with
  | done result returns early isGood same =>
    exact done result (fun fuel enough => returns fuel (le.trans enough)) early isGood same
  | failed fails free => exact failed (fun fuel enough => fails fuel (le.trans enough)) free
  | running runs isStuck => exact running runs isStuck

theorem weaken (settled : Settled parser bound stuck good stuck') {good' : α → Prop}
    (better : ∀ result, good result → good' result) : Settled parser bound stuck good' stuck' := by
  cases settled with
  | done result returns early isGood same =>
    exact done result returns early (better result isGood) same
  | failed fails free => exact failed fails free
  | running runs isStuck => exact running runs isStuck

/-- A turn of a loop. -/
theorem succ (zero : parser 0 = .running)
    (settled : Settled (fun fuel => parser (fuel + 1)) bound stuck good stuck') :
    Settled parser (bound + 1) stuck good stuck' := by
  cases settled with
  | done result returns early isGood same =>
    refine done result (fun fuel enough => ?_) (fun fuel => ?_) isGood same
    · cases fuel with
      | zero => omega
      | succ fuel => exact returns fuel (by omega)
    · cases fuel with
      | zero => exact .inl zero
      | succ fuel => exact early fuel
  | failed fails free =>
    refine failed (fun fuel enough => ?_) free
    cases fuel with
    | zero => omega
    | succ fuel => exact fails fuel (by omega)
  | running runs isStuck =>
    refine running (fun fuel => ?_) isStuck
    cases fuel with
    | zero => exact zero
    | succ fuel => exact runs fuel

theorem bind (settled : Settled parser bound stuck good stuck') {further : α → Nat → Outcome β}
    {good' : β → Prop} {stuck'' : β → Bool}
    (goesOn : ∀ result, good result → Settled (further result) bound (stuck' result) good' stuck'') :
    Settled (fun fuel => (parser fuel).bind fun result => further result fuel) bound stuck good'
      stuck'' := by
  cases settled with
  | failed fails free => exact failed (fun fuel enough => by rw [fails fuel enough]; rfl) free
  | running runs isStuck => exact running (fun fuel => by rw [runs fuel]; rfl) isStuck
  | done result returns early isGood same =>
    cases goesOn result isGood with
    | done result' returns' early' isGood' same' =>
      refine done result' (fun fuel enough => ?_) (fun fuel => ?_) isGood' (same.trans same')
      · rw [returns fuel enough, Outcome.done_bind, returns' fuel enough]
      · cases early fuel with
        | inl running => exact .inl (by rw [running]; rfl)
        | inr done => rw [done, Outcome.done_bind]; exact early' fuel
    | failed fails free =>
      refine failed (fun fuel enough => ?_) (same.trans free)
      rw [returns fuel enough, Outcome.done_bind, fails fuel enough]
    | running runs isStuck =>
      refine running (fun fuel => ?_) (same.trans isStuck)
      cases early fuel with
      | inl running => rw [running]; rfl
      | inr done => rw [done, Outcome.done_bind, runs fuel]

/-- A parser without a loop. -/
theorem pure (result : α) (isGood : good result) (same : stuck = stuck' result) :
    Settled (fun _ => .done result) 0 stuck good stuck' :=
  done result (fun _ _ => rfl) (fun _ => .inr rfl) isGood same

/-- A settled parser ends, unless it is stuck. -/
theorem ends_iff (settled : Settled parser bound stuck good stuck') (free : ∀ result, stuck' result = false) :
    (∃ fuel, parser fuel ≠ .running) ↔ stuck = false := by
  cases settled with
  | done result returns early isGood same =>
    refine ⟨fun _ => same.trans (free result), fun _ => ⟨bound, ?_⟩⟩
    rw [returns bound le_rfl]
    exact nofun
  | failed fails free =>
    refine ⟨fun _ => free, fun _ => ⟨bound, ?_⟩⟩
    rw [fails bound le_rfl]
    exact nofun
  | running runs isStuck =>
    refine ⟨fun ends => ?_, fun free => by rw [free] at isStuck; cases isStuck⟩
    obtain ⟨fuel, ends⟩ := ends
    exact absurd (runs fuel) ends

end Settled

/-! ## The loops -/

/-- What the loop for a value leaves starts with the quote. -/
def AtQuote (length : Nat) (left : Left) : Prop :=
  left.length ≤ length ∧ ∃ rest, left = bytes "\"" :: rest

theorem AtQuote.mono {length length' : Nat} {left : Left} (atQuote : AtQuote length left)
    (le : length ≤ length') : AtQuote length' left :=
  ⟨atQuote.1.trans le, atQuote.2⟩

theorem settled_valueLoop (escape : Bool) (value : CString) (left : Left) :
    Settled (fun fuel => valueLoop fuel escape value left) (left.length + 1)
      ((Place.value escape).run left).inValue (fun result => AtQuote left.length result.2)
      fun result => (Place.members.run (parseChar (bytes "\"") result.2)).inValue := by
  induction length : left.length using Nat.strong_induction_on generalizing escape value left with
  | _ length' inductionHypothesis =>
    cases left with
    | nil => exact .running (fun fuel => valueLoop_nil fuel escape value) rfl
    | cons symbol rest =>
      subst length
      have shorter : rest.length < (symbol :: rest).length := Nat.lt_succ_self _
      apply Settled.succ rfl
      by_cases quote : symbol = bytes "\""
      · subst quote
        simp only [valueLoop_quote]
        apply (Settled.pure _ ⟨le_rfl, rest, rfl⟩ ?_).mono (Nat.zero_le _)
        simp [parseChar, Place.next, Place.nextValue]
      -- A backslash takes the next symbol with it, whatever it is.
      · cases escapes : decide (symbol = bytes "\\") && !escape with
        | true =>
          have place : (Place.value escape).next symbol = .escaped := by
            simp [Place.next, Place.nextValue, quote, escapes]
          simp only [valueLoop_escape quote escapes, Place.run_cons, place]
          cases rest with
          | nil => exact .running (fun fuel => valueLoop_nil fuel _ _) rfl
          | cons symbol' rest' =>
            have shorter' : rest'.length < (symbol :: symbol' :: rest').length := by
              simp only [List.length_cons]
              omega
            have inner := inductionHypothesis rest'.length shorter' true (value ++ symbol ++ symbol')
              rest' rfl
            exact (inner.mono (Nat.le_succ _)).weaken fun result atQuote =>
              atQuote.mono shorter'.le
        | false =>
          have place : (Place.value escape).next symbol = .value false := by
            simp [Place.next, Place.nextValue, quote, escapes]
          have inner := inductionHypothesis rest.length shorter false (value ++ symbol) rest rfl
          simp only [valueLoop_plain quote escapes, Place.run_cons, place]
          exact inner.weaken fun result atQuote => atQuote.mono shorter.le

theorem settled_parseValue (left : Left) :
    Settled (fun fuel => parseValue fuel left) (left.length + 1) (Place.opened.run left).inValue
      (fun result => AtQuote left.length result.2)
      fun result => (Place.members.run (parseChar (bytes "\"") result.2)).inValue := by
  cases left with
  | nil => exact .failed (fun _ _ => rfl) rfl
  | cons symbol rest => exact settled_valueLoop false [] (symbol :: rest)

/-! ## What stands around a name and around a key -/

/-- From a key to the value. -/
theorem run_key (left : Left) : (Place.key.run left).inValue =
    (Place.opened.run
      (parseChars [bytes ":", bytes " ", bytes "\""] (takeLetters left).2)).inValue := by
  have letters : ∀ symbol ∈ asciiLetters, Place.key.next symbol = .key :=
    fun symbol letter => if_pos letter
  have notLetter : ∀ symbol ∈ (takeLetters left).2.head?,
      Place.key.next symbol = if symbol = bytes ":" then .colon else Place.colon.next symbol :=
    fun symbol head => if_neg (takeLetters_head symbol head)
  have colon : Place.colon.inValue = false := rfl
  have gap : Place.gap.inValue = false := rfl
  rw [← run_takeLetters letters left, run_parseChar rfl colon notLetter,
    run_parseChar colon gap fun _ _ => rfl]
  exact run_parseChar gap rfl fun _ _ => rfl

/-- From a name to the members. -/
theorem run_name (left : Left) : (Place.name.run left).inValue =
    (Place.members.run
      (parseChars [bytes " ", bytes "\x7b", bytes " "] (takeLetters left).2)).inValue := by
  have letters : ∀ symbol ∈ asciiLetters, Place.name.next symbol = .name :=
    fun symbol letter => if_pos letter
  have notLetter : ∀ symbol ∈ (takeLetters left).2.head?,
      Place.name.next symbol = if symbol = bytes " " then .named else Place.named.next symbol :=
    fun symbol head => if_neg (takeLetters_head symbol head)
  have space (symbol : CString) : Place.braced.next symbol =
      if symbol = bytes " " then .members else Place.members.next symbol := by
    simp only [Place.next, Place.nextMembers]
    split
    · rfl
    · rfl
  have named : Place.named.inValue = false := rfl
  have braced : Place.braced.inValue = false := rfl
  rw [← run_takeLetters letters left, run_parseChar rfl named notLetter,
    run_parseChar named braced fun _ _ => rfl]
  exact run_parseChar braced rfl fun symbol _ => space symbol

theorem next_members_key {symbol : CString} (space : symbol ≠ bytes " ")
    (brace : symbol ≠ bytes "\x7d") : Place.members.next symbol =
      if symbol ∈ utf8Whitespace then .failed else Place.key.next symbol := by
  simp only [Place.next, Place.nextMembers, space, brace, if_false]

theorem next_names_name {symbol : CString} (space : symbol ≠ bytes " ") :
    Place.names.next symbol =
      if symbol ∈ utf8Whitespace then .failed else Place.name.next symbol := by
  simp only [Place.next, Place.nextNames, space, if_false]

/-! ## The loops of `parse` -/

/-- The rest of the text behind the members; something has been read when there was something. -/
def Behind (left left' : Left) : Prop :=
  left'.length ≤ left.length ∧ (parseWs left ≠ [] → left'.length < left.length)

theorem settled_parseMembers (token : Token) (left : Left) :
    Settled (fun fuel => parseMembers fuel token left) (left.length + 2)
      (Place.members.run left).inValue (fun result => Behind left result.2)
      fun result => (Place.names.run result.2).inValue := by
  -- On what is left: a member is never empty, so the next one begins further behind.
  induction length : left.length using Nat.strong_induction_on generalizing token left with
  | _ length' inductionHypothesis =>
    subst length
    apply Settled.succ rfl
    have skipped := (parseWs_suffix left).length_le
    rw [← run_parseWs (show Place.members.next (bytes " ") = .members from rfl) left]
    cases spaces : parseWs left with
    | nil =>
      simp only [parseMembers_end spaces]
      have behind : Behind left [] := ⟨Nat.zero_le _, fun more => absurd spaces more⟩
      exact .done _ (fun _ _ => rfl) (fun _ => .inr rfl) behind rfl
    | cons symbol rest =>
      rw [spaces] at skipped
      have shorter : rest.length < left.length := skipped
      have notSpace := parseWs_head spaces
      by_cases brace : symbol = bytes "\x7d"
      · rw [brace] at spaces ⊢
        simp only [parseMembers_brace spaces]
        exact .done _ (fun _ _ => rfl) (fun _ => .inr rfl) ⟨shorter.le, fun _ => shorter⟩ rfl
      · rw [Place.run_cons, next_members_key notSpace brace]
        by_cases white : symbol ∈ utf8Whitespace
        · simp only [parseMembers_white spaces brace white, if_pos white, Place.run_failed]
          exact .failed (fun _ _ => rfl) rfl
        · simp only [parseMembers_key spaces brace white]
          rw [if_neg white, ← Place.run_cons, run_key]
          have short := (parseChars_takeLetters_suffix [bytes ":", bytes " ", bytes "\""]
            (symbol :: rest)).length_le
          apply ((settled_parseValue _).mono (by omega)).bind
          -- The value stands before a quote, which the parser then takes.
          intro value atQuote
          obtain ⟨le, rest', starts⟩ := atQuote
          have closes : parseChar (bytes "\"") value.2 = rest' := by
            rw [starts, parseChar, if_pos rfl]
          rw [starts, List.length_cons] at le
          rw [closes]
          have shorter' : rest'.length < left.length := by omega
          have goesOn := inductionHypothesis rest'.length shorter'
            (token.append (takeLetters (symbol :: rest)).1 value.1) rest' rfl
          exact (goesOn.mono (by omega)).weaken fun result behind =>
            ⟨behind.1.trans shorter'.le, fun _ => behind.1.trans_lt shorter'⟩

/-- A name or the character behind it, and then the members: a turn reads something. -/
theorem length_behind {left left' : Left} {symbol : CString} {rest : Left}
    (starts : left = symbol :: rest) (notSpace : symbol ≠ bytes " ")
    (behind : Behind (parseChars [bytes " ", bytes "\x7b", bytes " "] (takeLetters left).2) left') :
    left'.length < left.length := by
  by_cases letter : symbol ∈ asciiLetters
  · have taken : (takeLetters left).2 = (takeLetters rest).2 := by
      rw [starts, takeLetters, if_pos letter]
    have short := (parseChars_takeLetters_suffix [bytes " ", bytes "\x7b", bytes " "] rest).length_le
    rw [taken] at behind
    rw [starts]
    exact Nat.lt_succ_of_le (behind.1.trans short)
  · have taken : (takeLetters left).2 = symbol :: rest := by
      rw [starts, takeLetters, if_neg letter]
    rw [taken, parseChars, List.foldl_cons, parseChar, if_neg notSpace, List.foldl_cons,
      parseChar] at behind
    rw [starts]
    split at behind
    case isTrue =>
      exact Nat.lt_succ_of_le (behind.1.trans (parseChar_suffix _ rest).length_le)
    case isFalse =>
      have same : parseChars [bytes " "] (symbol :: rest) = symbol :: rest := if_neg notSpace
      rw [← parseChars, same] at behind
      exact behind.2 (by simp [parseWs_of_ne notSpace])

theorem settled_parseTokens (tokens : List Token) (left : Left) :
    Settled (fun fuel => parseTokens fuel tokens left) (left.length + 3)
      (Place.names.run left).inValue (fun _ => True) fun _ => false := by
  induction length : left.length using Nat.strong_induction_on generalizing tokens left with
  | _ length' inductionHypothesis =>
    subst length
    apply Settled.succ rfl
    have skipped := (parseWs_suffix left).length_le
    rw [← run_parseWs (show Place.names.next (bytes " ") = .names from rfl) left]
    cases spaces : parseWs left with
    | nil =>
      simp only [parseTokens_end spaces]
      exact .done _ (fun _ _ => rfl) (fun _ => .inr rfl) trivial rfl
    | cons symbol rest =>
      rw [spaces] at skipped
      have notSpace := parseWs_head spaces
      rw [Place.run_cons, next_names_name notSpace]
      by_cases white : symbol ∈ utf8Whitespace
      · simp only [parseTokens_white spaces white, if_pos white, Place.run_failed]
        exact .failed (fun _ _ => rfl) rfl
      · simp only [parseTokens_name spaces white]
        rw [if_neg white, ← Place.run_cons, run_name]
        have short := (parseChars_takeLetters_suffix [bytes " ", bytes "\x7b", bytes " "]
          (symbol :: rest)).length_le
        apply ((settled_parseMembers _ _).mono (by omega)).bind
        intro token behind
        have shorter := (length_behind rfl notSpace behind).trans_le skipped
        have goesOn := inductionHypothesis token.2.length shorter (tokens ++ [token.1]) token.2 rfl
        exact goesOn.mono (by omega)

/-! ## When the parser ends -/

/-- The text ends inside of a value. -/
def EndsInValue (text : Left) : Prop := (Place.names.run text).inValue = true

theorem parse_encode (chars : List Char) (fuel : Nat) (nonempty : chars ≠ []) :
    parse fuel (encode chars) = parseTokens fuel [] (chars.map String.utf8EncodeChar) := by
  simp [parse, load, string2chars_encode, nonempty]

theorem ends_iff {chars : List Char} (nonempty : chars ≠ []) :
    Terminates (encode chars) ↔ ¬ EndsInValue (chars.map String.utf8EncodeChar) := by
  have ends := (settled_parseTokens [] (chars.map String.utf8EncodeChar)).ends_iff fun _ => rfl
  simp only [← parse_encode chars _ nonempty] at ends
  rw [Terminates, ends, EndsInValue, Bool.not_eq_true]

/-- The parser ends on a text exactly when the text does not end inside of a value. -/
theorem terminates_iff (chars : List Char) :
    Terminates (encode chars) ↔ ¬ EndsInValue (chars.map String.utf8EncodeChar) := by
  by_cases empty : chars = []
  · subst empty
    refine ⟨fun _ => Bool.false_ne_true, fun _ => ⟨0, ?_⟩⟩
    simp [parse, load, encode, string2chars]
  · exact ends_iff empty

/-- A value without its quote. -/
theorem not_terminates_unclosed : ¬ Terminates (encode "n \x7b a: \"x".toList) := by
  rw [ends_iff (by decide), not_not]
  change Place.inValue _ = true
  decide +kernel

end Asr2Pass.Itn
