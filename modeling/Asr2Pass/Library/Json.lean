import Asr2Pass.Library.Runs
import Mathlib.Data.List.Forall2

/-! # JSON texts

A machine reads the bytes of a text one after the other.  Its stack holds the arrays and objects
that are open, and its mode is the place in the innermost one.  A text is UTF-8; numbers and the
contents of strings are kept as they are written.
-/

namespace Asr2Pass.Library.Json

inductive Value where
  | null
  | bool (truth : Bool)
  | number (literal : List UInt8)
  | string (content : List UInt8)
  | array (items : List Value)
  | object (members : List (List UInt8 × Value))

/-- A container that is open.  Of an object also the key that was read last. -/
inductive Frame where
  | array (items : List Value)
  | object (members : List (List UInt8 × Value)) (key : List UInt8)

/-! ## Scanners -/

/-- The place in a string: in an escape sequence with so many further digits, or in a character that
    goes on with a byte in a range and so many further bytes. -/
inductive Chars where
  | plain
  | escape
  | hex (further : Nat)
  | tail (low high : UInt8) (further : Nat)
  deriving DecidableEq

def isHexDigit (byte : UInt8) : Bool :=
  (0x30 ≤ byte && byte ≤ 0x39) || (0x41 ≤ byte && byte ≤ 0x46) || (0x61 ≤ byte && byte ≤ 0x66)

/-- The first byte of a character: no control character, and of several bytes only in the shortest
    form, no surrogate and nothing above U+10FFFF. -/
def Chars.start (byte : UInt8) : Option Chars :=
  if byte < 0x20 then none
  else if byte = 0x5c then some .escape
  else if byte < 0x80 then some .plain
  -- Overlong forms, surrogates and what lies beyond Unicode have no first byte or no second one.
  else if byte < 0xc2 then none
  else if byte < 0xe0 then some (.tail 0x80 0xbf 0)
  else if byte = 0xe0 then some (.tail 0xa0 0xbf 1)
  else if byte = 0xed then some (.tail 0x80 0x9f 1)
  else if byte < 0xf0 then some (.tail 0x80 0xbf 1)
  else if byte = 0xf0 then some (.tail 0x90 0xbf 2)
  else if byte < 0xf4 then some (.tail 0x80 0xbf 2)
  else if byte = 0xf4 then some (.tail 0x80 0x8f 2)
  else none

/-- The next byte of a string; not the quote at its end. -/
def Chars.next : Chars → UInt8 → Option Chars
  | .plain, byte => if byte = 0x22 then none else start byte
  | .escape, byte =>
    if byte = 0x75 then some (.hex 3)
    else if byte ∈ [0x22, 0x5c, 0x2f, 0x62, 0x66, 0x6e, 0x72, 0x74] then some .plain
    else none
  | .hex 0, byte => if isHexDigit byte then some .plain else none
  | .hex (further + 1), byte => if isHexDigit byte then some (.hex further) else none
  | .tail low high 0, byte => if low ≤ byte ∧ byte ≤ high then some .plain else none
  | .tail low high (further + 1), byte =>
    if low ≤ byte ∧ byte ≤ high then some (.tail 0x80 0xbf further) else none

/-- The place in a number: what was read last. -/
inductive Numeral where
  | minus
  | zero
  | integer
  | point
  | fraction
  | mark
  | sign
  | exponent
  deriving DecidableEq

def isDecimalDigit (byte : UInt8) : Bool := 0x30 ≤ byte && byte ≤ 0x39

def Numeral.start (byte : UInt8) : Option Numeral :=
  if byte = 0x2d then some .minus
  else if byte = 0x30 then some .zero
  else if isDecimalDigit byte then some .integer
  else none

/-- A fraction or an exponent may follow. -/
def Numeral.extend (byte : UInt8) : Option Numeral :=
  if byte = 0x2e then some .point
  else if byte = 0x65 ∨ byte = 0x45 then some .mark
  else none

def Numeral.next : Numeral → UInt8 → Option Numeral
  | .minus, byte =>
    if byte = 0x30 then some .zero else if isDecimalDigit byte then some .integer else none
  | .zero, byte => extend byte
  | .integer, byte => if isDecimalDigit byte then some .integer else extend byte
  | .point, byte => if isDecimalDigit byte then some .fraction else none
  | .fraction, byte =>
    if isDecimalDigit byte then some .fraction
    else if byte = 0x65 ∨ byte = 0x45 then some .mark
    else none
  | .mark, byte =>
    if byte = 0x2b ∨ byte = 0x2d then some .sign
    else if isDecimalDigit byte then some .exponent
    else none
  | .sign, byte => if isDecimalDigit byte then some .exponent else none
  | .exponent, byte => if isDecimalDigit byte then some .exponent else none

/-- Whether a number may end here. -/
def Numeral.isComplete : Numeral → Bool
  | .zero => true
  | .integer => true
  | .fraction => true
  | .exponent => true
  | _ => false

/-! ## The machine -/

/-- What comes next: `firstItem` and `firstKey` also allow the end of the container. -/
inductive Mode where
  | value
  | firstItem
  | firstKey
  | key
  | colon
  | string (isKey : Bool) (chars : Chars) (content : List UInt8)
  | number (numeral : Numeral) (literal : List UInt8)
  | name (left : List UInt8) (value : Value)
  | after
  | ended (value : Value)

structure State where
  stack : List Frame
  mode : Mode

def isBlank (byte : UInt8) : Bool := byte = 0x20 || byte = 0x09 || byte = 0x0a || byte = 0x0d

/-- A value is read: it goes into the innermost container. -/
def put (stack : List Frame) (value : Value) : State :=
  match stack with
  | [] => ⟨[], .ended value⟩
  | .array items :: stack => ⟨.array (items ++ [value]) :: stack, .after⟩
  | .object members key :: stack => ⟨.object (members ++ [(key, value)]) key :: stack, .after⟩

/-- The first byte of a value. -/
def openValue (stack : List Frame) (byte : UInt8) : Option State :=
  if byte = 0x7b then some ⟨.object [] [] :: stack, .firstKey⟩
  else if byte = 0x5b then some ⟨.array [] :: stack, .firstItem⟩
  else if byte = 0x22 then some ⟨stack, .string false .plain []⟩
  else if byte = 0x74 then some ⟨stack, .name [0x72, 0x75, 0x65] (.bool true)⟩
  else if byte = 0x66 then some ⟨stack, .name [0x61, 0x6c, 0x73, 0x65] (.bool false)⟩
  else if byte = 0x6e then some ⟨stack, .name [0x75, 0x6c, 0x6c] .null⟩
  else (Numeral.start byte).map fun numeral => ⟨stack, .number numeral [byte]⟩

/-- A byte after a value. -/
def proceed (state : State) (byte : UInt8) : Option State :=
  if isBlank byte then some state
  else
    match state.stack with
    | [] => none
    | .array items :: stack =>
      if byte = 0x2c then some ⟨.array items :: stack, .value⟩
      else if byte = 0x5d then some (put stack (.array items))
      else none
    | .object members key :: stack =>
      if byte = 0x2c then some ⟨.object members key :: stack, .key⟩
      else if byte = 0x7d then some (put stack (.object members))
      else none

/-- The end of a string. -/
def closeString (stack : List Frame) (isKey : Bool) (content : List UInt8) : Option State :=
  match isKey, stack with
  | false, stack => some (put stack (.string content))
  | true, .object members _ :: stack => some ⟨.object members content :: stack, .colon⟩
  | true, _ => none

def step (state : State) (byte : UInt8) : Option State :=
  match state.mode with
  | .value => if isBlank byte then some state else openValue state.stack byte
  | .firstItem =>
    if isBlank byte then some state
    else if byte = 0x5d then proceed state byte
    else openValue state.stack byte
  | .firstKey =>
    if isBlank byte then some state
    else if byte = 0x7d then proceed state byte
    else if byte = 0x22 then some ⟨state.stack, .string true .plain []⟩
    else none
  | .key =>
    if isBlank byte then some state
    else if byte = 0x22 then some ⟨state.stack, .string true .plain []⟩
    else none
  | .colon =>
    if isBlank byte then some state
    else if byte = 0x3a then some ⟨state.stack, .value⟩
    else none
  | .string isKey chars content =>
    if chars = .plain ∧ byte = 0x22 then closeString state.stack isKey content
    else
      (chars.next byte).map fun chars =>
        ⟨state.stack, .string isKey chars (content ++ [byte])⟩
  | .number numeral literal =>
    match numeral.next byte with
    | some numeral => some ⟨state.stack, .number numeral (literal ++ [byte])⟩
    | none =>
      if numeral.isComplete then proceed (put state.stack (.number literal)) byte else none
  | .name left value =>
    match left with
    | [] => none
    | expected :: left =>
      if byte ≠ expected then none
      else if left = [] then some (put state.stack value)
      else some ⟨state.stack, .name left value⟩
  | .after => proceed state byte
  | .ended _ => proceed state byte

def read : State → List UInt8 → Option State := run step

/-- The value at the end of the text. -/
def State.result (state : State) : Option Value :=
  match state.stack, state.mode with
  | [], .ended value => some value
  | [], .number numeral literal => if numeral.isComplete then some (.number literal) else none
  | _, _ => none

def parse (text : List UInt8) : Option Value := (read ⟨[], .value⟩ text).bind State.result

/-! ## Strings -/

section
variable {stack : List Frame} {mode : Mode} {text content : List UInt8}

theorem read_append (state : State) (text more : List UInt8) :
    read state (text ++ more) = (read state text).bind fun state => read state more :=
  run_append state text more

theorem read_singleton (state : State) (byte : UInt8) : read state [byte] = step state byte :=
  Option.bind_fun_some (step state byte)

/-- The scanner of a string, up to its closing quote. -/
def spell : Chars → List UInt8 → Option Chars := run Chars.next

theorem spell_append (chars : Chars) (text more : List UInt8) :
    spell chars (text ++ more) = (spell chars text).bind fun chars => spell chars more :=
  run_append chars text more

/-- A text that may stand in a string as it is; a quote in it would have to be escaped. -/
def IsContent (text : List UInt8) : Prop := 0x22 ∉ text ∧ spell .plain text = some .plain

theorem isContent_nil : IsContent [] := ⟨List.not_mem_nil, rfl⟩

theorem IsContent.append {more : List UInt8} (first : IsContent text) (second : IsContent more) :
    IsContent (text ++ more) := by
  constructor
  · intro quote
    cases List.mem_append.mp quote with
    | inl inFirst => exact first.1 inFirst
    | inr inSecond => exact second.1 inSecond
  · rw [spell_append, first.2]
    exact second.2

/-- Without a quote, a string goes on as far as its scanner does. -/
theorem read_unquoted (isKey : Bool) (chars : Chars) (content : List UInt8)
    (unquoted : 0x22 ∉ text) :
    read ⟨stack, .string isKey chars content⟩ text =
      (spell chars text).map fun chars => ⟨stack, .string isKey chars (content ++ text)⟩ := by
  induction text generalizing chars content with
  | nil =>
    rw [List.append_nil]
    rfl
  | cons byte rest inductionHypothesis =>
    obtain ⟨notQuote, unquoted⟩ := not_or.mp (mt List.mem_cons.mpr unquoted)
    have stepped : step ⟨stack, .string isKey chars content⟩ byte =
        (chars.next byte).map fun chars => ⟨stack, .string isKey chars (content ++ [byte])⟩ :=
      if_neg fun closes => notQuote closes.2.symm
    unfold read spell
    rw [run_cons, run_cons, stepped]
    cases chars.next byte with
    | none => rfl
    | some chars =>
      rw [List.append_cons content byte rest]
      exact inductionHypothesis chars _ unquoted

/-! ## Values -/

/-- A value may begin. -/
def Mode.IsOpen (mode : Mode) : Prop := mode = .value ∨ mode = .firstItem

/-- Where a value may begin, the text is read as the value. -/
def Closed (text : List UInt8) (value : Value) : Prop :=
  ∀ ⦃stack mode⦄, mode.IsOpen → read ⟨stack, mode⟩ text = some (put stack value)

/-- The bytes behind a value in a container. -/
def isStop (byte : UInt8) : Bool := byte = 0x2c || byte = 0x5d || byte = 0x7d

/-- The text is read as the value once it is known not to go on. -/
def Reads (text : List UInt8) (value : Value) : Prop :=
  ∀ ⦃stack mode byte⦄, mode.IsOpen → isStop byte →
    read ⟨stack, mode⟩ (text ++ [byte]) = proceed (put stack value) byte

theorem step_put (value : Value) (byte : UInt8) :
    step (put stack value) byte = proceed (put stack value) byte := by
  cases stack with
  | nil => rfl
  | cons frame stack => cases frame <;> rfl

theorem Closed.reads {value : Value} (closed : Closed text value) : Reads text value := by
  intro stack mode byte isOpen _
  rw [read_append, closed isOpen, Option.bind_some, read_singleton, step_put]

/-- The first byte of a value, where it may begin. -/
theorem step_open (isOpen : mode.IsOpen) {byte : UInt8} (notBlank : isBlank byte = false)
    (notClose : byte ≠ 0x5d) : step ⟨stack, mode⟩ byte = openValue stack byte := by
  rcases isOpen with rfl | rfl
  · exact if_neg (ne_true_of_eq_false notBlank)
  · exact (if_neg (ne_true_of_eq_false notBlank)).trans (if_neg notClose)

theorem closed_string (isContent : IsContent content) :
    Closed (0x22 :: content ++ [0x22]) (.string content) := by
  intro stack mode isOpen
  have opened : read ⟨stack, mode⟩ [0x22] = some ⟨stack, .string false .plain []⟩ := by
    rcases isOpen with rfl | rfl <;> rfl
  rw [← List.singleton_append, List.append_assoc, read_append, opened, Option.bind_some,
    read_append, read_unquoted _ _ _ isContent.1, isContent.2]
  rfl

/-- No number goes on with a byte behind it. -/
theorem Numeral.next_stop (numeral : Numeral) {byte : UInt8} (stop : isStop byte) :
    numeral.next byte = none := by
  simp only [isStop, Bool.or_eq_true, decide_eq_true_eq] at stop
  rcases stop with (rfl | rfl) | rfl
  all_goals cases numeral <;> rfl

theorem read_numeral {numeral last : Numeral} {literal : List UInt8}
    (ran : run Numeral.next numeral text = some last) :
    read ⟨stack, .number numeral literal⟩ text = some ⟨stack, .number last (literal ++ text)⟩ := by
  induction text generalizing numeral literal with
  | nil =>
    cases ran
    rw [List.append_nil]
    rfl
  | cons digit rest inductionHypothesis =>
    obtain ⟨next, stepped, ran⟩ := run_cons_eq_some.mp ran
    have turned : step ⟨stack, .number numeral literal⟩ digit =
        some ⟨stack, .number next (literal ++ [digit])⟩ := by
      unfold step
      simp only [stepped]
    unfold read
    rw [run_cons, turned, List.append_cons literal digit rest]
    exact inductionHypothesis ran

theorem reads_number {first : UInt8} {rest : List UInt8} {numeral last : Numeral}
    (started : Numeral.start first = some numeral) (ran : run Numeral.next numeral rest = some last)
    (complete : last.isComplete) : Reads (first :: rest) (.number (first :: rest)) := by
  intro stack mode byte isOpen stop
  have other : ∀ byte ∈ [0x20, 0x09, 0x0a, 0x0d, 0x5b, 0x5d, 0x7b, 0x22, 0x74, 0x66, 0x6e],
      first ≠ byte := by
    rintro byte member rfl
    have none : Numeral.start first = none := by
      simp only [List.mem_cons, List.not_mem_nil, or_false] at member
      rcases member with rfl | rfl | rfl | rfl | rfl | rfl | rfl | rfl | rfl | rfl | rfl
      all_goals rfl
    rw [none] at started
    cases started
  have opened : step ⟨stack, mode⟩ first = some ⟨stack, .number numeral [first]⟩ := by
    rw [step_open isOpen]
    · simp [openValue, other, started]
    · simp [isBlank, other]
    · exact other _ (by simp)
  have ended : step ⟨stack, .number last (first :: rest)⟩ byte =
      proceed (put stack (.number (first :: rest))) byte := by
    unfold step
    simp only [last.next_stop stop, complete, if_true]
  rw [read_append]
  unfold read at *
  rw [run_cons, opened, Option.bind_some, ← read, read_numeral ran, Option.bind_some]
  exact (read_singleton _ _).trans ended

/-! ## Containers -/

section
variable {texts : List (List UInt8)} {values items : List Value}

/-- Values with a comma behind each. -/
theorem read_commas (reads : List.Forall₂ Reads texts values) (isOpen : mode.IsOpen) :
    read ⟨.array items :: stack, mode⟩ (texts.flatMap (· ++ [0x2c])) =
      some ⟨.array (items ++ values) :: stack, if texts = [] then mode else .value⟩ := by
  induction reads generalizing items mode with
  | nil =>
    rw [List.append_nil]
    rfl
  | cons first others inductionHypothesis =>
    rename_i text value texts values
    have turned : read ⟨.array items :: stack, mode⟩ (text ++ [0x2c]) =
        some ⟨.array (items ++ [value]) :: stack, .value⟩ := first isOpen rfl
    rw [List.flatMap_cons, read_append, turned, Option.bind_some, inductionHypothesis (.inl rfl),
      List.append_assoc, List.singleton_append, if_neg (List.cons_ne_nil _ _), ite_self]

/-- Values with commas between them, up to the end of the array. -/
theorem read_items (reads : List.Forall₂ Reads texts values) (nonempty : texts ≠ [])
    (isOpen : mode.IsOpen) :
    read ⟨.array items :: stack, mode⟩ (List.intercalate [0x2c] texts ++ [0x5d]) =
      some (put stack (.array (items ++ values))) := by
  induction reads generalizing items mode with
  | nil => exact absurd rfl nonempty
  | cons first others inductionHypothesis =>
    rename_i text value texts values
    cases others with
    | nil =>
      rw [List.intercalate_singleton]
      exact first isOpen rfl
    | cons =>
      have turned : read ⟨.array items :: stack, mode⟩ (text ++ [0x2c]) =
          some ⟨.array (items ++ [value]) :: stack, .value⟩ := first isOpen rfl
      rw [List.intercalate_cons_cons, List.append_assoc, read_append, turned, Option.bind_some,
        inductionHypothesis (List.cons_ne_nil _ _) (.inl rfl), List.append_assoc]
      rfl

theorem closed_array (reads : List.Forall₂ Reads texts values) :
    Closed (0x5b :: List.intercalate [0x2c] texts ++ [0x5d]) (.array values) := by
  intro stack mode isOpen
  have opened : read ⟨stack, mode⟩ [0x5b] = some ⟨.array [] :: stack, .firstItem⟩ := by
    rcases isOpen with rfl | rfl <;> rfl
  rw [← List.singleton_append, List.append_assoc, read_append, opened, Option.bind_some]
  cases reads with
  | nil => rfl
  | cons first others =>
    exact read_items (.cons first others) (List.cons_ne_nil _ _) (.inr rfl)

/-- A key with a value. -/
structure Member where
  key : List UInt8
  text : List UInt8
  value : Value

def Member.spelled (member : Member) : List UInt8 :=
  0x22 :: member.key ++ [0x22, 0x3a] ++ member.text

def Member.entry (member : Member) : List UInt8 × Value := (member.key, member.value)

def Member.Reads (member : Member) : Prop :=
  IsContent member.key ∧ Json.Reads member.text member.value

variable {done : List (List UInt8 × Value)} {old : List UInt8}

/-- A key may begin. -/
def Mode.IsKey (mode : Mode) : Prop := mode = .firstKey ∨ mode = .key

theorem read_key {key : List UInt8} (isContent : IsContent key) (isKey : mode.IsKey) :
    read ⟨.object done old :: stack, mode⟩ (0x22 :: key ++ [0x22, 0x3a]) =
      some ⟨.object done key :: stack, .value⟩ := by
  have opened : read ⟨.object done old :: stack, mode⟩ [0x22] =
      some ⟨.object done old :: stack, .string true .plain []⟩ := by
    rcases isKey with rfl | rfl <;> rfl
  have parts : 0x22 :: key ++ [0x22, 0x3a] = [0x22] ++ (key ++ [0x22, 0x3a]) := rfl
  rw [parts, read_append, opened, Option.bind_some, read_append,
    read_unquoted _ _ _ isContent.1, isContent.2]
  rfl

theorem Member.Reads.read {member : Member} (reads : member.Reads) (isKey : mode.IsKey)
    {byte : UInt8} (stop : isStop byte) :
    Json.read ⟨.object done old :: stack, mode⟩ (member.spelled ++ [byte]) =
      proceed ⟨.object (done ++ [member.entry]) member.key :: stack, .after⟩ byte := by
  unfold Member.spelled
  rw [List.append_assoc, read_append, read_key reads.1 isKey]
  exact reads.2 (.inl rfl) stop

theorem read_members {members : List Member} (reads : ∀ member ∈ members, member.Reads)
    (nonempty : members ≠ []) (isKey : mode.IsKey) :
    read ⟨.object done old :: stack, mode⟩
        (List.intercalate [0x2c] (members.map Member.spelled) ++ [0x7d]) =
      some (put stack (.object (done ++ members.map Member.entry))) := by
  induction members generalizing done old mode with
  | nil => exact absurd rfl nonempty
  | cons member members inductionHypothesis =>
    obtain ⟨first, others⟩ := List.forall_mem_cons.mp reads
    cases members with
    | nil =>
      rw [List.map_singleton, List.intercalate_singleton]
      exact first.read isKey rfl
    | cons next members =>
      have turned := @Member.Reads.read stack mode done old member first isKey 0x2c rfl
      rw [List.map_cons, List.map_cons, List.intercalate_cons_cons, List.append_assoc, read_append,
        turned]
      have rest := @inductionHypothesis .key (done ++ [member.entry]) member.key others
        (List.cons_ne_nil _ _) (.inr rfl)
      rw [List.append_assoc] at rest
      exact rest

theorem closed_object {members : List Member} (reads : ∀ member ∈ members, member.Reads)
    (nonempty : members ≠ []) :
    Closed (0x7b :: List.intercalate [0x2c] (members.map Member.spelled) ++ [0x7d])
      (.object (members.map Member.entry)) := by
  intro stack mode isOpen
  have opened : read ⟨stack, mode⟩ [0x7b] = some ⟨.object [] [] :: stack, .firstKey⟩ := by
    rcases isOpen with rfl | rfl <;> rfl
  rw [← List.singleton_append, List.append_assoc, read_append, opened, Option.bind_some]
  exact read_members reads nonempty (.inl rfl)

end

/-! ## Texts that are refused -/

/-- Behind a value. -/
def State.IsPast (state : State) : Prop := state.mode = .after ∨ ∃ value, state.mode = .ended value

theorem put_isPast (stack : List Frame) (value : Value) : (put stack value).IsPast := by
  cases stack with
  | nil => exact .inr ⟨value, rfl⟩
  | cons frame stack => cases frame <;> exact .inl rfl

theorem State.IsPast.step {state : State} (past : state.IsPast) (byte : UInt8) :
    Json.step state byte = proceed state byte := by
  obtain ⟨stack, mode⟩ := state
  rcases past with rfl | ⟨value, rfl⟩ <;> rfl

/-- Only a comma leads on from a value to the next one. -/
theorem State.IsPast.proceed {state next : State} {byte : UInt8} (past : state.IsPast)
    (notComma : byte ≠ 0x2c) (proceeded : Json.proceed state byte = some next) : next.IsPast := by
  obtain ⟨stack, mode⟩ := state
  unfold Json.proceed at proceeded
  split at proceeded
  · cases proceeded
    exact past
  · cases stack with
    | nil => cases proceeded
    | cons frame stack =>
      cases frame with
      | array items =>
        simp only [Option.ite_none_right_eq_some, Option.some.injEq] at proceeded
        rw [← proceeded.2]
        exact put_isPast _ _
      | object members key =>
        simp only [Option.ite_none_right_eq_some, Option.some.injEq] at proceeded
        rw [← proceeded.2]
        exact put_isPast _ _

/-- No string follows a value without a comma. -/
theorem State.IsPast.read_quote {state : State} (past : state.IsPast) (noComma : 0x2c ∉ text)
    (more : List UInt8) : read state (text ++ 0x22 :: more) = none := by
  induction text generalizing state with
  | nil =>
    have refused : Json.proceed state 0x22 = none := by
      obtain ⟨stack, mode⟩ := state
      cases stack with
      | nil => rfl
      | cons frame stack => cases frame <;> rfl
    unfold read
    rw [List.nil_append, run_cons, past.step, refused, Option.bind_none]
  | cons byte rest inductionHypothesis =>
    obtain ⟨notComma, noComma⟩ := not_or.mp (mt List.mem_cons.mpr noComma)
    unfold read
    rw [List.cons_append, run_cons, past.step]
    cases proceeded : Json.proceed state byte with
    | none => rfl
    | some next => exact inductionHypothesis (past.proceed (Ne.symm notComma) proceeded) noComma

end

end Asr2Pass.Library.Json
