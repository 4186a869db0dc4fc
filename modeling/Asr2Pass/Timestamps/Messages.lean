import Asr2Pass.Library.BinaryRounding
import Asr2Pass.Text.Splitting
import Asr2Pass.Timestamps.PostProcess

/-! # Reading a message back

The runtime cuts a recognizer's message at `" | "` and the second piece at its commas.  Three
functions do so, and one of them checks how many pieces there are.  They answer `none` where they
read past the end of the pieces, and where `std::stof` throws.  Two add the start of the segment in
`float`, one in `double`.
-/

namespace Asr2Pass.Timestamps

open Library
open Text (CString bytes contains find split splitStr stof printed toStringFloat)

/-- The loop over `msg_stamp`. -/
def readPairs : List CString → Option (List Stamp)
  | first :: second :: rest => do
    let begin ← stof first
    let last ← stof second
    return (begin, last) :: (← readPairs rest)
  | _ => some []

/-- With no piece `msg_stamp.size()-1` is the largest `size_t`, and the loop reads `msg_stamp[0]`. -/
def readStamps (checksSize : Bool) (msgStamp : List CString) : Option (List Stamp) :=
  if checksSize ∧ msgStamp.length ≤ 1 then some []
  else if msgStamp = [] then none
  else readPairs msgStamp

/-- `msg_vec[0]`, and `begin` and `end` in every turn of the loop; `sum` adds the start. -/
def readMessage (checksSize : Bool) (sum : ℚ → ℚ) (msg : CString) :
    Option (CString × List Stamp) :=
  match splitStr msg (bytes " | ") with
  | [] => some ([], [])
  | [text] => some (text, [])
  | text :: stamps :: _ =>
    (readStamps checksSize (split stamps 44)).map fun pairs => (text, pairs.map (Prod.map sum sum))

/-- `std::stof(..) + msg_stimes[idx]`. -/
def offlineSum (start number : ℚ) : ℚ := toFloat (toFloat number + start)

/-- `std::stof(..) + float(frame->global_start)/1000.0`. -/
def tpassSum (globalStart : Int) (number : ℚ) : ℚ :=
  toFloat (toDouble (toFloat number + toDouble (toFloat globalStart / 1000)))

theorem tpassSum_mono (number : ℚ) {first second : Int} (le : first ≤ second) :
    tpassSum first number ≤ tpassSum second number := by
  have start : toFloat first ≤ toFloat second := monotone_toFloat (Rat.intCast_le_intCast.mpr le)
  have thousand : (0 : ℚ) ≤ 1000 := by decide
  have seconds := monotone_toDouble (div_le_div_of_nonneg_right start thousand)
  exact monotone_toFloat (monotone_toDouble (Rat.add_le_add_left.mpr seconds))

/-- How `FunOfflineInferBuffer` reads. -/
def funOfflineInferBufferRead (start : ℚ) : CString → Option (CString × List Stamp) :=
  readMessage true (offlineSum start)

/-- How `FunOfflineInfer` reads. -/
def funOfflineInferRead (start : ℚ) : CString → Option (CString × List Stamp) :=
  readMessage false (offlineSum start)

/-- How `FunTpassInferBuffer` reads. -/
def funTpassInferBufferRead (globalStart : Int) : CString → Option (CString × List Stamp) :=
  readMessage false (tpassSum globalStart)

/-- `(float)(frame->GetStart()) / dest_sample_rate` of a segment that begins at `ms` milliseconds of
    `khz` samples. -/
def startTime (khz : Nat) (ms : Int) : ℚ := roundQuotient 24 (ms * khz) (1000 * khz : Nat)

/-! ## What is to be read -/

/-- The pairs of the words, as they are printed. -/
def printedPairs (words : List Word) : List Stamp :=
  words.map fun word => (printed word.stamp.1, printed word.stamp.2)

/-- Pairs with the start of a segment added to them. -/
def fromStart (sum : ℚ → ℚ) (pairs : List Stamp) : List Stamp := pairs.map (Prod.map sum sum)

/-- Of a segment that begins at `ms` milliseconds, `khz` samples each, all readers extract the same
    pairs, one for every word: its own. -/
def ReadsBack (khz : Nat) (ms : Int) (words : List Word) : Prop :=
  ∀ read ∈ [funOfflineInferBufferRead (startTime khz ms), funOfflineInferRead (startTime khz ms),
      funTpassInferBufferRead ms],
    (read (message words)).map (·.2) =
      some (fromStart (offlineSum (startTime khz ms)) (printedPairs words))

/-- The pieces are numbers, two for every pair. -/
def Spells (pieces : List CString) (pairs : List Stamp) : Prop :=
  pieces.length / 2 = pairs.length ∧
    ∀ position pair, pairs[position]? = some pair →
      pieces[2 * position]?.bind stof = some pair.1 ∧
        pieces[2 * position + 1]?.bind stof = some pair.2

/-- With the start of the segment, all readers make the times of the words of these numbers. -/
def SameTimes (khz : Nat) (ms : Int) (words : List Word) (pairs : List Stamp) : Prop :=
  ∀ sum ∈ [offlineSum (startTime khz ms), tpassSum ms],
    fromStart sum pairs = fromStart (offlineSum (startTime khz ms)) (printedPairs words)

/-- There is a word, and the text has no `" | "`, also not with the beginning of the separator; or
    what stands behind its first one happens to be the numbers of the words.  `float` and `double` sums
    agree on the numbers. -/
def Separable (khz : Nat) (ms : Int) (words : List Word) : Prop :=
  words ≠ [] ∧ ∃ pairs, SameTimes khz ms words pairs ∧
    (¬ contains (wordsText words ++ bytes " |") (bytes " | ") ∧ pairs = printedPairs words ∨
      contains (wordsText words ++ bytes " |") (bytes " | ") ∧
        ∃ piece, (splitStr (wordsText words ++ bytes " | ") (bytes " | "))[1]? = some piece ∧
          Spells (split piece 44) pairs)

/-! ## Numbers -/

theorem spells_cons {first second : CString} {rest : List CString} {pair : Stamp}
    {pairs : List Stamp} :
    Spells (first :: second :: rest) (pair :: pairs) ↔
      stof first = some pair.1 ∧ stof second = some pair.2 ∧ Spells rest pairs := by
  unfold Spells
  have halves : (first :: second :: rest).length / 2 = (pair :: pairs).length ↔
      rest.length / 2 = pairs.length := by
    simp only [List.length_cons]
    omega
  rw [halves]
  constructor
  · rintro ⟨length, all⟩
    have here := all 0 pair rfl
    refine ⟨here.1, here.2, length, ?_⟩
    intro position next found
    exact all (position + 1) next found
  · rintro ⟨begin, last, length, all⟩
    refine ⟨length, ?_⟩
    intro position next found
    cases position with
    | zero =>
      cases found
      exact ⟨begin, last⟩
    | succ position => exact all position next found

theorem readPairs_eq_some {pieces : List CString} {pairs : List Stamp} :
    readPairs pieces = some pairs ↔ Spells pieces pairs := by
  induction pieces using readPairs.induct generalizing pairs with
  | case1 first second rest inductionHypothesis =>
    unfold readPairs
    simp only [Option.bind_eq_bind, Option.bind_eq_some_iff, Option.pure_def, Option.some.injEq]
    cases pairs with
    | nil =>
      constructor
      · rintro ⟨_, _, _, _, _, _, wrong⟩
        cases wrong
      · rintro ⟨length, -⟩
        simp only [List.length_cons, List.length_nil] at length
        omega
    | cons pair pairs =>
      rw [spells_cons, ← inductionHypothesis]
      constructor
      · rintro ⟨begin, readBegin, last, readLast, others, readOthers, same⟩
        obtain ⟨rfl, rfl⟩ := List.cons.inj same
        exact ⟨readBegin, readLast, readOthers⟩
      · rintro ⟨readBegin, readLast, readOthers⟩
        exact ⟨_, readBegin, _, readLast, _, readOthers, rfl⟩
  | case2 pieces few =>
    have few : pieces.length / 2 = 0 ∧ readPairs pieces = some [] := by
      match pieces, few with
      | [], _ => exact ⟨rfl, rfl⟩
      | [_], _ => exact ⟨by simp, rfl⟩
      | first :: second :: rest, few => exact absurd rfl (few first second rest)
    rw [few.2]
    unfold Spells
    rw [few.1]
    constructor
    · rintro ⟨⟩
      exact ⟨rfl, fun position pair found => by cases found⟩
    · rintro ⟨length, -⟩
      rw [List.length_eq_zero_iff.mp length.symm]

/-- The pieces between the commas of the printed timestamps. -/
def pieces (words : List Word) : List CString :=
  words.flatMap fun word =>
    [toStringFloat word.stamp.1, bytes " " ++ toStringFloat word.stamp.2]

theorem spells_pieces (words : List Word) : Spells (pieces words) (printedPairs words) := by
  induction words with
  | nil => exact ⟨rfl, fun position pair found => by cases found⟩
  | cons word words inductionHypothesis =>
    apply spells_cons.mpr
    refine ⟨Text.stof_toStringFloat _, ?_, inductionHypothesis⟩
    rw [Text.stof_space]
    exact Text.stof_toStringFloat _

theorem intercalate_pieces (words : List Word) :
    List.intercalate [44] (pieces words) = stampsText words := by
  induction words with
  | nil => rfl
  | cons word words inductionHypothesis =>
    have stamp : stampText word.stamp =
        toStringFloat word.stamp.1 ++ [44] ++ (bytes " " ++ toStringFloat word.stamp.2) := by
      unfold stampText
      rw [List.append_assoc, List.append_assoc]
      rfl
    cases words with
    | nil =>
      change List.intercalate [44] [_, _] = List.intercalate [44] [stampText word.stamp]
      rw [List.intercalate_cons_cons, List.intercalate_singleton, List.intercalate_singleton, stamp]
    | cons next words =>
      have more : pieces (next :: words) ≠ [] := List.cons_ne_nil _ _
      have joined : stampsText (word :: next :: words) =
          stampText word.stamp ++ [44] ++ stampsText (next :: words) :=
        List.intercalate_cons_cons
      change List.intercalate [44] (_ :: _ :: pieces (next :: words)) = _
      rw [List.intercalate_cons_cons, List.intercalate_cons_of_ne_nil more, inductionHypothesis,
        joined, stamp]
      simp only [List.append_assoc]

/-- The bytes of a piece. -/
theorem mem_piece {words : List Word} {piece : CString} {byte : UInt8} (inside : piece ∈ pieces words)
    (member : byte ∈ piece) : byte = 32 ∨ byte = 45 ∨ byte = 46 ∨ Text.isDigit 10 byte := by
  obtain ⟨word, -, here⟩ := List.mem_flatMap.mp inside
  rcases List.mem_cons.mp here with rfl | here
  · exact Or.inr (Text.mem_toStringFloat member)
  · rw [List.mem_singleton.mp here] at member
    cases List.mem_append.mp member with
    | inl space => exact Or.inl (List.mem_singleton.mp space)
    | inr number => exact Or.inr (Text.mem_toStringFloat number)

theorem split_stampsText {words : List Word} (emits : words ≠ []) :
    split (stampsText words) 44 = pieces words := by
  rw [← intercalate_pieces]
  apply Text.split_intercalate
  · intro piece inside comma
    rcases mem_piece inside comma with wrong | wrong | wrong | wrong
    all_goals exact absurd wrong (by decide)
  · obtain ⟨others, last, rfl⟩ := List.eq_nil_or_concat words |>.resolve_left emits
    refine ⟨bytes " " ++ toStringFloat last.stamp.2, ?_, List.cons_ne_nil _ _⟩
    simp [pieces]

/-- There is no separator in the timestamps. -/
theorem bar_not_mem (words : List Word) : 124 ∉ stampsText words := by
  intro bar
  rw [← intercalate_pieces] at bar
  rcases Text.mem_intercalate bar with wrong | ⟨piece, inside, here⟩
  · exact absurd wrong (by decide)
  · rcases mem_piece inside here with wrong | wrong | wrong | wrong
    all_goals exact absurd wrong (by decide)

/-! ## Which piece is read -/

theorem readStamps_eq_some {checksSize : Bool} {msgStamp : List CString} {pairs : List Stamp}
    (there : msgStamp ≠ []) : readStamps checksSize msgStamp = some pairs ↔ Spells msgStamp pairs := by
  unfold readStamps
  rw [if_neg there]
  split
  · rename_i few
    have none : msgStamp.length / 2 = 0 := by omega
    unfold Spells
    rw [none]
    constructor
    · rintro ⟨⟩
      exact ⟨rfl, fun position pair found => by cases found⟩
    · rintro ⟨length, -⟩
      rw [List.length_eq_zero_iff.mp length.symm]
  · rw [readPairs_eq_some]

theorem Spells.unique {pieces : List CString} {pairs pairs' : List Stamp}
    (spelled : Spells pieces pairs) (spelled' : Spells pieces pairs') : pairs = pairs' :=
  Option.some.inj ((readPairs_eq_some.mpr spelled).symm.trans (readPairs_eq_some.mpr spelled'))

/-- Only the second piece is read. -/
theorem readsBack_iff_spells {khz : Nat} {ms : Int} {words : List Word} {piece : CString}
    (second : (splitStr (message words) (bytes " | "))[1]? = some piece) :
    ReadsBack khz ms words ↔
      split piece 44 ≠ [] ∧ ∃ pairs, Spells (split piece 44) pairs ∧ SameTimes khz ms words pairs := by
  -- The readers differ in a check and in how they add the start.
  have read : ∀ checksSize sum, (readMessage checksSize sum (message words)).map (·.2) =
      (readStamps checksSize (split piece 44)).map (fromStart sum) := by
    intro checksSize sum
    unfold readMessage
    cases pieces : splitStr (message words) (bytes " | ") with
    | nil => simp [pieces] at second
    | cons text rest =>
      cases rest with
      | nil => simp [pieces] at second
      | cons stamps rest =>
        rw [pieces] at second
        cases second
        rw [Option.map_map]
        rfl
  unfold ReadsBack SameTimes
  simp only [List.forall_mem_cons, List.not_mem_nil, false_imp_iff, forall_const, and_true,
    funOfflineInferBufferRead, funOfflineInferRead, funTpassInferBufferRead, read]
  constructor
  · rintro ⟨-, offline, tpass⟩
    have there : split piece 44 ≠ [] := by
      intro none
      rw [none] at offline
      cases offline
    obtain ⟨pairs, spelled, same⟩ := Option.map_eq_some_iff.mp offline
    obtain ⟨pairs', spelled', same'⟩ := Option.map_eq_some_iff.mp tpass
    rw [readStamps_eq_some there] at spelled spelled'
    rw [← spelled.unique spelled'] at same'
    exact ⟨there, pairs, spelled, same, same'⟩
  · rintro ⟨there, pairs, spelled, same, same'⟩
    simp only [(readStamps_eq_some there).mpr spelled, Option.map_some, same, same', and_self]

theorem separator_ne_nil : bytes " | " ≠ [] := List.cons_ne_nil _ _

/-- A text without the separator is the first piece. -/
theorem splitStr_message {words : List Word}
    (plain : ¬ contains (wordsText words ++ bytes " |") (bytes " | ")) :
    splitStr (message words) (bytes " | ") = [wordsText words, stampsText words] := by
  have absent : find (bytes " | ") (wordsText words ++ (bytes " | ").dropLast) = none := by
    rw [contains, Bool.not_eq_true, Option.isSome_eq_false_iff, Option.isNone_iff_eq_none] at plain
    exact plain
  have first := Text.find_join separator_ne_nil absent (stampsText words)
  have last : find (bytes " | ") (stampsText words) = none :=
    Text.find_of_not_mem (by decide : (124 : UInt8) ∈ bytes " | ") (bar_not_mem words)
  unfold message
  rw [Text.splitStr_some separator_ne_nil first, List.append_assoc, List.take_left,
    ← List.append_assoc, ← List.length_append, List.drop_left, Text.splitStr_none last]

/-- The second piece after a place of the separator begins where the separator ends. -/
theorem second_piece {text : CString} {position : Nat}
    (found : find (bytes " | ") text = some position) :
    (splitStr text (bytes " | "))[1]? = (splitStr (text.drop (position + 3)) (bytes " | ")).head? := by
  rw [Text.splitStr_some separator_ne_nil found, List.getElem?_cons_succ, List.head?_eq_getElem?]
  rfl

theorem splitStr_bar {more : CString} (plain : 124 ∉ more) :
    splitStr (bytes "| " ++ more) (bytes " | ") = [bytes "| " ++ more] := by
  apply Text.splitStr_none
  have after : find (bytes " | ") (bytes " " ++ more) = none := by
    apply Text.find_of_not_mem (by decide : (124 : UInt8) ∈ bytes " | ")
    intro bar
    cases List.mem_append.mp bar with
    | inl wrong => exact absurd wrong (by decide)
    | inr inside => exact plain inside
  change find _ (124 :: (bytes " " ++ more)) = none
  unfold find
  rw [if_neg (show ¬ (bytes " | ").isPrefixOf (124 :: (bytes " " ++ more)) from Bool.false_ne_true),
    after]
  rfl

theorem second_piece_ne_none {text : CString}
    (separator : contains (text ++ bytes " |") (bytes " | ")) :
    (splitStr (text ++ bytes " | ") (bytes " | "))[1]? ≠ none := by
  obtain ⟨position, found⟩ := Option.isSome_iff_exists.mp separator
  have begins := Text.find_append separator_ne_nil (bytes " ") found
  rw [List.append_assoc] at begins
  rw [show text ++ bytes " | " = text ++ (bytes " |" ++ bytes " ") from rfl, second_piece begins]
  rw [Ne, List.head?_eq_none_iff]
  exact Text.splitStr_ne_nil _ _

/-- Where the text has the separator, only the text decides what the second piece is; or it ends
    with the beginning of the separator, and the rest of the message is the second piece. -/
theorem second_piece_of_contains {words : List Word}
    (separator : contains (wordsText words ++ bytes " |") (bytes " | ")) :
    (splitStr (message words) (bytes " | "))[1]? =
        (splitStr (wordsText words ++ bytes " | ") (bytes " | "))[1]? ∨
      (splitStr (message words) (bytes " | "))[1]? = some (bytes "| " ++ stampsText words) ∧
        (splitStr (wordsText words ++ bytes " | ") (bytes " | "))[1]? = some (bytes "| ") := by
  generalize textIs : wordsText words = text at separator
  have messageIs : message words = text ++ bytes " | " ++ stampsText words := by
    rw [message, textIs]
  obtain ⟨position, found⟩ := Option.isSome_iff_exists.mp separator
  obtain ⟨there, -, -⟩ := Text.find_eq_some.mp found
  have inside := Text.prefix_drop_length separator_ne_nil there
  have begins : find (bytes " | ") (text ++ bytes " | ") = some position := by
    have longer := Text.find_append separator_ne_nil (bytes " ") found
    rwa [List.append_assoc] at longer
  have beginsMessage := Text.find_append separator_ne_nil (stampsText words) begins
  rw [List.length_append] at inside
  change position + 3 ≤ text.length + 2 at inside
  rw [messageIs, second_piece begins, second_piece beginsMessage]
  by_cases whole : position + 3 ≤ text.length
  · left
    have another : find (bytes " | ") (text.drop (position + 3) ++ bytes " | ") ≠ none := by
      rw [Ne, Text.find_eq_none separator_ne_nil]
      intro none
      apply none (text.drop (position + 3)).length
      rw [List.drop_left]
    obtain ⟨next, again⟩ := Option.ne_none_iff_exists'.mp another
    have againMessage := Text.find_append separator_ne_nil (stampsText words) again
    obtain ⟨-, most, -⟩ := Text.find_eq_some.mp again
    rw [List.append_assoc, List.drop_append_of_le_length whole, ← List.append_assoc,
      List.drop_append_of_le_length whole, Text.splitStr_some separator_ne_nil again,
      Text.splitStr_some separator_ne_nil againMessage, List.head?_cons, List.head?_cons,
      List.take_append_of_le_length most]
  · right
    -- the place ends inside the separator that `PostProcess` puts behind the text
    have overlap : position + 3 = text.length + 1 := by
      by_contra other
      have position : position + 1 = text.length := by omega
      obtain ⟨rest, same⟩ := there
      have bar : (text ++ bytes " |")[text.length]? = some 124 := by
        rw [← position, ← List.getElem?_drop, ← same]
        rfl
      rw [List.getElem?_append_right (Nat.le_refl _), Nat.sub_self] at bar
      exact absurd bar (by decide)
    have rest : ∀ more, (text ++ bytes " | " ++ more).drop (position + 3) = bytes "| " ++ more := by
      intro more
      rw [overlap, List.append_assoc, ← List.drop_drop, List.drop_left]
      rfl
    have restEmpty := rest []
    rw [List.append_nil, List.append_nil] at restEmpty
    rw [rest, restEmpty, splitStr_bar (bar_not_mem words)]
    exact ⟨rfl, rfl⟩

theorem not_spells_bar {pairs : List Stamp} (some : pairs ≠ []) (more : CString) :
    ¬ Spells (split (bytes "| " ++ more) 44) pairs := by
  obtain ⟨pair, pairs, rfl⟩ := List.exists_cons_of_ne_nil some
  obtain ⟨piece, rest, pieces⟩ := Text.head_split (by decide : (124 : UInt8) ≠ 44) (bytes " " ++ more)
  change ¬ Spells (split (124 :: (bytes " " ++ more)) 44) _
  rw [pieces]
  rintro ⟨-, all⟩
  have first := (all 0 _ rfl).1
  have unread : stof (124 :: piece) = none := rfl
  rw [List.getElem?_cons_zero, Option.bind_some, unread] at first
  cases first

theorem SameTimes.length_eq {khz : Nat} {ms : Int} {words : List Word} {pairs : List Stamp}
    (same : SameTimes khz ms words pairs) : pairs.length = words.length := by
  have lengths := congrArg List.length (same _ List.mem_cons_self)
  simpa only [fromStart, printedPairs, List.length_map] using lengths

/-- The timestamps can be read back exactly where they are separable from the text. -/
theorem readsBack_iff (khz : Nat) (ms : Int) (words : List Word) :
    ReadsBack khz ms words ↔ Separable khz ms words := by
  by_cases emits : words = []
  · subst emits
    have nothing : (splitStr (message []) (bytes " | "))[1]? = some [] := by decide
    rw [readsBack_iff_spells nothing]
    constructor
    · rintro ⟨there, -⟩
      exact absurd rfl there
    · rintro ⟨there, -⟩
      exact absurd rfl there
  · unfold Separable
    have some : ∀ {pairs}, SameTimes khz ms words pairs → pairs ≠ [] := by
      rintro _ same rfl
      exact emits (List.length_eq_zero_iff.mp same.length_eq.symm)
    have there : ∀ {msgStamp pairs}, pairs ≠ [] → Spells msgStamp pairs → msgStamp ≠ [] := by
      rintro _ pairs some ⟨length, -⟩ rfl
      exact some (List.length_eq_zero_iff.mp length.symm)
    by_cases separator : contains (wordsText words ++ bytes " |") (bytes " | ")
    · simp only [separator, not_true_eq_false, false_and, false_or, ne_eq, emits, not_false_eq_true,
        true_and]
      rcases second_piece_of_contains separator with same | ⟨whole, part⟩
      · cases second : (splitStr (wordsText words ++ bytes " | ") (bytes " | "))[1]? with
        | none => exact absurd second (second_piece_ne_none separator)
        | some piece =>
          rw [readsBack_iff_spells (same.trans second)]
          constructor
          · rintro ⟨-, pairs, spelled, times⟩
            exact ⟨pairs, times, piece, rfl, spelled⟩
          · rintro ⟨pairs, times, piece', same', spelled⟩
            cases same'
            exact ⟨there (some times) spelled, pairs, spelled, times⟩
      · -- neither `"| 0.1"` is a number nor are there two of them in `"| "`
        rw [readsBack_iff_spells whole]
        constructor
        · rintro ⟨-, pairs, spelled, times⟩
          exact absurd spelled (not_spells_bar (some times) _)
        · rintro ⟨pairs, times, piece, same, spelled⟩
          rw [part] at same
          cases same
          exact absurd spelled (not_spells_bar (some times) [])
    · have second : (splitStr (message words) (bytes " | "))[1]? = Option.some (stampsText words) := by
        rw [splitStr_message separator]
        rfl
      rw [readsBack_iff_spells second, split_stampsText emits]
      constructor
      · rintro ⟨-, pairs, spelled, times⟩
        exact ⟨emits, pairs, times, .inl ⟨separator, spelled.unique (spells_pieces words)⟩⟩
      · rintro ⟨-, pairs, times, ⟨-, rfl⟩ | ⟨wrong, -⟩⟩
        · exact ⟨there (some times) (spells_pieces words), _, spells_pieces words, times⟩
        · exact absurd wrong separator

/-- What holds of the words of the message that `PostProcess` returns. -/
def PostProcessed (rawChar : List CString) (timestampList : List Stamp) (property : List Word → Prop) :
    Prop :=
  ∀ words ∈ emitted rawChar timestampList, property words

theorem postProcess_readsBack_iff (rawChar : List CString) (timestampList : List Stamp) (khz : Nat)
    (ms : Int) :
    PostProcessed rawChar timestampList (ReadsBack khz ms) ↔
      PostProcessed rawChar timestampList (Separable khz ms) := by
  unfold PostProcessed
  simp only [readsBack_iff]

/-- Only the end of the sentence was recognized: two readers read a piece that is not there.  And the
    same number is added to 8.01 seconds in two ways. -/
theorem not_readsBack_noWord :
    ¬ PostProcessed [bytes "</s>"] [] (ReadsBack 16 0) ∧
      offlineSum (startTime 16 8010) (1 / 50) ≠ tpassSum 8010 (1 / 50) := by
  refine ⟨?_, by decide +kernel⟩
  intro reads
  have unchecked := reads [] rfl (funOfflineInferRead (startTime 16 0)) (by simp)
  exact absurd unchecked (by decide +kernel)

end Asr2Pass.Timestamps
