import Asr2Pass.Library.Chains
import Asr2Pass.Library.LittleEndian
import Asr2Pass.Text.Strings

/-! # `WaveHeader`

`SeekToDataChunk` goes from chunk to chunk by the sizes in their headers.  A size is a signed number,
so that the scan may go back; it does not end when it comes back to a chunk.
-/

namespace Asr2Pass.TwoPass

open Library
open Relation (ReflTransGen TransGen)
open Text (CString bytes)

/-! ## The stream -/

/-- `std::istream` over a file. -/
structure IStream where
  file : List UInt8
  pos : Nat := 0
  good : Bool := true

namespace IStream

/-- `seekg` from `cur`: a place before the file is an error, one behind its end is not. -/
def seekg (is : IStream) (off : Int) : IStream :=
  if is.good then
    if is.pos + off < 0 then { is with good := false } else { is with pos := (is.pos + off).toNat }
  else is

/-- `read`: fewer bytes than asked for are an error. -/
def read (is : IStream) (count : Nat) : List UInt8 × IStream :=
  if is.good then
    let got := (is.file.drop is.pos).take count
    (got, { is with pos := is.pos + got.length, good := got.length = count })
  else ([], is)

variable {is : IStream} {count : Nat}

theorem read_whole (good : is.good = true) (inside : is.pos + count ≤ is.file.length) :
    is.read count = ((is.file.drop is.pos).take count, { is with pos := is.pos + count }) := by
  have whole : ((is.file.drop is.pos).take count).length = count := by
    rw [List.length_take, List.length_drop]
    omega
  simp only [read, good, if_true, whole, decide_true]

theorem read_short (short : is.file.length < is.pos + count) (some : 0 < count) :
    (is.read count).2.good = false := by
  rw [read]
  split
  · simp only [List.length_take, List.length_drop, decide_eq_false_iff_not]
    omega
  case isFalse bad => simpa using bad

theorem read_bad (bad : is.good = false) : (is.read count).2.good = false := by
  rw [read, if_neg (by simp [bad])]
  exact bad

end IStream

/-- "data", with the low byte first. -/
def dataId : Int := 0x61746164

/-! ## The header -/

structure WaveHeader where
  chunkId : Int
  chunkSize : Int
  format : Int
  subchunk1Id : Int
  subchunk1Size : Int
  audioFormat : Int
  numChannels : Int
  sampleRate : Int
  byteRate : Int
  blockAlign : Int
  bitsPerSample : Int
  subchunk2Id : Int
  subchunk2Size : Int
  deriving DecidableEq

/-- The bytes of a `WaveHeader`. -/
def WaveHeader.ofBytes (bytes : List UInt8) : WaveHeader where
  chunkId := signed (bytes.take 4)
  chunkSize := signed ((bytes.drop 4).take 4)
  format := signed ((bytes.drop 8).take 4)
  subchunk1Id := signed ((bytes.drop 12).take 4)
  subchunk1Size := signed ((bytes.drop 16).take 4)
  audioFormat := signed ((bytes.drop 20).take 2)
  numChannels := signed ((bytes.drop 22).take 2)
  sampleRate := signed ((bytes.drop 24).take 4)
  byteRate := signed ((bytes.drop 28).take 4)
  blockAlign := signed ((bytes.drop 32).take 2)
  bitsPerSample := signed ((bytes.drop 34).take 2)
  subchunk2Id := signed ((bytes.drop 36).take 4)
  subchunk2Size := signed ((bytes.drop 40).take 4)

/-- A product of two `int`s; none where it is no `int`. -/
def mulInt (left right : Int) : Option Int :=
  if -2 ^ 31 ≤ left * right ∧ left * right < 2 ^ 31 then some (left * right) else none

namespace WaveHeader

/-- `Validate`; none where an `int` overflows. -/
def validate (header : WaveHeader) : Option Bool :=
  if header.chunkId ≠ 0x46464952 then some false
  else if header.format ≠ 0x45564157 then some false
  else if header.subchunk1Id ≠ 0x20746d66 then some false
  else if header.subchunk1Size ≠ 16 then some false
  else if header.audioFormat ≠ 1 then some false
  else if header.numChannels ≠ 1 then some false
  else do
    let samples ← mulInt header.sampleRate header.numChannels
    let bits ← mulInt samples header.bitsPerSample
    if header.byteRate ≠ bits.tdiv 8 then return false
    else if header.blockAlign ≠ (header.numChannels * header.bitsPerSample).tdiv 8 then return false
    else return header.bitsPerSample = 16

def withSubchunk2 (header : WaveHeader) (subchunk2Id subchunk2Size : Int) : WaveHeader :=
  { header with subchunk2Id, subchunk2Size }

@[simp] theorem withSubchunk2_withSubchunk2 (header : WaveHeader) (id size id' size' : Int) :
    (header.withSubchunk2 id size).withSubchunk2 id' size' = header.withSubchunk2 id' size' := rfl

@[simp] theorem withSubchunk2_subchunk2Id (header : WaveHeader) (id size : Int) :
    (header.withSubchunk2 id size).subchunk2Id = id := rfl

@[simp] theorem withSubchunk2_subchunk2Size (header : WaveHeader) (id size : Int) :
    (header.withSubchunk2 id size).subchunk2Size = size := rfl

/-- `read` into `subchunk2_id` and `subchunk2_size`.  When bytes are missing, no one looks at the
    members again. -/
def readSubchunk2 (header : WaveHeader) (is : IStream) : IStream × WaveHeader :=
  let (id, is) := is.read 4
  let (size, is) := is.read 4
  (is, header.withSubchunk2 (signed id) (signed size))

/-- `SeekToDataChunk`; none when its turns are used up. -/
def seekToDataChunk : Nat → IStream × WaveHeader → Option (IStream × WaveHeader)
  | 0, _ => none
  | fuel + 1, (is, header) =>
    if is.good ∧ header.subchunk2Id ≠ dataId then
      seekToDataChunk fuel (header.readSubchunk2 (is.seekg header.subchunk2Size))
    else some (is, header)

/-- The stream and the header after the first `read` of `LoadWav`. -/
def start (file : List UInt8) : IStream × WaveHeader :=
  let (bytes, is) := IStream.read { file } 44
  (is, ofBytes bytes)

end WaveHeader

/-! ## Chunks -/

section
variable (file : List UInt8)

def idAt (place : Nat) : Int := signed ((file.drop place).take 4)

def sizeAt (place : Nat) : Int := signed ((file.drop (place + 4)).take 4)

/-- The file has the header of a chunk there. -/
def HasHeader (place : Nat) : Prop := place + 8 ≤ file.length

/-- Where the header of a chunk sends the scan: behind the bytes that it announces, without the
    byte that pads an odd chunk. -/
def chunkEnd (place : Nat) : Int := place + 8 + sizeAt file place

instance (place : Nat) : Decidable (HasHeader file place) := inferInstanceAs (Decidable (_ ≤ _))

/-- The header behind a chunk that is not the data. -/
def nextChunk (place : Nat) : Option Nat :=
  if HasHeader file place ∧ idAt file place ≠ dataId ∧ 0 ≤ chunkEnd file place ∧
      HasHeader file (chunkEnd file place).toNat then
    some (chunkEnd file place).toNat
  else none

/-- The header has been read, and the stream is behind it. -/
def atChunk (header : WaveHeader) (place : Nat) : IStream × WaveHeader :=
  ({ file, pos := place + 8 }, header.withSubchunk2 (idAt file place) (sizeAt file place))

variable {file} {header : WaveHeader} {place place' fuel : Nat}

theorem finite_nextChunk : {place | nextChunk file place ≠ none}.Finite := by
  refine (Set.finite_lt_nat file.length).subset fun place isChunk => ?_
  have hasHeader : HasHeader file place := by
    by_contra short
    exact isChunk (if_neg fun conditions => short conditions.1)
  rw [HasHeader] at hasHeader
  show place < file.length
  omega

theorem hasHeader_of_leads (leads : Leads (nextChunk file) place place') : HasHeader file place' := by
  rw [Leads, nextChunk] at leads
  split at leads
  case isTrue conditions =>
    rw [← Option.some.inj leads]
    exact conditions.2.2.2
  case isFalse => cases leads

/-- A scan of chunks of sizes that are no less than zero only goes forward. -/
theorem lt_of_leads (leads : Leads (nextChunk file) place place') (positive : 0 ≤ sizeAt file place) :
    place < place' := by
  rw [Leads, nextChunk] at leads
  split at leads
  case isTrue =>
    have target := Option.some.inj leads
    rw [chunkEnd] at target
    omega
  case isFalse => cases leads

/-! ## The scan -/

/-- Where eight bytes are, they are the header. -/
theorem readSubchunk2_hasHeader (hasHeader : HasHeader file place) :
    header.readSubchunk2 { file, pos := place } = atChunk file header place := by
  rw [HasHeader] at hasHeader
  rw [WaveHeader.readSubchunk2, IStream.read_whole rfl (by dsimp only; omega)]
  dsimp only
  rw [IStream.read_whole rfl (by dsimp only; omega)]
  rfl

/-- Else the stream fails. -/
theorem readSubchunk2_short (short : ¬ HasHeader file place) :
    (header.readSubchunk2 { file, pos := place }).1.good = false := by
  rw [HasHeader] at short
  by_cases id : place + 4 ≤ file.length
  · rw [WaveHeader.readSubchunk2, IStream.read_whole rfl id]
    exact IStream.read_short (by dsimp only; omega) (by decide)
  · have failed : (IStream.read { file, pos := place } 4).2.good = false :=
      IStream.read_short (Nat.lt_of_not_le id) (by decide)
    rw [WaveHeader.readSubchunk2]
    exact IStream.read_bad failed

theorem readSubchunk2_bad {is : IStream} (bad : is.good = false) :
    (header.readSubchunk2 is).1.good = false := by
  rw [WaveHeader.readSubchunk2]
  exact IStream.read_bad (IStream.read_bad bad)

theorem seekToDataChunk_bad {state : IStream × WaveHeader} (bad : state.1.good = false) :
    WaveHeader.seekToDataChunk (fuel + 1) state = some state := by
  obtain ⟨is, header⟩ := state
  have failed : is.good = false := bad
  rw [WaveHeader.seekToDataChunk, if_neg (by simp [failed])]

/-- The next header takes the place of the last one. -/
theorem atChunk_atChunk :
    atChunk file (atChunk file header place).2 place' = atChunk file header place' := by
  have snd : (atChunk file header place).2 =
      header.withSubchunk2 (idAt file place) (sizeAt file place) := rfl
  rw [snd, atChunk, WaveHeader.withSubchunk2_withSubchunk2, atChunk]

theorem seekToDataChunk_data (data : idAt file place = dataId) :
    WaveHeader.seekToDataChunk (fuel + 1) (atChunk file header place) =
      some (atChunk file header place) := by
  rw [atChunk, WaveHeader.seekToDataChunk, if_neg (by simp [data])]

theorem seekToDataChunk_other (other : idAt file place ≠ dataId) :
    WaveHeader.seekToDataChunk (fuel + 1) (atChunk file header place) =
      WaveHeader.seekToDataChunk fuel ((atChunk file header place).2.readSubchunk2
        ((atChunk file header place).1.seekg (sizeAt file place))) := by
  rw [atChunk, WaveHeader.seekToDataChunk, WaveHeader.withSubchunk2_subchunk2Id,
    WaveHeader.withSubchunk2_subchunk2Size, if_pos ⟨rfl, other⟩]

theorem seekToDataChunk_leads (leads : Leads (nextChunk file) place place') :
    WaveHeader.seekToDataChunk (fuel + 1) (atChunk file header place) =
      WaveHeader.seekToDataChunk fuel (atChunk file header place') := by
  have hasHeader := hasHeader_of_leads leads
  rw [Leads, nextChunk] at leads
  split at leads
  case isTrue conditions =>
    obtain ⟨-, other, inside, -⟩ := conditions
    have target := Option.some.inj leads
    have sought : (atChunk file header place).1.seekg (sizeAt file place) = { file, pos := place' } := by
      rw [← target, chunkEnd, atChunk, IStream.seekg]
      rw [chunkEnd] at inside
      simp only [if_true, Nat.cast_add, Nat.cast_ofNat, not_lt.mpr inside, if_false]
    rw [seekToDataChunk_other other, sought, readSubchunk2_hasHeader hasHeader, atChunk_atChunk]
  case isFalse => cases leads

/-- A header that is the last one and not that of the data sends the scan out of the file. -/
theorem seekToDataChunk_last (hasHeader : HasHeader file place) (other : idAt file place ≠ dataId)
    (last : nextChunk file place = none) : ∃ failed : IStream × WaveHeader, failed.1.good = false ∧
      ∀ fuel, WaveHeader.seekToDataChunk (fuel + 1) (atChunk file header place) =
        WaveHeader.seekToDataChunk fuel failed := by
  refine ⟨_, ?_, fun fuel => seekToDataChunk_other other⟩
  by_cases inside : 0 ≤ chunkEnd file place
  · have short : ¬ HasHeader file (chunkEnd file place).toNat := by
      intro hasHeader'
      rw [nextChunk, if_pos ⟨hasHeader, other, inside, hasHeader'⟩] at last
      cases last
    have sought : (atChunk file header place).1.seekg (sizeAt file place) =
        { file, pos := (chunkEnd file place).toNat } := by
      rw [chunkEnd, atChunk, IStream.seekg]
      rw [chunkEnd] at inside
      simp only [if_true, Nat.cast_add, Nat.cast_ofNat, not_lt.mpr inside, if_false]
    rw [sought]
    exact @readSubchunk2_short file (atChunk file header place).2 _ short
  · have sought : ((atChunk file header place).1.seekg (sizeAt file place)).good = false := by
      rw [chunkEnd] at inside
      rw [atChunk, IStream.seekg]
      simp only [if_true, Nat.cast_add, Nat.cast_ofNat, not_le.mp inside]
    exact readSubchunk2_bad sought

/-- The scan ends where the chain of the chunks does. -/
theorem seekToDataChunk_ends_iff (hasHeader : HasHeader file place) :
    (∃ fuel, (WaveHeader.seekToDataChunk fuel (atChunk file header place)).isSome) ↔
      Ends (nextChunk file) place := by
  constructor
  · rintro ⟨fuel, returns⟩
    induction fuel generalizing place with
    | zero => cases returns
    | succ fuel inductionHypothesis =>
      cases leads : nextChunk file place with
      | none => exact ⟨place, .refl, leads⟩
      | some place' =>
        rw [seekToDataChunk_leads leads] at returns
        exact ends_of_leads leads (inductionHypothesis (hasHeader_of_leads leads) returns)
  · rintro ⟨last, chain, isLast⟩
    induction chain using ReflTransGen.head_induction_on with
    | refl =>
      by_cases data : idAt file last = dataId
      · exact ⟨1, by rw [seekToDataChunk_data data]; rfl⟩
      · obtain ⟨failed, bad, next⟩ := @seekToDataChunk_last _ header _ hasHeader data isLast
        exact ⟨2, by rw [next, seekToDataChunk_bad bad]; rfl⟩
    | head leads _ inductionHypothesis =>
      obtain ⟨fuel, returns⟩ := inductionHypothesis (hasHeader_of_leads leads)
      exact ⟨fuel + 1, by rwa [seekToDataChunk_leads leads]⟩

/-- A scan that ends well has found the data. -/
theorem seekToDataChunk_found {state : IStream × WaveHeader} (hasHeader : HasHeader file place)
    (returned : WaveHeader.seekToDataChunk fuel (atChunk file header place) = some state)
    (good : state.1.good = true) : ∃ last, ReflTransGen (Leads (nextChunk file)) place last ∧
      idAt file last = dataId ∧ state = atChunk file header last := by
  induction fuel generalizing place with
  | zero => cases returned
  | succ fuel inductionHypothesis =>
    by_cases data : idAt file place = dataId
    · rw [seekToDataChunk_data data] at returned
      exact ⟨place, .refl, data, (Option.some.inj returned).symm⟩
    · cases leads : nextChunk file place with
      | none =>
        obtain ⟨failed, bad, next⟩ := @seekToDataChunk_last _ header _ hasHeader data leads
        rw [next] at returned
        cases fuel with
        | zero => cases returned
        | succ fuel =>
          rw [seekToDataChunk_bad bad] at returned
          rw [← Option.some.inj returned, bad] at good
          cases good
      | some place' =>
        rw [seekToDataChunk_leads leads] at returned
        obtain ⟨last, chain, data', same⟩ := inductionHypothesis (hasHeader_of_leads leads) returned
        exact ⟨last, chain.head leads, data', same⟩

theorem seekToDataChunk_reaches {last : Nat} (chain : ReflTransGen (Leads (nextChunk file)) place last)
    (data : idAt file last = dataId) : ∃ fuel,
      WaveHeader.seekToDataChunk (fuel + 1) (atChunk file header place) =
        some (atChunk file header last) := by
  induction chain using ReflTransGen.head_induction_on with
  | refl => exact ⟨0, seekToDataChunk_data data⟩
  | head leads _ inductionHypothesis =>
    obtain ⟨fuel, returned⟩ := inductionHypothesis
    exact ⟨fuel + 1, by rw [seekToDataChunk_leads leads, returned]⟩

/-- A file as long as a header begins with one. -/
theorem start_eq (long : 44 ≤ file.length) :
    WaveHeader.start file = atChunk file (.ofBytes (file.take 44)) 36 := by
  rw [WaveHeader.start, IStream.read_whole rfl (by simpa using long)]
  have same : (WaveHeader.ofBytes (file.take 44)).withSubchunk2 (idAt file 36) (sizeAt file 36) =
      .ofBytes (file.take 44) := by
    simp [idAt, sizeAt, WaveHeader.ofBytes, WaveHeader.withSubchunk2, List.drop_take, List.take_take]
  rw [atChunk, same]
  rfl

/-! ## Whether the scan ends -/

/-- `SeekToDataChunk` returns. -/
def ScanEnds (file : List UInt8) : Prop :=
  ∃ fuel, (WaveHeader.seekToDataChunk fuel (WaveHeader.start file)).isSome

/-- No chunk that the sizes lead to from the first one behind the format leads back to itself. -/
def NoReturn (file : List UInt8) : Prop :=
  ∀ place, ReflTransGen (Leads (nextChunk file)) 36 place →
    ¬ TransGen (Leads (nextChunk file)) place place

theorem scanEnds_iff (file : List UInt8) (long : 44 ≤ file.length) : ScanEnds file ↔ NoReturn file := by
  rw [ScanEnds, start_eq long, seekToDataChunk_ends_iff (by rw [HasHeader]; omega),
    ends_iff finite_nextChunk]
  rfl

/-- Sizes that are not negative lead to no chunk twice. -/
theorem noReturn_of_forward (forward : ∀ place, ReflTransGen (Leads (nextChunk file)) 36 place →
    0 ≤ sizeAt file place) : NoReturn file := by
  intro place chain cycle
  have later {place' : Nat} (further : TransGen (Leads (nextChunk file)) place place') : place < place' := by
    induction further with
    | single leads => exact lt_of_leads leads (forward place chain)
    | tail before leads inductionHypothesis =>
      have positive := forward _ (chain.trans before.to_reflTransGen)
      exact Nat.lt_trans inductionHypothesis (lt_of_leads leads positive)
  exact Nat.lt_irrefl place (later cycle)

end

/-- A chunk of minus eight bytes, which leads back to its own header. -/
def loopingFile : List UInt8 :=
  bytes "RIFF" ++ [36, 0, 0, 0] ++ bytes "WAVE" ++ bytes "fmt " ++ [16, 0, 0, 0, 1, 0, 1, 0] ++
    [0x80, 0x3e, 0, 0, 0, 0x7d, 0, 0, 2, 0, 16, 0] ++ bytes "LIST" ++ [0xf8, 0xff, 0xff, 0xff]

theorem noReturn_iff_loopingFile : ScanEnds loopingFile ↔ NoReturn loopingFile :=
  scanEnds_iff loopingFile (by decide +kernel)

/-- The header is valid, and the scan does not end. -/
theorem not_scanEnds_loopingFile :
    (WaveHeader.start loopingFile).2.validate = some true ∧ ¬ ScanEnds loopingFile := by
  refine ⟨by decide +kernel, fun scanEnds => ?_⟩
  have back : Leads (nextChunk loopingFile) 36 36 := by
    rw [Leads]
    decide +kernel
  rw [ScanEnds, start_eq (by decide +kernel), seekToDataChunk_ends_iff (by decide +kernel),
    ends_iff finite_nextChunk] at scanEnds
  exact scanEnds 36 .refl (.single back)

end Asr2Pass.TwoPass
