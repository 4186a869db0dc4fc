import Asr2Pass.Server.Connection

/-! # `on_message`, `on_close` and `remove_hdl`

`receive` is the part of `on_message` under `m_lock`, `handle` the part under the connection's
`thread_lock`.  A part that answers `none` lets an exception escape.
-/

namespace Asr2Pass.Server

/-! ## Hotwords -/

/-- `std::isspace` in the C locale. -/
def isSpace (c : Char) : Bool :=
  c = ' ' || ('\t' ≤ c && c ≤ '\r')

/-- What `>>` reads from a stream, word by word. -/
def words (text : String) : List String :=
  ((text.toList.splitOnP isSpace).filter (· ≠ [])).map String.ofList

/-- `map[word] = score`; the order of the map is not specified. -/
def assign (map : List (String × Int)) (word : String) (score : Int) : List (String × Int) :=
  map.filter (·.1 ≠ word) ++ [(word, score)]

/-- `map.insert`, which keeps the words that are there. -/
def insertAll (map more : List (String × Int)) : List (String × Int) :=
  map ++ more.filter fun pair => map.all (·.1 ≠ pair.1)

/-- The hotwords of a client: the map for the decoder and the words for the model. -/
def clientHotwords (engine : Engine) (jsonString : String) : List (String × Int) × String :=
  if jsonString.isEmpty then ([], "")
  else
    match engine.parse jsonString.toUTF8.toList with
    | some (.object members) => ((Json.object members).toIntMap.getD [], "")
    | some (.array items) =>
      (items.foldl (fun map item =>
        match item with
        | .string word => assign map word 20
        | _ => map) [], "")
    | some (.string text) => ((words text).foldl (assign · · 20) [], "")
    | some _ => ([], "")
    -- No JSON: words with a default weight, and the text itself for the recognizer.
    | none => ((words jsonString).foldl (assign · · 20) [], " " ++ jsonString)

/-- The hotwords of a text message. -/
def textHotwords (engine : Engine) (json : Json) : Option (List (String × Int) × String) :=
  (json.index "hotwords").bind fun hotwords =>
    match hotwords with
    | .null => some ([], "")
    | value => value.toString.map (clientHotwords engine)

/-- Whether the message ends the recording. -/
def clientDone (json : Json) : Option Bool := do
  let isSpeaking ← json.index "is_speaking"
  let isFinished ← json.index "is_finished"
  return isSpeaking.isBoolean false || isFinished.isBoolean true

namespace Connection

/-- The hotwords are loaded with the first text message. -/
def loadHotwords (engine : Engine) (json : Json) (connection : Connection) : Option Connection :=
  match connection.hotwordsEmbedding with
  | some _ => some connection
  | none => (textHotwords engine json).map fun (clientMap, clientWords) =>
    let merged := insertAll clientMap engine.hwsMap
    let nnHotwords := clientWords ++ String.join (merged.map (" " ++ ·.1))
    { connection with
      calls := connection.calls ++ [.loadHwsRes merged]
      hotwordsEmbedding := some (engine.compileHotwordEmbedding nnHotwords) }

/-! ## The members of a text message -/

def storeNames (json : Json) (connection : Connection) : Connection :=
  { connection with fields := { connection.fields with
    wavName := (json.member "wav_name").getD connection.fields.wavName
    mode := (json.member "mode").getD connection.fields.mode
    wavFormat := (json.member "wav_format").getD connection.fields.wavFormat } }

def storeAudioFs (json : Json) (connection : Connection) : Connection :=
  { connection with fields := { connection.fields with
    audioFs := (json.member "audio_fs").getD connection.fields.audioFs } }

def storeOptions (json : Json) (connection : Connection) : Connection :=
  { connection with fields := { connection.fields with
    itn := (json.member "itn").getD connection.fields.itn
    vadTailSil := (json.member "vad_tail_sil").getD connection.fields.vadTailSil
    vadMaxLen := (json.member "vad_max_len").getD connection.fields.vadMaxLen
    svsLang := (json.member "svs_lang").getD connection.fields.svsLang
    svsItn := (json.member "svs_itn").getD connection.fields.svsItn } }

/-- The online stream is created with the first `chunk_size`; false for a wrong one. -/
def openStream (engine : Engine) (json : Json) (connection : Connection) :
    Option (Connection × Bool) :=
  match json.member "chunk_size", connection.tpassOnlineHandle with
  | some value, none => do
    let chunkSize ← value.toInts
    if chunkSize.length = 3 ∧ chunkSize[1]? ≠ some 0 then
      if engine.onlineInit chunkSize then
        return ({ connection with
          calls := connection.calls ++ [.onlineInit chunkSize]
          tpassOnlineHandle := some chunkSize }, true)
      else none
    else return (connection, false)
  | _, _ => some (connection, true)

/-- A `do_decoder` on the strand. -/
def post (connection : Connection) (buffer : List Byte) (hotwordsEmbedding : HotwordsEmbedding)
    (isFinal : Bool) : Connection :=
  { connection with
    strand := connection.strand ++
      [{ buffer, hotwordsEmbedding, isFinal, fields := connection.fields }]
    accessNum := connection.accessNum + 1
    posted := connection.posted + 1 }

def postFinal (json : Json) (connection : Connection) : Option Connection := do
  let done ← clientDone json
  if done ∧ connection.isEof ≠ true then
    match connection.hotwordsEmbedding with
    | some embedding =>
      return { connection.post connection.samples embedding true with samples := [] }
    | none => return connection
  else return connection

/-- A text message that has been parsed. -/
def onText (engine : Engine) (json : Json) (connection : Connection) : Option Connection := do
  let loaded ← (connection.storeNames json).loadHotwords engine json
  let (opened, right) ← (loaded.storeAudioFs json).openStream engine json
  if right then (opened.storeOptions json).postFinal json else return opened

/-- The samples that have been cut off are posted when there are hotwords. -/
def postChunk (connection : Connection) (subvector : List Byte) : Connection :=
  match connection.isEof, connection.hotwordsEmbedding with
  | false, some embedding => connection.post subvector embedding false
  | _, _ => connection

/-- A binary message. -/
def onBinary (payload : List Byte) (connection : Connection) : Connection :=
  let samples := connection.samples ++ payload
  let setpsize := 800 * 2
  if samples.length > setpsize then
    let chunksize := samples.length / setpsize
    { connection with samples := samples.drop (chunksize * setpsize) }.postChunk
      (samples.take (chunksize * setpsize))
  else { connection with samples }

/-! ## The handlers -/

def receive (frame : Frame) (connection : Connection) : Connection :=
  if connection.mapped ∧ connection.isEof = false then { connection with inflight := some frame }
  else connection

def handle (engine : Engine) (frame : Frame) (connection : Connection) : Connection :=
  match frame with
  | .text payload =>
    match engine.parse payload with
    | none => { connection with isEof := true, inflight := none }
    | some json =>
      match connection.onText engine json with
      | none => { connection with terminated := true }
      | some handled => { handled with inflight := none }
  | .binary payload => { connection.onBinary payload with inflight := none }
  | .other => { connection with inflight := none }

/-- `on_close`, and the cleaning thread when the connection is gone. -/
def onClose (connection : Connection) : Connection :=
  if connection.mapped then { connection with isEof := true } else connection

def removeHdl (connection : Connection) : Connection :=
  if connection.mapped ∧ connection.accessNum = 0 ∧ connection.isEof then
    { connection with
      decoderHandle := false
      tpassOnlineHandle := none
      mapped := false
      calls := connection.calls ++ [.uninit] }
  else connection

end Connection

end Asr2Pass.Server
