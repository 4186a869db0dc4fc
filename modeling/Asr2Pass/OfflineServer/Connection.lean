import Asr2Pass.Server.DoDecoder

/-! # A connection of the offline server

`FUNASR_MESSAGE` with its entry in `data_map`, and the message whose handler runs.  All that is
received is decoded in one call when the client is done; the client may go on then.
-/

namespace Asr2Pass.OfflineServer

open Server (Byte HotwordsEmbedding Json Frame Engine RecogResult)

/-- The members of `msg` that a task takes with it. -/
structure Fields where
  wavName : Json := .string "wav-default-id"
  itn : Json := .boolean true
  vadTailSil : Json := .integer 800
  vadMaxLen : Json := .integer 60000
  audioFs : Json := .integer 16000
  wavFormat : Json := .string "pcm"
  svsLang : Json := .string "auto"
  svsItn : Json := .boolean true

/-- The members as `do_decoder` takes them. -/
structure Args where
  wavName : String
  itn : Bool
  vadTailSil : Int
  vadMaxLen : Int
  audioFs : Int
  wavFormat : String
  svsLang : String
  sysItn : Bool

/-- The conversions when the bound handler is invoked. -/
def Fields.convert (fields : Fields) : Option Args := do
  let wavName ← fields.wavName.toString
  let itn ← fields.itn.toBool
  let vadTailSil ← fields.vadTailSil.toInt
  let vadMaxLen ← fields.vadMaxLen.toInt
  let audioFs ← fields.audioFs.toInt
  let wavFormat ← fields.wavFormat.toString
  let svsLang ← fields.svsLang.toString
  let sysItn ← fields.svsItn.toBool
  return { wavName, itn, vadTailSil, vadMaxLen, audioFs, wavFormat, svsLang, sysItn }

structure Connection where
  fields : Fields := {}
  accessNum : Int := 0
  isEof : Bool := false
  samples : List Byte := []
  hotwordsEmbedding : Option HotwordsEmbedding := none
  /-- Whether it is not null. -/
  decoderHandle : Bool
  /-- Whether `data_map` has the connection. -/
  mapped : Bool := true
  inflight : Option Frame := none
  /-- How many tasks have been posted. -/
  posted : Nat := 0

/-- A `do_decoder` bound to its arguments, the `turn`-th of its connection. -/
structure Task (Hdl : Type) where
  hdl : Hdl
  turn : Nat
  buffer : List Byte
  hotwordsEmbedding : HotwordsEmbedding
  fields : Fields

/-- `on_open`. -/
def onOpen (engine : Engine) : Connection where
  decoderHandle := engine.wfstDecoderInit

/-! ## `on_message` -/

/-- The hotwords of a client: the map for the decoder and the words for the model. -/
def clientHotwords (engine : Engine) (jsonString : String) : List (String × Int) × String :=
  if jsonString.isEmpty then ([], "")
  else
    match engine.parse jsonString.toUTF8.toList with
    | some (.object members) => ((Json.object members).toIntMap.getD [], "")
    | some _ => ([], "")
    | none => ([], " " ++ jsonString)

/-- The hotwords of a text message. -/
def textHotwords (engine : Engine) (json : Json) : Option (List (String × Int) × String) :=
  (json.index "hotwords").bind fun hotwords =>
    match hotwords with
    | .null => some ([], "")
    | value => value.toString.map (clientHotwords engine)

/-- A member that is stored unless it is null. -/
def storeNonNull (json : Json) (key : String) (old : Json) : Option Json :=
  (json.index key).map fun value =>
    match value with
    | .null => old
    | value => value

namespace Connection

def storeNames (json : Json) (connection : Connection) : Option Connection := do
  let wavName ← storeNonNull json "wav_name" connection.fields.wavName
  let wavFormat ← storeNonNull json "wav_format" connection.fields.wavFormat
  return { connection with fields := { connection.fields with wavName, wavFormat } }

/-- The hotwords are loaded with the first text message; `FunWfstDecoderLoadHwsRes` takes the
    merged map. -/
def loadHotwords (engine : Engine) (json : Json) (connection : Connection) : Option Connection :=
  match connection.hotwordsEmbedding with
  | some _ => some connection
  | none => (textHotwords engine json).map fun (clientMap, clientWords) =>
    let merged := Server.insertAll clientMap engine.hwsMap
    let nnHotwords := clientWords ++ String.join (merged.map (" " ++ ·.1))
    { connection with hotwordsEmbedding := some (engine.compileHotwordEmbedding nnHotwords) }

def storeOptions (json : Json) (connection : Connection) : Connection :=
  { connection with fields := { connection.fields with
    audioFs := (json.member "audio_fs").getD connection.fields.audioFs
    itn := (json.member "itn").getD connection.fields.itn
    vadTailSil := (json.member "vad_tail_sil").getD connection.fields.vadTailSil
    vadMaxLen := (json.member "vad_max_len").getD connection.fields.vadMaxLen
    svsLang := (json.member "svs_lang").getD connection.fields.svsLang
    svsItn := (json.member "svs_itn").getD connection.fields.svsItn } }

/-- All samples are moved into a task, which `asio::post` puts into the queue of `io_decoder_`. -/
def post {Hdl : Type} (hdl : Hdl) (hotwordsEmbedding : HotwordsEmbedding)
    (connection : Connection) : Connection × List (Task Hdl) :=
  ({ connection with
      samples := [], accessNum := connection.accessNum + 1, posted := connection.posted + 1 },
    [{ hdl, turn := connection.posted, buffer := connection.samples, hotwordsEmbedding,
       fields := connection.fields }])

/-- A text message that has been parsed, with the tasks that it posts. -/
def onText {Hdl : Type} (engine : Engine) (hdl : Hdl) (json : Json) (connection : Connection) :
    Option (Connection × List (Task Hdl)) := do
  let named ← connection.storeNames json
  let loaded ← named.loadHotwords engine json
  let stored := loaded.storeOptions json
  let done ← Server.clientDone json
  if done ∧ stored.isEof ≠ true then
    match stored.hotwordsEmbedding with
    | some embedding => return stored.post hdl embedding
    | none => return (stored, [])
  else return (stored, [])

def receive (frame : Frame) (connection : Connection) : Connection :=
  if connection.mapped ∧ connection.isEof = false then { connection with inflight := some frame }
  else connection

/-- The part of `on_message` under the connection's `thread_lock`; none for an exception. -/
def handle {Hdl : Type} (engine : Engine) (hdl : Hdl) (frame : Frame) (connection : Connection) :
    Option (Connection × List (Task Hdl)) :=
  match frame with
  | .text payload =>
    match engine.parse payload with
    | none => some ({ connection with isEof := true }, [])
    | some json => connection.onText engine hdl json
  | .binary payload => some ({ connection with samples := connection.samples ++ payload }, [])
  | .other => some (connection, [])

/-! ## `on_close` and `remove_hdl` -/

/-- `on_close`, and the cleaning thread when the connection is gone. -/
def onClose (connection : Connection) : Connection :=
  if connection.mapped then { connection with isEof := true } else connection

def removeHdl (connection : Connection) : Connection :=
  if connection.mapped ∧ connection.accessNum = 0 ∧ connection.isEof then
    { connection with decoderHandle := false, mapped := false }
  else connection

end Connection

/-! ## `do_decoder` -/

/-- Where a task that runs is in `do_decoder`. -/
inductive Phase where
  /-- Before `FunOfflineInferBuffer`. -/
  | infer
  /-- Before the result is sent. -/
  | send (result : Option RecogResult)
  /-- Before `access_num` is decremented. -/
  | leave

structure Running (Hdl : Type) where
  hdl : Hdl
  turn : Nat
  buffer : List Byte
  hotwordsEmbedding : HotwordsEmbedding
  args : Args
  phase : Phase

namespace Running

variable {Hdl : Type}

/-- There is something to decode. -/
def HasData (buffer : List Byte) (hotwordsEmbedding : HotwordsEmbedding) : Prop :=
  buffer ≠ [] ∧ hotwordsEmbedding.length > 0

instance (buffer : List Byte) (hotwordsEmbedding : HotwordsEmbedding) :
    Decidable (HasData buffer hotwordsEmbedding) :=
  inferInstanceAs (Decidable (buffer ≠ [] ∧ hotwordsEmbedding.length > 0))

/-- A decoder thread invokes the task. -/
def start (task : Task Hdl) (args : Args) : Running Hdl where
  hdl := task.hdl
  turn := task.turn
  buffer := task.buffer
  hotwordsEmbedding := task.hotwordsEmbedding
  args := args
  phase := if HasData task.buffer task.hotwordsEmbedding then .infer else .send none

/-- The answer to the client; the texts stay empty without a result. -/
def answer (engine : Engine) (running : Running Hdl) (result : Option RecogResult) : Json :=
  let asrResult := (result.map (·.msg)).getD ""
  let stampRes := (result.map (·.stamp)).getD ""
  let stampSents := (result.map (·.stampSents)).getD ""
  .object ([("text", .string asrResult), ("mode", .string "offline"), ("is_final", .boolean false)] ++
    (if stampRes ≠ "" then [("timestamp", .string stampRes)] else []) ++
    (if stampSents ≠ "" then
      [("stamp_sents", (engine.parse stampSents.toUTF8.toList).getD (.string ""))]
    else []) ++
    [("wav_name", .string running.args.wavName)])

end Running

end Asr2Pass.OfflineServer
