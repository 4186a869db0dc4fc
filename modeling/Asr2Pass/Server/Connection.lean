import Asr2Pass.Server.Json
import Asr2Pass.TwoPass.Split

/-! # A connection of the two-pass server

`FUNASR_MESSAGE` with its entry in `data_map`, the tasks posted on its strand, the task that runs
and the message whose handler runs.  `EngineCall` and the counts are what has happened so far.
-/

namespace Asr2Pass.Server

open TwoPass (AsrType)

abbrev Byte := UInt8

abbrev HotwordsEmbedding := List (List Float32)

/-- The members of `msg` that a task takes with it. -/
structure Fields where
  wavName : Json := .string "wav-default-id"
  mode : Json := .string "2pass"
  itn : Json := .boolean true
  vadTailSil : Json := .integer 350
  vadMaxLen : Json := .integer 20000
  audioFs : Json := .integer 16000
  wavFormat : Json := .string "pcm"
  svsLang : Json := .string "auto"
  svsItn : Json := .boolean true

/-- The members as `do_decoder` takes them. -/
structure Args where
  wavName : String
  modetype : String
  itn : Bool
  vadTailSil : Int
  vadMaxLen : Int
  audioFs : Int
  wavFormat : String
  svsLang : String
  sysItn : Bool
deriving DecidableEq

/-- The conversions when the bound handler is invoked. -/
def Fields.convert (fields : Fields) : Option Args := do
  let wavName ← fields.wavName.toString
  let modetype ← fields.mode.toString
  let itn ← fields.itn.toBool
  let vadTailSil ← fields.vadTailSil.toInt
  let vadMaxLen ← fields.vadMaxLen.toInt
  let audioFs ← fields.audioFs.toInt
  let wavFormat ← fields.wavFormat.toString
  let svsLang ← fields.svsLang.toString
  let sysItn ← fields.svsItn.toBool
  return { wavName, modetype, itn, vadTailSil, vadMaxLen, audioFs, wavFormat, svsLang, sysItn }

/-- A `do_decoder` bound to its arguments. -/
structure Task where
  buffer : List Byte
  hotwordsEmbedding : HotwordsEmbedding
  isFinal : Bool
  fields : Fields

/-- A `FUNASR_RESULT`. -/
structure RecogResult where
  msg : String
  tpassMsg : String
  stamp : String
  stampSents : String
  deriving DecidableEq

/-- The ways out of `do_decoder`. -/
inductive Exit where
  | nullHandle
  | handleGone
  | inferenceThrew
  | elsewhereThrew
  | done
deriving DecidableEq, Repr

/-- Where a task that runs is in `do_decoder`. -/
inductive Phase where
  /-- At the condition of the loop. -/
  | loop
  /-- Before `FunTpassInferBuffer` in the loop. -/
  | infer (subvector : List Byte)
  /-- After it. -/
  | reply (result : Option RecogResult)
  /-- At the condition after the loop. -/
  | final
  | inferFinal
  | replyFinal (result : Option RecogResult)
  /-- Before `access_num` is decremented. -/
  | leave (exit : Exit)

structure Running where
  buffer : List Byte
  hotwordsEmbedding : HotwordsEmbedding
  isFinal : Bool
  args : Args
  phase : Phase := .loop

inductive EngineCall where
  | loadHwsRes (hotwords : List (String × Int))
  | onlineInit (chunkSize : List Int)
  | inferBuffer (data : List Byte) (inputFinished : Bool) (asrMode : AsrType) (args : Args)
      (hotwordsEmbedding : HotwordsEmbedding)
  | uninit

/-- The bytes that a call passes to `FunTpassInferBuffer`. -/
def EngineCall.data : EngineCall → List Byte
  | .inferBuffer data .. => data
  | _ => []

def EngineCall.IsInference : EngineCall → Prop
  | .inferBuffer .. => True
  | _ => False

inductive Frame where
  | text (payload : List Byte)
  | binary (payload : List Byte)
  | other

structure Connection where
  fields : Fields := {}
  accessNum : Int := 0
  isEof : Bool := false
  samples : List Byte := []
  hotwordsEmbedding : Option HotwordsEmbedding := none
  /-- The `chunk_size` of the stream it points to. -/
  tpassOnlineHandle : Option (List Int) := none
  /-- Whether it is not null. -/
  decoderHandle : Bool
  /-- Whether `data_map` has the connection. -/
  mapped : Bool := true
  strand : List Task := []
  running : Option Running := none
  inflight : Option Frame := none
  /-- The process has ended, for one by an exception that has left a handler or a decoder thread. -/
  terminated : Bool := false
  calls : List EngineCall := []
  sent : List Json := []
  posted : Nat := 0
  exits : List Exit := []

/-- What the server calls: the parser, the models, and its own list of hotwords.  The calls that
    are not given a result here do not throw. -/
structure Engine where
  parse : List Byte → Option Json
  hwsMap : List (String × Int)
  compileHotwordEmbedding : String → HotwordsEmbedding
  wfstDecoderInit : Bool
  /-- Whether `FunTpassOnlineInit` returns.  It throws when there is no memory for the context rows
      of the `chunk_size`. -/
  onlineInit : List Int → Bool := fun _ => true

namespace Connection

/-- The bytes that have been passed to `FunTpassInferBuffer`. -/
def delivered (connection : Connection) : List Byte :=
  connection.calls.flatMap EngineCall.data

/-- The tasks that have not decremented `access_num`. -/
def pending (connection : Connection) : Nat :=
  connection.strand.length + (if connection.running.isSome then 1 else 0)

end Connection

/-- `on_open`. -/
def onOpen (engine : Engine) : Connection where
  decoderHandle := engine.wfstDecoderInit

end Asr2Pass.Server
