import Asr2Pass.Vad.E2EVadModel
import Mathlib.Algebra.Order.Ring.Int
import Mathlib.Data.List.ModifyLast

/-! # What the buffer operations of the scorer do

Each operation is brought to one explicit record update.  The only field that is not given
exactly is `dataBufSize`: it depends on where the calls fall, and nothing but the termination
of `popDataBufTillFrame` depends on it.
-/

namespace Asr2Pass.Vad.E2EVadModel

open VADXOptions

variable {α δ : Type}

/-- Enough samples are buffered to pop every frame up to `frameIdx`. -/
structure Room (model : E2EVadModel α δ) (frameIdx : Int) : Prop where
  now : (frameShiftLength model.sampleRate : Int) ≤ model.dataBufSize
  later : (frameIdx + 1) * frameShiftLength model.sampleRate ≤ model.dataBufAllSize
  int : model.intSizes = true → model.dataBufAllSize < 2 ^ 31

theorem Room.mono {model : E2EVadModel α δ} {frameIdx earlier : Int} (room : model.Room frameIdx)
    (bound : earlier ≤ frameIdx) : model.Room earlier := by
  refine ⟨room.now, le_trans ?_ room.later, room.int⟩
  exact mul_le_mul_of_nonneg_right (by omega) (by omega)

theorem popFrames_eq (count : Nat) (model : E2EVadModel α δ)
    (room : model.Room (model.dataBufStartFrame + count)) :
    ∃ size : Int, (frameShiftLength model.sampleRate : Int) ≤ size ∧
      model.popFrames count = some { model with
        dataBufStartFrame := model.dataBufStartFrame + count, dataBufSize := size } := by
  induction count generalizing model with
  | zero => exact ⟨model.dataBufSize, room.now, by simp [popFrames]⟩
  | succ count inductionHypothesis =>
    have next : (frameShiftLength model.sampleRate : Int) ≤
        model.dataBufAllSize - (model.dataBufStartFrame + 1) * frameShiftLength model.sampleRate := by
      have popped := (@Room.mono _ _ _ _ (model.dataBufStartFrame + 1) room (by omega)).later
      rw [add_mul _ 1] at popped
      omega
    have fits : ¬ model.Overflows
        ((model.dataBufStartFrame + 1) * frameShiftLength model.sampleRate) := by
      rintro ⟨int, out⟩
      have bound := room.int int
      omega
    obtain ⟨size, enough, popped⟩ := inductionHypothesis
      { model with
        dataBufStartFrame := model.dataBufStartFrame + 1
        dataBufSize := model.dataBufAllSize -
          (model.dataBufStartFrame + 1) * frameShiftLength model.sampleRate }
      ⟨next, by simpa [add_assoc, add_comm, add_left_comm] using room.later, room.int⟩
    refine ⟨size, enough, ?_⟩
    rw [popFrames, if_neg (not_lt.mpr room.now), if_neg fits, popped]
    simp [add_assoc, add_comm (1 : Int)]

theorem popDataBufTillFrame_eq (model : E2EVadModel α δ) (frameIdx : Int)
    (room : model.Room (max model.dataBufStartFrame frameIdx)) :
    ∃ size : Int, (frameShiftLength model.sampleRate : Int) ≤ size ∧
      model.popDataBufTillFrame frameIdx = some { model with
        dataBufStartFrame := max model.dataBufStartFrame frameIdx, dataBufSize := size } := by
  have reached : model.dataBufStartFrame + (frameIdx - model.dataBufStartFrame).toNat =
      max model.dataBufStartFrame frameIdx := by omega
  have popped := popFrames_eq (frameIdx - model.dataBufStartFrame).toNat model (by rwa [reached])
  rwa [reached] at popped

/-- The last buffer after `count` frames from `startFrm` on were popped into it. -/
def grow (buf : E2EVadSpeechBufWithDoa) (endFrm : Int) (first last : Bool) :
    E2EVadSpeechBufWithDoa :=
  { buf with
    endMs := endFrm * frameInMs
    containSegStartPoint := buf.containSegStartPoint || first
    containSegEndPoint := buf.containSegEndPoint || last }

/-- Popping into the segment that is already being written. -/
theorem popDataToOutputBuf_append (model : E2EVadModel α δ) (startFrm frmCnt : Int) (last : Bool)
    (earlier : List E2EVadSpeechBufWithDoa) (current : E2EVadSpeechBufWithDoa)
    (output : model.outputDataBuf = earlier ++ [current])
    (room : model.Room (max model.dataBufStartFrame startFrm)) :
    ∃ size : Int, (frameShiftLength model.sampleRate : Int) ≤ size ∧
      model.popDataToOutputBuf startFrm frmCnt false last = some { model with
        dataBufStartFrame := max model.dataBufStartFrame startFrm + frmCnt
        dataBufSize := size
        outputDataBuf := earlier ++ [grow current (startFrm + frmCnt) false last] } := by
  obtain ⟨size, enough, popped⟩ := model.popDataBufTillFrame_eq startFrm room
  refine ⟨size, enough, ?_⟩
  simp only [popDataToOutputBuf, popped, Option.bind_eq_bind, Option.bind_some]
  simp [output, grow, List.modifyLast_concat]

/-- Popping the start point opens a new segment. -/
theorem popDataToOutputBuf_start (model : E2EVadModel α δ) (startFrm frmCnt : Int)
    (room : model.Room (max model.dataBufStartFrame startFrm)) :
    ∃ size : Int, (frameShiftLength model.sampleRate : Int) ≤ size ∧
      model.popDataToOutputBuf startFrm frmCnt true false = some { model with
        dataBufStartFrame := max model.dataBufStartFrame startFrm + frmCnt
        dataBufSize := size
        outputDataBuf := model.outputDataBuf ++
          [grow { startMs := startFrm * frameInMs } (startFrm + frmCnt) true false] } := by
  obtain ⟨size, enough, popped⟩ := model.popDataBufTillFrame_eq startFrm room
  refine ⟨size, enough, ?_⟩
  simp only [popDataToOutputBuf, popped, Option.bind_eq_bind, Option.bind_some]
  simp [grow, List.modifyLast_concat]

@[simp] theorem grow_grow (buf : E2EVadSpeechBufWithDoa) (earlier later : Int) :
    grow (grow buf earlier false false) later false false = grow buf later false false := by
  simp [grow]

theorem onVoiceDetected_eq (model : E2EVadModel α δ) (validFrame : Int)
    (earlier : List E2EVadSpeechBufWithDoa) (current : E2EVadSpeechBufWithDoa)
    (output : model.outputDataBuf = earlier ++ [current])
    (room : model.Room (max model.dataBufStartFrame validFrame)) :
    ∃ size : Int, (frameShiftLength model.sampleRate : Int) ≤ size ∧
      model.onVoiceDetected validFrame = some { model with
        latestConfirmedSpeechFrame := validFrame
        dataBufStartFrame := max model.dataBufStartFrame validFrame + 1
        dataBufSize := size
        outputDataBuf := earlier ++ [grow current (validFrame + 1) false false] } :=
  popDataToOutputBuf_append { model with latestConfirmedSpeechFrame := validFrame } validFrame 1 false
    earlier current output ⟨room.now, room.later, room.int⟩

/-- The loops over `OnVoiceDetected` extend the segment without a gap. -/
theorem onVoiceDetectedFrom_eq (count : Nat) (model : E2EVadModel α δ) (first : Int)
    (earlier : List E2EVadSpeechBufWithDoa) (current : E2EVadSpeechBufWithDoa)
    (output : model.outputDataBuf = earlier ++ [current])
    (start : model.dataBufStartFrame = first) (reached : current.endMs = first * frameInMs)
    (latest : model.latestConfirmedSpeechFrame = first - 1 ∨ 0 < count)
    (room : model.Room (first + count - 1)) :
    ∃ size : Int, (frameShiftLength model.sampleRate : Int) ≤ size ∧
      model.onVoiceDetectedFrom first count = some { model with
        latestConfirmedSpeechFrame := first + count - 1
        dataBufStartFrame := first + count
        dataBufSize := size
        outputDataBuf := earlier ++ [grow current (first + count) false false] } := by
  -- On the frames: each one extends the segment by its own end.
  induction count generalizing model first current with
  | zero =>
    refine ⟨model.dataBufSize, room.now, ?_⟩
    have same : grow current (first + (0 : Nat)) false false = current := by
      simp [grow, ← reached]
    have latest := latest.resolve_right (by omega)
    subst start
    rw [same, onVoiceDetectedFrom, ← output]
    simp only [Int.natCast_zero, add_zero, ← latest]
  | succ count inductionHypothesis =>
    have atFirst : max model.dataBufStartFrame first = first := by omega
    obtain ⟨size, enough, detected⟩ := model.onVoiceDetected_eq first earlier current output
      (room.mono (by omega))
    rw [atFirst] at detected
    obtain ⟨size', enough', rest⟩ := inductionHypothesis { model with
        latestConfirmedSpeechFrame := first
        dataBufStartFrame := first + 1
        dataBufSize := size
        outputDataBuf := earlier ++ [grow current (first + 1) false false] }
      (first + 1) (grow current (first + 1) false false) rfl rfl rfl (by simp)
      ⟨enough, by have later := room.later; push_cast at later ⊢; rwa [add_assoc first 1, add_comm 1 _],
        room.int⟩
    refine ⟨size', enough', ?_⟩
    rw [onVoiceDetectedFrom, detected, Option.bind_eq_bind, Option.bind_some, rest]
    have shifted : first + 1 + (count : Int) = first + ((count + 1 : Nat) : Int) := by push_cast; ring
    rw [shifted, grow_grow]

/-- The end of a segment pops every frame that is still missing, then the end frame. -/
theorem onVoiceEnd_eq (model : E2EVadModel α δ) (endFrame : Int)
    (earlier : List E2EVadSpeechBufWithDoa) (current : E2EVadSpeechBufWithDoa)
    (output : model.outputDataBuf = earlier ++ [current])
    (start : model.dataBufStartFrame = model.latestConfirmedSpeechFrame + 1)
    (reached : current.endMs = (model.latestConfirmedSpeechFrame + 1) * frameInMs)
    (ahead : model.latestConfirmedSpeechFrame < endFrame)
    (unset : model.confirmedEndFrame = -1) (room : model.Room endFrame) :
    ∃ size : Int, (frameShiftLength model.sampleRate : Int) ≤ size ∧
      model.onVoiceEnd endFrame false = some { model with
        latestConfirmedSpeechFrame := endFrame - 1
        dataBufStartFrame := endFrame + 1
        dataBufSize := size
        confirmedEndFrame := endFrame
        silFrame := 0
        numberEndTimeDetected := model.numberEndTimeDetected + 1
        outputDataBuf := earlier ++ [grow current (endFrame + 1) false true] } := by
  have missing : model.latestConfirmedSpeechFrame + 1 +
      ((endFrame - (model.latestConfirmedSpeechFrame + 1)).toNat : Int) = endFrame := by omega
  obtain ⟨size, enough, filled⟩ := onVoiceDetectedFrom_eq
    (endFrame - (model.latestConfirmedSpeechFrame + 1)).toNat model
    (model.latestConfirmedSpeechFrame + 1) earlier current output start reached
    (.inl (by omega)) (room.mono (by omega))
  rw [missing] at filled
  -- The end frame itself is popped last, and closes the segment.
  obtain ⟨size', enough', popped⟩ := popDataToOutputBuf_append { model with
      latestConfirmedSpeechFrame := endFrame - 1
      dataBufStartFrame := endFrame
      dataBufSize := size
      outputDataBuf := earlier ++ [grow current endFrame false false]
      confirmedEndFrame := endFrame
      silFrame := 0 } endFrame 1 true earlier (grow current endFrame false false) rfl
    ⟨enough, by simpa using room.later, room.int⟩
  refine ⟨size', enough', ?_⟩
  simp only [onVoiceEnd, filled, Option.bind_eq_bind, Option.bind_some, unset, ne_eq,
    not_true_eq_false, if_false, Bool.false_eq_true, popped, max_self]
  simp [grow]

end Asr2Pass.Vad.E2EVadModel
