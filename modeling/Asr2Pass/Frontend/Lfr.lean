import Asr2Pass.Library.BinaryRounding
import Asr2Pass.Library.Windows
import Mathlib.Algebra.Order.Ring.Int

/-! # Low frame rate features

`LfrCmvn` joins `lfr_m` frames into a row every `lfr_n` frames; `OnlineLfrCmvn` does so call by
call and keeps the frames that later rows still need.  `FsmnVad`, `Paraformer` and
`ParaformerTorch` share the text of the first, `FsmnVadOnline` and `ParaformerOnline` that of the
second.  The second divides in `float`: `floatOnlineLfrCmvn` does so, and `onlineLfrCmvn` exactly.
-/

namespace Asr2Pass.Frontend

open Library

/-- `lfr_m` and `lfr_n`. -/
structure LfrOptions where
  lfrM : Nat
  lfrN : Nat
  odd : lfrM % 2 = 1
  pos : 0 < lfrN
  lt : lfrN < lfrM
deriving Repr

namespace LfrOptions

/-- `VAD_LFR_M`, `VAD_LFR_N`. -/
def vad : LfrOptions := ⟨5, 1, by decide, by decide, by decide⟩

/-- `PARA_LFR_M`, `PARA_LFR_N`. -/
def para : LfrOptions := ⟨7, 6, by decide, by decide, by decide⟩

/-- `(lfr_m - 1) / 2`, the copies of the first frame. -/
def copies (lfr : LfrOptions) : Nat := (lfr.lfrM - 1) / 2

theorem lfrM_eq (lfr : LfrOptions) : lfr.lfrM = 2 * lfr.copies + 1 := by
  have odd := lfr.odd
  rw [copies]
  omega

end LfrOptions

/-- `means_list_` and `vars_list_`. -/
structure Cmvn (β : Type) where
  meansList : List β
  varsList : List β

variable {β : Type}

def Cmvn.apply [Add β] [Mul β] (cmvn : Cmvn β) (outFeat : List β) : List β :=
  outFeat.mapIdx fun j value =>
    match cmvn.meansList[j]?, cmvn.varsList[j]? with
    | some mean, some var => (value + mean) * var
    | _, _ => value

/-- The frames of row `i` one after the other; a row that ends after the frames is filled with
    the last one. -/
def spliceRow (lfr : LfrOptions) (feats : List (List β)) (i : Nat) : List β :=
  if lfr.lfrM ≤ feats.length - i * lfr.lfrN then ((feats.drop (i * lfr.lfrN)).take lfr.lfrM).flatten
  else
    (feats.drop (i * lfr.lfrN)).flatten ++
      (repeatLast feats (lfr.lfrM - (feats.length - i * lfr.lfrN))).flatten

/-! ## Offline -/

/-- The frames with the copies of the first one before them. -/
def padFeats (lfr : LfrOptions) (feats : List (List β)) : List (List β) :=
  List.replicate lfr.copies (feats.headD []) ++ feats

/-- `LfrCmvn`.  The callers have tested that there is a first frame.  The quotient is a `double`,
    which is right for every `int` (`ceilQuotient_eq`). -/
def lfrCmvn [Add β] [Mul β] (lfr : LfrOptions) (cmvn : Cmvn β) (feats : List (List β)) : List (List β) :=
  let tLrf := (feats.length + lfr.lfrN - 1) / lfr.lfrN
  (List.range tLrf).map fun i => cmvn.apply (spliceRow lfr (padFeats lfr feats) i)

/-! ## Online -/

/-- `count` rounds of the loop from row `i` on: the rows, and the row the loop breaks at. -/
def spliceRows (lfr : LfrOptions) (feats : List (List β)) (inputFinished : Bool) (i : Nat) :
    Nat → List (List β) × Option Nat
  | 0 => ([], none)
  | count + 1 =>
    if lfr.lfrM ≤ feats.length - i * lfr.lfrN ∨ inputFinished then
      let (rows, stop) := spliceRows lfr feats inputFinished (i + 1) count
      (spliceRow lfr feats i :: rows, stop)
    else ([], some i)

/-- What `OnlineLfrCmvn` leaves in `vad_feats` and in `lfr_splice_cache_`, and its result. -/
structure Spliced (β : Type) where
  feats : List (List β)
  lfrSpliceCache : List (List β)
  lfrSpliceFrameIdxs : Nat
deriving DecidableEq, Repr

/-- The body of `OnlineLfrCmvn` when `T_lrf` is `tLrf`; `none` where it would take an iterator before
    the first frame. -/
def onlineLfrCmvnRows [Add β] [Mul β] (lfr : LfrOptions) (cmvn : Cmvn β) (tLrf : Int)
    (feats : List (List β)) (inputFinished : Bool) : Option (Spliced β) :=
  let t : Int := feats.length
  let (rows, stop) := spliceRows lfr feats inputFinished 0 tLrf.toNat
  let reached : Int := stop.elim tLrf fun i => i
  let frameIdxs := min (t - 1) (reached * lfr.lfrN)
  if frameIdxs < 0 then none
  else some
    { feats := rows.map cmvn.apply
      lfrSpliceCache := feats.drop frameIdxs.toNat
      lfrSpliceFrameIdxs := frameIdxs.toNat }

/-- The ceiling of `(T - (lfr_m - 1) / 2) / lfr_n`. -/
def LfrOptions.tLrf (lfr : LfrOptions) (frames : Nat) : Int :=
  ((frames : Int) - lfr.copies + lfr.lfrN - 1) / lfr.lfrN

/-- `T_lrf`, the ceiling of the `float` quotient. -/
def LfrOptions.floatTLrf (lfr : LfrOptions) (frames : Nat) : Int :=
  ceilQuotient 24 ((frames : Int) - lfr.copies) lfr.lfrN

/-- `OnlineLfrCmvn` with the exact ceiling. -/
def onlineLfrCmvn [Add β] [Mul β] (lfr : LfrOptions) (cmvn : Cmvn β) (feats : List (List β))
    (inputFinished : Bool) : Option (Spliced β) :=
  onlineLfrCmvnRows lfr cmvn (lfr.tLrf feats.length) feats inputFinished

/-- `OnlineLfrCmvn`.  A last call that makes too many rows reads behind the last frame. -/
def floatOnlineLfrCmvn [Add β] [Mul β] (lfr : LfrOptions) (cmvn : Cmvn β) (feats : List (List β))
    (inputFinished : Bool) : Option (Spliced β) :=
  if inputFinished ∧ (feats.length : Int) < (lfr.floatTLrf feats.length - 1) * lfr.lfrN then none
  else onlineLfrCmvnRows lfr cmvn (lfr.floatTLrf feats.length) feats inputFinished

/-! ## The number of rows -/

/-- The `float` quotient has the right ceiling. -/
def LfrOptions.FloatCeil (lfr : LfrOptions) (frames : Nat) : Prop :=
  lfr.floatTLrf frames = lfr.tLrf frames

instance (lfr : LfrOptions) (frames : Nat) : Decidable (lfr.FloatCeil frames) :=
  inferInstanceAs (Decidable (_ = _))

theorem LfrOptions.floatCeil_of_lt {lfr : LfrOptions} {frames : Nat} (some : lfr.copies ≤ frames)
    (few : frames - lfr.copies < 2 ^ 24) (narrow : lfr.lfrN < 2 ^ 24) : lfr.FloatCeil frames := by
  rw [LfrOptions.FloatCeil, floatTLrf, tLrf, ← Nat.cast_sub some]
  exact ceilQuotient_eq (by decide) lfr.pos few narrow

theorem LfrOptions.tLrf_mul_lt (lfr : LfrOptions) (frames : Nat) :
    (lfr.tLrf frames - 1) * lfr.lfrN < (frames : Int) - lfr.copies := by
  have pos := lfr.pos
  have whole := Int.ediv_mul_le ((frames : Int) - lfr.copies + lfr.lfrN - 1)
    (show (lfr.lfrN : Int) ≠ 0 by omega)
  rw [sub_mul, one_mul, tLrf]
  omega

/-- Where the ceiling is right, no row starts behind the last frame. -/
theorem floatOnlineLfrCmvn_eq [Add β] [Mul β] {lfr : LfrOptions} (cmvn : Cmvn β)
    {feats : List (List β)} (right : lfr.FloatCeil feats.length) (inputFinished : Bool) :
    floatOnlineLfrCmvn lfr cmvn feats inputFinished = onlineLfrCmvn lfr cmvn feats inputFinished := by
  have last := lfr.tLrf_mul_lt feats.length
  rw [floatOnlineLfrCmvn, right, if_neg (fun beyond => by omega), onlineLfrCmvn]

/-! ## Rows are windows -/

theorem spliceRow_eq (lfr : LfrOptions) (feats : List (List β)) (i : Nat) :
    spliceRow lfr feats i = (windowAt feats (i * lfr.lfrN) lfr.lfrM).flatten := by
  unfold spliceRow
  split
  · rename_i inside
    rw [windowAt_full inside]
  · rename_i short
    rw [windowAt, List.flatten_append, List.take_of_length_le]
    rw [List.length_drop]
    omega

theorem spliceRow_append (lfr : LfrOptions) {feats : List (List β)} {i : Nat}
    (inside : i * lfr.lfrN + lfr.lfrM ≤ feats.length) (more : List (List β)) :
    spliceRow lfr (feats ++ more) i = spliceRow lfr feats i := by
  rw [spliceRow_eq, spliceRow_eq, windowAt_append inside]

theorem spliceRow_drop (lfr : LfrOptions) {feats : List (List β)} {skipped : Nat}
    (inside : skipped = 0 ∨ skipped * lfr.lfrN < feats.length) (i : Nat) :
    spliceRow lfr (feats.drop (skipped * lfr.lfrN)) i = spliceRow lfr feats (skipped + i) := by
  have kept : skipped * lfr.lfrN = 0 ∨ skipped * lfr.lfrN < feats.length :=
    inside.imp_left fun none => by rw [none, Nat.zero_mul]
  rw [spliceRow_eq, spliceRow_eq, windowAt_drop kept, add_mul]

theorem spliceRows_finished (lfr : LfrOptions) (feats : List (List β)) (i count : Nat) :
    spliceRows lfr feats true i count = ((List.range' i count).map (spliceRow lfr feats), none) := by
  induction count generalizing i with
  | zero => rfl
  | succ count inductionHypothesis =>
    rw [spliceRows, if_pos (.inr rfl), inductionHypothesis, List.range'_succ, List.map_cons]

/-- The rows that end inside the frames. -/
def fullRows (lfr : LfrOptions) (feats : List (List β)) : Nat :=
  (feats.length - lfr.lfrM) / lfr.lfrN + 1

theorem lt_fullRows_iff (lfr : LfrOptions) {feats : List (List β)} (enough : lfr.lfrM ≤ feats.length)
    (i : Nat) : i < fullRows lfr feats ↔ lfr.lfrM ≤ feats.length - i * lfr.lfrN := by
  have lt := lfr.lt
  rw [fullRows, Nat.lt_succ_iff, Nat.le_div_iff_mul_le lfr.pos]
  omega

/-- Calls that are not the last one make the rows that end inside the frames, `count` at most. -/
theorem spliceRows_open (lfr : LfrOptions) {feats : List (List β)} (enough : lfr.lfrM ≤ feats.length)
    (i count : Nat) (before : i ≤ fullRows lfr feats) :
    spliceRows lfr feats false i count =
      ((List.range' i (min (fullRows lfr feats - i) count)).map (spliceRow lfr feats),
        if i + count ≤ fullRows lfr feats then none else some (fullRows lfr feats)) := by
  induction count generalizing i with
  | zero => simp [spliceRows, before]
  | succ count inductionHypothesis =>
    by_cases full : i < fullRows lfr feats
    · have inside := (lt_fullRows_iff lfr enough i).mp full
      have more : min (fullRows lfr feats - i) (count + 1) =
          min (fullRows lfr feats - (i + 1)) count + 1 := by omega
      rw [spliceRows, if_pos (.inl inside), inductionHypothesis (i + 1) full, more,
        List.range'_succ, List.map_cons]
      simp only [Prod.mk.injEq, true_and]
      congr 2
      omega
    · have last : fullRows lfr feats = i := by omega
      have outside : ¬ lfr.lfrM ≤ feats.length - i * lfr.lfrN := by
        rw [← lt_fullRows_iff lfr enough i]
        exact full
      rw [spliceRows, if_neg (by simpa using outside), last]
      simp

end Asr2Pass.Frontend
