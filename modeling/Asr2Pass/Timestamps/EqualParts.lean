import Asr2Pass.Library.Intervals
import Asr2Pass.Timestamps.TimestampSmooth
import Mathlib.Data.Int.ConditionallyCompleteOrder

/-! # Time in equal parts

`TimestampSmooth` shares the time of some timestamps in equal parts.  The parts stay within this time
unless its length is no `int`, and intervals in order stay in order when some of them are exchanged for
such parts.
-/

namespace Asr2Pass.Timestamps

open Library

/-! ## Equal parts -/

/-- Where the `k`-th of the equal parts begins. -/
def partBegin (begin last : Int) (count k : Nat) : Int :=
  wrapInt (begin + wrapInt ((wrapInt (last - begin)).tdiv count * k))

/-- Timestamps, and the number of tokens that their time is shared among. -/
structure Share where
  timestamps : List Span
  count : Nat

namespace Share

def begin (share : Share) : Int := (share.timestamps.headD (0, 0)).1

def last (share : Share) : Int := (share.timestamps.getLastD (0, 0)).2

/-- There is one token for the time; or the length of the time is an `int`; or it is so close to 2^32
    that what is left of it is too little for the tokens. -/
def Even (share : Share) : Prop :=
  share.count ≤ 1 ∨ share.last - share.begin < 2 ^ 31 ∨ 2 ^ 32 < share.last - share.begin + share.count

end Share

theorem wrapInt_of_isInt {number : Int} (isInt : IsInt number) : wrapInt number = number := by
  unfold wrapInt
  unfold IsInt at isInt
  exact Int.bmod_eq_of_le (by omega) (by omega)

theorem wrapInt_add (number : Int) : wrapInt (number + 2 ^ 32) = wrapInt number := by
  have turns := Int.add_mul_bmod_self_left number (2 ^ 32) 1
  rwa [Int.mul_one] at turns

/-- A length of time that is no `int`. -/
theorem wrapInt_of_long {time : Int} (long : 2 ^ 31 ≤ time) (most : time < 2 ^ 32) :
    wrapInt time = time - 2 ^ 32 := by
  rw [← Int.sub_add_cancel time (2 ^ 32), wrapInt_add, Int.sub_add_cancel]
  exact wrapInt_of_isInt ⟨by omega, by omega⟩

theorem spread_eq (timestampsTmp : List Span) (count : Nat) :
    spread timestampsTmp count = (List.range count).map fun k =>
      (partBegin (Share.begin ⟨timestampsTmp, count⟩) (Share.last ⟨timestampsTmp, count⟩) count k,
        if k = count - 1 then Share.last ⟨timestampsTmp, count⟩
        else partBegin (Share.begin ⟨timestampsTmp, count⟩) (Share.last ⟨timestampsTmp, count⟩) count
          (k + 1)) := by
  have casts : (do let k ← List.range count; pure (k : Int)) = (List.range count).map Nat.cast :=
    (List.bind_eq_flatMap _ _).trans (List.flatMap_pure_eq_map _ _)
  unfold spread
  rw [casts, List.map_map]
  refine List.map_congr_left fun k member => ?_
  have isLast : (k : Int) = count - 1 ↔ k = count - 1 := by
    have inside := List.mem_range.mp member
    omega
  simp only [Function.comp_apply, isLast, partBegin, Share.begin, Share.last, Nat.cast_succ]

section
variable {begin last : Int} {count : Nat}

/-- The parts are steps of one length that do not reach past the end. -/
theorem exists_step (isInt : IsInt begin) (isInt' : IsInt last) (forward : begin ≤ last)
    (some : 0 < count) (even : last - begin < 2 ^ 31 ∨ 2 ^ 32 < last - begin + count) :
    ∃ interval, 0 ≤ interval ∧ interval * count ≤ last - begin ∧
      (last - begin < 2 ^ 31 ∨ interval = 0) ∧
      ∀ k ≤ count, partBegin begin last count k = begin + interval * k := by
  unfold IsInt at isInt isInt'
  by_cases short : last - begin < 2 ^ 31
  · have time : wrapInt (last - begin) = last - begin :=
      wrapInt_of_isInt ⟨by omega, by omega⟩
    have whole : (last - begin).tdiv count = (last - begin) / count :=
      Int.tdiv_eq_ediv_of_nonneg (by omega)
    have least : 0 ≤ (last - begin) / count := Int.ediv_nonneg (by omega) (by omega)
    have most : (last - begin) / count * count ≤ last - begin := Int.ediv_mul_le _ (by omega)
    refine ⟨(last - begin) / count, least, most, .inl short, fun k within => ?_⟩
    have ahead : 0 ≤ (last - begin) / count * k := Int.mul_nonneg least (by omega)
    have behind : (last - begin) / count * k ≤ (last - begin) / count * count :=
      Int.mul_le_mul_of_nonneg_left (by exact_mod_cast within) least
    have offset : wrapInt ((last - begin) / count * k) = (last - begin) / count * k :=
      wrapInt_of_isInt ⟨by omega, by omega⟩
    rw [partBegin, time, whole, offset]
    exact wrapInt_of_isInt ⟨by omega, by omega⟩
  · -- what is left of the time is less than one for each token
    have time : wrapInt (last - begin) = last - begin - 2 ^ 32 :=
      wrapInt_of_long (by omega) (by omega)
    have nothing : (last - begin - 2 ^ 32).tdiv count = 0 := by
      rw [← neg_neg (last - begin - 2 ^ 32), Int.neg_tdiv, Int.tdiv_eq_ediv_of_nonneg (by omega),
        Int.ediv_eq_zero_of_lt (by omega) (by omega), neg_zero]
    refine ⟨0, le_rfl, by omega, .inr rfl, fun k _ => ?_⟩
    have zero : wrapInt 0 = 0 := rfl
    rw [partBegin, time, nothing, Int.zero_mul, zero, add_zero]
    exact wrapInt_of_isInt isInt

theorem partBegin_zero (isInt : IsInt begin) (last : Int) (count : Nat) :
    partBegin begin last count 0 = begin := by
  have zero : wrapInt 0 = 0 := rfl
  rw [partBegin, Nat.cast_zero, Int.mul_zero, zero, add_zero]
  exact wrapInt_of_isInt isInt

/-- Where the time is too long, the first part ends outside. -/
theorem partBegin_one (isInt : IsInt begin) (isInt' : IsInt last) (some : 1 < count)
    (long : 2 ^ 31 ≤ last - begin) (short : last - begin + count ≤ 2 ^ 32) :
    partBegin begin last count 1 < begin ∨ last < partBegin begin last count 1 := by
  unfold IsInt at isInt isInt'
  -- The difference wraps around once, so the parts go backwards.
  have time : wrapInt (last - begin) = -(2 ^ 32 - (last - begin)) := by
    rw [wrapInt_of_long long (by omega)]
    omega
  have whole : (2 ^ 32 - (last - begin)).tdiv count = (2 ^ 32 - (last - begin)) / count :=
    Int.tdiv_eq_ediv_of_nonneg (by omega)
  have least : 1 ≤ (2 ^ 32 - (last - begin)) / count :=
    Int.le_ediv_of_mul_le (by omega) (by omega)
  have most : (2 ^ 32 - (last - begin)) / count < 2 ^ 32 - (last - begin) :=
    Int.ediv_lt_self_of_pos_of_ne_one (by omega) (by omega)
  have offset : wrapInt ((wrapInt (last - begin)).tdiv count * (1 : Nat)) =
      -((2 ^ 32 - (last - begin)) / count) := by
    rw [time, Int.neg_tdiv, whole, Nat.cast_one, Int.mul_one]
    exact wrapInt_of_isInt ⟨by omega, by omega⟩
  rw [partBegin, offset]
  by_cases low : -2 ^ 31 ≤ begin + -((2 ^ 32 - (last - begin)) / count)
  · rw [wrapInt_of_isInt ⟨low, by omega⟩]
    exact .inl (by omega)
  · rw [← wrapInt_add, wrapInt_of_isInt ⟨by omega, by omega⟩]
    exact .inr (by omega)

end

section
variable {share : Share}

theorem spread_one (isInt : IsInt share.begin) (one : share.count = 1) :
    spread share.timestamps share.count = [(share.begin, share.last)] := by
  obtain ⟨timestamps, count⟩ := share
  subst one
  have begins := partBegin_zero isInt (Share.last ⟨timestamps, 1⟩) 1
  rw [spread_eq]
  simp [begins]

/-- The parts stay within the time that is shared. -/
theorem fits_spread (isInt : IsInt share.begin) (isInt' : IsInt share.last)
    (forward : share.begin ≤ share.last) (some : 0 < share.count) (even : share.Even) :
    Fits share.begin share.last (spread share.timestamps share.count) := by
  by_cases one : share.count = 1
  · rw [spread_one isInt one]
    simp [Fits, endpoints, forward]
  · obtain ⟨interval, least, most, -, parts⟩ :=
      exists_step isInt isInt' forward some (even.resolve_left (by omega))
    -- the parts from `k` to `k + 1` and from `k'` to `k' + 1`, each within the time
    have steps {k k' : Nat} (before : k ≤ k') (inside : k' ≤ share.count) :
        share.begin ≤ partBegin share.begin share.last share.count k ∧
          partBegin share.begin share.last share.count k ≤
            partBegin share.begin share.last share.count k' ∧
          partBegin share.begin share.last share.count k' ≤ share.last := by
      have ahead : 0 ≤ interval * k := Int.mul_nonneg least (by omega)
      have further : interval * k ≤ interval * k' :=
        Int.mul_le_mul_of_nonneg_left (by exact_mod_cast before) least
      have behind : interval * k' ≤ interval * share.count :=
        Int.mul_le_mul_of_nonneg_left (by exact_mod_cast inside) least
      rw [parts k (before.trans inside), parts k' inside]
      omega
    rw [spread_eq]
    refine fits_iff_inOrder.mpr ⟨forward, ⟨?_, ?_⟩, ?_⟩
    · intro span member
      obtain ⟨k, inside, rfl⟩ := List.mem_map.mp member
      have step := steps (Nat.le_succ k) (List.mem_range.mp inside)
      dsimp only
      split
      · exact step.2.1.trans step.2.2
      · exact step.2.1
    · refine List.Pairwise.isChain (List.pairwise_map.mpr ?_)
      refine List.pairwise_lt_range.imp_of_mem fun {k k'} member member' before => ?_
      have inside := List.mem_range.mp member'
      dsimp only
      rw [if_neg (by omega)]
      exact (steps before (by omega)).2.1
    · intro x member
      obtain ⟨span, isPart, point⟩ := mem_endpoints.mp member
      obtain ⟨k, inside, rfl⟩ := List.mem_map.mp isPart
      have step := steps (Nat.le_succ k) (List.mem_range.mp inside)
      rcases point with rfl | rfl
      · exact ⟨step.1, step.2.1.trans step.2.2⟩
      · dsimp only
        split
        · exact ⟨forward, le_rfl⟩
        · exact ⟨step.1.trans step.2.1, step.2.2⟩

theorem sublist_spread (isInt : IsInt share.begin) (some : 0 < share.count) :
    [share.begin, share.last].Sublist (endpoints (spread share.timestamps share.count)) := by
  by_cases one : share.count = 1
  · rw [spread_one isInt one]
    exact List.Sublist.refl _
  · obtain ⟨count, same⟩ : ∃ count, share.count = count + 1 := ⟨share.count - 1, by omega⟩
    have both : [0, count].Sublist (List.range share.count) := by
      rw [same, List.range_succ]
      exact (List.singleton_sublist.mpr (List.mem_range.mpr (by omega))).append_right [count]
    have begins := partBegin_zero isInt share.last share.count
    have ends : count = share.count - 1 := by omega
    rw [spread_eq]
    refine List.Sublist.trans ?_ ((both.map _).flatMap _)
    simp only [List.map_cons, List.map_nil, List.flatMap_cons, List.flatMap_nil, List.append_nil,
      List.cons_append, List.nil_append, if_pos ends]
    change [share.begin, share.last].Sublist
      [partBegin share.begin share.last share.count 0, _, _, share.last]
    rw [begins]
    exact (((List.Sublist.refl _).cons _).cons _).cons_cons _

/-- Parts in order come of a time that is shared evenly. -/
theorem even_of_inOrder (isInt : IsInt share.begin) (isInt' : IsInt share.last)
    (inOrder : InOrder (spread share.timestamps share.count)) : share.Even := by
  by_contra uneven
  unfold Share.Even at uneven
  push Not at uneven
  obtain ⟨more, long, short⟩ := uneven
  -- The first part ends outside, but in order it would end between begin and end.
  have outside := partBegin_one isInt isInt' more long short
  have begins := partBegin_zero isInt share.last share.count
  rw [spread_eq] at inOrder
  have first := inOrder.each _ (List.mem_map_of_mem (List.mem_range.mpr (Nat.zero_lt_of_lt more)))
  have ends := List.pairwise_iff_getElem.mp (List.pairwise_map.mp inOrder.ends) 0 (share.count - 1)
    (by rw [List.length_range]; omega) (by rw [List.length_range]; omega) (by omega)
  have notLast : ¬ (0 : Nat) = share.count - 1 := by omega
  rw [List.getElem_range, List.getElem_range] at ends
  simp only [Nat.zero_add, notLast, if_false, if_true] at first ends
  change partBegin share.begin share.last share.count 0 ≤ partBegin share.begin share.last share.count 1
    at first
  change partBegin share.begin share.last share.count 1 ≤ share.last at ends
  omega

/-! ## A share among the other timestamps -/

theorem Share.exists_ends (nonempty : share.timestamps ≠ []) :
    ∃ first ∈ share.timestamps.head?, ∃ last ∈ share.timestamps.getLast?,
      share.begin = first.1 ∧ share.last = last.2 := by
  refine ⟨_, List.head?_eq_some_head nonempty, _, List.getLast?_eq_some_getLast nonempty, ?_, ?_⟩
  · rw [begin, List.headD_eq_head?_getD, List.head?_eq_some_head nonempty, Option.getD_some]
  · rw [last, List.getLastD_eq_getLast?, List.getLast?_eq_some_getLast nonempty, Option.getD_some]

theorem Share.areInts (nonempty : share.timestamps ≠ [])
    (spans : ∀ span ∈ share.timestamps, IsSpan span) : IsInt share.begin ∧ IsInt share.last := by
  obtain ⟨first, begins, last, ends, same, same'⟩ := exists_ends nonempty
  rw [same, same']
  exact ⟨(spans first (List.mem_of_mem_head? begins)).1, (spans last (List.mem_of_mem_getLast? ends)).2⟩

/-- The shared timestamps are exchanged for the parts. -/
theorem fits_settleTmp {lo hi : Int} {earlier later : List Span}
    (fits : Fits lo hi (earlier ++ share.timestamps ++ later))
    (spans : ∀ span ∈ share.timestamps, IsSpan span) (even : share.Even) :
    Fits lo hi (earlier ++ settleTmp share.timestamps share.count ++ later) := by
  unfold settleTmp
  split
  · rename_i shared
    obtain ⟨nonempty, some⟩ := shared
    obtain ⟨first, begins, last, ends, same, same'⟩ := Share.exists_ends nonempty
    have part : Fits lo hi share.timestamps :=
      fits.sublist ((List.sublist_append_right _ _).trans (List.sublist_append_left _ _))
    have bounds := part.inOrder.fits begins ends
    rw [← same, ← same'] at bounds
    obtain ⟨isInt, isInt'⟩ := Share.areInts nonempty spans
    refine fits.exchange ?_ ?_ (fits_spread isInt isInt' (fits_iff_inOrder.mp bounds).1 some even)
    · exact mem_endpoints.mpr ⟨first, List.mem_of_mem_head? begins, .inl same⟩
    · exact mem_endpoints.mpr ⟨last, List.mem_of_mem_getLast? ends, .inr same'⟩
  · rw [List.append_nil]
    exact fits.sublist ((List.sublist_append_left _ _).append_right _)

theorem even_of_settleTmp (nonempty : share.timestamps ≠ [])
    (spans : ∀ span ∈ share.timestamps, IsSpan span)
    (inOrder : InOrder (settleTmp share.timestamps share.count)) : share.Even := by
  obtain ⟨isInt, isInt'⟩ := Share.areInts nonempty spans
  unfold settleTmp at inOrder
  split at inOrder
  · exact even_of_inOrder isInt isInt' inOrder
  · rename_i unshared
    have none : share.count = 0 := by
      by_contra some
      exact unshared ⟨nonempty, Nat.pos_of_ne_zero some⟩
    exact .inl (by omega)

end

end Asr2Pass.Timestamps
