import Asr2Pass.Ctc.TopK
import Asr2Pass.Library.Selection
import Asr2Pass.Timestamps.EncodeConverter

/-! # `TopK` against a stable sort

The queue holds the best of the entries seen.  Positions are `int32_t`, and so is the size.
-/

namespace Asr2Pass.Ctc

open Library Timestamps.EncodeConverter

variable {K : Type*} [LinearOrder K]

/-- `TopK` with its size as `int`; none when `resize` is asked for a negative size. -/
def intTopK (data : List K) (k : Nat) : Option (List (K × Nat)) :=
  let n := castInt data.length
  if n < 0 then none else topK (data.take n.toNat) k

/-- The entries with their positions, stably sorted by decreasing value. -/
def stablySorted (data : List K) : List (K × Nat) :=
  data.zipIdx.mergeSort fun one other => decide (other.1 ≤ one.1)

instance : IsTrans (K × Nat) ValueComp where
  trans := by
    rintro one other third (larger | ⟨same, before⟩) (larger' | ⟨same', before'⟩)
    · exact .inl (larger'.trans larger)
    · exact .inl (same' ▸ larger)
    · exact .inl (same ▸ larger')
    · exact .inr ⟨same.trans same', before.trans before'⟩

instance : Std.Asymm (ValueComp : K × Nat → K × Nat → Prop) where
  asymm := by
    rintro one other (larger | ⟨same, before⟩) (larger' | ⟨same', before'⟩)
    · exact lt_asymm larger larger'
    · exact larger.ne same'
    · exact larger'.ne same
    · exact Nat.lt_asymm before before'

/-- Entries at different positions compare. -/
theorem valueComp_or {one other : K × Nat} (apart : one.2 ≠ other.2) :
    ValueComp one other ∨ ValueComp other one := by
  rcases lt_trichotomy one.1 other.1 with smaller | same | larger
  · exact .inr (.inl smaller)
  · rcases Nat.lt_or_gt_of_ne apart with before | after
    · exact .inl (.inr ⟨same, before⟩)
    · exact .inr (.inr ⟨same.symm, after⟩)
  · exact .inl (.inl larger)

/-! ## The stable sort -/

theorem stablySorted_perm (data : List K) : (stablySorted data).Perm data.zipIdx :=
  List.mergeSort_perm ..

/-- Ties are in the order of their positions. -/
theorem stablySorted_pairwise (data : List K) : (stablySorted data).Pairwise ValueComp := by
  let notSmaller : K × Nat → K × Nat → Bool := fun one other => decide (other.1 ≤ one.1)
  have trans : ∀ one other third, notSmaller one other → notSmaller other third →
      notSmaller one third := by
    intro one other third first second
    simp only [notSmaller, decide_eq_true_eq] at first second ⊢
    exact second.trans first
  have total : ∀ one other, notSmaller one other || notSmaller other one := by
    intro one other
    simpa [notSmaller] using le_total other.1 one.1
  have numbered : ∀ item ∈ data.zipIdx.zipIdx, item.1.2 = item.2 := by
    intro item member
    have entry := List.mk_mem_zipIdx_iff_getElem?.mp member
    rw [List.getElem?_zipIdx] at entry
    obtain ⟨value, -, isItem⟩ := Option.map_eq_some_iff.mp entry
    simp [← isItem]
  have sorted := List.pairwise_mergeSort (List.zipIdxLE_trans trans) (List.zipIdxLE_total total)
    data.zipIdx.zipIdx
  have distinct : ((data.zipIdx.zipIdx.mergeSort (List.zipIdxLE notSmaller)).map Prod.snd).Nodup := by
    have same := (List.mergeSort_perm data.zipIdx.zipIdx (List.zipIdxLE notSmaller)).map Prod.snd
    rw [same.nodup_iff, List.zipIdx_map_snd]
    exact List.nodup_range'
  rw [stablySorted, ← List.mergeSort_zipIdx, List.pairwise_map]
  refine (sorted.and (List.pairwise_map.mp distinct)).imp_of_mem ?_
  intro one other isOne isOther order
  have position := numbered one (List.mem_mergeSort.mp isOne)
  have position' := numbered other (List.mem_mergeSort.mp isOther)
  obtain ⟨order, apart⟩ := order
  simp only [List.zipIdxLE, notSmaller, decide_eq_true_eq] at order
  by_cases larger : other.1.1 ≤ one.1.1
  · by_cases same : one.1.1 ≤ other.1.1
    · simp only [if_pos larger, if_pos same, decide_eq_true_eq] at order
      exact .inr ⟨le_antisymm same larger, by omega⟩
    · exact .inl (lt_of_not_ge same)
  · simp [larger] at order

/-! ## The queue -/

/-- Every entry has a later position than those before it. -/
def HaveOrder (items : List (K × Nat)) : Prop := items.Pairwise fun one other => one.2 < other.2

omit [LinearOrder K] in
theorem haveOrder_zipIdx (data : List K) : HaveOrder data.zipIdx := by
  have positions : (data.zipIdx.map Prod.snd).Pairwise (· < ·) := by
    rw [List.zipIdx_map_snd]
    exact List.pairwise_lt_range'
  exact List.pairwise_map.mp positions

/-- Whatever has been seen compares with a later entry. -/
theorem compare_later {queue seen rest : List (K × Nat)} {item : K × Nat}
    (selects : Selects ValueComp queue seen) (later : HaveOrder (seen ++ item :: rest)) :
    ∀ one ∈ queue, one.2 < item.2 := by
  intro one member
  obtain ⟨out, parts, -⟩ := selects.rest
  have isSeen : one ∈ seen := parts.mem_iff.mp (List.mem_append_left out member)
  exact (List.pairwise_append.mp later).2.2 one isSeen item List.mem_cons_self

/-- Filling the queue with the first entries. -/
theorem selects_foldl_push {items queue seen : List (K × Nat)}
    (selects : Selects ValueComp queue seen) (all : queue.length = seen.length)
    (later : HaveOrder (seen ++ items)) :
    Selects ValueComp (items.foldl push queue) (seen ++ items) := by
  induction items generalizing queue seen with
  | nil => simpa using selects
  | cons item rest inductionHypothesis =>
    have before := compare_later selects later
    have added := selects.insert all fun one member => valueComp_or (Nat.ne_of_lt (before one member))
    have size : (push queue item).length = (seen ++ [item]).length := by
      simp [(push_perm queue item).length_eq, all]
    have filled := inductionHypothesis added size (by simpa using later)
    rwa [List.append_assoc, List.singleton_append] at filled

/-- One turn of the loop over the entries after the first `k`. -/
theorem selects_replaceTop {top item : K × Nat} {others seen : List (K × Nat)}
    (selects : Selects ValueComp (top :: others) seen)
    (before : ∀ one ∈ top :: others, one.2 < item.2) :
    ∃ queue, replaceTop (top :: others) item = some queue ∧ queue.length = others.length + 1 ∧
      Selects ValueComp queue (seen ++ [item]) := by
  by_cases larger : top.1 < item.1
  · refine ⟨push others item, by simp [replaceTop, larger], (push_perm others item).length_eq, ?_⟩
    exact selects.replace (.inl larger) fun one member =>
      valueComp_or (Nat.ne_of_lt (before one (List.mem_cons_of_mem top member)))
  · refine ⟨top :: others, by simp [replaceTop, larger], rfl, selects.keep ?_⟩
    rcases lt_or_eq_of_le (le_of_not_gt larger) with smaller | same
    · exact .inl smaller
    · exact .inr ⟨same.symm, before top List.mem_cons_self⟩

theorem selects_foldlM_replaceTop {items queue seen : List (K × Nat)} (nonempty : queue ≠ [])
    (selects : Selects ValueComp queue seen) (later : HaveOrder (seen ++ items)) :
    ∃ last, items.foldlM replaceTop queue = some last ∧ last.length = queue.length ∧
      Selects ValueComp last (seen ++ items) := by
  induction items generalizing queue seen with
  | nil => exact ⟨queue, rfl, rfl, by simpa using selects⟩
  | cons item rest inductionHypothesis =>
    cases queue with
    | nil => exact absurd rfl nonempty
    | cons top others =>
      obtain ⟨next, stepped, size, selected⟩ := selects_replaceTop selects (compare_later selects later)
      have nonempty : next ≠ [] := by
        intro empty
        simp [empty] at size
      obtain ⟨last, ran, lastSize, selected⟩ :=
        inductionHypothesis nonempty selected (by simpa using later)
      refine ⟨last, ?_, by simp [lastSize, size], by simpa using selected⟩
      simp [List.foldlM_cons, stepped, ran]

/-- The best of the frame, as the stable sort has them. -/
theorem topK_eq (data : List K) {k : Nat} (positive : 0 < k) :
    topK data k = some ((stablySorted data).take k) := by
  have inOrder := haveOrder_zipIdx data
  rw [← List.take_append_drop k data.zipIdx] at inOrder
  have filled := selects_foldl_push selects_nil rfl (List.pairwise_append.mp inOrder).1
  have size := (foldl_push_perm (data.zipIdx.take k) []).length_eq
  rw [List.append_nil, List.length_take, List.length_zipIdx] at size
  rw [List.nil_append] at filled
  by_cases nothing : data = []
  · simp [topK, nothing, stablySorted]
  · have nonempty : (data.zipIdx.take k).foldl push [] ≠ [] := by
      intro empty
      rw [empty, List.length_nil] at size
      have := List.length_pos_iff.mpr nothing
      omega
    obtain ⟨last, ran, lastSize, selected⟩ := selects_foldlM_replaceTop nonempty filled inOrder
    rw [List.take_append_drop] at selected
    have front := selected.take_eq (stablySorted_pairwise data) (stablySorted_perm data)
    have whole : (stablySorted data).length = data.length := by
      rw [(stablySorted_perm data).length_eq, List.length_zipIdx]
    rw [topK, ran, Option.map_some, ← front, lastSize, size, ← whole, ← List.take_eq_take_min]

/-- On a vector of less than 2^31 values, the first `min(k, n)` entries of the stable sort. -/
theorem intTopK_eq {data : List K} {k : Nat} (positive : 0 < k) (small : data.length < 2 ^ 31) :
    intTopK data k = some ((stablySorted data).take k) := by
  simp [intTopK, castInt_of_lt small, topK_eq data positive]

/-- Three of five values, two of them equal. -/
theorem intTopK_eq_five :
    (0 < 3 ∧ [1, 4, 2, 4, 3].length < 2 ^ 31) ∧
      intTopK [1, 4, 2, 4, 3] 3 = some ((stablySorted [1, 4, 2, 4, 3]).take 3) :=
  ⟨by decide, intTopK_eq (by decide) (by decide)⟩

/-- The size of a vector of 2^31 values is a negative `int`. -/
theorem intTopK_ne_many :
    intTopK (List.replicate (2 ^ 31) (0 : Nat)) 1 ≠
      some ((stablySorted (List.replicate (2 ^ 31) (0 : Nat))).take 1) := by
  have negative : castInt (2 ^ 31) < 0 := by decide
  rw [intTopK, List.length_replicate, if_pos negative]
  exact (Option.some_ne_none _).symm

end Asr2Pass.Ctc
