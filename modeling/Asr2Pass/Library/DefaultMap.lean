import Mathlib.Data.List.AList
import Mathlib.Algebra.BigOperators.Group.List.Basic

/-! # Maps whose missing keys read as a default

The operator that inserts a default where a key is missing, on association lists: the order of the
entries says nothing, and no key occurs twice.
-/

namespace Asr2Pass.Library

/-- A map in which a missing key reads as the default. -/
abbrev DefaultMap (κ β : Type*) := AList fun _ : κ => β

namespace DefaultMap

variable {κ β : Type*} [DecidableEq κ] [Inhabited β]

def read (map : DefaultMap κ β) (key : κ) : β :=
  (map.lookup key).getD default

@[simp] theorem read_empty (key : κ) : read (∅ : DefaultMap κ β) key = default := by
  simp [read]

@[simp] theorem read_insert_self (map : DefaultMap κ β) (key : κ) (value : β) :
    read (map.insert key value) key = value := by
  simp [read]

theorem read_insert_ne (map : DefaultMap κ β) {key other : κ} (value : β) (differ : other ≠ key) :
    read (map.insert key value) other = read map other := by
  simp [read, AList.lookup_insert_ne differ]

theorem read_of_notMem {map : DefaultMap κ β} {key : κ} (missing : key ∉ map) :
    read map key = default := by
  simp [read, AList.lookup_eq_none.mpr missing]

theorem read_of_mem_entries {map : DefaultMap κ β} {key : κ} {value : β}
    (member : ⟨key, value⟩ ∈ map.entries) : read map key = value := by
  have found : map.lookup key = some value := AList.mem_lookup_iff.mpr member
  simp [read, found]

theorem mem_entries_read {map : DefaultMap κ β} {key : κ} (member : key ∈ map) :
    ⟨key, read map key⟩ ∈ map.entries := by
  obtain ⟨value, found⟩ := Option.isSome_iff_exists.mp (AList.lookup_isSome.mpr member)
  have entry : ⟨key, value⟩ ∈ map.entries := AList.mem_lookup_iff.mp found
  rwa [read_of_mem_entries entry]

omit [Inhabited β] in
/-- A list without two entries of one key, summed over the entries of one key. -/
theorem sum_dlookup {M : Type*} [AddCommMonoid M] {entries : List (Sigma fun _ : κ => β)}
    (distinct : entries.NodupKeys) (key : κ) (f : β → M) :
    (entries.map fun entry => if entry.1 = key then f entry.2 else 0).sum =
      ((entries.dlookup key).map f).getD 0 := by
  induction entries with
  | nil => rfl
  | cons entry rest inductionHypothesis =>
    obtain ⟨entryKey, value⟩ := entry
    obtain ⟨notLater, restDistinct⟩ := List.nodupKeys_cons.mp distinct
    rw [List.map_cons, List.sum_cons, inductionHypothesis restDistinct]
    by_cases same : entryKey = key
    · subst same
      simp [List.dlookup_eq_none.mpr notLater]
    · simp [same, List.dlookup_cons_ne rest ⟨entryKey, value⟩ (Ne.symm same)]

/-- A sum over the entries of one key is its value there, in whatever order the entries come. -/
theorem sum_entries {M : Type*} [AddCommMonoid M] {map : DefaultMap κ β}
    {order : List (Sigma fun _ : κ => β)} (same : order.Perm map.entries) (key : κ) (f : β → M)
    (nothing : f default = 0) :
    (order.map fun entry => if entry.1 = key then f entry.2 else 0).sum = f (read map key) := by
  rw [(same.map _).sum_eq, sum_dlookup map.nodupKeys]
  change ((map.lookup key).map f).getD 0 = f ((map.lookup key).getD default)
  cases map.lookup key with
  | none => simp [nothing]
  | some value => simp

end DefaultMap

end Asr2Pass.Library
