import Asr2Pass.Library.Tables
import Mathlib.Algebra.Group.Nat.Defs

/-! # `Calculator`

The tokens of a label and of what was recognized are aligned along a table of their distances.  The
table is kept from one utterance to the next, as large as it has become.
-/

namespace Asr2Pass.Evaluation

open Library

/-- A string, which may be empty. -/
abbrev Token := List Char

/-- `sys.maxsize`: no list is longer. -/
def sysMaxsize : Nat := 2 ^ 63 - 1

/-- What stands under `'error'`. -/
inductive Mark where
  | non
  | none
  | cor
  | sub
  | del
  | ins
  deriving DecidableEq, Repr

structure Cell where
  dist : Nat
  error : Mark
  deriving DecidableEq, Repr

structure Cost where
  cor : Nat
  sub : Nat
  del : Nat
  ins : Nat

def cost : Cost := { cor := 0, sub := 1, del := 1, ins := 1 }

@[ext] structure Counts where
  all : Nat := 0
  cor : Nat := 0
  sub : Nat := 0
  ins : Nat := 0
  del : Nat := 0
  deriving DecidableEq, Repr

namespace Counts

def count (counts : Counts) : Mark → Counts
  | .cor => { counts with all := counts.all + 1, cor := counts.cor + 1 }
  | .sub => { counts with all := counts.all + 1, sub := counts.sub + 1 }
  | .del => { counts with all := counts.all + 1, del := counts.del + 1 }
  | .ins => { counts with ins := counts.ins + 1 }
  | .non | .none => counts

instance : Add Counts where
  add counts other :=
    { all := counts.all + other.all
      cor := counts.cor + other.cor
      sub := counts.sub + other.sub
      ins := counts.ins + other.ins
      del := counts.del + other.del }

end Counts

/-- The counts of every token, in the order in which the tokens have come. -/
abbrev Data := List (Token × Counts)

/-- The members of a `Calculator`. -/
structure Calculator where
  data : Data := []
  space : Table Cell := []

/-- `result`, its `'rec'` under `recs`. -/
structure Result where
  lab : List Token := []
  recs : List Token := []
  counts : Counts := {}
  deriving DecidableEq, Repr

/-! ## The table -/

/-- A row of at least so many cells, and nothing in them. -/
def resizeRow (cols : Nat) (row : List Cell) : List Cell :=
  row.map (fun _ => ⟨0, .non⟩) ++ List.replicate (cols - row.length) ⟨0, .non⟩

def resize (rows cols : Nat) (space : Table Cell) : Table Cell :=
  (space ++ List.replicate (rows - space.length) []).map (resizeRow cols)

/-- The first column, the first row, and the cell of both. -/
def border (rows cols : Nat) (space : Table Cell) : Option (Table Cell) := do
  let space ← (List.range rows).foldlM (fun space i => space.write i 0 ⟨i, .del⟩) space
  let space ← (List.range cols).foldlM (fun space j => space.write 0 j ⟨j, .ins⟩) space
  let first ← space.entry 0 0
  space.write 0 0 { first with error := .non }

/-- `if dist < min_dist`. -/
def closer (min cell : Cell) : Cell := if cell.dist < min.dist then cell else min

/-- What is written to the cell of two tokens. -/
def nearest (labToken recToken : Token) (above left diagonal : Cell) : Cell :=
  let min := closer ⟨sysMaxsize, .none⟩ ⟨above.dist + cost.del, .del⟩
  let min := closer min ⟨left.dist + cost.ins, .ins⟩
  if labToken = recToken then closer min ⟨diagonal.dist + cost.cor, .cor⟩
  else closer min ⟨diagonal.dist + cost.sub, .sub⟩

/-! ## Tracing back -/

/-- The counts of a token that has come before; none for any other. -/
def tally (data : Data) (token : Token) (error : Mark) : Option Data :=
  match data with
  | [] => none
  | (key, counts) :: rest =>
    if key = token then some ((key, counts.count error) :: rest)
    else (tally rest token error).map ((key, counts) :: ·)

/-- The variables of the loop. -/
structure Tracing where
  i : Nat
  j : Nat
  data : Data
  result : Result

namespace Tracing

/-- An empty token is not counted. -/
def count (tracing : Tracing) (token : Token) (error : Mark) : Option Tracing :=
  if token.length > 0 then
    (tally tracing.data token error).map fun data =>
      { tracing with
        data
        result := { tracing.result with counts := tracing.result.counts.count error } }
  else some tracing

/-- `insert(0, ...)` to both lists. -/
def insert (tracing : Tracing) (labToken recToken : Token) : Tracing :=
  { tracing with
    result :=
      { tracing.result with
        lab := labToken :: tracing.result.lab
        recs := recToken :: tracing.result.recs } }

end Tracing

/-- None below 0, where an index would be read from the end of a list. -/
def lower : Nat → Option Nat
  | 0 => none
  | i + 1 => some i

/-- The loop, with so many turns at most.  None where it would go on for ever. -/
def traceBack (lab recs : List Token) (space : Table Cell) : Nat → Tracing → Option Tracing
  | 0, _ => none
  | turns + 1, tracing => do
    let cell ← space.entry tracing.i tracing.j
    match cell.error with
    | .cor =>
      let counted ← tracing.count (← lab[tracing.i]?) .cor
      let shown := counted.insert (← lab[tracing.i]?) (← recs[tracing.j]?)
      traceBack lab recs space turns { shown with i := ← lower tracing.i, j := ← lower tracing.j }
    | .sub =>
      let counted ← tracing.count (← lab[tracing.i]?) .sub
      let shown := counted.insert (← lab[tracing.i]?) (← recs[tracing.j]?)
      traceBack lab recs space turns { shown with i := ← lower tracing.i, j := ← lower tracing.j }
    | .del =>
      let counted ← tracing.count (← lab[tracing.i]?) .del
      let shown := counted.insert (← lab[tracing.i]?) []
      traceBack lab recs space turns { shown with i := ← lower tracing.i }
    | .ins =>
      let counted ← tracing.count (← recs[tracing.j]?) .ins
      let shown := counted.insert [] (← recs[tracing.j]?)
      traceBack lab recs space turns { shown with j := ← lower tracing.j }
    | .non => some tracing
    | .none => none

/-! ## `calculate` and `overall` -/

/-- A token that has not come before. -/
def addToken (data : Data) (token : Token) : Data :=
  if token ∉ data.map Prod.fst ∧ token.length > 0 then data ++ [(token, ({} : Counts))] else data

/-- `calculate`, with the variables at the end of the loop for the result alone. -/
def calculate (calculator : Calculator) (lab recs : List Token) :
    Option (Calculator × Tracing) := do
  let lab := [] :: lab
  let recs := [] :: recs
  let space ← border lab.length recs.length (resize lab.length recs.length calculator.space)
  let data := recs.foldl addToken (lab.foldl addToken calculator.data)
  let step := fun i j => nearest (lab.getD i []) (recs.getD j [])
  let space ← space.fill step lab.length recs.length
  let last ← traceBack lab recs space (lab.length + recs.length)
    { i := lab.length - 1, j := recs.length - 1, data, result := {} }
  some ({ data := last.data, space }, last)

def total (data : Data) : Counts := data.foldl (fun result item => result + item.2) {}

def overall (calculator : Calculator) : Counts := total calculator.data

/-- One utterance after the other. -/
def calculateAll (calculator : Calculator) :
    List (List Token × List Token) → Option (Calculator × List Tracing)
  | [] => some (calculator, [])
  | (lab, recs) :: utterances => do
    let (next, last) ← calculate calculator lab recs
    let (final, lasts) ← calculateAll next utterances
    some (final, last :: lasts)

end Asr2Pass.Evaluation
