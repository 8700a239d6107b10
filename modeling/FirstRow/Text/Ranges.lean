/-!
# Ranges of code points

A property of characters is kept as a list of closed ranges of code points. `Ranges.contains` is the property;
the tables themselves stand in a module per property.
-/
namespace FirstRow.Text

/-- Closed ranges of code points, first and last, in ascending order. -/
abbrev Ranges := List (Nat × Nat)

/-- Whether a code point lies in one of the ranges. -/
def Ranges.contains (rs : Ranges) (n : Nat) : Bool :=
  rs.any fun r => decide (r.1 ≤ n) && decide (n ≤ r.2)

theorem Ranges.contains_iff (rs : Ranges) (n : Nat) :
    rs.contains n = true ↔ ∃ r ∈ rs, r.1 ≤ n ∧ n ≤ r.2 := by
  simp [Ranges.contains]

end FirstRow.Text
