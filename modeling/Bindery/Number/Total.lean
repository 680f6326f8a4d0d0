/-!
# Totals

The total of a list of natural numbers, for the widths of columns, the sizes of
documents and the days of months.
-/

namespace Bindery

def total : List Nat → Nat
  | [] => 0
  | number :: rest => number + total rest

@[simp]
theorem total_nil : total [] = 0 :=
  rfl

@[simp]
theorem total_cons (number : Nat) (rest : List Nat) :
    total (number :: rest) = number + total rest :=
  rfl

@[simp]
theorem total_append (first second : List Nat) :
    total (first ++ second) = total first + total second := by
  induction first with
  | nil => simp
  | cons number rest ih => simp [ih, Nat.add_assoc]

end Bindery
