import Bindery.Proofs.Course

/-!
# Computations that end alike

Two computations end alike if they return related values, whatever the states
are in which they start.  If it is sure that nothing sets them apart, then one
also fails only if the other does, and with the same fault.  The rules follow the
way computations are put together.
-/

namespace Bindery.Run

variable {State α β : Type} {relate : α → β → Prop} {sure : Prop}

theorem ofExcept_ok_bind (value : α) (next : α → Run State β) :
    (ofExcept (.ok value) >>= next) = next value :=
  rfl

theorem ofExcept_error_bind (fault : Fault) (next : α → Run State β) :
    (ofExcept (.error fault) >>= next) = throw fault :=
  rfl

/-- Two results are alike: values are related, and if `sure`, faults are the same. -/
def ResultsAlike (sure : Prop) (relate : α → β → Prop) :
    Except Fault α → Except Fault β → Prop
  | .ok first, .ok second => relate first second
  | .error first, .error second => sure → first = second
  | _, _ => ¬ sure

/-- Two computations end alike, from whatever states they start. -/
def Alike (sure : Prop) (relate : α → β → Prop) (first : Run State α) (second : Run State β) :
    Prop :=
  ∀ state state', ResultsAlike sure relate (first.start state).1 (second.start state').1

namespace Alike

theorem pure {first : α} {second : β} (related : relate first second) :
    Alike sure relate (pure first : Run State α) (pure second) :=
  fun _ _ => related

theorem throw (fault : Fault) : Alike sure relate (throw fault : Run State α) (throw fault) :=
  fun _ _ _ => rfl

theorem modify {change change' : State → State} :
    Alike sure (fun _ _ => True) (modify change : Run State PUnit)
      (modify change' : Run State PUnit) :=
  fun _ _ => trivial

variable {first : Run State α} {second : Run State β}

/-- Nothing has to be shown where nothing is sure. -/
theorem unsure (unsure : ¬ sure) (related : ∀ value value', relate value value') :
    Alike sure relate first second := by
  intro state state'
  cases (first.start state).1 <;> cases (second.start state').1
  · exact fun holds => absurd holds unsure
  · exact unsure
  · exact unsure
  · exact related _ _

theorem mono {certain : Prop} {weaker : α → β → Prop} (alike : Alike sure relate first second)
    (implied : certain → sure)
    (implies : ∀ value value', relate value value' → weaker value value') :
    Alike certain weaker first second := by
  intro state state'
  have here := alike state state'
  revert here
  cases (first.start state).1 <;> cases (second.start state').1
  · exact fun same holds => same (implied holds)
  · exact fun unsure holds => unsure (implied holds)
  · exact fun unsure holds => unsure (implied holds)
  · exact implies _ _

theorem bind {γ δ : Type} {last : γ → δ → Prop} {next : α → Run State γ} {next' : β → Run State δ}
    (before : Alike sure relate first second)
    (after : ∀ value value', relate value value' → Alike sure last (next value) (next' value')) :
    Alike sure last (first >>= next) (second >>= next') := by
  intro state state'
  have here := before state state'
  rw [start_bind, start_bind]
  revert here
  rcases first.start state with ⟨fault | value, later⟩ <;>
    rcases second.start state' with ⟨fault' | value', later'⟩
  · exact id
  · intro unsure
    dsimp only
    cases ((next' value').start later').1 with
    | error fault' => exact fun holds => absurd holds unsure
    | ok last => exact unsure
  · intro unsure
    dsimp only
    cases ((next value).start later).1 with
    | error fault => exact fun holds => absurd holds unsure
    | ok last => exact unsure
  · exact fun related => after value value' related later later'

end Alike

end Bindery.Run
