import CounterLang.Proofs.Steps

/-! Passes of a loop that has no loop inside. Its body is a line of statements, so what a run
of it does is the body over and over until the control is met, and what stops it is one of
the statements in one of the passes. -/
namespace CounterLang

section Line

variable {statements : List Statement} {store last : Store} {fault : Fault}

end Line

def Met (control : String) (target : Operand) (store : Store) : Prop :=
  ∃ reach, target.value store = .ok reach ∧ store.get? control = some reach

section Passes

variable {control : String} {target : Operand} {body : List Statement}
  {store next middle last : Store} {passes : Nat} {progress : Progress}

end Passes

end CounterLang
