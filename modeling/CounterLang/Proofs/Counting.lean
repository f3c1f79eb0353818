import CounterLang.Proofs.Drift

/-! When loops that only take their counters up and down come to an end. They go on for ever
just where no pass changes anything; else some counter drifts until the control stands at its
target or a counter at the end of the range. A loop that takes its control one step in each
pass counts what lies between it and its target. -/
namespace CounterLang

section Numbers

variable {control : String} {target : Operand} {body : List Statement} {last : Store}
  {value reach : UInt64} {passes : Nat}

end Numbers

namespace Program

variable {head close : Statement} {control : String} {target : Operand} {body : Program}
  {store last : Store} {value reach : UInt64} {report : Report}

theorem lineFinishes (steps : Steps store.names body.toList) :
    body.Finishes store ⟨last, .done report⟩ ↔
      Acts store body.toList last ∧ report = .ofCounts body.size 0 := by
  rw [doneBlock (lineSound (stepsSimple steps)) lineFlatten, lineThrough, Array.length_toList]

section Counting

variable {step : Statement} {action : Action}

end Counting

end Program
end CounterLang
