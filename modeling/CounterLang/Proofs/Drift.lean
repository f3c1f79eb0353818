import Mathlib.Algebra.Ring.Int.Defs
import Mathlib.Order.Bounds.Defs
import CounterLang.Proofs.Congruence
import CounterLang.Proofs.Passes
import CounterLang.Proofs.Unrolling

/-! Loops that only take their counters up and down. Each pass moves the counters by the
same as the one before, and the target too if it has a name. So whole numbers tell when the
loop is left, when it is stopped and when it goes on for ever. -/
namespace CounterLang

def Operand.shift (change : String → Int) : Operand → Int
  | .literal _ => 0
  | .named name => change name

section Numbers

variable {control : String} {target : Operand} {body : List Statement} {store middle last : Store}
  {value reach : UInt64} {passes : Nat} {change : String → Int}

end Numbers

namespace Program

variable {head close : Statement} {control : String} {target : Operand} {body : Program}
  {store : Store} {value reach : UInt64} {outcome : Outcome}

end Program
end CounterLang
