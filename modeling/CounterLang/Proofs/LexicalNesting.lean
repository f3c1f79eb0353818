import CounterLang.Proofs.Enclosure
import CounterLang.Proofs.Histories

/-! Loops open at run time against loops around a statement. Following the entries and
exits of a history gives the loops that are open at each of its marks. They are those
whose brackets stand around the statement, and each exit belongs to the last entry. -/
namespace CounterLang
open Nesting

structure Activation where
  head : Nat
  line : Nat
  control : String
  passes : Nat
  deriving DecidableEq, Repr

/- An open loop of the machine. Behind its test a pass has begun that is not counted yet. -/
structure Mirrors (begun : Nat) (loop : Loop) (active : Activation) : Prop where
  head : loop.head = active.head
  line : loop.statement.line = active.line
  control : loop.control = active.control
  passes : ∃ made, active.passes = made + begun ∧ loop.passCount = .ofNat made

inductive State.Mirrored : State → List Activation → Prop where
  | walk {cursor loops store report active} (frames : List.Forall₂ (Mirrors 1) loops active) :
      Mirrored (.walk cursor loops store report) active
  | check {loop outer store report inner active} (tested : Mirrors 0 loop inner)
      (frames : List.Forall₂ (Mirrors 1) outer active) :
      Mirrored (.check loop outer store report) (inner :: active)

theorem mirrorsEntered (loop : Loop) (fresh : loop.passCount = 0) :
    Mirrors 0 loop ⟨loop.head, loop.statement.line, loop.control, 0⟩ :=
  ⟨rfl, rfl, rfl, 0, rfl, fresh⟩

theorem mirrorsAgain {loop : Loop} {active : Activation} (mirrors : Mirrors 1 loop active)
    (reach : UInt64) : Mirrors 0 (loop.again reach) active := by
  obtain ⟨made, total, counted⟩ := mirrors.passes
  exact ⟨mirrors.head, mirrors.line, mirrors.control, made + 1, total,
    againCounted counted reach⟩

theorem mirrorsBegun {loop : Loop} {active : Activation} (mirrors : Mirrors 0 loop active) :
    Mirrors 1 loop { active with passes := active.passes + 1 } := by
  obtain ⟨made, total, counted⟩ := mirrors.passes
  exact ⟨mirrors.head, mirrors.line, mirrors.control, made, congrArg (· + 1) total, counted⟩

namespace Machine

end Machine

namespace Program
open Machine

end Program
end CounterLang
