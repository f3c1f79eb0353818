import CounterLang.Proofs.Refinement

/-! One program behind another. When the first comes to its end, the second takes
over its store and the counts add up. When the first fails, nothing behind it
makes a difference, unless it was the end of a loop that was missing. -/
namespace CounterLang
open Nesting

namespace Program
open Machine

theorem laidFront {first : Program} {block : Block} {remainder : List Statement}
    (splits : Splits first.toList block remainder) (second : Program) :
    Laid (first ++ second) [] 0 block := by
  have here : block.flatten ++ (remainder ++ second.toList) = (first ++ second).toList := by
    rw [← List.append_assoc, splits.whole, Array.toList_append]
  have length := congrArg List.length here
  rw [List.length_append, (first ++ second).length_toList] at length
  refine ⟨splits.sound, ⟨_, here⟩, ?_⟩
  rw [blockEnd, Block.size]
  omega

theorem restBack {first second : Program} {block other : Block} {remainder : List Statement}
    (front : Splits first.toList block []) (back : Splits second.toList other remainder) :
    Rest (first ++ second) block.size other remainder := by
  have whole := congrArg List.length front.whole
  rw [List.append_nil, first.length_toList] at whole
  rw [Block.size, whole]
  refine ⟨?_, back.sound, ?_, back.stuck⟩
  · rw [Array.size_append]
    omega
  · rw [back.whole, Array.toList_append, ← first.length_toList, List.drop_left]

theorem currentFront {first : Program} {cursor : Nat} {statement : Statement}
    (found : current? first [] cursor = some statement) (second : Program) :
    current? (first ++ second) [] cursor = some statement := by
  obtain ⟨inside, stands⟩ := currentSome.mp found
  refine currentSome.mpr ⟨?_, ?_⟩
  · rw [blockEnd, Array.size_append]
    exact Nat.lt_add_right _ inside
  · rw [Array.getElem?_append_left inside]
    exact stands

theorem frontEnds {first second : Program} {block : Block} {remainder : List Statement}
    {store middle : Store} {report : Report} (splits : Splits first.toList block remainder)
    (inner : Evaluates (.block block) store (.through middle report)) (outcome : Outcome) :
    (first ++ second).Finishes store outcome ↔
      Ends (first ++ second) (.walk block.size [] middle report) outcome := by
  have reached : Leads (first ++ second) (start store)
      (.walk (0 + block.size) [] middle (.zero + report)) :=
    evaluatesReaches inner (.walk (laidFront splits second) store .zero)
  rw [Nat.zero_add, zeroReport] at reached
  exact leadsEnds reached

theorem doneAppend {first second : Program} {store middle : Store} {report : Report}
    (done : first.Finishes store ⟨middle, .done report⟩) (outcome : Outcome) :
    (first ++ second).Finishes store outcome ↔
      ∃ other, second.Finishes middle other ∧ outcome = other.behind report := by
  obtain ⟨block, remainder, front⟩ := Block.splitsSome first.toList
  obtain ⟨other, left, back⟩ := Block.splitsSome second.toList
  have concludes := (finishesConcludes front _ _).mp done
  cases concludes with
  | done inner =>
    rw [frontEnds front inner, endsConcludes (restBack front back)]
    simp only [finishesConcludes back]

theorem failedAppend {first : Program} {store last : Store} {fault : Fault}
    (failed : first.Finishes store ⟨last, .failed fault⟩) (other : fault.cause ≠ .missingEnd)
    (second : Program) : (first ++ second).Finishes store ⟨last, .failed fault⟩ := by
  obtain ⟨block, remainder, front⟩ := Block.splitsSome first.toList
  have concludes := (finishesConcludes front _ _).mp failed
  cases concludes with
  | stopped inner => exact evaluatesReaches inner (.walk (laidFront front second) store .zero)
  | stuck inner refused =>
    obtain ⟨found, _⟩ := restStuck ⟨Nat.zero_le _, front⟩
    rw [Nat.zero_add] at found
    have found := currentFront found second
    apply (frontEnds front inner _).mpr
    exact (endsHalts (.refuse found (raisesAlways refused (.inr other) _)) _).mpr rfl

theorem appendRuns (first second : Program) (store : Store) :
    (∀ middle report, first.Finishes store ⟨middle, .done report⟩ →
      ∀ outcome, (first ++ second).Finishes store outcome ↔
        ∃ other, second.Finishes middle other ∧ outcome = other.behind report) ∧
    ∀ last fault, first.Finishes store ⟨last, .failed fault⟩ → fault.cause ≠ .missingEnd →
      (first ++ second).Finishes store ⟨last, .failed fault⟩ := by
  apply And.intro
  · intro middle report done
    exact doneAppend done
  · intro last fault failed other
    exact failedAppend failed other second

def upOnce : Program :=
  #[⟨"clear x", "clear x;", 1, .act .clear "x"⟩, ⟨"incr x", "incr x;", 2, .act .incr "x"⟩]

def downTwice : Program :=
  #[⟨"decr x", "decr x;", 1, .act .decr "x"⟩, ⟨"decr x", "decr x;", 2, .act .decr "x"⟩]

theorem upThenDown :
    (upOnce ++ downTwice).Finishes .empty
        ⟨.single "x" 0, .failed ⟨2, "decr x;", .belowZero "x" "decr x"⟩⟩ ∧
      (upOnce ++ downTwice ++ upOnce).Finishes .empty
        ⟨.single "x" 0, .failed ⟨2, "decr x;", .belowZero "x" "decr x"⟩⟩ := by
  have up : upOnce.Finishes .empty ⟨.single "x" 1, .done ⟨2, 0⟩⟩ := ⟨3, by decide⟩
  have down : downTwice.Finishes (.single "x" 1)
      ⟨.single "x" 0, .failed ⟨2, "decr x;", .belowZero "x" "decr x"⟩⟩ := ⟨2, by decide⟩
  have both := ((appendRuns upOnce downTwice .empty).1 _ _ up _).mpr ⟨_, down, rfl⟩
  have other : Cause.belowZero "x" "decr x" ≠ .missingEnd := by decide
  exact ⟨both, (appendRuns (upOnce ++ downTwice) upOnce .empty).2 _ _ both other⟩

/- A missing end may still come. -/
example :
    let header : Program := #[⟨"while x not 0 do", "while x not 0 do;", 1, .loop "x" (.literal 0)⟩]
    let close : Program := #[⟨"end", "end;", 2, .close⟩]
    header.run 1 (.single "x" 0) =
        some ⟨.single "x" 0, .failed ⟨1, "while x not 0 do;", .missingEnd⟩⟩ ∧
      (header ++ close).run 3 (.single "x" 0) = some ⟨.single "x" 0, .done ⟨1, 0⟩⟩ := by
  decide

end Program
end CounterLang
