import CounterLang.Proofs.ByteOrder
import CounterLang.Proofs.Exchange
import CounterLang.Proofs.Sessions

/-! Stores seen in the order of their names. The names of a store are all different, so there is
one such view of it, whatever way of sorting is used. The order in which names were first
cleared is lost in it and nothing else is. -/
namespace CounterLang

structure SortedView (slots view : Listing) : Prop where
  all : view.Perm slots
  once : (view.map Prod.fst).Nodup
  byBytes : view.Pairwise fun left right => Text.bytes left.1 < Text.bytes right.1
  byCodePoints : view.Pairwise fun left right => Text.codePoints left.1 < Text.codePoints right.1
  only : ∀ other : Listing, other.Perm slots →
    (other.Pairwise fun left right => ¬ Text.bytes right.1 < Text.bytes left.1) → other = view

namespace Store

theorem slotMember {store : Store} {name : String} {value : UInt64} :
    store.get? name = some value ↔ (name, value) ∈ store.slots := by
  apply Iff.intro
  · intro found
    cases position : store.position? name with
    | none =>
      rw [getFresh position] at found
      contradiction
    | some place =>
      obtain ⟨known, slot, there⟩ := slotAt position
      cases found.symm.trans there
      exact List.mem_of_getElem? slot
  · intro member
    obtain ⟨place, slot⟩ := List.mem_iff_getElem?.mp member
    have here : store.names[place]? = some name := by
      rw [names, List.getElem?_map, slot]
      rfl
    obtain ⟨known, also, found⟩ := slotAt (positionExact.mpr here)
    cases slot.symm.trans also
    exact found

theorem sortedBytes (store : Store) :
    store.sorted.Pairwise fun left right => Text.bytes left.1 < Text.bytes right.1 :=
  (sortedStrict store).imp Text.bytesOrder.mpr

theorem sortedUp (store : Store) :
    store.sorted.Pairwise fun left right => ¬ Text.bytes right.1 < Text.bytes left.1 :=
  (sortedBytes store).imp fun less => List.lt_asymm less

theorem sortedOnly {store : Store} {other : Listing} (all : other.Perm store.slots)
    (order : other.Pairwise fun left right => ¬ Text.bytes right.1 < Text.bytes left.1) :
    other = store.sorted := by
  refine List.Perm.eq_of_pairwise ?_ order (sortedUp store) (all.trans (sortedPerm store).symm)
  rintro ⟨name, value⟩ ⟨same, amount⟩ here there above below
  rw [Text.bytesOrder, String.not_lt] at above below
  obtain rfl := String.le_antisymm above below
  have found := slotMember.mpr (all.mem_iff.mp here)
  rw [slotMember.mpr ((sortedPerm store).mem_iff.mp there)] at found
  cases found
  rfl

theorem sortedViewed (store : Store) : SortedView store.slots store.sorted where
  all := sortedPerm store
  once := sortedDistinct store
  byBytes := sortedBytes store
  byCodePoints := (sortedStrict store).imp Text.codePointsOrder.mpr
  only _ all order := sortedOnly all order

theorem slotsSame {left right : Store} : left.Same right ↔ left.slots.Perm right.slots := by
  have distinct (store : Store) : store.slots.Nodup := store.distinct.of_map
  rw [List.perm_ext_iff_of_nodup (distinct left) (distinct right)]
  simp only [Prod.forall, ← slotMember]
  exact ⟨fun same name value => by rw [same name], fun same name => Option.ext (same name)⟩

theorem sortedSame {left right : Store} : left.sorted = right.sorted ↔ left.Same right := by
  rw [slotsSame]
  apply Iff.intro
  · intro same
    exact (sortedPerm left).symm.trans (same ▸ sortedPerm right)
  · intro all
    exact sortedOnly ((sortedPerm left).trans all) (sortedUp left)

end Store

theorem performAllAppend {stores : Type} {perform : stores → Command → Option (Answer × stores)}
    {now middle last : stores} {front back : List Command} {answers more : List Answer}
    (first : performAll perform now front = some (answers, middle))
    (later : performAll perform middle back = some (more, last)) :
    performAll perform now (front ++ back) = some (answers ++ more, last) := by
  induction front generalizing now answers with
  | nil =>
    obtain ⟨rfl, rfl⟩ := performAllNil.mp first
    exact later
  | cons command rest ih =>
    obtain ⟨answer, next, others, here, onward, rfl⟩ := performAllCons.mp first
    exact performAllCons.mpr ⟨answer, next, others ++ more, here, ih onward, rfl⟩

namespace Indexed

def sorted (store : Indexed) : Listing :=
  store.slots.mergeSort fun left right => left.1 ≤ right.1

theorem sortedShown {indexed : Indexed} {store : Store} (shows : indexed.Shows store) :
    indexed.sorted = store.sorted := by
  rw [sorted, shows.slots, Store.sorted]

theorem reachedShows {indexed : Indexed} (reached : indexed.Reached) :
    ∃ store, indexed.Shows store := by
  have coherent := reachedCoherent reached
  exact ⟨⟨indexed.slots, coherent.distinct⟩, rfl, coherent⟩

theorem bindingsSame {left right : Indexed} {first second : Store} (one : left.Shows first)
    (other : right.Shows second) : left.bindings = right.bindings ↔ first.Same second := by
  have table {indexed : Indexed} {store : Store} (shows : indexed.Shows store) (name : String) :
      indexed.bindings.lookup name = store.get? name := by
    rw [bindingsShown shows, shows.slots, Store.getLookup]
  apply Iff.intro
  · intro same name
    rw [← table one, ← table other, same]
  · intro same
    apply Finmap.ext_lookup
    intro name
    rw [table one, table other, same name]

theorem reachedAct {indexed next : Indexed} {action : Action} {name : String}
    {result : Except Refusal UInt64} (reached : indexed.Reached)
    (acted : indexed.act action name = some (result, next)) : next.Reached := by
  obtain ⟨seed, commands, answers, saved, direct, performed⟩ := reached
  have one : performAll Indexed.perform (indexed, saved) [.act action name] =
      some ([Listing.told action result], (next, saved)) := by
    refine performAllCons.mpr ⟨_, (next, saved), [], ?_, rfl, rfl⟩
    rw [perform, acted]
    rfl
  exact ⟨seed, commands ++ [.act action name], _, saved,
    List.forall_mem_append.mpr ⟨direct, List.forall_mem_singleton.mpr rfl⟩,
    performAllAppend performed one⟩

theorem emptyReached : Indexed.empty.Reached :=
  ⟨none, [], [], .empty, fun _ member => absurd member List.not_mem_nil, rfl⟩

theorem reachedRun {indexed : Indexed} {store : Store} {program : Program} {outcome : Outcome}
    (reached : indexed.Reached) (shows : indexed.Shows store)
    (finishes : program.Finishes store outcome) :
    ∃ next : Indexed, next.Reached ∧ next.Shows outcome.store := by
  obtain ⟨events, traced⟩ := Program.finishesTraces.mp finishes
  refine Program.tracesKeep
    (fun _ state => ∃ next : Indexed, next.Reached ∧ next.Shows state.store)
    (fun _ outcome => ∃ next : Indexed, next.Reached ∧ next.Shows outcome.store) ?_ ?_ traced
    ⟨indexed, reached, shows⟩
  · intro past state events next _ ⟨now, reached, shows⟩ moves
    cases moves with
    | @act _ _ _ _ _ action name _ _ _ done =>
      obtain ⟨value, result, rfl⟩ := actDone.mp done
      obtain ⟨later, acted, after⟩ := actShows shows action name
      rw [State.store, result] at acted after
      exact ⟨later, reachedAct reached acted, after⟩
    | enter => exact ⟨now, reached, shows⟩
    | again => exact ⟨now, reached, shows⟩
    | leave => exact ⟨now, reached, shows⟩
    | pass => exact ⟨now, reached, shows⟩
  · intro past state events outcome _ kept halts
    cases halts <;> exact kept

end Indexed

theorem viewsCanonical :
    (∀ store : Store, SortedView store.slots store.sorted) ∧
    (∀ left right : Store, left.sorted = right.sorted ↔ left.Same right) ∧
    (∀ indexed : Indexed, indexed.Reached → SortedView indexed.slots indexed.sorted ∧
      ∀ store, indexed.Shows store → indexed.sorted = store.sorted) ∧
    (∀ left right : Indexed, left.Reached → right.Reached →
      (left.sorted = right.sorted ↔ left.bindings = right.bindings) ∧
      (left.bindings = right.bindings ↔ ∀ name, left.get? name = right.get? name)) ∧
    (∀ (indexed : Indexed) store (program : Program) outcome, indexed.Reached →
      indexed.Shows store → program.Finishes store outcome →
      ∃ next : Indexed, next.Reached ∧ next.Shows outcome.store) ∧
    ∀ first second : String,
      Text.bytes first < Text.bytes second ↔ Text.codePoints first < Text.codePoints second := by
  refine ⟨Store.sortedViewed, fun _ _ => Store.sortedSame, ?_, ?_,
    fun _ _ _ _ reached shows => Indexed.reachedRun reached shows,
    fun _ _ => Text.bytesOrder.trans Text.codePointsOrder.symm⟩
  · intro indexed reached
    obtain ⟨store, shows⟩ := Indexed.reachedShows reached
    refine ⟨?_, fun other => Indexed.sortedShown⟩
    rw [Indexed.sortedShown shows, shows.slots]
    exact store.sortedViewed
  · intro left right reached also
    obtain ⟨first, one⟩ := Indexed.reachedShows reached
    obtain ⟨second, other⟩ := Indexed.reachedShows also
    have same := Indexed.bindingsSame one other
    refine ⟨?_, same.trans ?_⟩
    · rw [Indexed.sortedShown one, Indexed.sortedShown other, Store.sortedSame, same]
    · simp only [Indexed.getShown one, Indexed.getShown other, Option.some.injEq, Store.Same]

def planes : Program :=
  #[⟨"clear 😀", "clear 😀;", 1, .act .clear "😀"⟩,
    ⟨"clear \uffff", "clear \uffff;", 2, .act .clear "\uffff"⟩,
    ⟨"clear ", "clear ;", 3, .act .clear ""⟩,
    ⟨"incr \uffff", "incr \uffff;", 4, .act .incr "\uffff"⟩]

def planesBack : Program :=
  #[⟨"clear ", "clear ;", 1, .act .clear ""⟩,
    ⟨"clear \uffff", "clear \uffff;", 2, .act .clear "\uffff"⟩,
    ⟨"incr \uffff", "incr \uffff;", 3, .act .incr "\uffff"⟩,
    ⟨"clear 😀", "clear 😀;", 4, .act .clear "😀"⟩]

theorem planesViewed :
    ∃ left right : Indexed, left.Reached ∧ right.Reached ∧ left.slots ≠ right.slots ∧
      left.bindings = right.bindings ∧ left.sorted = [("", 0), ("\uffff", 1), ("😀", 0)] := by
  have first : planes.Finishes .empty
      ⟨⟨[("😀", 0), ("\uffff", 1), ("", 0)], by decide⟩, .done ⟨4, 0⟩⟩ := ⟨5, by decide⟩
  have second : planesBack.Finishes .empty
      ⟨⟨[("", 0), ("\uffff", 1), ("😀", 0)], by decide⟩, .done ⟨4, 0⟩⟩ := ⟨5, by decide⟩
  obtain ⟨_, _, viewed, told, runs, _⟩ := viewsCanonical
  obtain ⟨left, reached, here⟩ := runs _ _ _ _ Indexed.emptyReached Indexed.emptyShows first
  obtain ⟨right, also, there⟩ := runs _ _ _ _ Indexed.emptyReached Indexed.emptyShows second
  have view : left.sorted = [("", 0), ("\uffff", 1), ("😀", 0)] := by
    refine ((viewed left reached).1.only _ ?_ (by decide)).symm
    rw [here.slots]
    decide
  have other : right.sorted = [("", 0), ("\uffff", 1), ("😀", 0)] := by
    refine ((viewed right also).1.only _ ?_ (by decide)).symm
    rw [there.slots]
  refine ⟨left, right, reached, also, ?_, ?_, view⟩
  · rw [here.slots, there.slots]
    decide
  · exact (told left right reached also).1.mp (view.trans other.symm)

end CounterLang
