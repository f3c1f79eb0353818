import Mathlib.Data.Finmap
import CounterLang.Proofs.Updates

/-! Stores with an index. The slots stand in a row and a table tells where the slot of a
name is. Both are brought up to date on their own, and a slot is looked for only where the
table says. While the table tells the place of each name and nothing else, such a store is
a plain one. -/
namespace CounterLang
namespace Store

theorem positionExact {store : Store} {name : String} {index : Nat} :
    store.position? name = some index ↔ store.names[index]? = some name := by
  refine ⟨positionSome, fun here => ?_⟩
  cases found : store.position? name with
  | none => exact absurd (List.mem_of_getElem? here) (positionNone.mp found)
  | some other =>
    have there := positionSome found
    obtain ⟨bound, _⟩ := List.getElem?_eq_some_iff.mp there
    exact congrArg some ((List.getElem?_inj bound store.distinct).mp (there.trans here.symm))

theorem slotAt {store : Store} {name : String} {index : Nat}
    (found : store.position? name = some index) :
    ∃ value, store.slots[index]? = some (name, value) ∧ store.get? name = some value := by
  have here := positionSome found
  rw [names, List.getElem?_map, Option.map_eq_some_iff] at here
  obtain ⟨⟨known, value⟩, slot, rfl⟩ := here
  exact ⟨value, slot, by rw [get?, found, Option.bind_some, slot]; rfl⟩

theorem getFresh {store : Store} {name : String} (fresh : store.position? name = none) :
    store.get? name = none := by
  rw [get?, fresh, Option.bind_none]

def settled (store : Store) (name : String) : Except Refusal UInt64 → Store
  | .ok value => store.put name value
  | .error _ => store

end Store

structure Indexed where
  slots : List (String × UInt64)
  index : Finmap fun _ : String => Nat
  deriving DecidableEq

namespace Indexed

def empty : Indexed := ⟨[], ∅⟩

def single (name : String) (value : UInt64) : Indexed :=
  ⟨[(name, value)], (∅ : Finmap _).insert name 0⟩

/- No result means that a slot was looked for outside of the row. -/
def clear (store : Indexed) (name : String) : Option Indexed :=
  match store.index.lookup name with
  | some position => (store.slots[position]?).map fun slot =>
    { store with slots := store.slots.set position (slot.1, 0) }
  | none => some ⟨store.slots ++ [(name, 0)], store.index.insert name store.slots.length⟩

def change (store : Indexed) (name : String) (new : UInt64 → Option UInt64) :
    Option (Except Refusal UInt64 × Indexed) :=
  match store.index.lookup name with
  | none => some (.error .undefined, store)
  | some position => (store.slots[position]?).map fun slot =>
    match new slot.2 with
    | some value => (.ok value, { store with slots := store.slots.set position (slot.1, value) })
    | none => (.error .outOfRange, store)

def changed (new : UInt64 → Option UInt64) : Option UInt64 → Except Refusal UInt64
  | none => .error .undefined
  | some value =>
    match new value with
    | some result => .ok result
    | none => .error .outOfRange

def oneMore (value : UInt64) : Option UInt64 :=
  if value.toNat + 1 < UInt64.size then some (value + 1) else none

def oneLess (value : UInt64) : Option UInt64 := if 0 < value.toNat then some (value - 1) else none

def act (store : Indexed) : Action → String → Option (Except Refusal UInt64 × Indexed)
  | .clear, name => (store.clear name).map fun next => (.ok 0, next)
  | .incr, name => store.change name oneMore
  | .decr, name => store.change name oneLess

def get? (store : Indexed) (name : String) : Option (Option UInt64) :=
  match store.index.lookup name with
  | some position => (store.slots[position]?).map fun slot => some slot.2
  | none => some none

def contains (store : Indexed) (name : String) : Bool := (store.index.lookup name).isSome

def bindings (store : Indexed) : Finmap fun _ : String => UInt64 :=
  store.slots.foldl (fun table slot => table.insert slot.1 slot.2) ∅

def display (store : Indexed) : String :=
  store.slots.foldl (fun text slot => text ++ Store.entryLine slot) ""

structure Coherent (store : Indexed) : Prop where
  distinct : (store.slots.map Prod.fst).Nodup
  index : ∀ name position, store.index.lookup name = some position ↔
    (store.slots.map Prod.fst)[position]? = some name

structure Shows (indexed : Indexed) (store : Store) : Prop where
  slots : indexed.slots = store.slots
  coherent : indexed.Coherent

theorem coherentEqual {left right : Indexed} (first : left.Coherent) (second : right.Coherent) :
    left = right ↔ left.slots = right.slots := by
  refine ⟨congrArg slots, fun same => ?_⟩
  have index : left.index = right.index := by
    apply Finmap.ext_lookup
    intro name
    apply Option.ext
    intro position
    exact (first.index name position).trans (same ▸ (second.index name position).symm)
  cases left
  cases right
  cases same
  cases index
  rfl

variable {indexed : Indexed} {store : Store} {name : String}

theorem lookupShown (shows : indexed.Shows store) (name : String) :
    indexed.index.lookup name = store.position? name := by
  apply Option.ext
  intro position
  rw [shows.coherent.index, shows.slots]
  exact Store.positionExact.symm

theorem lastPlace {names : List String} {last other : String} {place : Nat} :
    (names ++ [last])[place]? = some other ↔
      names[place]? = some other ∨ (place = names.length ∧ last = other) := by
  rw [List.getElem?_append]
  split
  · rename_i inside
    exact ⟨.inl, fun here => here.resolve_right fun end_ => by omega⟩
  · rename_i outside
    rw [List.getElem?_singleton, List.getElem?_eq_none (Nat.le_of_not_lt outside)]
    split
    · rename_i zero
      simp only [Option.some.injEq, reduceCtorEq, false_or]
      exact ⟨fun same => ⟨by omega, same⟩, And.right⟩
    · rename_i past
      simp only [reduceCtorEq, false_or, false_iff]
      omega

theorem emptyShows : empty.Shows .empty where
  slots := rfl
  coherent := ⟨List.nodup_nil, fun name position => by simp [empty]⟩

theorem replacedShows (shows : indexed.Shows store) {position : Nat}
    (found : store.position? name = some position) (value : UInt64) :
    Shows ⟨indexed.slots.set position (name, value), indexed.index⟩ (store.put name value) := by
  have slots : indexed.slots.set position (name, value) = (store.put name value).slots := by
    rw [Store.slotsPut, found, shows.slots]
  refine ⟨slots, ?_, fun other place => ?_⟩
  · rw [slots]
    exact (store.put name value).distinct
  · have names := Store.replaceKeepsNames value (Store.positionSome found)
    rw [shows.slots, names, ← shows.slots]
    exact shows.coherent.index other place

theorem appendedShows (shows : indexed.Shows store) (fresh : store.position? name = none)
    (value : UInt64) :
    Shows ⟨indexed.slots ++ [(name, value)], indexed.index.insert name indexed.slots.length⟩
      (store.put name value) := by
  have slots : indexed.slots ++ [(name, value)] = (store.put name value).slots := by
    rw [Store.slotsPut, fresh, shows.slots]
  refine ⟨slots, ?_, fun other place => ?_⟩
  · rw [slots]
    exact (store.put name value).distinct
  · have absent := Store.positionNone.mp fresh
    rw [Store.names, ← shows.slots] at absent
    rw [List.map_append, List.map_cons, List.map_nil, lastPlace, List.length_map]
    by_cases same : other = name
    · subst other
      have nowhere : (indexed.slots.map Prod.fst)[place]? ≠ some name :=
        fun here => absent (List.mem_of_getElem? here)
      rw [Finmap.lookup_insert, Option.some.injEq, eq_comm]
      exact ⟨fun last => .inr ⟨last, rfl⟩, fun here => (here.resolve_left nowhere).1⟩
    · rw [Finmap.lookup_insert_of_ne _ same, shows.coherent.index]
      exact ⟨.inl, fun here => here.resolve_right fun last => same last.2.symm⟩

theorem singleShows (name : String) (value : UInt64) :
    (single name value).Shows (.single name value) := by
  have same : Store.empty.put name value = .single name value := Store.ext (Store.slotsPut ..)
  exact same ▸ appendedShows emptyShows rfl value

theorem clearShows (shows : indexed.Shows store) (name : String) :
    ∃ next, indexed.clear name = some next ∧ next.Shows (store.put name 0) := by
  unfold clear
  rw [lookupShown shows]
  cases found : store.position? name with
  | none => exact ⟨_, rfl, appendedShows shows found 0⟩
  | some position =>
    obtain ⟨value, slot, _⟩ := Store.slotAt found
    rw [← shows.slots] at slot
    dsimp only
    rw [slot]
    exact ⟨_, rfl, replacedShows shows found 0⟩

theorem changeShows (shows : indexed.Shows store) (name : String)
    (new : UInt64 → Option UInt64) :
    ∃ next, indexed.change name new = some (changed new (store.get? name), next) ∧
      next.Shows (store.settled name (changed new (store.get? name))) := by
  unfold change
  rw [lookupShown shows]
  cases found : store.position? name with
  | none =>
    rw [Store.getFresh found]
    exact ⟨_, rfl, shows⟩
  | some position =>
    obtain ⟨value, slot, there⟩ := Store.slotAt found
    rw [← shows.slots] at slot
    simp only [there, slot, Option.map_some, changed]
    cases new value with
    | none => exact ⟨_, rfl, shows⟩
    | some result => exact ⟨_, rfl, replacedShows shows found result⟩

theorem resultChanged (value : Option UInt64) :
    Action.incr.result value = changed oneMore value ∧
      Action.decr.result value = changed oneLess value := by
  cases value with
  | none => exact ⟨rfl, rfl⟩
  | some value =>
    simp only [Action.result, changed, oneMore, oneLess]
    constructor <;> split <;> rfl

theorem actShows (shows : indexed.Shows store) (action : Action) (name : String) :
    ∃ next, indexed.act action name = some (action.result (store.get? name), next) ∧
      next.Shows (store.settled name (action.result (store.get? name))) := by
  obtain ⟨raised, lowered⟩ := resultChanged (store.get? name)
  cases action with
  | clear =>
    obtain ⟨next, cleared, after⟩ := clearShows shows name
    rw [clearDone, act, cleared]
    exact ⟨next, rfl, after⟩
  | incr =>
    rw [raised]
    exact changeShows shows name oneMore
  | decr =>
    rw [lowered]
    exact changeShows shows name oneLess

theorem getShown (shows : indexed.Shows store) (name : String) :
    indexed.get? name = some (store.get? name) := by
  unfold get?
  rw [lookupShown shows]
  cases found : store.position? name with
  | none => rw [Store.getFresh found]
  | some position =>
    obtain ⟨value, slot, there⟩ := Store.slotAt found
    rw [← shows.slots] at slot
    simp only [there, slot, Option.map_some]

theorem containsShown (shows : indexed.Shows store) (name : String) :
    indexed.contains name = store.contains name := by
  rw [contains, lookupShown shows, Store.contains]

theorem tableLookup {slots : List (String × UInt64)} (distinct : (slots.map Prod.fst).Nodup)
    (table : Finmap fun _ : String => UInt64) (name : String) :
    (slots.foldl (fun table slot => table.insert slot.1 slot.2) table).lookup name =
      (slots.lookup name).or (table.lookup name) := by
  induction slots generalizing table with
  | nil => rfl
  | cons slot rest ih =>
    obtain ⟨absent, distinct⟩ := List.nodup_cons.mp distinct
    rw [List.foldl_cons, ih distinct, List.lookup_cons]
    by_cases same : name = slot.1
    · subst name
      have later : rest.lookup slot.1 = none := by
        rw [List.lookup_eq_none_iff]
        intro other member
        have apart : slot.1 ≠ other.1 := fun same =>
          absent (same ▸ List.mem_map_of_mem member)
        simpa using apart
      simp [later]
    · rw [Finmap.lookup_insert_of_ne _ same, beq_false_of_ne same]

theorem bindingsShown (shows : indexed.Shows store) (name : String) :
    indexed.bindings.lookup name = indexed.slots.lookup name := by
  rw [bindings, tableLookup shows.coherent.distinct]
  cases indexed.slots.lookup name <;> rfl

theorem displayShown (shows : indexed.Shows store) : indexed.display = store.display := by
  rw [display, shows.slots, Store.display, Store.written, String.join, List.foldl_map]

end Indexed
end CounterLang
