import CounterLang.Instruction

/-! Stores of named counters. A name keeps the slot that its first clear gave it,
and no name has two slots. Only clearing makes a name; the other actions
need it and refuse a step that would leave the 64-bit range. -/
namespace CounterLang

inductive Refusal where
  | undefined
  | outOfRange
  deriving DecidableEq, Repr

namespace Action

def result (action : Action) (current : Option UInt64) : Except Refusal UInt64 :=
  match action, current with
  | .clear, _ => .ok 0
  | .incr, none | .decr, none => .error .undefined
  | .incr, some value =>
    if value.toNat + 1 < UInt64.size then .ok (value + 1) else .error .outOfRange
  | .decr, some value => if 0 < value.toNat then .ok (value - 1) else .error .outOfRange

end Action

structure Store where
  slots : List (String × UInt64)
  distinct : (slots.map Prod.fst).Nodup
  deriving DecidableEq

namespace Store

@[ext] theorem ext {left right : Store} (h : left.slots = right.slots) : left = right := by
  cases left; cases right; cases h; rfl

def empty : Store := ⟨[], .nil⟩

def single (name : String) (value : UInt64) : Store := ⟨[(name, value)], by simp⟩

instance : Inhabited Store := ⟨empty⟩

def names (store : Store) : List String := store.slots.map Prod.fst

def position? (store : Store) (name : String) : Option Nat :=
  store.slots.findIdx? fun slot => slot.1 = name

def get? (store : Store) (name : String) : Option UInt64 :=
  (store.position? name).bind fun index => (store.slots[index]?).map Prod.snd

def contains (store : Store) (name : String) : Bool := (store.position? name).isSome

theorem positionNone {store : Store} {name : String} :
    store.position? name = none ↔ name ∉ store.names := by
  simp only [position?, names, List.findIdx?_eq_none_iff, decide_eq_false_iff_not, List.mem_map]
  exact ⟨fun h ⟨slot, member, same⟩ => h slot member same, fun h slot member same =>
    h ⟨slot, member, same⟩⟩

theorem positionSome {store : Store} {name : String} {index : Nat}
    (h : store.position? name = some index) : store.names[index]? = some name := by
  obtain ⟨bound, found, _⟩ := List.findIdx?_eq_some_iff_getElem.mp h
  simp only [names, List.getElem?_map, List.getElem?_eq_getElem bound, Option.map_some]
  exact congrArg some (by simpa using found)

theorem replaceKeepsNames {slots : List (String × UInt64)} {index : Nat} {name : String}
    (value : UInt64) (h : (slots.map Prod.fst)[index]? = some name) :
    (slots.set index (name, value)).map Prod.fst = slots.map Prod.fst := by
  obtain ⟨bound, same⟩ := List.getElem?_eq_some_iff.mp h
  rw [List.map_set, ← same]
  exact List.set_getElem_self bound

def put (store : Store) (name : String) (value : UInt64) : Store :=
  match found : store.position? name with
  | some index =>
    ⟨store.slots.set index (name, value), by
      rw [replaceKeepsNames value (positionSome found)]; exact store.distinct⟩
  | none =>
    ⟨store.slots ++ [(name, value)], by
      have fresh := positionNone.mp found
      simp only [names] at fresh
      rw [List.map_append, List.nodup_append]
      refine ⟨store.distinct, by simp, ?_⟩
      intro other member name same
      simp only [List.map_cons, List.map_nil, List.mem_singleton] at same
      rintro rfl
      exact fresh (same ▸ member)⟩

def perform (store : Store) (action : Action) (name : String) : Except Refusal Store :=
  (action.result (store.get? name)).map (store.put name)

def size (store : Store) : Nat := store.slots.length

def isEmpty (store : Store) : Bool := store.slots.isEmpty

def toList (store : Store) : List (String × UInt64) := store.slots

def sorted (store : Store) : List (String × UInt64) :=
  store.slots.mergeSort fun left right => left.1 ≤ right.1

def entryLine (entry : String × UInt64) : String :=
  entry.1 ++ " = " ++ Numeral.write entry.2 ++ "\n"

def written (entries : List (String × UInt64)) : String :=
  String.join (entries.map entryLine)

def display (store : Store) : String := written store.slots

end Store
end CounterLang
