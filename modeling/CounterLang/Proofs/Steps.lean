import Mathlib.Algebra.Group.Int.Defs
import Mathlib.Algebra.Group.Pi.Basic
import Mathlib.Data.List.Induction
import CounterLang.Proofs.Indexes
import CounterLang.Proofs.Replay

/-! Steps up and down. Statements that only take counters one up or one down move each of
them by how often it goes up less how often it goes down, and all that can go wrong is that
one leaves the 64-bit range on the way. -/
namespace CounterLang

def drift (statements : List Statement) (name : String) : Int :=
  (statements.countP fun statement => statement.instruction = .act .incr name : Nat) -
    (statements.countP fun statement => statement.instruction = .act .decr name : Nat)

def Steps (names : List String) (statements : List Statement) : Prop :=
  ∀ statement ∈ statements, ∃ action, ∃ name ∈ names,
    statement.instruction = .act action name ∧ action ≠ .clear

def Action.sign : Action → Int
  | .clear => 0
  | .incr => 1
  | .decr => -1

namespace Store

structure Moved (store next : Store) (change : String → Int) : Prop where
  names : next.names = store.names
  values : ∀ name value, store.get? name = some value →
    ∃ later, next.get? name = some later ∧ (later.toNat : Int) = value.toNat + change name

def Allows (store : Store) (change : String → Int) : Prop :=
  ∀ name value, store.get? name = some value →
    0 ≤ value.toNat + change name ∧ value.toNat + change name < UInt64.size

variable {store middle last : Store} {change more : String → Int}

theorem movedSelf (store : Store) : store.Moved store (fun _ => 0) where
  names := rfl
  values name value found := ⟨value, found, by simp⟩

theorem movedTrans (first : store.Moved middle change) (second : middle.Moved last more) :
    store.Moved last (change + more) where
  names := second.names.trans first.names
  values name value found := by
    obtain ⟨between, found, sum⟩ := first.values name value found
    obtain ⟨later, found, total⟩ := second.values name between found
    refine ⟨later, found, ?_⟩
    rw [total, sum, Pi.add_apply, add_assoc]

theorem movedPut {name : String} {value next : UInt64} (found : store.get? name = some value)
    (here : (next.toNat : Int) = value.toNat + change name)
    (elsewhere : ∀ other, other ≠ name → change other = 0) :
    store.Moved (store.put name next) change where
  names := by rw [namesPut, if_pos (getSome.mp ⟨value, found⟩)]
  values other known there := by
    rw [getPut]
    by_cases same : other = name
    · subst other
      obtain rfl := Option.some.inj (found.symm.trans there)
      exact ⟨next, if_pos rfl, here⟩
    · refine ⟨known, (if_neg same).trans there, ?_⟩
      rw [elsewhere other same, add_zero]

end Store

theorem stepsSimple {names : List String} {statements : List Statement}
    (steps : Steps names statements) :
    ∀ statement ∈ statements, statement.opens = false ∧ statement.closes = false := by
  intro statement member
  obtain ⟨action, name, _, form, _⟩ := steps statement member
  exact Machine.actSimple form

theorem driftAppend (front back : List Statement) :
    drift (front ++ back) = drift front + drift back := by
  funext name
  simp only [drift, List.countP_append, Pi.add_apply]
  omega

theorem resultSteps {action : Action} (steps : action ≠ .clear) (value : UInt64) :
    (∃ next, action.result (some value) = .ok next ∧
        (next.toNat : Int) = value.toNat + action.sign) ∨
      action.result (some value) = .error .outOfRange ∧
        ¬(0 ≤ value.toNat + action.sign ∧ value.toNat + action.sign < UInt64.size) := by
  cases action with
  | clear => contradiction
  | incr =>
    by_cases room : value.toNat + 1 < UInt64.size
    · have sum : (value + 1).toNat = value.toNat + 1 :=
        (UInt64.toNat_add value 1).trans (Nat.mod_eq_of_lt room)
      exact .inl ⟨value + 1, if_pos room, by rw [sum]; rfl⟩
    · refine .inr ⟨if_neg room, ?_⟩
      simp only [Action.sign]
      omega
  | decr =>
    by_cases positive : 0 < value.toNat
    · have rest : (value - 1).toNat = value.toNat - 1 := UInt64.toNat_sub_of_le value 1 positive
      refine .inl ⟨value - 1, if_pos positive, ?_⟩
      simp only [Action.sign]
      omega
    · refine .inr ⟨if_neg positive, ?_⟩
      simp only [Action.sign]
      omega

section Line

variable {statement : Statement} {action : Action} {name : String} {store last : Store}
  {statements front back : List Statement}

theorem driftOne (form : statement.instruction = .act action name) (other : String) :
    drift [statement] other = if name = other then action.sign else 0 := by
  cases action <;> by_cases same : name = other <;> simp [drift, form, Action.sign, same]

theorem stepActs (form : statement.instruction = .act action name) (steps : action ≠ .clear)
    (member : name ∈ store.names) :
    (∃ next, statement.act action name store = .ok next ∧ store.Moved next (drift [statement])) ∨
      statement.act action name store = .error (statement.refused action name .outOfRange) ∧
        ¬store.Allows (drift [statement]) := by
  obtain ⟨value, found⟩ := Store.getSome.mpr member
  have change := driftOne form name
  rw [if_pos rfl] at change
  rw [actForms, found]
  rcases resultSteps steps value with ⟨next, result, sum⟩ | ⟨result, out⟩
  · rw [result]
    rw [← change] at sum
    refine .inl ⟨_, rfl, Store.movedPut found sum fun other apart => ?_⟩
    rw [driftOne form, if_neg apart.symm]
  · rw [result]
    refine .inr ⟨rfl, fun allows => out ?_⟩
    rw [← change]
    exact allows name value found

theorem actsMoved (steps : Steps store.names statements) (acts : Acts store statements last) :
    store.Moved last (drift statements) := by
  induction acts with
  | nothing => exact Store.movedSelf _
  | @more statement action name rest store next last form done later ih =>
    obtain ⟨_, _, member, also, goes⟩ := steps statement List.mem_cons_self
    cases form.symm.trans also
    rcases stepActs form goes member with ⟨_, acted, moved⟩ | ⟨refused, _⟩
    · cases done.symm.trans acted
      have behind : Steps next.names rest :=
        fun other found => moved.names ▸ steps other (List.mem_cons_of_mem _ found)
      rw [← List.singleton_append, driftAppend]
      exact Store.movedTrans moved (ih behind)
    · rw [done] at refused
      contradiction

end Line

end CounterLang
