import CounterLang.Proofs.Definedness

/-! What a statement reads from a store and what it changes there. An update gives one
counter its new value and leaves the others alone; a statement looks only at the
counters that it mentions. -/
namespace CounterLang
namespace Store

theorem positionNames (store : Store) (name : String) :
    store.position? name = store.names.findIdx? fun other => other = name := by
  rw [names, List.findIdx?_map]
  rfl

theorem namesPut (store : Store) (name : String) (value : UInt64) :
    (store.put name value).names =
      if name ∈ store.names then store.names else store.names ++ [name] := by
  unfold put
  split
  · rename_i index found
    have here := positionSome found
    rw [if_pos (List.mem_of_getElem? here)]
    exact replaceKeepsNames value here
  · rename_i fresh
    rw [if_neg (positionNone.mp fresh), names, names, List.map_append]
    rfl

theorem slotsPut (store : Store) (name : String) (value : UInt64) :
    (store.put name value).slots =
      match store.position? name with
      | some index => store.slots.set index (name, value)
      | none => store.slots ++ [(name, value)] := by
  unfold put
  split
  · rename_i index found
    simp only [found]
  · rename_i fresh
    simp only [fresh]

theorem getPut (store : Store) (name other : String) (value : UInt64) :
    (store.put name value).get? other = if other = name then some value else store.get? other := by
  unfold put
  split
  · -- The slots change at one position, and every name keeps its own.
    rename_i index found
    have here := positionSome found
    have kept := replaceKeepsNames value here
    simp only [get?, positionNames, names, kept]
    split
    · rename_i same
      subst other
      obtain ⟨bound, _⟩ := List.findIdx?_eq_some_iff_getElem.mp found
      rw [positionNames, names] at found
      rw [found, Option.bind_some, List.getElem?_set_self bound]
      rfl
    · rename_i different
      cases position : (store.slots.map Prod.fst).findIdx? fun known => known = other with
      | none => rfl
      | some place =>
        have there := positionSome ((positionNames store other).trans position)
        have apart : index ≠ place := by
          rintro rfl
          rw [here] at there
          exact different (Option.some.inj there).symm
        rw [Option.bind_some, Option.bind_some, List.getElem?_set_ne apart]
  · rename_i fresh
    simp only [get?, positionNames, names, List.map_append, List.findIdx?_append] at fresh ⊢
    cases position : (store.slots.map Prod.fst).findIdx? fun known => known = other with
    | some place =>
      have different : other ≠ name := by
        rintro rfl
        rw [position] at fresh
        contradiction
      obtain ⟨bound, _⟩ := List.findIdx?_eq_some_iff_getElem.mp position
      rw [List.length_map] at bound
      rw [if_neg different, Option.some_or, Option.bind_some, Option.bind_some,
        List.getElem?_append_left bound]
    | none =>
      by_cases same : other = name
      · simp [same]
      · simp [same, Ne.symm same]

end Store

theorem actForms (statement : Statement) (action : Action) (name : String) (store : Store) :
    statement.act action name store =
      match action.result (store.get? name) with
      | .ok value => .ok (store.put name value)
      | .error refusal => .error (statement.refused action name refusal) := by
  unfold Statement.act Store.perform
  cases action.result (store.get? name) <;> rfl

theorem actOthers {statement : Statement} {action : Action} {name other : String}
    {store next : Store} (done : statement.act action name store = .ok next)
    (apart : other ≠ name) : next.get? other = store.get? other := by
  rw [actForms] at done
  split at done <;> cases done
  exact (Store.getPut _ _ _ _).trans (if_neg apart)

theorem headerForms (store : Store) (control : String) (target : Operand) :
    store.header control target =
      match store.get? control with
      | some _ => target.value store
      | none => .error (.undefinedVariable control) := by
  unfold Store.header
  cases found : store.get? control with
  | some value =>
    rw [if_pos (Store.containsNames.mpr (Store.getSome.mp ⟨value, found⟩))]
  | none =>
    rw [if_neg]
    intro defined
    exact Store.getNone.mp found (Store.containsNames.mp defined)

theorem resultUndefined {action : Action} {current : Option UInt64} :
    action.result current = .error .undefined ↔ action ≠ .clear ∧ current = none := by
  cases action <;> cases current <;> simp [Action.result] <;> split <;> simp

theorem clearDone (current : Option UInt64) : Action.clear.result current = .ok 0 := by
  cases current <;> rfl

namespace Instruction

def mentions : Instruction → List String
  | .act _ name => [name]
  | .loop control target => control :: target.names
  | _ => []

def changes : Instruction → List String
  | .act _ name => [name]
  | _ => []

def needs : Instruction → List String
  | .act .clear _ => []
  | instruction => instruction.mentions

end Instruction

def Program.names (program : Program) (named : Instruction → List String) : List String :=
  program.toList.flatMap fun statement => named statement.instruction

theorem namesMem {program : Program} {named : Instruction → List String} {name : String}
    {index : Nat} {statement : Statement} (found : program[index]? = some statement)
    (member : name ∈ named statement.instruction) : name ∈ program.names named := by
  rw [← Array.getElem?_toList] at found
  exact List.mem_flatMap.mpr ⟨statement, List.mem_of_getElem? found, member⟩

section Reads

variable {left right : Statement} {first second : Store}

theorem valueAlike {target : Operand}
    (agree : ∀ name ∈ target.names, first.get? name = second.get? name) :
    target.value first = target.value second := by
  cases target with
  | literal value => rfl
  | named name => simp only [Operand.value, agree name List.mem_cons_self]

theorem headerAlike {control : String} {target : Operand}
    (agree : ∀ name ∈ control :: target.names, first.get? name = second.get? name) :
    first.header control target = second.header control target := by
  have value := valueAlike fun name member => agree name (List.mem_cons_of_mem _ member)
  rw [headerForms, headerForms, agree control List.mem_cons_self, value]

theorem refusedAlike (text : left.text = right.text) (action : Action) (name : String)
    (refusal : Refusal) :
    left.refused action name refusal = right.refused action name refusal := by
  unfold Statement.refused
  rw [text]

theorem raisesAlike (text : left.text = right.text) (same : left.instruction = right.instruction)
    (agree : ∀ name ∈ left.instruction.mentions, first.get? name = second.get? name)
    (closed : Bool) : left.raises closed first = right.raises closed second := by
  unfold Statement.raises
  rw [← same]
  cases form : left.instruction with
  | act action name =>
    rw [form] at agree
    simp only [actForms, agree name List.mem_cons_self, refusedAlike text]
    cases action.result (second.get? name) <;> rfl
  | loop control target =>
    rw [form] at agree
    simp only [headerAlike agree]
  | close => rfl
  | malformed keyword problem => rfl
  | unknown word => rfl

end Reads

theorem raisesUndefined {statement : Statement} {closed : Bool} {store : Store} {name : String}
    (raised : statement.raises closed store = some (.undefinedVariable name)) :
    name ∈ statement.instruction.needs ∧ store.get? name = none := by
  unfold Statement.raises at raised
  cases form : statement.instruction with
  | act action other =>
    simp only [form, actForms] at raised
    cases done : action.result (store.get? other) with
    | ok value => simp [done] at raised
    | error refusal =>
      simp only [done, Option.some.injEq] at raised
      cases refusal with
      | outOfRange => cases action <;> cases raised
      | undefined =>
        cases raised
        obtain ⟨other, missing⟩ := resultUndefined.mp done
        cases action with
        | clear => contradiction
        | incr => exact ⟨List.mem_cons_self, missing⟩
        | decr => exact ⟨List.mem_cons_self, missing⟩
  | loop control target =>
    simp only [form, headerForms] at raised
    cases found : store.get? control with
    | none =>
      simp only [found, Option.some.injEq] at raised
      cases raised
      exact ⟨List.mem_cons_self, found⟩
    | some value =>
      cases target with
      | literal value => cases closed <;> simp [found, Operand.value] at raised
      | named other =>
        cases read : store.get? other with
        | some value => cases closed <;> simp [found, Operand.value, read] at raised
        | none =>
          simp only [found, Operand.value, read, Option.some.injEq] at raised
          cases raised
          exact ⟨List.mem_cons_of_mem _ List.mem_cons_self, read⟩
  | close => simp [form] at raised
  | malformed keyword problem =>
    simp only [form, Option.some.injEq] at raised
    cases problem <;> cases raised
  | unknown word => simp [form] at raised

end CounterLang
