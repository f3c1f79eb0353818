import CounterLang.Proofs.Transitions

/-! Which names a store defines. An action leaves every name where it is and adds at
most one behind them, so what a loop header needs once it has for ever. -/
namespace CounterLang
namespace Store

theorem containsNames {store : Store} {name : String} :
    store.contains name = true ↔ name ∈ store.names := by
  unfold contains
  cases position : store.position? name with
  | none => simpa using positionNone.mp position
  | some index => simpa using List.mem_of_getElem? (positionSome position)

theorem getNone {store : Store} {name : String} : store.get? name = none ↔ name ∉ store.names := by
  unfold get?
  cases position : store.position? name with
  | none => simpa using positionNone.mp position
  | some index =>
    have found := positionSome position
    have member := List.mem_of_getElem? found
    obtain ⟨bound, _⟩ := List.getElem?_eq_some_iff.mp found
    rw [names, List.length_map] at bound
    simp [List.getElem?_eq_getElem bound, member]

theorem getSome {store : Store} {name : String} :
    (∃ value, store.get? name = some value) ↔ name ∈ store.names := by
  rw [← Option.ne_none_iff_exists', ne_eq, getNone, Decidable.not_not]

theorem putNames (store : Store) (name : String) (value : UInt64) :
    store.names <+: (store.put name value).names := by
  unfold put
  split
  · rename_i index found
    have kept := replaceKeepsNames value (positionSome found)
    exact ⟨[], (List.append_nil _).trans kept.symm⟩
  · rw [names, names, List.map_append]
    exact List.prefix_append _ _

theorem performNames {store next : Store} {action : Action} {name : String}
    (done : store.perform action name = .ok next) : store.names <+: next.names := by
  unfold perform at done
  cases result : action.result (store.get? name) with
  | error refusal => simp [result, Except.map] at done
  | ok value =>
    simp only [result, Except.map, Except.ok.injEq] at done
    exact done ▸ putNames store name value

end Store

def Operand.names : Operand → List String
  | .literal _ => []
  | .named name => [name]

theorem targetRead {store : Store} {target : Operand} :
    (∃ value, target.value store = .ok value) ↔ ∀ name ∈ target.names, name ∈ store.names := by
  cases target with
  | literal value => simp [Operand.value, Operand.names]
  | named name =>
    simp only [Operand.value, Operand.names, List.mem_singleton, forall_eq]
    rw [← Store.getSome]
    cases store.get? name <;> simp

theorem headerOpened {store : Store} {control : String} {target : Operand} :
    (∃ reach, store.header control target = .ok reach) ↔
      control ∈ store.names ∧ ∀ name ∈ target.names, name ∈ store.names := by
  unfold Store.header
  rw [← targetRead, ← Store.containsNames]
  split <;> simp_all

theorem headerRead {store : Store} {control : String} {target : Operand} {reach : UInt64}
    (opened : store.header control target = .ok reach) : target.value store = .ok reach := by
  unfold Store.header at opened
  split at opened
  · exact opened
  · contradiction

theorem actPerforms {statement : Statement} {action : Action} {name : String} {store next : Store}
    (done : statement.act action name store = .ok next) : store.perform action name = .ok next := by
  unfold Statement.act at done
  cases performed : store.perform action name with
  | error refusal =>
    rw [performed] at done
    cases done
  | ok other =>
    rw [performed] at done
    cases done
    rfl

theorem actRefused {statement : Statement} {action : Action} {name : String} {store : Store}
    {cause : Cause} (refused : statement.act action name store = .error cause) :
    ∃ refusal, cause = statement.refused action name refusal := by
  unfold Statement.act at refused
  cases performed : store.perform action name with
  | error refusal =>
    rw [performed] at refused
    cases refused
    exact ⟨refusal, rfl⟩
  | ok next =>
    rw [performed] at refused
    cases refused

theorem actNames {statement : Statement} {action : Action} {name : String} {store next : Store}
    (done : statement.act action name store = .ok next) : store.names <+: next.names :=
  Store.performNames (actPerforms done)

theorem headerStays {store next : Store} {control : String} {target : Operand}
    (opened : ∃ reach, store.header control target = .ok reach)
    (names : store.names <+: next.names) : ∃ reach, next.header control target = .ok reach := by
  rw [headerOpened] at opened ⊢
  exact ⟨names.subset opened.1, fun name member => names.subset (opened.2 name member)⟩

end CounterLang
