import CounterLang.Session
import CounterLang.Proofs.Indexes

/-! Stores in use, command after command. A plain list of names and values tells what each
command does and how it is answered; a session and a pair of stores with an index both do
just that, and never look for a slot where there is none. -/
namespace CounterLang

def Command.direct : Command → Bool
  | .execute _ => false
  | _ => true

def performAll {stores : Type} (perform : stores → Command → Option (Answer × stores)) :
    stores → List Command → Option (List Answer × stores)
  | now, [] => some ([], now)
  | now, command :: rest => do
    let (answer, next) ← perform now command
    let (answers, last) ← performAll perform next rest
    return (answer :: answers, last)

theorem performAllNil {stores : Type} {perform : stores → Command → Option (Answer × stores)}
    {now last : stores} {answers : List Answer} :
    performAll perform now [] = some (answers, last) ↔ answers = [] ∧ last = now := by
  rw [performAll, Option.some.injEq, Prod.mk.injEq]
  exact and_congr eq_comm eq_comm

theorem performAllCons {stores : Type} {perform : stores → Command → Option (Answer × stores)}
    {now last : stores} {command : Command} {rest : List Command} {answers : List Answer} :
    performAll perform now (command :: rest) = some (answers, last) ↔
      ∃ answer next others, perform now command = some (answer, next) ∧
        performAll perform next rest = some (others, last) ∧ answers = answer :: others := by
  simp only [performAll, bind, pure, Option.bind_eq_some_iff, Option.some.injEq, Prod.mk.injEq,
    Prod.exists]
  apply Iff.intro
  · rintro ⟨answer, next, first, others, final, later, rfl, rfl⟩
    exact ⟨answer, next, others, first, later, rfl⟩
  · rintro ⟨answer, next, others, first, later, rfl⟩
    exact ⟨answer, next, first, others, last, later, rfl, rfl⟩

abbrev Listing := List (String × UInt64)

namespace Listing

inductive Acts (name : String) : Listing → Action → Except Refusal UInt64 → Listing → Prop where
  | cleared {front value back} :
      Acts name (front ++ (name, value) :: back) .clear (.ok 0) (front ++ (name, 0) :: back)
  | created {listing} (absent : name ∉ listing.map Prod.fst) :
      Acts name listing .clear (.ok 0) (listing ++ [(name, 0)])
  | raised {front value next back} (one : next.toNat = value.toNat + 1) :
      Acts name (front ++ (name, value) :: back) .incr (.ok next) (front ++ (name, next) :: back)
  | lowered {front value next back} (one : value.toNat = next.toNat + 1) :
      Acts name (front ++ (name, value) :: back) .decr (.ok next) (front ++ (name, next) :: back)
  | full {front value back} (top : value.toNat = 2 ^ 64 - 1) :
      Acts name (front ++ (name, value) :: back) .incr (.error .outOfRange)
        (front ++ (name, value) :: back)
  | drained {front value back} (zero : value.toNat = 0) :
      Acts name (front ++ (name, value) :: back) .decr (.error .outOfRange)
        (front ++ (name, value) :: back)
  | missing {listing action} (needed : action ≠ .clear) (absent : name ∉ listing.map Prod.fst) :
      Acts name listing action (.error .undefined) listing

def told (action : Action) : Except Refusal UInt64 → Answer
  | .ok value => Session.updated action value
  | .error refusal => .refused refusal

def line (entry : String × UInt64) : String :=
  entry.1 ++ " = " ++ Nat.repr entry.2.toNat ++ "\n"

/- The current listing and the saved one. A saved listing is a copy of its own: only saving
changes it. -/
inductive Performs : Listing × Listing → Command → Answer → Listing × Listing → Prop where
  | act {now saved name action result next} (acts : Acts name now action result next) :
      Performs (now, saved) (.act action name) (told action result) (next, saved)
  | get {now saved name} : Performs (now, saved) (.get name) (.value (now.lookup name)) (now, saved)
  | contains {now saved name} :
      Performs (now, saved) (.contains name) (.truth (name ∈ now.map Prod.fst)) (now, saved)
  | size {now saved} : Performs (now, saved) .size (.count now.length) (now, saved)
  | isEmpty {now saved} : Performs (now, saved) .isEmpty (.truth (now = [])) (now, saved)
  | sorted {now saved view} (all : view.Perm now)
      (order : view.Pairwise fun left right => left.1 < right.1) :
      Performs (now, saved) .sorted (.entries view) (now, saved)
  | bindings {now saved table} (distinct : (table.map Prod.fst).Nodup)
      (same : ∀ name, table.lookup name = now.lookup name) :
      Performs (now, saved) .bindings (.bindings table) (now, saved)
  | display {now saved} :
      Performs (now, saved) .display (.text (String.join (now.map line))) (now, saved)
  | save {now saved} : Performs (now, saved) .save .silent (now, now)
  | restore {now saved} : Performs (now, saved) .restore .silent (saved, saved)
  | equalsSaved {now saved} :
      Performs (now, saved) .equalsSaved (.truth (now = saved)) (now, saved)

inductive PerformsAll : Listing × Listing → List Command → List Answer → Listing × Listing →
    Prop where
  | done {now} : PerformsAll now [] [] now
  | more {now command answer next rest answers last} (first : Performs now command answer next)
      (later : PerformsAll next rest answers last) :
      PerformsAll now (command :: rest) (answer :: answers) last

end Listing

def Indexed.perform (stores : Indexed × Indexed) :
    Command → Option (Answer × (Indexed × Indexed))
  | .execute _ => none
  | .act action name => do
    let (result, next) ← stores.1.act action name
    return (Listing.told action result, (next, stores.2))
  | .get name => do return (.value (← stores.1.get? name), stores)
  | .contains name => some (.truth (stores.1.contains name), stores)
  | .size => some (.count stores.1.slots.length, stores)
  | .isEmpty => some (.truth stores.1.slots.isEmpty, stores)
  | .sorted =>
    some (.entries (stores.1.slots.mergeSort fun left right => left.1 ≤ right.1), stores)
  | .bindings => some (.bindings stores.1.slots, stores)
  | .display => some (.text stores.1.display, stores)
  | .save => some (.silent, (stores.1, stores.1))
  | .restore => some (.silent, (stores.2, stores.2))
  | .equalsSaved => some (.truth (stores.1 = stores.2), stores)

namespace Store

theorem slotParts {store : Store} {name : String} {position : Nat}
    (found : store.position? name = some position) : ∃ front value back,
      store.slots = front ++ (name, value) :: back ∧ store.get? name = some value ∧
        ∀ next, (store.put name next).slots = front ++ (name, next) :: back := by
  obtain ⟨value, slot, there⟩ := slotAt found
  obtain ⟨bound, slot⟩ := List.getElem?_eq_some_iff.mp slot
  refine ⟨store.slots.take position, value, store.slots.drop (position + 1), ?_, there, ?_⟩
  · rw [← slot, List.getElem_cons_drop, List.take_append_drop]
  · intro next
    rw [slotsPut, found]
    exact List.set_eq_take_append_cons_drop.trans (if_pos bound)

theorem getLookup (store : Store) (name : String) : store.get? name = store.slots.lookup name := by
  cases found : store.position? name with
  | none =>
    rw [getFresh found, eq_comm, List.lookup_eq_none_iff]
    intro slot member
    have apart : name ≠ slot.1 := by
      rintro rfl
      exact positionNone.mp found (List.mem_map_of_mem member)
    exact bne_iff_ne.mpr apart
  | some position =>
    obtain ⟨front, value, back, slots, there, _⟩ := slotParts found
    rw [there, eq_comm, List.lookup_eq_some_iff]
    refine ⟨front, back, slots, fun slot member => ?_⟩
    have distinct := store.distinct
    rw [slots, List.map_append, List.nodup_append] at distinct
    have apart := distinct.2.2 slot.1 (List.mem_map_of_mem member) name List.mem_cons_self
    exact bne_iff_ne.mpr apart.symm

theorem sortedPerm (store : Store) : store.sorted.Perm store.slots := List.mergeSort_perm _ _

theorem sortedDistinct (store : Store) : (store.sorted.map Prod.fst).Nodup :=
  ((sortedPerm store).map Prod.fst).nodup_iff.mpr store.distinct

theorem sortedStrict (store : Store) :
    store.sorted.Pairwise fun left right => left.1 < right.1 := by
  have order : store.sorted.Pairwise fun left right => decide (left.1 ≤ right.1) = true := by
    apply List.pairwise_mergeSort
    · intro first second third
      simpa using String.le_trans
    · intro left right
      simpa using String.le_total left.1 right.1
  have apart := List.pairwise_map.mp (sortedDistinct store)
  refine (order.and apart).imp ?_
  rintro left right ⟨below, apart⟩
  refine String.not_le.mp fun above => apart (String.le_antisymm ?_ above)
  exact of_decide_eq_true below

theorem actListed (store : Store) (action : Action) (name : String) :
    Listing.Acts name store.slots action (action.result (store.get? name))
      (store.settled name (action.result (store.get? name))).slots := by
  cases found : store.position? name with
  | none =>
    have absent := positionNone.mp found
    have put (value : UInt64) : (store.put name value).slots = store.slots ++ [(name, value)] := by
      rw [slotsPut, found]
    rw [getFresh found]
    cases action with
    | clear =>
      rw [clearDone, settled, put]
      exact .created absent
    | incr => exact .missing (by decide) absent
    | decr => exact .missing (by decide) absent
  | some position =>
    obtain ⟨front, value, back, slots, there, put⟩ := slotParts found
    rw [there]
    cases action with
    | clear =>
      rw [clearDone, settled, put, slots]
      exact .cleared
    | incr =>
      unfold Action.result
      dsimp only
      split
      · rename_i fits
        rw [settled, put, slots]
        refine .raised ?_
        rw [UInt64.toNat_add]
        exact Nat.mod_eq_of_lt fits
      · rename_i full
        rw [settled, slots]
        refine .full ?_
        have bound := value.toNat_lt
        rw [UInt64.size] at full
        omega
    | decr =>
      unfold Action.result
      dsimp only
      split
      · rename_i positive
        rw [settled, put, slots]
        refine .lowered ?_
        rw [UInt64.toNat_sub_of_le _ _ positive]
        exact (Nat.sub_add_cancel positive).symm
      · rename_i zero
        rw [settled, slots]
        exact .drained (Nat.eq_zero_of_not_pos zero)

end Store

namespace Session

theorem actSettles (session : Session) (action : Action) (name : String) :
    session.act action name =
      (Listing.told action (action.result (session.current.get? name)),
        { session with
          current := session.current.settled name (action.result (session.current.get? name)) }) := by
  unfold act
  cases action.result (session.current.get? name) <;> rfl

def listings (session : Session) : Listing × Listing := (session.current.slots, session.saved.slots)

structure Shown (session : Session) (stores : Indexed × Indexed) : Prop where
  current : stores.1.Shows session.current
  saved : stores.2.Shows session.saved

theorem performOne {session : Session} {stores : Indexed × Indexed} {command : Command}
    (direct : command.direct = true) (shown : session.Shown stores) :
    ∃ answer next later, (∀ limit, session.perform limit command = some (answer, next)) ∧
      Indexed.perform stores command = some (answer, later) ∧
      Listing.Performs session.listings command answer next.listings ∧ next.Shown later := by
  have slots := shown.current.slots
  cases command with
  | execute source => contradiction
  | act action name =>
    obtain ⟨next, acted, after⟩ := Indexed.actShows shown.current action name
    refine ⟨_, _, (next, stores.2), fun limit => congrArg some (actSettles session action name), ?_,
      .act (Store.actListed session.current action name), after, shown.saved⟩
    rw [Indexed.perform, acted]
    rfl
  | get name =>
    refine ⟨.value (session.current.get? name), session, stores, fun _ => rfl, ?_, ?_, shown⟩
    · rw [Indexed.perform, Indexed.getShown shown.current]
      rfl
    · rw [Store.getLookup]
      exact .get
  | contains name =>
    refine ⟨.truth (session.current.contains name), session, stores, fun _ => rfl, ?_, ?_, shown⟩
    · rw [Indexed.perform, Indexed.containsShown shown.current]
    · have same : session.current.contains name =
          decide (name ∈ session.current.slots.map Prod.fst) := by
        rw [Bool.eq_iff_iff, Store.containsNames, decide_eq_true_eq]
        rfl
      rw [same]
      exact .contains
  | size =>
    refine ⟨.count session.current.size, session, stores, fun _ => rfl, ?_, .size, shown⟩
    rw [Indexed.perform, slots, Store.size]
  | isEmpty =>
    refine ⟨.truth session.current.isEmpty, session, stores, fun _ => rfl, ?_, ?_, shown⟩
    · rw [Indexed.perform, slots, Store.isEmpty]
    · have same : session.current.isEmpty = decide (session.current.slots = []) := by
        rw [Bool.eq_iff_iff, Store.isEmpty, List.isEmpty_iff, decide_eq_true_eq]
      rw [same]
      exact .isEmpty
  | sorted =>
    refine ⟨.entries session.current.sorted, session, stores, fun _ => rfl, ?_, ?_, shown⟩
    · rw [Indexed.perform, slots, Store.sorted]
    · exact .sorted (Store.sortedPerm _) (Store.sortedStrict _)
  | bindings =>
    refine ⟨.bindings session.current.toList, session, stores, fun _ => rfl, ?_, ?_, shown⟩
    · rw [Indexed.perform, slots, Store.toList]
    · exact .bindings session.current.distinct fun _ => rfl
  | display =>
    refine ⟨.text session.current.display, session, stores, fun _ => rfl, ?_, .display, shown⟩
    rw [Indexed.perform, Indexed.displayShown shown.current]
  | save => exact ⟨.silent, _, _, fun _ => rfl, rfl, .save, shown.current, shown.current⟩
  | restore => exact ⟨.silent, _, _, fun _ => rfl, rfl, .restore, shown.saved, shown.saved⟩
  | equalsSaved =>
    refine ⟨.truth (session.current = session.saved), session, stores, fun _ => rfl, ?_, ?_, shown⟩
    · have same : stores.1 = stores.2 ↔ session.current = session.saved := by
        rw [Indexed.coherentEqual shown.current.coherent shown.saved.coherent, slots,
          shown.saved.slots]
        exact ⟨Store.ext, congrArg Store.slots⟩
      rw [Indexed.perform, decide_eq_decide.mpr same]
    · have same : session.current = session.saved ↔
          session.current.slots = session.saved.slots := ⟨congrArg Store.slots, Store.ext⟩
      rw [decide_eq_decide.mpr same]
      exact .equalsSaved

theorem performMany {session : Session} {stores : Indexed × Indexed} {commands : List Command}
    (direct : ∀ command ∈ commands, command.direct = true) (shown : session.Shown stores) :
    ∃ answers last final,
      (∀ limit, performAll (perform limit) session commands = some (answers, last)) ∧
      performAll Indexed.perform stores commands = some (answers, final) ∧
      Listing.PerformsAll session.listings commands answers last.listings ∧
      last.Shown final := by
  induction commands generalizing session stores with
  | nil => exact ⟨[], session, stores, fun _ => rfl, rfl, .done, shown⟩
  | cons command rest ih =>
    obtain ⟨first, others⟩ := List.forall_mem_cons.mp direct
    obtain ⟨answer, next, later, here, there, performs, shown⟩ := performOne first shown
    obtain ⟨answers, last, final, onward, behind, all, shown⟩ := ih others shown
    refine ⟨answer :: answers, last, final, fun limit => ?_, ?_, .more performs all, shown⟩
    · exact performAllCons.mpr ⟨_, _, _, here limit, onward limit, rfl⟩
    · exact performAllCons.mpr ⟨_, _, _, there, behind, rfl⟩

theorem performSaved {session next : Session} {limit : Nat} {command : Command} {answer : Answer}
    (other : command ≠ .save) (performed : session.perform limit command = some (answer, next)) :
    next.saved = session.saved := by
  cases command with
  | save => contradiction
  | execute source =>
    obtain ⟨outcome, _, same⟩ := Option.map_eq_some_iff.mp performed
    cases same
    rfl
  | act action name =>
    rw [perform, actSettles] at performed
    cases performed
    rfl
  | _ =>
    cases performed
    rfl

end Session

theorem Indexed.performSaved {stores next : Indexed × Indexed} {command : Command}
    {answer : Answer} (other : command ≠ .save)
    (performed : Indexed.perform stores command = some (answer, next)) : next.2 = stores.2 := by
  cases command with
  | save => contradiction
  | execute source => contradiction
  | act action name =>
    obtain ⟨⟨result, later⟩, _, same⟩ := Option.bind_eq_some_iff.mp performed
    cases same
    rfl
  | get name =>
    obtain ⟨value, _, same⟩ := Option.bind_eq_some_iff.mp performed
    cases same
    rfl
  | _ =>
    cases performed
    rfl

theorem performAllKeeps {stores part : Type} {perform : stores → Command → Option (Answer × stores)}
    (kept : stores → part)
    (one : ∀ {now command answer next}, command ≠ .save →
      perform now command = some (answer, next) → kept next = kept now)
    {now last : stores} {commands : List Command} {answers : List Answer}
    (never : .save ∉ commands) (performed : performAll perform now commands = some (answers, last)) :
    kept last = kept now := by
  induction commands generalizing now answers with
  | nil => rw [(performAllNil.mp performed).2]
  | cons command rest ih =>
    obtain ⟨answer, next, others, first, later, _⟩ := performAllCons.mp performed
    have apart : command ≠ .save := fun same => never (same ▸ List.mem_cons_self)
    rw [ih (fun member => never (List.mem_cons_of_mem _ member)) later, one apart first]

def Store.seeded : Option (String × UInt64) → Store
  | none => .empty
  | some (name, value) => .single name value

def Indexed.seeded : Option (String × UInt64) → Indexed
  | none => .empty
  | some (name, value) => .single name value

theorem seededShows (seed : Option (String × UInt64)) :
    (Indexed.seeded seed).Shows (.seeded seed) := by
  cases seed with
  | none => exact Indexed.emptyShows
  | some entry => exact Indexed.singleShows entry.1 entry.2

structure Holds (listing : Listing) (store : Store) (indexed : Indexed) : Prop where
  entries : store.toList = listing
  positions : ∀ name position, store.position? name = some position ↔
    (listing.map Prod.fst)[position]? = some name
  slots : indexed.slots = listing
  coherent : indexed.Coherent
  bindings : ∀ name, indexed.bindings.lookup name = listing.lookup name

theorem shownHolds {store : Store} {indexed : Indexed} (shows : indexed.Shows store) :
    Holds store.slots store indexed where
  entries := rfl
  positions _ _ := Store.positionExact
  slots := shows.slots
  coherent := shows.coherent
  bindings name := shows.slots ▸ Indexed.bindingsShown shows name

structure Ordered (seed : Option (String × UInt64)) (commands : List Command)
    (answers : List Answer) (session : Session) (stores : Indexed × Indexed)
    (listings : Listing × Listing) : Prop where
  plain : ∀ limit, performAll (Session.perform limit) (.start (.seeded seed)) commands =
    some (answers, session)
  indexed : performAll Indexed.perform (.seeded seed, .empty) commands = some (answers, stores)
  listed : Listing.PerformsAll (seed.toList, []) commands answers listings
  current : Holds listings.1 session.current stores.1
  saved : Holds listings.2 session.saved stores.2

def Indexed.Reached (store : Indexed) : Prop :=
  ∃ seed commands answers saved, (∀ command ∈ commands, command.direct = true) ∧
    performAll Indexed.perform (.seeded seed, .empty) commands = some (answers, (store, saved))

theorem commandsOrdered {commands : List Command}
    (direct : ∀ command ∈ commands, command.direct = true) (seed : Option (String × UInt64)) :
    ∃ answers session stores listings, Ordered seed commands answers session stores listings := by
  have shown : (Session.start (.seeded seed)).Shown (.seeded seed, .empty) :=
    ⟨seededShows seed, Indexed.emptyShows⟩
  have slots : (Session.start (.seeded seed)).listings = (seed.toList, []) := by
    cases seed <;> rfl
  obtain ⟨answers, last, final, plain, indexed, listed, shown⟩ := Session.performMany direct shown
  rw [slots] at listed
  exact ⟨answers, last, final, _, plain, indexed, listed, shownHolds shown.current,
    shownHolds shown.saved⟩

theorem Indexed.reachedCoherent {store : Indexed} (reached : store.Reached) : store.Coherent := by
  obtain ⟨seed, commands, answers, saved, direct, performed⟩ := reached
  obtain ⟨_, _, stores, _, ordered⟩ := commandsOrdered direct seed
  cases performed.symm.trans ordered.indexed
  exact ordered.current.coherent

theorem storesOrdered :
    (∀ commands : List Command, (∀ command ∈ commands, command.direct = true) → ∀ seed,
      ∃ answers session stores listings,
        Ordered seed commands answers session stores listings) ∧
    (∀ commands : List Command, .save ∉ commands →
      (∀ limit (session last : Session) answers,
        performAll (Session.perform limit) session commands = some (answers, last) →
        last.saved = session.saved) ∧
      ∀ (stores final : Indexed × Indexed) answers,
        performAll Indexed.perform stores commands = some (answers, final) →
        final.2 = stores.2) ∧
    (∀ left right : Store, left = right ↔ left.toList = right.toList) ∧
    ∀ left right : Indexed, left.Reached → right.Reached →
      (left = right ↔ left.slots = right.slots) := by
  refine ⟨fun _ direct => commandsOrdered direct, fun commands never => ⟨?_, ?_⟩, ?_, ?_⟩
  · intro limit session last answers performed
    exact performAllKeeps Session.saved Session.performSaved never performed
  · intro stores final answers performed
    exact performAllKeeps Prod.snd Indexed.performSaved never performed
  · exact fun left right => ⟨congrArg Store.slots, Store.ext⟩
  · intro left right first second
    exact Indexed.coherentEqual (Indexed.reachedCoherent first) (Indexed.reachedCoherent second)

def journey : List Command :=
  [.act .clear "b", .act .incr "a", .save, .act .decr "a", .equalsSaved, .act .incr "c",
    .act .clear "a", .act .decr "a", .bindings, .display, .restore, .equalsSaved]

theorem journeyOrdered :
    let seed := some ("a", (18446744073709551615 : UInt64))
    let saved : Store := ⟨[("a", 18446744073709551615), ("b", 0)], by decide⟩
    (∀ command ∈ journey, command.direct = true) ∧
      performAll (Session.perform 0) (.start (.seeded seed)) journey =
        some ([.silent, .refused .outOfRange, .silent, .updated 18446744073709551614, .truth false,
          .refused .undefined, .silent, .refused .outOfRange, .bindings [("a", 0), ("b", 0)],
          .text "a = 0\nb = 0\n", .silent, .truth true], ⟨saved, saved⟩) ∧
      ∃ answers session stores listings,
        Ordered seed journey answers session stores listings := by
  intro seed saved
  have direct : ∀ command ∈ journey, command.direct = true := by decide
  exact ⟨direct, by decide, storesOrdered.1 journey direct seed⟩

end CounterLang
