import CounterLang.Session
import CounterLang.Proofs.Decoding
import CounterLang.Proofs.Lifetimes
import CounterLang.Proofs.Noninterference
import CounterLang.Proofs.Numerals
import CounterLang.Proofs.Segmentation

/-! Listings of results. The counters of a program text have names without blanks, so each
line of a listing can be cut in one way only, and a listing tells its whole store. -/
namespace CounterLang

structure TextName (name : String) : Prop where
  full : name ≠ ""
  solid : ∀ c ∈ name.toList, Text.isBlank c = false
  bare : Source.terminator ∉ name.toList

/- A line is cut at its first space. What stands before it is the name, and behind it come
the mark and the number. -/
def readCounter? (line : List Char) : Option (String × UInt64) :=
  match line.dropWhile (· ≠ ' ') with
  | ' ' :: '=' :: ' ' :: digits =>
    (Numeral.read? digits).map fun value => (String.ofList (line.takeWhile (· ≠ ' ')), value)
  | _ => none

def readListing? (text : String) : Option (List (String × UInt64)) :=
  (Text.lines text.toList).mapM readCounter?

def entryText (entry : String × UInt64) : List Char :=
  entry.1.toList ++ ' ' :: '=' :: ' ' :: (Numeral.write entry.2).toList

theorem nameAvoids {name : String} (text : TextName name) {c : Char}
    (blank : Text.isBlank c = true) : c ∉ name.toList := by
  intro member
  rw [text.solid c member] at blank
  contradiction

theorem entryRead {entry : String × UInt64} (name : TextName entry.1) :
    readCounter? (entryText entry) = some entry := by
  have solid : ∀ c ∈ entry.1.toList, decide (c ≠ ' ') = true := by
    intro c member
    refine decide_eq_true fun same => ?_
    exact nameAvoids name (c := ' ') (by decide) (same ▸ member)
  have before : (entryText entry).takeWhile (· ≠ ' ') = entry.1.toList := by
    rw [entryText, List.takeWhile_append_of_pos solid]
    simp
  have behind : (entryText entry).dropWhile (· ≠ ' ') =
      ' ' :: '=' :: ' ' :: (Numeral.write entry.2).toList := by
    rw [entryText, List.dropWhile_append_of_pos solid]
    simp
  simp only [readCounter?, before, behind, Numeral.writtenRead, Option.map_some, String.ofList_toList]

theorem entryWithin {entry : String × UInt64} (name : TextName entry.1) :
    '\n' ∉ entryText entry := by
  have newline : Text.isBlank '\n' = true := by decide
  have digits : '\n' ∉ (Numeral.write entry.2).toList := by
    intro member
    have solid := Numeral.digitSolid (Numeral.writtenDigits entry.2 _ member)
    rw [newline] at solid
    contradiction
  simp [entryText, nameAvoids name newline, digits]

theorem entryEnd (entry : String × UInt64) : (entryText entry).getLast? ≠ some '\r' := by
  obtain ⟨front, last, digits⟩ :=
    (List.eq_nil_or_concat _).resolve_left (Numeral.writtenSome entry.2)
  have digit := Numeral.writtenDigits entry.2 last (by simp [digits])
  have whole : entryText entry = entry.1.toList ++ ' ' :: '=' :: ' ' :: front ++ [last] := by
    simp [entryText, digits]
  rw [whole, List.getLast?_concat]
  intro same
  cases Option.some.inj same
  contradiction

theorem entryLines {entries : List (String × UInt64)}
    (names : ∀ entry ∈ entries, TextName entry.1) :
    Text.lines (Store.written entries).toList = entries.map entryText := by
  induction entries with
  | nil => rfl
  | cons entry rest ih =>
    obtain ⟨first, others⟩ := List.forall_mem_cons.mp names
    have shape : (Store.written (entry :: rest)).toList =
        entryText entry ++ '\n' :: (Store.written rest).toList := by
      simp [Store.written, Store.entryLine, entryText]
    rw [shape, Text.linesSolid (entryWithin first) (entryEnd entry), ih others, List.map_cons]

theorem entriesRead {entries : List (String × UInt64)}
    (names : ∀ entry ∈ entries, TextName entry.1) :
    (entries.map entryText).mapM readCounter? = some entries := by
  induction entries with
  | nil => rfl
  | cons entry rest ih =>
    obtain ⟨first, others⟩ := List.forall_mem_cons.mp names
    simp [entryRead first, ih others]

structure Listed (store : Store) : Prop where
  names : ∀ name ∈ store.names, TextName name
  lines : (Text.lines store.display.toList).length = store.size
  entries : readListing? store.display = some store.toList

theorem displayListed {store : Store} (names : ∀ name ∈ store.names, TextName name) :
    Listed store := by
  have slots : ∀ entry ∈ store.slots, TextName entry.1 :=
    fun entry member => names _ (List.mem_map_of_mem member)
  have lines : Text.lines store.display.toList = store.slots.map entryText := entryLines slots
  refine ⟨names, ?_, ?_⟩
  · rw [lines, List.length_map, Store.size]
  · rw [readListing?, lines, entriesRead slots, Store.toList]

theorem displayTells {first second : Store} (left : Listed first) (right : Listed second) :
    first.display = second.display ↔ first = second := by
  refine ⟨fun same => ?_, fun same => congrArg Store.display same⟩
  have entries := left.entries
  rw [same, right.entries] at entries
  exact Store.ext (Option.some.inj entries).symm

theorem plainNames {statement : Statement} (plain : Source.Plain statement) :
    ∀ name ∈ statement.instruction.changes, TextName name := by
  obtain ⟨words, phrase, same⟩ := plain
  have spells : Instruction.Spells (words.map String.ofList) statement.instruction := by
    rw [← same, ← Source.phraseWords phrase]
    exact Instruction.wordsSpelled _
  intro name member
  cases form : statement.instruction with
  | act action other =>
    rw [form] at member spells
    obtain rfl := List.mem_singleton.mp member
    have inside : name ∈ words.map String.ofList := by simp [Instruction.spellsAct spells]
    obtain ⟨word, there, same⟩ := List.mem_map.mp inside
    obtain ⟨full, solid⟩ := phrase.solid word there
    have bare := phrase.inside word there
    subst same
    exact ⟨by simpa using full, by simpa using solid, by simpa using bare⟩
  | loop control target => simp [form, Instruction.changes] at member
  | close => simp [form, Instruction.changes] at member
  | malformed keyword problem => simp [form, Instruction.changes] at member
  | unknown word => simp [form, Instruction.changes] at member

namespace Program

theorem finishesNamed {program : Program} {outcome : Outcome}
    (finishes : program.Finishes .empty outcome) :
    ∀ name ∈ outcome.store.names, name ∈ program.names Instruction.changes := by
  intro name member
  by_contra never
  have same := finishesUntouched finishes name never
  exact Store.getNone.mp (same.trans rfl) member

end Program

namespace Execution

theorem freshDone {limit : Nat} {source : String} {store : Store} {report : Report} :
    fresh limit source = some (.ok (store, report)) ↔ ∃ program,
      Source.read source = .ok program ∧
        program.run limit .empty = some ⟨store, .done report⟩ := by
  unfold fresh onStore
  constructor
  · intro done
    obtain ⟨outcome, settled, same⟩ := Option.map_eq_some_iff.mp done
    split at settled
    · rename_i program parsed
      refine ⟨program, parsed, settled.trans ?_⟩
      obtain ⟨last, ending⟩ := outcome
      cases ending <;> cases same
      rfl
    · cases settled
      cases same
  · intro ⟨program, parsed, finished⟩
    simp only [parsed, finished, Option.map_some]

theorem freshListed {limit : Nat} {source : String} {store : Store} {report : Report}
    (done : fresh limit source = some (.ok (store, report))) : Listed store := by
  obtain ⟨program, parsed, finished⟩ := freshDone.mp done
  refine displayListed fun name member => ?_
  have changed := Program.finishesNamed ⟨limit, finished⟩ name member
  obtain ⟨statement, there, named⟩ := List.mem_flatMap.mp changed
  exact plainNames (Source.readPlain parsed statement there) name named

theorem resultsTold :
    (∀ limit source store report, fresh limit source = some (.ok (store, report)) →
      Listed store ∧ ∃ program events, Source.read source = .ok program ∧
        program.Traces .empty events ⟨store, .done report⟩ ∧
        FirstClears [] (clears events) store.names) ∧
    ∀ limit source first report other again second counts,
      fresh limit source = some (.ok (first, report)) →
      fresh other again = some (.ok (second, counts)) →
      (first.display = second.display ↔ first = second) := by
  refine ⟨fun limit source store report done => ⟨freshListed done, ?_⟩, ?_⟩
  · obtain ⟨program, parsed, finished⟩ := freshDone.mp done
    obtain ⟨events, traced⟩ := Program.finishesTraces.mp ⟨limit, finished⟩
    obtain ⟨created, names, first⟩ := Program.tracesCreate traced
    obtain rfl : store.names = created := names
    exact ⟨program, events, parsed, traced, first⟩
  · intro limit source first report other again second counts left right
    exact displayTells (freshListed left) (freshListed right)

theorem marksTold :
    let source := "clear =; incr =;\nclear 7=; while 7= not = do; incr 7=; end;"
    let again := "clear 7=;clear =;incr =;incr 7=;"
    let first : Store := ⟨[("=", 1), ("7=", 1)], by decide⟩
    let second : Store := ⟨[("7=", 1), ("=", 1)], by decide⟩
    fresh 20 source = some (.ok (first, ⟨5, 1⟩)) ∧
      fresh 20 again = some (.ok (second, ⟨4, 0⟩)) ∧
      first.display = "= = 1\n7= = 1\n" ∧ Listed first ∧
      (first.display = second.display ↔ first = second) := by
  intro source again first second
  let front := "clear =; incr =;"
  let back := "clear 7=; while 7= not = do; incr 7=; end;"
  let program : Program :=
    #[⟨"clear =", front, 1, .act .clear "="⟩, ⟨"incr =", front, 1, .act .incr "="⟩,
      ⟨"clear 7=", back, 2, .act .clear "7="⟩,
      ⟨"while 7= not = do", back, 2, .loop "7=" (.named "=")⟩,
      ⟨"incr 7=", back, 2, .act .incr "7="⟩, ⟨"end", back, 2, .close⟩]
  let other : Program :=
    #[⟨"clear 7=", again, 1, .act .clear "7="⟩, ⟨"clear =", again, 1, .act .clear "="⟩,
      ⟨"incr =", again, 1, .act .incr "="⟩, ⟨"incr 7=", again, 1, .act .incr "7="⟩]
  have done : fresh 20 source = some (.ok (first, ⟨5, 1⟩)) :=
    freshDone.mpr ⟨program, by decide, by decide⟩
  have also : fresh 20 again = some (.ok (second, ⟨4, 0⟩)) :=
    freshDone.mpr ⟨other, by decide, by decide⟩
  obtain ⟨told, apart⟩ := resultsTold
  exact ⟨done, also, rfl, (told _ _ _ _ done).1, apart _ _ _ _ _ _ _ _ done also⟩

end Execution
end CounterLang
