import CounterLang.Proofs.Printing

/-! Words by longest match. A lexer has a rule for gaps, one for each spelling and one for words
of any other kind. From where it stands it takes what is longest among all that some rule
accepts, and a spelling goes before a word of the same length. No more than this is said of
it, and it comes to the words of the text and to what each of them is as a whole. -/
namespace CounterLang
namespace Token

def spelling? : Token → Option String
  | .keyword kind => some kind.spelling
  | .notMark => some "not"
  | .doMark => some "do"
  | .plain => none

/- What the rules accept. Gaps are no token. -/
inductive Accepts : List Char → Option Token → Prop where
  | gap {slice} (full : slice ≠ []) (blank : ∀ c ∈ slice, isSeparator c = true) :
      Accepts slice none
  | spelled {token spelling} (same : spelling? token = some spelling) :
      Accepts spelling.toList (some token)
  | word {slice} (full : slice ≠ []) (solid : ∀ c ∈ slice, isSeparator c = false) :
      Accepts slice (some .plain)

structure Longest (text slice : List Char) : Prop where
  front : slice <+: text
  accepted : ∃ token, Accepts slice token
  longest : ∀ other, other <+: text → (∃ token, Accepts other token) →
    other.length ≤ slice.length

structure Preferred (slice : List Char) (token : Option Token) : Prop where
  accepted : Accepts slice token
  spelled : ∀ other, Accepts slice (some other) → other ≠ .plain → token = some other

inductive Lexes : List Char → List (Token × String) → Prop where
  | done : Lexes [] []
  | skip {slice rest tokens} (longest : Longest (slice ++ rest) slice)
      (rule : Preferred slice none) (later : Lexes rest tokens) : Lexes (slice ++ rest) tokens
  | take {slice rest token tokens} (longest : Longest (slice ++ rest) slice)
      (rule : Preferred slice (some token)) (later : Lexes rest tokens) :
      Lexes (slice ++ rest) ((token, String.ofList slice) :: tokens)

section Spellings

variable {word : String} {token : Token}

theorem ofWordSpelled (marked : token ≠ .plain) :
    ofWord word = token ↔ spelling? token = some word := by
  constructor
  · intro same
    unfold ofWord at same
    split at same <;> subst token <;> first | rfl | contradiction
  · intro spelled
    cases token with
    | keyword kind => exact keywordSpelling.mpr (Option.some.inj spelled).symm
    | notMark =>
      cases spelled
      rfl
    | doMark =>
      cases spelled
      rfl
    | plain => contradiction

theorem ofWordPlain : ofWord word = .plain ↔ ∀ token, spelling? token ≠ some word := by
  constructor
  · intro plain token spelled
    by_cases marked : token = .plain
    · subst token
      contradiction
    · exact marked ((ofWordSpelled marked).mpr spelled ▸ plain)
  · intro foreign
    by_contra marked
    exact foreign _ ((ofWordSpelled marked).mp rfl)

theorem spelledWord (spelled : spelling? token = some word) : Word word := by
  cases token with
  | keyword kind => exact Option.some.inj spelled ▸ spellingWord kind
  | notMark =>
    cases spelled
    decide
  | doMark =>
    cases spelled
    decide
  | plain => contradiction

end Spellings

section Slices

variable {text slice rest : List Char} {token : Token} {found : Option Token}
  {tokens : List (Token × String)}

theorem acceptedSolid (accepted : Accepts slice (some token)) :
    slice ≠ [] ∧ ∀ c ∈ slice, isSeparator c = false := by
  cases accepted with
  | @spelled _ spelling same =>
    have word := spelledWord same
    exact ⟨by simpa using word.full, word.solid⟩
  | word full solid => exact ⟨full, solid⟩

theorem acceptedAlike : (∃ token, Accepts slice token) ↔
    slice ≠ [] ∧ ∃ separates, ∀ c ∈ slice, isSeparator c = separates := by
  constructor
  · intro ⟨found, accepted⟩
    cases found with
    | none =>
      cases accepted with
      | gap full blank => exact ⟨full, true, blank⟩
    | some token =>
      obtain ⟨full, solid⟩ := acceptedSolid accepted
      exact ⟨full, false, solid⟩
  · intro ⟨full, separates, alike⟩
    cases separates with
    | true => exact ⟨none, .gap full alike⟩
    | false => exact ⟨some .plain, .word full alike⟩

theorem longestEnds {separates : Bool} (longest : Longest (slice ++ rest) slice)
    (alike : ∀ c ∈ slice, isSeparator c = separates) :
    ∀ c ∈ rest.head?, isSeparator c = !separates := by
  intro c first
  obtain ⟨rest, rfl⟩ := List.head?_eq_some_iff.mp first
  by_contra same
  have more : ∀ d ∈ slice ++ [c], isSeparator d = separates :=
    List.forall_mem_append.mpr ⟨alike, List.forall_mem_singleton.mpr (by simpa using same)⟩
  have front : slice ++ [c] <+: slice ++ c :: rest := ⟨rest, by simp⟩
  have bound := longest.longest _ front (acceptedAlike.mpr ⟨by simp, separates, more⟩)
  simp only [List.length_append, List.length_singleton] at bound
  omega

theorem endsLongest {separates : Bool} (full : slice ≠ [])
    (alike : ∀ c ∈ slice, isSeparator c = separates)
    (ended : ∀ c ∈ rest.head?, isSeparator c = !separates) : Longest (slice ++ rest) slice := by
  refine ⟨List.prefix_append _ _, acceptedAlike.mpr ⟨full, separates, alike⟩, ?_⟩
  intro other front accepted
  obtain ⟨_, kind, same⟩ := acceptedAlike.mp accepted
  by_contra longer
  obtain ⟨more, rfl⟩ : slice <+: other :=
    List.prefix_of_prefix_length_le (List.prefix_append _ _) front (by omega)
  have later : more <+: rest := (List.prefix_append_right_inj slice).mp front
  cases more with
  | nil => simp at longer
  | cons c more =>
    obtain ⟨rest, rfl⟩ := later
    -- One character of the slice and the one behind it would be alike.
    obtain ⟨d, inside⟩ := List.exists_mem_of_ne_nil slice full
    have one := alike d inside ▸ same d (List.mem_append_left _ inside)
    have other := ended c rfl ▸ same c (List.mem_append_right _ List.mem_cons_self)
    rw [← one] at other
    cases separates <;> contradiction

theorem preferredGap : Preferred slice none ↔
    slice ≠ [] ∧ ∀ c ∈ slice, isSeparator c = true := by
  constructor
  · intro ⟨accepted, _⟩
    cases accepted with
    | gap full blank => exact ⟨full, blank⟩
  · intro ⟨full, blank⟩
    refine ⟨.gap full blank, fun other accepted => ?_⟩
    obtain ⟨c, inside⟩ := List.exists_mem_of_ne_nil slice full
    have solid := (acceptedSolid accepted).2 c inside
    rw [blank c inside] at solid
    contradiction

theorem preferredWord : Preferred slice (some token) ↔
    (slice ≠ [] ∧ ∀ c ∈ slice, isSeparator c = false) ∧ token = ofWord (String.ofList slice) := by
  constructor
  · intro ⟨accepted, spelled⟩
    refine ⟨acceptedSolid accepted, ?_⟩
    by_cases marked : ofWord (String.ofList slice) = .plain
    · cases accepted with
      | spelled same =>
        rw [String.ofList_toList, ofWordPlain] at marked
        exact absurd same (marked _)
      | word full solid => exact marked.symm
    · have same := (ofWordSpelled marked).mp rfl
      have other : Accepts slice (some (ofWord (String.ofList slice))) := by
        simpa using Accepts.spelled same
      exact Option.some.inj (spelled _ other marked)
  · rintro ⟨⟨full, solid⟩, rfl⟩
    refine ⟨?_, fun other accepted marked => ?_⟩
    · by_cases marked : ofWord (String.ofList slice) = .plain
      · exact marked ▸ .word full solid
      · simpa using Accepts.spelled ((ofWordSpelled marked).mp rfl)
    · cases accepted with
      | spelled same =>
        rw [String.ofList_toList, (ofWordSpelled marked).mpr same]
      | word => contradiction

theorem lexesRuns (lexes : Lexes text tokens) : tokens = (Text.runs isSeparator text).map
    fun run => (ofWord (String.ofList run), String.ofList run) := by
  induction lexes with
  | done => rfl
  | skip longest rule later ih =>
    rw [Text.runsBehindGap (preferredGap.mp rule).2, ih]
  | @take slice rest token tokens longest rule later ih =>
    obtain ⟨⟨full, solid⟩, rfl⟩ := preferredWord.mp rule
    have ended := longestEnds longest solid
    have spaced : Text.Spaced isSeparator (slice ++ rest)
        (slice :: Text.runs isSeparator rest) :=
      @Text.Spaced.word isSeparator [] slice rest _ (by simp) full solid ended
        (Text.runsSpaced.mp rfl)
    rw [Text.spacedRuns spaced, List.map_cons, ih]

theorem lexesBehind {gap : List Char} (blank : ∀ c ∈ gap, isSeparator c = true)
    (ended : ∀ c ∈ rest.head?, isSeparator c = false) (later : Lexes rest tokens) :
    Lexes (gap ++ rest) tokens := by
  by_cases full : gap = []
  · rwa [full]
  · exact .skip (endsLongest full blank ended) (preferredGap.mpr ⟨full, blank⟩) later

theorem lexesSpaced {words : List (List Char)} (spaced : Text.Spaced isSeparator text words) :
    Lexes text (words.map fun run => (ofWord (String.ofList run), String.ofList run)) := by
  induction spaced with
  | @gap text blank =>
    rw [← List.append_nil text]
    exact lexesBehind blank (by simp) .done
  | @word gap word rest words blank full solid ended later ih =>
    rw [List.append_assoc]
    refine lexesBehind blank ?_ ?_
    · obtain ⟨c, word, rfl⟩ := List.exists_cons_of_ne_nil full
      rintro d ⟨⟩
      exact solid c List.mem_cons_self
    · exact .take (endsLongest full solid ended) (preferredWord.mpr ⟨⟨full, solid⟩, rfl⟩) ih

end Slices

theorem scanRuns (text : String) : scan text = (Text.runs isSeparator text.toList).map
    fun run => (ofWord (String.ofList run), String.ofList run) := by
  rw [scan, words, List.map_map]
  rfl

theorem lexesScan {text : String} {tokens : List (Token × String)} :
    Lexes text.toList tokens ↔ tokens = scan text := by
  rw [scanRuns]
  constructor
  · exact lexesRuns
  · rintro rfl
    exact lexesSpaced (Text.runsSpaced.mp rfl)

theorem scanSlices (text : String) : (scan text).map Prod.snd = words text := by
  rw [scan, List.map_map]
  exact List.map_id _

theorem separatorFive (c : Char) :
    isSeparator c = true ↔ c ∈ [' ', '\t', '\r', '\n', '\x0c'] := by
  simp [isSeparator, or_assoc]

theorem scanDivided (front back : String) {c : Char} (separates : isSeparator c = true) :
    scan (front ++ String.singleton c ++ back) = scan front ++ scan back := by
  rw [scanRuns, scanRuns, scanRuns, ← List.map_append,
    ← Text.runsAtSeparator front.toList back.toList separates]
  simp

theorem scanJoined (text : String) :
    scan (" ".intercalate ((scan text).map Prod.snd)) = scan text := by
  rw [scanSlices, scan, wordsSpaced (wordsWord text), scan]

theorem scansLongest :
    (∀ text tokens, Lexes (String.toList text) tokens ↔ tokens = scan text) ∧
    (∀ c, isSeparator c = true ↔ c ∈ [' ', '\t', '\r', '\n', '\x0c']) ∧
    (∀ text slices, Text.Spaced isSeparator (String.toList text) slices ↔
      slices = (scan text).map fun pair => pair.2.toList) ∧
    (∀ text, ∀ pair ∈ scan text,
      (∀ token, token ≠ .plain → (pair.1 = token ↔ spelling? token = some pair.2)) ∧
      (pair.1 = .plain ↔ ∀ token, spelling? token ≠ some pair.2)) ∧
    (∀ (front back : String) (c : Char), isSeparator c = true →
      scan (front ++ String.singleton c ++ back) = scan front ++ scan back) ∧
    ∀ text, scan (" ".intercalate ((scan text).map Prod.snd)) = scan text := by
  refine ⟨fun text tokens => lexesScan, separatorFive, ?_, ?_,
    fun front back c separates => scanDivided front back separates, scanJoined⟩
  · intro text slices
    have same : (scan text).map (fun pair => pair.2.toList) =
        Text.runs isSeparator text.toList := by
      simp [scanRuns, Function.comp_def]
    rw [← Text.runsSpaced, same]
    exact eq_comm
  · intro text pair member
    obtain ⟨word, _, rfl⟩ := List.mem_map.mp member
    exact ⟨fun token marked => ofWordSpelled marked, ofWordPlain⟩

theorem nearMissesScanned :
    let text := "do\x0cdone  notdo\tEnd end\u000bincr\r\nnot\u00a0"
    let tokens := [(.doMark, "do"), (.plain, "done"), (.plain, "notdo"), (.plain, "End"),
      (.plain, "end\u000bincr"), (.plain, "not\u00a0")]
    Lexes text.toList tokens ∧ ¬ Lexes "done".toList [(.doMark, "do"), (.plain, "ne")] ∧
      Text.Spaced isSeparator text.toList (tokens.map fun pair => pair.2.toList) ∧
      ofWord "end\u000bincr" = .plain ∧ (∀ token, spelling? token ≠ some "end\u000bincr") ∧
      scan ("wh" ++ String.singleton '\t' ++ "ile") = [(.plain, "wh"), (.plain, "ile")] ∧
      scan "do done notdo End end\u000bincr not\u00a0" = tokens := by
  intro text tokens
  obtain ⟨lexed, _, sliced, named, divided, joined⟩ := scansLongest
  have scanned : tokens = scan text := by decide
  have fifth := named text (.plain, "end\u000bincr") (by rw [← scanned]; decide)
  have foreign := fifth.2.mp rfl
  refine ⟨(lexed _ _).mpr scanned, fun lexes => ?_, (sliced _ _).mpr (by rw [← scanned]),
    by decide, foreign, ?_, ?_⟩
  · have same := (lexed _ _).mp lexes
    exact absurd same (by decide)
  · rw [divided "wh" "ile" '\t' (by decide)]
    decide
  · have spaced := joined text
    rw [← scanned] at spaced
    exact spaced

end Token
end CounterLang
