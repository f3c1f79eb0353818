import CounterLang.Proofs.Brackets

/-! Blocks as trees. Every list of statements is a block followed by what cannot be
taken into it: nothing, a stray closing statement with the rest, or a header
that is never closed with the rest. There is one way only to divide it so. -/
namespace CounterLang
open Nesting

inductive Block where
  | done
  | simple (statement : Statement) (rest : Block)
  | loop (head : Statement) (body : Block) (close : Statement) (rest : Block)
  deriving DecidableEq, Repr

namespace Block

def flatten : Block → List Statement
  | .done => []
  | .simple statement rest => statement :: rest.flatten
  | .loop head body close rest => head :: (body.flatten ++ close :: rest.flatten)

def size (block : Block) : Nat := block.flatten.length

def append : Block → Block → Block
  | .done, back => back
  | .simple statement rest, back => .simple statement (rest.append back)
  | .loop head body close rest, back => .loop head body close (rest.append back)

def Sound : Block → Prop
  | .done => True
  | .simple statement rest =>
    statement.opens = false ∧ statement.closes = false ∧ rest.Sound
  | .loop head body close rest =>
    head.opens = true ∧ close.closes = true ∧ body.Sound ∧ rest.Sound

theorem sizeSimple (statement : Statement) (rest : Block) :
    (simple statement rest).size = rest.size + 1 := rfl

theorem sizeLoop (head close : Statement) (body rest : Block) :
    (loop head body close rest).size = body.size + rest.size + 2 := by
  simp only [size, flatten, List.length_cons, List.length_append]
  omega

theorem appendDone (block : Block) : block.append .done = block := by
  induction block with
  | done => rfl
  | simple statement rest ih => rw [append, ih]
  | loop head body close rest _ ih => rw [append, ih]

theorem appendFlatten (front back : Block) :
    (front.append back).flatten = front.flatten ++ back.flatten := by
  induction front with
  | done => rfl
  | simple statement rest ih => exact congrArg (statement :: ·) ih
  | loop head body close rest _ ih =>
    simp only [append, flatten, ih, List.cons_append, List.append_assoc]

theorem appendSound {front back : Block} (first : front.Sound) (second : back.Sound) :
    (front.append back).Sound := by
  induction front with
  | done => exact second
  | simple statement rest ih => exact ⟨first.1, first.2.1, ih first.2.2⟩
  | loop head body close rest _ ih => exact ⟨first.1, first.2.1, first.2.2.1, ih first.2.2.2⟩

theorem soundLevel {block : Block} (sound : block.Sound) (depth : Nat) :
    level? depth block.flatten = some depth := by
  induction block generalizing depth with
  | done => rfl
  | simple statement rest ih =>
    rw [flatten, levelSimple sound.1 sound.2.1]
    exact ih sound.2.2 depth
  | loop head body close rest inner ih =>
    rw [flatten, levelBlock sound.1 (inner sound.2.2.1 0) sound.2.1]
    exact ih sound.2.2.2 depth

end Block

def Unmatched (statements : List Statement) : Prop :=
  ∀ (body : Block) (close : Statement) (rest : List Statement), body.Sound →
    close.closes = true → statements ≠ body.flatten ++ close :: rest

def Stuck : List Statement → Prop
  | [] => True
  | statement :: rest =>
    statement.closes = true ∨ (statement.opens = true ∧ Unmatched rest)

structure Splits (statements : List Statement) (block : Block) (remainder : List Statement) :
    Prop where
  sound : block.Sound
  whole : block.flatten ++ remainder = statements
  stuck : Stuck remainder

/- A list read from its back. What is not yet closed on the left comes as blocks
that each end at a stray closing statement. -/
inductive Layers where
  | last (block : Block) (remainder : List Statement)
  | closed (block : Block) (close : Statement) (outer : Layers)

namespace Layers

def push (item : Block → Block) : Layers → Layers
  | .last block remainder => .last (item block) remainder
  | .closed block close outer => .closed (item block) close outer

def read : List Statement → Layers
  | [] => .last .done []
  | statement :: rest =>
    if statement.opens then
      match read rest with
      | .last _ _ => .last .done (statement :: rest)
      | .closed body close outer => outer.push (.loop statement body close)
    else if statement.closes then .closed .done statement (read rest)
    else (read rest).push (.simple statement)

def flatten : Layers → List Statement
  | .last block remainder => block.flatten ++ remainder
  | .closed block close outer => block.flatten ++ close :: outer.flatten

def Sound : Layers → Prop
  | .last block remainder =>
    block.Sound ∧ (remainder = [] ∨ ∃ head rest, remainder = head :: rest ∧ head.opens = true ∧
      closing? rest = none)
  | .closed block close outer => block.Sound ∧ close.closes = true ∧ outer.Sound

def split : Layers → Block × List Statement
  | .last block remainder => (block, remainder)
  | .closed block close outer => (block, close :: outer.flatten)

theorem flattenSimple (statement : Statement) (layers : Layers) :
    (layers.push (.simple statement)).flatten = statement :: layers.flatten := by
  cases layers <;> rfl

theorem flattenLoop (head close : Statement) (body : Block) (layers : Layers) :
    (layers.push (.loop head body close)).flatten =
      head :: (body.flatten ++ close :: layers.flatten) := by
  cases layers <;> simp [push, flatten, Block.flatten]

theorem flattenRead (statements : List Statement) : (read statements).flatten = statements := by
  induction statements with
  | nil => rfl
  | cons statement rest ih =>
    unfold read
    split
    · split
      · rfl
      · rename_i body close outer same
        rw [same] at ih
        rw [flattenLoop]
        exact congrArg (statement :: ·) ih
    · split
      · simp only [flatten, Block.flatten, ih, List.nil_append]
      · rw [flattenSimple, ih]

theorem soundSimple {statement : Statement} {layers : Layers} (opens : statement.opens = false)
    (closes : statement.closes = false) (sound : layers.Sound) :
    (layers.push (.simple statement)).Sound := by
  cases layers with
  | last block remainder => exact ⟨⟨opens, closes, sound.1⟩, sound.2⟩
  | closed block close outer => exact ⟨⟨opens, closes, sound.1⟩, sound.2⟩

theorem soundLoop {head close : Statement} {body : Block} {layers : Layers}
    (opens : head.opens = true) (closes : close.closes = true) (inner : body.Sound)
    (sound : layers.Sound) : (layers.push (.loop head body close)).Sound := by
  cases layers with
  | last block remainder => exact ⟨⟨opens, closes, inner, sound.1⟩, sound.2⟩
  | closed block close outer => exact ⟨⟨opens, closes, inner, sound.1⟩, sound.2⟩

theorem lastLevel {block : Block} {remainder : List Statement}
    (sound : (last block remainder).Sound) :
    ∃ inner, level? 0 (block.flatten ++ remainder) = some inner ∧ (inner = 0 → remainder = []) := by
  obtain ⟨inside, nothing | ⟨head, rest, same, opens, never⟩⟩ := sound
  · rw [nothing, List.append_nil]
    exact ⟨0, Block.soundLevel inside 0, fun _ => rfl⟩
  · obtain ⟨depth, level⟩ := closingNone.mp never
    have raised := levelRaise level 1
    rw [Nat.zero_add] at raised
    rw [same, levelAppend, Block.soundLevel inside, Option.bind_some, levelOpens opens, raised]
    exact ⟨depth + 1, rfl, fun zero => by omega⟩

theorem soundRead (statements : List Statement) : (read statements).Sound := by
  induction statements with
  | nil => exact ⟨trivial, .inl rfl⟩
  | cons statement rest ih =>
    have whole := flattenRead rest
    unfold read
    split
    · rename_i opens
      split
      · rename_i block remainder same
        rw [same] at ih whole
        obtain ⟨inner, level, _⟩ := lastLevel ih
        dsimp only [flatten] at whole
        rw [whole] at level
        exact ⟨trivial, .inr ⟨statement, rest, rfl, opens, closingNone.mpr ⟨inner, level⟩⟩⟩
      · rename_i body close outer same
        rw [same] at ih
        exact soundLoop opens ih.2.1 ih.1 ih.2.2
    · rename_i opens
      split
      · rename_i closes
        exact ⟨trivial, closes, ih⟩
      · rename_i closes
        exact soundSimple (Bool.eq_false_iff.mpr opens) (Bool.eq_false_iff.mpr closes) ih

theorem readAppend {block : Block} (sound : block.Sound) (rest : List Statement) :
    read (block.flatten ++ rest) = (read rest).push block.append := by
  induction block generalizing rest with
  | done =>
    change read rest = (read rest).push (Block.append .done)
    cases read rest <;> rfl
  | simple statement tail ih =>
    obtain ⟨opens, closes, sound⟩ := sound
    rw [Block.flatten, List.cons_append, read, ih sound]
    simp only [opens, closes, Bool.false_eq_true, if_false]
    cases read rest <;> rfl
  | loop head body close tail inner ih =>
    obtain ⟨opens, closes, inside, sound⟩ := sound
    have stray : read (close :: (tail.flatten ++ rest)) =
        .closed .done close (read (tail.flatten ++ rest)) := by
      simp only [read, opensNotCloses closes, closes, Bool.false_eq_true, if_false, if_true]
    rw [Block.flatten, List.cons_append, List.append_assoc, List.cons_append, read, inner inside,
      stray, ih sound]
    simp only [opens, if_true, push, Block.appendDone]
    cases read rest <;> rfl

end Layers

theorem balancedBlock {statements : List Statement} (level : level? 0 statements = some 0) :
    ∃ block : Block, block.Sound ∧ block.flatten = statements := by
  have sound := Layers.soundRead statements
  have whole := Layers.flattenRead statements
  cases same : Layers.read statements with
  | last block remainder =>
    rw [same] at sound whole
    obtain ⟨inner, kept, nothing⟩ := Layers.lastLevel sound
    dsimp only [Layers.flatten] at whole
    rw [whole, level] at kept
    rw [nothing (Option.some.inj kept).symm, List.append_nil] at whole
    exact ⟨block, sound.1, whole⟩
  | closed block close outer =>
    rw [same] at sound whole
    dsimp only [Layers.flatten] at whole
    rw [← whole, levelAppend, Block.soundLevel sound.1, Option.bind_some,
      levelStray sound.2.1] at level
    contradiction

theorem unmatchedClosing {statements : List Statement} :
    Unmatched statements ↔ closing? statements = none := by
  apply Iff.intro
  · intro unmatched
    cases found : closing? statements with
    | none => rfl
    | some length =>
      obtain ⟨body, close, rest, same, closes, level, _⟩ := closingSome.mp found
      obtain ⟨block, sound, flat⟩ := balancedBlock level
      exact absurd (flat ▸ same) (unmatched block close rest sound closes)
  · intro never body close rest sound closes same
    rw [same, closingAfter (Block.soundLevel sound 0) closes] at never
    contradiction

namespace Block

def split (statements : List Statement) : Block × List Statement :=
  (Layers.read statements).split

theorem splitSplits (statements : List Statement) :
    Splits statements (split statements).1 (split statements).2 := by
  have sound := Layers.soundRead statements
  have whole := Layers.flattenRead statements
  unfold split
  cases same : Layers.read statements with
  | last block remainder =>
    rw [same] at sound whole
    obtain ⟨inside, nothing | ⟨head, rest, same, opens, never⟩⟩ := sound
    · exact ⟨inside, whole, nothing ▸ trivial⟩
    · exact ⟨inside, whole, same ▸ .inr ⟨opens, unmatchedClosing.mpr never⟩⟩
  | closed block close outer =>
    rw [same] at sound whole
    exact ⟨sound.1, whole, .inl sound.2.1⟩

theorem splitsSome (statements : List Statement) :
    ∃ block remainder, Splits statements block remainder :=
  ⟨_, _, splitSplits statements⟩

theorem splitOnly {statements : List Statement} {block : Block} {remainder : List Statement}
    (splits : Splits statements block remainder) : split statements = (block, remainder) := by
  obtain ⟨sound, whole, stuck⟩ := splits
  rw [← whole, split, Layers.readAppend sound]
  cases remainder with
  | nil => rw [Layers.read, Layers.push, appendDone, Layers.split]
  | cons statement rest =>
    rcases stuck with closes | ⟨opens, unmatched⟩
    · simp only [Layers.read, opensNotCloses closes, closes, Bool.false_eq_true, if_false, if_true,
        Layers.push, appendDone, Layers.split, Layers.flattenRead]
    · have inner := Layers.soundRead rest
      have flat := Layers.flattenRead rest
      cases same : Layers.read rest with
      | last other remainder =>
        simp only [Layers.read, opens, if_true, same, Layers.push, appendDone, Layers.split]
      | closed body close outer =>
        rw [same] at inner flat
        exact absurd flat.symm (unmatched body close outer.flatten inner.1 inner.2.1)

end Block
end CounterLang
