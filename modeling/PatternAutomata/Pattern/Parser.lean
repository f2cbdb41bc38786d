import PatternAutomata.Pattern
import PatternAutomata.Token.Lexer

/-!
# Parsing patterns

A pattern is parsed by recursive descent, with one function for each kind of phrase.  Chains of
factors and of alternatives are read in loops; only a group calls for another descent, and a counter
of the groups that are open bounds how far it goes.

Bars bind to the right and juxtaposition to the left: `a|b|c` is `a|(b|c)` and `abc` is `(ab)c`.
-/

namespace PatternAutomata.Pattern

/-- A parser on its way: the tokens that it has not taken yet, and how many groups are open. -/
structure Cursor where
  tokens : List PlacedToken
  depth : Nat

namespace Cursor

def peek (cursor : Cursor) : Option Token := cursor.tokens.head?.map (·.token)

def next (cursor : Cursor) : Cursor := { cursor with tokens := cursor.tokens.tail }

/-- The position of the next token, or the given one if none is left. -/
def positionOr (stop : Nat) (cursor : Cursor) : Nat :=
  (cursor.tokens.head?.map (·.position)).getD stop

theorem length_next_le (cursor : Cursor) : cursor.next.tokens.length ≤ cursor.tokens.length :=
  List.length_tail ▸ Nat.sub_le ..

end Cursor

/-- A tree that has been read, and where the parser is then.  It has taken tokens, and has closed as
many groups as it has opened. -/
structure Reading (before : Cursor) where
  tree : Pattern
  after : Cursor
  shorter : after.tokens.length < before.tokens.length
  depth_eq : after.depth = before.depth

namespace Reading

variable {before : Cursor}

/-- The tree that is made of a reading and of the one that follows it. -/
def extend {next : Cursor} (reading : Reading before) (following : Reading next) (tree : Pattern)
    (behind : next.tokens.length ≤ reading.after.tokens.length)
    (level : next.depth = reading.after.depth) : Reading before where
  tree := tree
  after := following.after
  shorter :=
    Nat.lt_of_lt_of_le following.shorter (Nat.le_trans behind (Nat.le_of_lt reading.shorter))
  depth_eq := following.depth_eq.trans (level.trans reading.depth_eq)

/-- The group whose parenthesis stands before the reading, up to the parenthesis behind it. -/
def enclose {position depth : Nat} {rest : List PlacedToken}
    (inner : Reading ⟨rest, depth + 1⟩) :
    Reading ⟨⟨position, .openGroup⟩ :: rest, depth⟩ where
  tree := inner.tree
  after := ⟨inner.after.next.tokens, inner.after.depth - 1⟩
  shorter := Nat.lt_succ_of_lt (Nat.lt_of_le_of_lt inner.after.length_next_le inner.shorter)
  depth_eq := by rw [inner.depth_eq, Nat.add_sub_cancel]

end Reading

mutual

def parseAtom (stop : Nat) (cursor : Cursor) : Except SyntaxError (Reading cursor) :=
  match cursor with
  | ⟨[], _⟩ => .error ⟨.unexpectedEnd, stop⟩
  | ⟨⟨position, token⟩ :: rest, depth⟩ =>
    match token with
    | .literal c => .ok ⟨.literal c, ⟨rest, depth⟩, Nat.lt_succ_self _, rfl⟩
    | .charClass cls => .ok ⟨.charClass cls, ⟨rest, depth⟩, Nat.lt_succ_self _, rfl⟩
    | .openGroup =>
      if depth = maxGroupDepth then .error ⟨.nestingTooDeep, position⟩
      else
        match Cursor.peek ⟨rest, depth⟩ with
        | some .closeGroup => .error ⟨.emptyGroup, position⟩
        | none => .error ⟨.unclosedGroup, position⟩
        | some _ => do
          let inner ← parseAlternatives stop ⟨rest, depth + 1⟩
          match inner.after.peek with
          | some .closeGroup => return inner.enclose
          | _ => .error ⟨.unclosedGroup, position⟩
    | .quantifier _ => .error ⟨.nothingToRepeat, position⟩
    | .pipe => .error ⟨.emptyAlternative, position⟩
    | .closeGroup => .error ⟨.strayClosing, position⟩
termination_by 5 * cursor.tokens.length
decreasing_by
  rw [List.length_cons]
  omega

def parseFactor (stop : Nat) (cursor : Cursor) : Except SyntaxError (Reading cursor) := do
  let atom ← parseAtom stop cursor
  match atom.after.peek with
  | some (.quantifier mark) =>
    return {
      tree := .quantified mark atom.tree
      after := atom.after.next
      shorter := Nat.lt_of_le_of_lt atom.after.length_next_le atom.shorter
      depth_eq := atom.depth_eq }
  | _ => return atom
termination_by 5 * cursor.tokens.length + 1

/-- Reads factors until a bar or the end of a group stops it. -/
def continueProduct {before : Cursor} (stop : Nat) (left : Reading before) :
    Except SyntaxError (Reading before) :=
  match left.after.peek with
  | none | some .pipe | some .closeGroup => return left
  | some _ => do
    let right ← parseFactor stop left.after
    continueProduct stop (left.extend right (.concat left.tree right.tree) (Nat.le_refl _) rfl)
termination_by 5 * left.after.tokens.length + 2
decreasing_by
  · omega
  · have := right.shorter
    simp only [Reading.extend]
    omega

def parseProduct (stop : Nat) (cursor : Cursor) : Except SyntaxError (Reading cursor) := do
  let first ← parseFactor stop cursor
  continueProduct stop first
termination_by 5 * cursor.tokens.length + 3
decreasing_by
  · omega
  · have := first.shorter
    omega

/-- Reads alternatives as long as there are bars; those before the last are given, the latest
first. -/
def continueAlternatives {before : Cursor} (stop : Nat) (lefts : List Pattern)
    (last : Reading before) : Except SyntaxError (Reading before) :=
  match last.after.peek with
  | some .pipe =>
    match last.after.next.peek with
    | none | some .closeGroup => .error ⟨.emptyAlternative, last.after.next.positionOr stop⟩
    | some _ => do
      let next ← parseProduct stop last.after.next
      continueAlternatives stop (last.tree :: lefts)
        (last.extend next next.tree last.after.length_next_le rfl)
  | _ => return { last with tree := lefts.foldl (fun right left => .union left right) last.tree }
termination_by 5 * last.after.tokens.length + 4
decreasing_by
  · have := last.after.length_next_le
    omega
  · have := last.after.length_next_le
    have := next.shorter
    simp only [Reading.extend]
    omega

def parseAlternatives (stop : Nat) (cursor : Cursor) : Except SyntaxError (Reading cursor) := do
  let first ← parseProduct stop cursor
  continueAlternatives stop [] first
termination_by 5 * cursor.tokens.length + 4
decreasing_by
  · omega
  · have := first.shorter
    omega

end

/-- The tree of a sequence of tokens. -/
def ofTokens (sequence : TokenSequence) : Except SyntaxError Pattern := do
  let reading ← parseAlternatives sequence.stop ⟨sequence.tokens, 0⟩
  match reading.after.tokens with
  | [] => return reading.tree
  | ⟨position, _⟩ :: _ => .error ⟨.strayClosing, position⟩

/-- The tree that the text of a pattern denotes, or what is wrong with the text. -/
def parse (text : List Char) : Except SyntaxError Pattern := do
  let sequence ← TokenSequence.read text
  ofTokens sequence

end PatternAutomata.Pattern
