/-
The grammar of queries.

    query    := ORDER BY order | or [ORDER BY order]
    order    := WORD [ASC | DESC] (',' WORD [ASC | DESC])*
    or       := and (OR and)*
    and      := adjacent (AND adjacent)*
    adjacent := unary unary*
    unary    := NOT unary | primary
    primary  := '(' or ')' | WORD op value | WORD [NOT] IN list | value
    list     := '(' value (',' value)* ')'

A parser takes tokens from the front of a list and gives what it read with the tokens that
are left, or what it expected with the tokens at which it stopped.  The three levels of
connectives differ only in what makes them go on, so they are one function, `chain`; and the
only recursion of the grammar through itself is that of parentheses, whose depth the number
of tokens bounds.
-/
import DocIndex.Query.Token.Lexer
import DocIndex.Query.Tree

namespace DocIndex.Query

namespace Parser

/-- The tokens that are still to be read. -/
abbrev Tokens := List PlacedToken

/-- What was read, and the tokens left over. -/
abbrev Read (α : Type) := α × Tokens

/-- What a parser expected, and the tokens from the place where it stopped. -/
structure Failure where
  expected : Expected
  rest : Tokens

/-- A parser of queries. -/
abbrev TreeParser := Tokens → Except Failure (Read Tree)

/-- The tokens after one that is expected here. -/
def eat (token : Token) (expected : Expected) (tokens : Tokens) :
    Except Failure (Tokens) :=
  match tokens with
  | t :: rest => if t.token = token then .ok rest else .error ⟨expected, tokens⟩
  | [] => .error ⟨expected, tokens⟩

/-- The tokens after one that may stand here. -/
def skip? (token : Token) : Tokens → Option (Tokens)
  | t :: rest => if t.token = token then some rest else none
  | [] => none

/-- The value of a word: a pattern if it has a wildcard, and anything at all for a lone star. -/
def wordValue (text : String) : Value :=
  if text == "*" then .everything
  else if text.toList.contains '*' || text.toList.contains '?' then .wildcard text
  else .word text

/-- The value that a token stands for. -/
def valueOf? : Token → Option Value
  | .word text => some (wordValue text)
  | .quoted text => some (.phrase text)
  | .integer n => some (.integer n)
  | .number x => some (.number x)
  | .time m precision => some (.time m precision)
  | .relative t => some (.relative t)
  | _ => none

/-- Parses a value. -/
def value (tokens : Tokens) : Except Failure (Read Value) :=
  match tokens with
  | [] => .error ⟨.value, tokens⟩
  | t :: rest =>
    match valueOf? t.token with
    | some v => .ok (v, rest)
    | none => .error ⟨.value, tokens⟩

/-- Parses the values of a list after its opening parenthesis, at most as many as the fuel. -/
def values : Nat → Tokens → Except Failure (Read (List Value))
  | 0, tokens => .error ⟨.value, tokens⟩
  | fuel + 1, tokens => do
    let (first, rest) ← value tokens
    match skip? .comma rest with
    | some rest => do
      let (others, rest) ← values fuel rest
      return (first :: others, rest)
    | none => return ([first], ← eat .closeParen .closing rest)

/-- Parses a list of values in parentheses. -/
def list (tokens : Tokens) : Except Failure (Read Value) := do
  let rest ← eat .openParen .opening tokens
  let (found, rest) ← values rest.length rest
  return (.flatList found, rest)

/-- Parses a value to be compared with a field. -/
def comparison (field : String) (op : Operator) (tokens : Tokens) : Except Failure (Read Tree) := do
  let (v, rest) ← value tokens
  return (.compare field op v, rest)

/-- Parses a list that a field is looked up in. -/
def membership (field : String) (op : Operator) (tokens : Tokens) : Except Failure (Read Tree) := do
  let (v, rest) ← list tokens
  return (.compare field op v, rest)

/-- Parses a query in parentheses after the opening one, a clause, or a value. -/
def primary (group : TreeParser) (tokens : Tokens) : Except Failure (Read Tree) :=
  match tokens with
  | ⟨.openParen, _⟩ :: rest => do
    let (inner, rest) ← group rest
    return (inner, ← eat .closeParen .closing rest)
  | ⟨.word field, _⟩ :: ⟨.operator op, _⟩ :: rest => comparison field op rest
  | ⟨.word field, _⟩ :: ⟨.colon, _⟩ :: rest => comparison field .equals rest
  | ⟨.word field, _⟩ :: ⟨.inWord, _⟩ :: rest => membership field .oneOf rest
  | ⟨.word field, _⟩ :: ⟨.notWord, _⟩ :: ⟨.inWord, _⟩ :: rest => membership field .noneOf rest
  | _ => do
    let (v, rest) ← value tokens
    return (.anywhere v, rest)

/-- Parses any number of negations and what they negate. -/
def unary (group : TreeParser) (tokens : Tokens) : Except Failure (Read Tree) :=
  match tokens with
  | ⟨.notWord, _⟩ :: rest => do
    let (inner, rest) ← unary group rest
    return (.negated inner [], rest)
  | _ => primary group tokens

/-- Parses one or more items as long as `next?` finds that another follows. -/
def chain (item : TreeParser)
    (next? : Tokens → Option (Tokens)) :
    Nat → Tokens → Except Failure (Read (List Tree))
  | 0, tokens => .error ⟨.value, tokens⟩
  | fuel + 1, tokens => do
    let (first, rest) ← item tokens
    match next? rest with
    | some rest => do
      let (others, rest) ← chain item next? fuel rest
      return (first :: others, rest)
    | none => return ([first], rest)

/-- A single tree, or the node that holds several. -/
def collect (node : List Tree → Tags → Tree) : List Tree → Tree
  | [tree] => tree
  | trees => node trees []

/-- Parses a level of the grammar: a chain of items, collected under one node. -/
def level (node : List Tree → Tags → Tree) (next? : Tokens → Option (Tokens))
    (item : TreeParser) (tokens : Tokens) : Except Failure (Read Tree) := do
  let (trees, rest) ← chain item next? tokens.length tokens
  return (collect node trees, rest)

/-- Whether a token can start another adjacent query. -/
def startsUnary : Token → Bool
  | .notWord | .openParen | .word _ | .quoted _ | .integer _ | .number _ | .time _ _
  | .relative _ => true
  | _ => false

/-- Adjacent queries have nothing between them. -/
def nextAdjacent? : Tokens → Option (Tokens)
  | [] => none
  | t :: rest => if startsUnary t.token then some (t :: rest) else none

/-- Parses a disjunction with parentheses nested at most `depth` deep. -/
def disjunction : Nat → TreeParser
  | 0, tokens => .error ⟨.value, tokens⟩
  | depth + 1, tokens =>
    level .any (skip? .orWord)
      (level .all (skip? .andWord)
        (level .adjacent nextAdjacent? (unary (disjunction depth)))) tokens

/-- Parses the fields to sort by, at most as many as the fuel. -/
def sortKeys : Nat → Tokens → Except Failure (Read (List SortKey))
  | 0, tokens => .error ⟨.sortField, tokens⟩
  | fuel + 1, tokens =>
    match tokens with
    | ⟨.word field, _⟩ :: rest => do
      let (descending, rest) :=
        match skip? .descWord rest with
        | some rest => (true, rest)
        | none => (false, (skip? .ascWord rest).getD rest)
      match skip? .comma rest with
      | some rest => do
        let (others, rest) ← sortKeys fuel rest
        return (⟨field, descending⟩ :: others, rest)
      | none => return ([⟨field, descending⟩], rest)
    | _ => .error ⟨.sortField, tokens⟩

/-- Parses an optional order after a query. -/
def ordering (tree : Tree) (tokens : Tokens) : Except Failure (Read Tree) :=
  match skip? .orderWord tokens with
  | none => .ok (tree, tokens)
  | some rest => do
    let rest ← eat .byWord .byKeyword rest
    let (keys, rest) ← sortKeys (rest.length + 1) rest
    return (.sorted tree keys [], rest)

/-- Parses a query; an order alone sorts every document. -/
def query (tokens : Tokens) : Except Failure Tree := do
  let (tree, rest) ←
    if (skip? .orderWord tokens).isSome then .ok (.everything, tokens)
    else disjunction tokens.length tokens
  let (tree, rest) ← ordering tree rest
  if rest.isEmpty then return tree else .error ⟨.endOfQuery, rest⟩

end Parser

/-- Where a failure stands and what it says, for a text with so many characters. -/
def Parser.Failure.toSyntaxError (failure : Parser.Failure) (length : Nat) : SyntaxError :=
  match failure.rest with
  | [] => ⟨length, .unexpected failure.expected none⟩
  | t :: _ => ⟨t.position, .unexpected failure.expected (some t.token)⟩

/-- The tree of a query's tokens, for a text with so many characters. -/
def Tree.ofTokens (tokens : List PlacedToken) (length : Nat) : Except SyntaxError Tree :=
  if tokens.isEmpty then .error ⟨0, .emptyQuery⟩
  else (Parser.query tokens).mapError fun failure => failure.toSyntaxError length

/-- The tree that a text denotes. -/
def Tree.parse (text : String) : Except SyntaxError Tree := do
  Tree.ofTokens (← tokenize text) text.length

end DocIndex.Query
