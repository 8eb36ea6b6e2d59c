import LogDensity.Decimal.Scaled

/-!
# JSON documents

The grammar of RFC 8259, strictly: no text around the document, no control characters in strings,
surrogates only in pairs, at most 127 containers inside one another, and no number that overflows
binary64. Numbers are read with the precision of one word (`Decimal.scaled?`).

Characters are first grouped into tokens by one pass of `Lexer.step`; one pass of `Builder.step`
over the tokens, with a stack of the containers that are still open, then builds the document.
-/

namespace LogDensity

/-- A JSON document; members of objects are in the order of the text. -/
inductive Json
  | null
  | bool (b : Bool)
  | number (x : Float)
  | string (s : String)
  | array (items : List Json)
  | object (members : List (String × Json))

namespace Json

/-- The greatest number of containers inside one another. -/
def maxDepth : Nat := 127

/-- The tokens of the grammar. -/
inductive Token
  | openArray
  | closeArray
  | openObject
  | closeObject
  | comma
  | colon
  | string (s : String)
  | scalar (v : Json)

/-! ## Numbers -/

/-- Whether the characters begin as a JSON number does: no superfluous zeros, and digits on both
sides of the point. -/
def hasNumberShape (cs : List Char) : Bool :=
  let whole := cs.takeWhile Char.isDigit
  let rest := cs.dropWhile Char.isDigit
  (whole == ['0'] || (whole != [] && whole.head? != some '0')) &&
    match rest with
    | '.' :: ds => ds.takeWhile Char.isDigit != []
    | _ => true

/-- Reads a number; one that overflows is none. -/
def number? (cs : List Char) : Option Float :=
  let (negative, ds) := match cs with
    | '-' :: ds => (true, ds)
    | ds => (false, ds)
  if hasNumberShape ds then do
    let x ← (Decimal.ofNumeral (← Numeral.ofList? ds)).scaled?
    some (if negative then -x else x)
  else none

/-! ## Tokens -/

/-- What the lexer is in the middle of; collected characters are in reverse. -/
inductive Lexer.Mode
  | between
  | text (rev : List Char)
  | escape (rev : List Char)
  /-- Four hexadecimal digits, of which `left` are still to come. A first surrogate may wait. -/
  | unicode (rev : List Char) (high : Option Nat) (left value : Nat)
  /-- The backslash, and then the `u`, of a second surrogate. -/
  | pairBackslash (rev : List Char) (high : Nat)
  | pairMark (rev : List Char) (high : Nat)
  | digits (rev : List Char)
  | word (rev : List Char)

/-- Tokens so far, in reverse, and what is in progress. -/
structure Lexer where
  tokens : List Token := []
  mode : Lexer.Mode := .between

namespace Lexer

/-- The value of a hexadecimal digit. -/
def hexDigit? (c : Char) : Option Nat :=
  if '0' ≤ c ∧ c ≤ '9' then some (c.toNat - '0'.toNat)
  else if 'a' ≤ c ∧ c ≤ 'f' then some (c.toNat - 'a'.toNat + 10)
  else if 'A' ≤ c ∧ c ≤ 'F' then some (c.toNat - 'A'.toNat + 10)
  else none

/-- The character that a short escape stands for. -/
def escaped? : Char → Option Char
  | '"' => some '"'
  | '\\' => some '\\'
  | '/' => some '/'
  | 'b' => some '\x08'
  | 'f' => some '\x0c'
  | 'n' => some '\n'
  | 'r' => some '\r'
  | 't' => some '\t'
  | _ => none

/-- Whether a code unit is the first of a pair. -/
def isHigh (n : Nat) : Bool :=
  0xD800 ≤ n && n < 0xDC00

/-- Whether a code unit is the second of a pair. -/
def isLow (n : Nat) : Bool :=
  0xDC00 ≤ n && n < 0xE000

/-- What a complete escape of four digits makes of the text. -/
def afterUnicode (rev : List Char) (high : Option Nat) (n : Nat) : Option Mode :=
  match high with
  | some h =>
    if isLow n then
      some (.text (Char.ofNat (0x10000 + (h - 0xD800) * 0x400 + (n - 0xDC00)) :: rev))
    else none
  | none =>
    if isLow n then none
    else if isHigh n then some (.pairBackslash rev n)
    else some (.text (Char.ofNat n :: rev))

/-- The token of a word. -/
def word? (cs : List Char) : Option Token :=
  if cs = "null".toList then some (.scalar .null)
  else if cs = "true".toList then some (.scalar (.bool true))
  else if cs = "false".toList then some (.scalar (.bool false))
  else none

/-- The characters that numbers are made of. -/
def isNumberChar (c : Char) : Bool :=
  c.isDigit || c == '-' || c == '+' || c == '.' || c == 'e' || c == 'E'

/-- Begins with a character between two tokens. -/
def start (tokens : List Token) (c : Char) : Option Lexer :=
  if c = ' ' ∨ c = '\n' ∨ c = '\t' ∨ c = '\r' then some ⟨tokens, .between⟩
  else if c = '[' then some ⟨.openArray :: tokens, .between⟩
  else if c = ']' then some ⟨.closeArray :: tokens, .between⟩
  else if c = '\x7b' then some ⟨.openObject :: tokens, .between⟩
  else if c = '\x7d' then some ⟨.closeObject :: tokens, .between⟩
  else if c = ',' then some ⟨.comma :: tokens, .between⟩
  else if c = ':' then some ⟨.colon :: tokens, .between⟩
  else if c = '"' then some ⟨tokens, .text []⟩
  else if c = '-' ∨ c.isDigit then some ⟨tokens, .digits [c]⟩
  else if c.isLower then some ⟨tokens, .word [c]⟩
  else none

/-- Takes one character. -/
def step (l : Lexer) (c : Char) : Option Lexer :=
  match l.mode with
  | .between => start l.tokens c
  | .text rev =>
    if c = '"' then some ⟨.string (String.ofList rev.reverse) :: l.tokens, .between⟩
    else if c = '\\' then some ⟨l.tokens, .escape rev⟩
    else if c.toNat < 0x20 then none
    else some ⟨l.tokens, .text (c :: rev)⟩
  | .escape rev =>
    if c = 'u' then some ⟨l.tokens, .unicode rev none 4 0⟩
    else (escaped? c).map fun d => ⟨l.tokens, .text (d :: rev)⟩
  | .unicode rev high left value => do
    let value := 16 * value + (← hexDigit? c)
    if left = 1 then (afterUnicode rev high value).map fun m => ⟨l.tokens, m⟩
    else some ⟨l.tokens, .unicode rev high (left - 1) value⟩
  | .pairBackslash rev high => if c = '\\' then some ⟨l.tokens, .pairMark rev high⟩ else none
  | .pairMark rev high => if c = 'u' then some ⟨l.tokens, .unicode rev (some high) 4 0⟩ else none
  | .digits rev =>
    if isNumberChar c then some ⟨l.tokens, .digits (c :: rev)⟩
    else do
      let x ← number? rev.reverse
      start (.scalar (.number x) :: l.tokens) c
  | .word rev =>
    if c.isLower then some ⟨l.tokens, .word (c :: rev)⟩
    else do
      let t ← word? rev.reverse
      start (t :: l.tokens) c

/-- The tokens at the end of the text. -/
def finish (l : Lexer) : Option (List Token) :=
  match l.mode with
  | .between => some l.tokens.reverse
  | .digits rev => do
    let x ← number? rev.reverse
    some (Token.scalar (.number x) :: l.tokens).reverse
  | .word rev => do
    let t ← word? rev.reverse
    some (t :: l.tokens).reverse
  | _ => none

end Lexer

/-- The tokens of a text. -/
def tokens? (s : String) : Option (List Token) :=
  (s.toList.foldlM Lexer.step {}).bind Lexer.finish

/-! ## Documents -/

/-- An open container, with what it holds so far in reverse, and the name of the member whose value
comes next. -/
inductive Frame
  | array (rev : List Json)
  | object (rev : List (String × Json)) (name : String)

/-- What may come next. -/
inductive Expected
  | value
  /-- The first item of an array, or its end. -/
  | item
  /-- The first member of an object, or its end. -/
  | member
  /-- The name of a further member. -/
  | name
  | colon
  /-- A comma, or the end of the container. -/
  | separator
  | nothing (v : Json)

/-- The containers that are open, innermost first, and what may come next. -/
structure Builder where
  stack : List Frame := []
  expected : Expected := .value

namespace Builder

/-- Puts a complete value into the innermost container. -/
def deliver (v : Json) : List Frame → Builder
  | [] => ⟨[], .nothing v⟩
  | .array rev :: stack => ⟨.array (v :: rev) :: stack, .separator⟩
  | .object rev name :: stack => ⟨.object ((name, v) :: rev) name :: stack, .separator⟩

/-- Opens a container. -/
def enter (f : Frame) (e : Expected) (stack : List Frame) : Option Builder :=
  if stack.length < maxDepth then some ⟨f :: stack, e⟩ else none

/-- Takes a token where a value has to come. -/
def value (stack : List Frame) : Token → Option Builder
  | .scalar v => some (deliver v stack)
  | .string s => some (deliver (.string s) stack)
  | .openArray => enter (.array []) .item stack
  | .openObject => enter (.object [] "") .member stack
  | _ => none

/-- Takes a token where the name of a member has to come. -/
def name : List Frame → Token → Option Builder
  | .object rev _ :: stack, .string s => some ⟨.object rev s :: stack, .colon⟩
  | _, _ => none

/-- Closes the innermost container. -/
def close : List Frame → Token → Option Builder
  | .array rev :: stack, .closeArray => some (deliver (.array rev.reverse) stack)
  | .object rev _ :: stack, .closeObject => some (deliver (.object rev.reverse) stack)
  | _, _ => none

/-- Takes one token. -/
def step (b : Builder) (t : Token) : Option Builder :=
  match b.expected with
  | .value => value b.stack t
  | .item => (value b.stack t).or (close b.stack t)
  | .member => (name b.stack t).or (close b.stack t)
  | .name => name b.stack t
  | .colon =>
    match t with
    | .colon => some ⟨b.stack, .value⟩
    | _ => none
  | .separator =>
    match t, b.stack with
    | .comma, .array _ :: _ => some ⟨b.stack, .value⟩
    | .comma, .object _ _ :: _ => some ⟨b.stack, .name⟩
    | t, stack => close stack t
  | .nothing _ => none

/-- The document, if it is complete. -/
def finish (b : Builder) : Option Json :=
  match b.expected with
  | .nothing v => some v
  | _ => none

end Builder

/-- Reads a document. -/
def ofString? (s : String) : Option Json := do
  let ts ← tokens? s
  (← ts.foldlM Builder.step {}).finish

end Json

end LogDensity
