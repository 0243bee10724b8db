import Runbook.Yaml.Scalar

set_option autoImplicit false

/-! # The tokens of a text

Indentation and simple keys make the tokens depend on what was read before. Outside brackets a
deeper column opens a block and a shallower one closes it. A simple key is a node that turns out to
be a key only when its colon is met; its place among the tokens is remembered until then, and is
given up at the end of its line or after 1024 characters. As long as a place is remembered, the
token there is not settled, as others may still come before it; a fault of the text is met by
whoever asks for the first token that is not settled. -/

namespace Runbook.Yaml

/-- A node that may turn out to be a simple key. -/
structure KeySpot where
  /-- The number of tokens before it. -/
  tokens : Nat
  /-- Whether it has to be a key, as it stands at the indentation of its block. -/
  required : Bool
  index : Nat
  line : Nat
  column : Nat

/-- What is known after some tokens. The tokens are kept in reverse. -/
structure Scan where
  cursor : Cursor
  flow : Nat
  indent : Int
  indents : List Int
  allowKey : Bool
  spots : List (Nat × KeySpot)
  count : Nat
  tokens : List Token

namespace Scan

/-- Before the first token. -/
def start (cs : List Char) : Scan :=
  { cursor := Cursor.start cs, flow := 0, indent := -1, indents := [], allowKey := true
    spots := [], count := 0, tokens := [] }

/-- Adds a token. -/
def emit (s : Scan) (t : Token) : Scan := { s with tokens := t :: s.tokens, count := s.count + 1 }

/-- Adds a token at an earlier place. -/
def insertAt (s : Scan) (place : Nat) (t : Token) : Scan :=
  let (later, earlier) := s.tokens.splitAt (s.count - place)
  { s with tokens := later ++ t :: earlier, count := s.count + 1 }

/-- Moves to another place. -/
def moveTo (s : Scan) (c : Cursor) : Scan := { s with cursor := c }

/-- Sets whether a simple key may start here. -/
def allowing (s : Scan) (b : Bool) : Scan := { s with allowKey := b }

/-- Passes spaces, comments and line breaks. A line break outside brackets allows a key. -/
def toNext : Nat → Scan → Scan
  | 0, s => s
  | fuel + 1, s =>
    let c := s.cursor
    let c := if c.index = 0 && c.head.toNat = 0xFEFF then c.next else c
    let c := c.skipSpaces
    let c := if c.head = '#' then c.skipLine else c
    if isBreak c.head then
      toNext fuel { s with cursor := c.lineBreak.2, allowKey := s.allowKey || s.flow = 0 }
    else s.moveTo c

/-- Gives up the spots that can be no keys any more. -/
def dropStale (s : Scan) : Except Fault Scan :=
  let stale (k : KeySpot) : Bool :=
    k.line ≠ s.cursor.line || 1024 < s.cursor.index - k.index
  if s.spots.any fun (_, k) => stale k && k.required then malformed
  else .ok { s with spots := s.spots.filter fun (_, k) => !stale k }

/-- Gives up the spot of the current level. -/
def dropSpot (s : Scan) : Except Fault Scan :=
  if s.spots.any fun (level, k) => level = s.flow && k.required then malformed
  else .ok { s with spots := s.spots.filter fun (level, _) => level ≠ s.flow }

/-- Remembers the place of the node that comes next, if it may be a key. -/
def saveSpot (s : Scan) : Except Fault Scan := do
  if s.allowKey then
    let required := s.flow = 0 && s.indent = s.cursor.column
    let s ← s.dropSpot
    let spot : KeySpot :=
      ⟨s.count, required, s.cursor.index, s.cursor.line, s.cursor.column⟩
    return { s with spots := (s.flow, spot) :: s.spots }
  else return s

/-- Closes the blocks that are indented further than a column. -/
def closeBlocks (column : Int) : List Int → Scan → Scan
  | [], s => s
  | outer :: indents, s =>
    if column < s.indent then
      closeBlocks column indents ({ s with indent := outer, indents } |>.emit .blockEnd)
    else s

/-- Closes the blocks that are indented further than a column, unless inside brackets. -/
def unwind (s : Scan) (column : Int) : Scan :=
  if s.flow = 0 then closeBlocks column s.indents s else s

/-- Whether a column opens a block, and what is known inside it. -/
def addIndent (s : Scan) (column : Nat) : Bool × Scan :=
  if s.indent < column then
    (true, { s with indents := s.indent :: s.indents, indent := column })
  else (false, s)

/-- Opens a block at the current column, if it is deeper. -/
def openBlock (s : Scan) (t : Token) : Scan :=
  let (opened, s) := s.addIndent s.cursor.column
  if opened then s.emit t else s

/-! ## Directives, tags and names -/

/-- The decimal digits of a version. -/
def versionPart (c : Cursor) : Except Fault (Nat × Cursor) :=
  let (ds, c) := c.run Char.isDigit
  if ds = [] then malformed
  else match Numeral.limitedNatOf ds with
    | .ok n => .ok (n, c)
    | .error fault => .error (.numeral fault)

/-- A tag handle: exclamation marks around a name, or one of them alone. -/
def tagHandle (c : Cursor) : Except Fault (String × Cursor) :=
  if c.head ≠ '!' then malformed
  else if c.peek 1 = ' ' then .ok ("!", c.next)
  else
    let (name, after) := c.next.run isNameChar
    if after.head = '!' then .ok (String.ofList ('!' :: name ++ ['!']), after.next) else malformed

/-- The bytes written by some escapes with two digits each. -/
def uriEscapes : Nat → Cursor → Except Fault (Bytes × Cursor)
  | 0, c => .ok ([], c)
  | fuel + 1, c =>
    if c.head = '%' then
      let digits := c.next.rest.take 2
      if digits.length = 2 && digits.all isHexDigit then do
        let (more, c) ← uriEscapes fuel (c.skip 3)
        return (UInt8.ofNat (Cursor.hexNumber digits) :: more, c)
      else malformed
    else .ok ([], c)

/-- Whether a tag may hold a character. -/
def isUriChar (c : Char) : Bool := c.isAlphanum || c ∈ "-;/?:@&=+$,_.!~*'()[]%".toList

/-- The characters of a tag, which may be none. -/
def uriChars : Nat → Cursor → Except Fault (List Char × Cursor)
  | 0, c => .ok ([], c)
  | fuel + 1, c =>
    if c.head = '%' then do
      let (bytes, c) ← uriEscapes (c.rest.length + 1) c
      match Text.decode bytes with
      | .error _ => malformed
      | .ok s =>
        let (more, c) ← uriChars fuel c
        return (s.toList ++ more, c)
    else if isUriChar c.head then do
      let (more, after) ← uriChars fuel c.next
      return (c.head :: more, after)
    else .ok ([], c)

/-- The characters of a tag, of which there must be one. -/
def uri (c : Cursor) : Except Fault (String × Cursor) :=
  if isUriChar c.head then
    (uriChars (c.rest.length + 1) c).map fun (cs, c) => (String.ofList cs, c)
  else malformed

/-- A directive after its sign. -/
def directive (c : Cursor) : Except Fault (Token × Cursor) := do
  let (name, c) := c.run isNameChar
  if name = [] || !endsWord c.head then malformed
  else if name = ['Y', 'A', 'M', 'L'] then
    let (major, c) ← versionPart c.skipSpaces
    if c.head ≠ '.' then malformed
    else
      let (_, c) ← versionPart c.next
      if endsWord c.head then return (.version major, ← c.restOfLine) else malformed
  else if name = ['T', 'A', 'G'] then
    let (handle, c) ← tagHandle c.skipSpaces
    if c.head ≠ ' ' then malformed
    else
      let (lead, c) ← uri c.skipSpaces
      if endsWord c.head then return (.tagHandle handle lead, ← c.restOfLine) else malformed
  else return (.directive, ← c.skipLine.restOfLine)

/-- The name of an anchor or alias after its indicator. -/
def name (c : Cursor) : Except Fault (String × Cursor) :=
  let (cs, c) := c.run isNameChar
  if cs ≠ [] && (isSeparator c.head || c.head ∈ ['?', ':', ',', ']', '\x7d', '%', '@', '\x60']) then
    .ok (String.ofList cs, c)
  else malformed

/-- A tag. -/
def tag (c : Cursor) : Except Fault (Token × Cursor) := do
  let second := c.peek 1
  let (token, c) ←
    if second = '<' then do
      let (suffix, c) ← uri (c.skip 2)
      if c.head = '>' then pure (Token.tag none suffix, c.next) else malformed
    else if isSeparator second then pure (Token.tag none "!", c.next)
    else do
      let word := c.next.rest.takeWhile (!endsWord ·)
      let (handle, c) ← if '!' ∈ word then tagHandle c else pure ("!", c.next)
      let (suffix, c) ← uri c
      pure (Token.tag (some handle) suffix, c)
  if endsWord c.head then return (token, c) else malformed

/-! ## One token -/

/-- Adds a token that takes some characters. -/
def take (s : Scan) (n : Nat) (t : Token) : Scan := (s.moveTo (s.cursor.skip n)).emit t

/-- A mark that starts or ends a document. -/
def documentMark (s : Scan) (t : Token) : Except Fault Scan := do
  return ((← (s.unwind (-1)).dropSpot).allowing false).take 3 t

/-- An opening bracket. -/
def openFlow (s : Scan) (t : Token) : Except Fault Scan := do
  let s ← s.saveSpot
  return ({ s with flow := s.flow + 1, allowKey := true }).take 1 t

/-- A closing bracket. -/
def closeFlow (s : Scan) (t : Token) : Except Fault Scan := do
  if s.flow = 0 then malformed
  else
    let s ← s.dropSpot
    return ({ s with flow := s.flow - 1, allowKey := false }).take 1 t

/-- The hyphen of a block sequence. -/
def blockEntry (s : Scan) : Except Fault Scan := do
  if s.flow = 0 && !s.allowKey then malformed
  else
    let s := if s.flow = 0 then s.openBlock .blockSequenceStart else s
    return (← (s.allowing true).dropSpot).take 1 .blockEntry

/-- The question mark of a key. -/
def explicitKey (s : Scan) : Except Fault Scan := do
  if s.flow = 0 && !s.allowKey then malformed
  else
    let s := if s.flow = 0 then s.openBlock .blockMappingStart else s
    return (← (s.allowing (s.flow = 0)).dropSpot).take 1 .key

/-- The colon of a value. If a spot is remembered at this level, then its node was a key. -/
def value (s : Scan) : Except Fault Scan := do
  match s.spots.find? fun (level, _) => level = s.flow with
  | some (_, spot) =>
    let s := { s with spots := s.spots.filter fun (level, _) => level ≠ s.flow }
    let s := s.insertAt spot.tokens .key
    let (opened, s) := if s.flow = 0 then s.addIndent spot.column else (false, s)
    let s := if opened then s.insertAt spot.tokens .blockMappingStart else s
    return (s.allowing false).take 1 .value
  | none =>
    if s.flow = 0 && !s.allowKey then malformed
    else
      let s := if s.flow = 0 then s.openBlock .blockMappingStart else s
      return (← (s.allowing (s.flow = 0)).dropSpot).take 1 .value

/-- A node that may be a simple key and after which none can start. -/
def node (s : Scan) (read : Cursor → Except Fault (Token × Cursor)) : Except Fault Scan := do
  let s ← s.saveSpot
  let (t, c) ← read s.cursor
  return ((s.allowing false).moveTo c).emit t

/-- A block scalar. -/
def blockScalar (s : Scan) (fold : Bool) : Except Fault Scan := do
  let s ← (s.allowing true).dropSpot
  let (text, c) ← s.cursor.next.block fold s.indent
  return (s.moveTo c).emit (.scalar (String.ofList text) false)

/-- A plain scalar. After one that ends at the start of a line a key may start. -/
def plainScalar (s : Scan) : Except Fault Scan := do
  let s ← s.saveSpot
  let c := s.cursor
  let (text, c, ended) := c.plain (s.flow ≠ 0) (s.indent + 1) [] false (c.rest.length + 1)
  return ((s.allowing ended).moveTo c).emit (.scalar (String.ofList text) true)

/-- Whether a plain scalar starts here. -/
def startsPlain (s : Scan) : Bool :=
  let ch := s.cursor.head
  let indicator := ch ∈ "-?:,[]\x7b\x7d#&*!|>'\"%@\x60".toList
  (!isSeparator ch && !indicator)
    || (!isSeparator (s.cursor.peek 1) && (ch = '-' || (s.flow = 0 && (ch = '?' || ch = ':'))))

/-- The end of the text. -/
def finish (s : Scan) : Except Fault Scan := do
  return ((← (s.unwind (-1)).dropSpot).allowing false).emit .streamEnd

/-- Reads one token that starts at the current place. -/
def dispatch (s : Scan) : Except Fault Scan :=
  let c := s.cursor
  let ch := c.head
  let separated := isSeparator (c.peek 1)
  if ch = '%' && c.column = 0 then do
    let s ← (s.unwind (-1)).dropSpot
    let (t, c) ← directive c.next
    return ((s.allowing false).moveTo c).emit t
  else if c.column = 0 && c.atMark ['-', '-', '-'] then s.documentMark .documentStart
  else if c.column = 0 && c.atMark ['.', '.', '.'] then s.documentMark .documentEnd
  else if ch = '[' then s.openFlow .flowSequenceStart
  else if ch = '\x7b' then s.openFlow .flowMappingStart
  else if ch = ']' then s.closeFlow .flowSequenceEnd
  else if ch = '\x7d' then s.closeFlow .flowMappingEnd
  else if ch = ',' then do return (← (s.allowing true).dropSpot).take 1 .flowEntry
  else if ch = '-' && separated then s.blockEntry
  else if ch = '?' && (s.flow ≠ 0 || separated) then s.explicitKey
  else if ch = ':' && (s.flow ≠ 0 || separated) then s.value
  else if ch = '*' then
    s.node fun c => (name c.next).map fun (n, c) => (.alias n, c)
  else if ch = '&' then
    s.node fun c => (name c.next).map fun (n, c) => (.anchor n, c)
  else if ch = '!' then s.node tag
  else if ch = '|' && s.flow = 0 then s.blockScalar false
  else if ch = '>' && s.flow = 0 then s.blockScalar true
  else if ch = '\'' || ch = '"' then
    s.node fun c => (c.next.quotedRest (ch = '"') (c.rest.length + 1)).map fun (cs, c) =>
      (.scalar (String.ofList cs) false, c)
  else if s.startsPlain then s.plainScalar
  else malformed

/-- How many tokens are settled: those before the first place that is remembered, or all. -/
def settled (s : Scan) : Nat := s.spots.foldl (fun n (_, k) => min n k.tokens) s.count

/-- The tokens of a text that breaks off: those that are settled, and the fault. -/
def broken (s : Scan) (fault : Fault) : List Token :=
  (s.tokens.drop (s.count - s.settled)).reverse ++ [.broken fault]

/-- Reads what comes next: one token and the marks of indentation before it. -/
def step (s : Scan) : Except Fault Scan := do
  let s ← (s.toNext (s.cursor.rest.length + 1)).dropStale
  let s := s.unwind s.cursor.column
  if s.cursor.rest = [] then s.finish else (← s.dispatch).dropStale

/-- Reads the tokens up to the end or the first fault. -/
def run : Nat → Scan → List Token
  | 0, s => s.tokens.reverse
  | fuel + 1, s =>
    match s.step with
    | .error fault => s.broken fault
    | .ok next =>
      if next.tokens.head? = some .streamEnd then next.tokens.reverse else run fuel next

end Scan

/-- The tokens of a text. A character that no document may hold is a fault of the whole text. -/
def Token.ofText (text : String) : List Token :=
  let cs := text.toList
  if cs.all isAllowed then (Scan.start cs).run (cs.length + 1) else [.broken .malformed]

end Runbook.Yaml
