import Runbook.Text.Utf8
import Runbook.Yaml.Cursor
import Runbook.Yaml.Token

set_option autoImplicit false

/-! # Reading scalars

The four ways to write a scalar: plain, between single or double quotes, and as a block of lines.
Each reader starts at the first character of the scalar and yields its text and the place after it.
A line break inside folds to a space, unless more breaks follow, which then stand for themselves. -/

namespace Runbook.Yaml

/-- The violation that all readers report. -/
def malformed {α : Type} : Except Fault α := .error .malformed

namespace Cursor

/-! ## Folding -/

/-- Passes blank lines of a folded scalar and yields their breaks. Inside quotes tabs are blanks
    too; a document mark at the start of a line is no part of a scalar, and `none` says so. -/
def blankLines (inQuotes : Bool) : Nat → Cursor → Option (List Char × Cursor)
  | 0, c => some ([], c)
  | fuel + 1, c =>
    if c.atDocumentMark then none
    else
      let c := (c.run fun ch => ch = ' ' || (inQuotes && ch = '\t')).2
      if isBreak c.head then
        let (br, c) := c.lineBreak
        (blankLines inQuotes fuel c).map fun (brs, c) => (br ++ brs, c)
      else some ([], c)

/-- What a line break and the blank lines after it fold to. -/
def folded (br breaks : List Char) : List Char :=
  if br ≠ ['\n'] then br ++ breaks else if breaks = [] then [' '] else breaks

/-! ## Plain scalars -/

/-- How many characters of a plain scalar stand here before a blank, or before an indicator that
    ends the scalar. -/
def plainLength (inFlow : Bool) : List Char → Nat
  | [] => 0
  | ch :: rest =>
    let following := rest.headD endMark
    let ends := isSeparator ch
      || (ch = ':' && (isSeparator following
        || (inFlow && following ∈ [',', '[', ']', '\x7b', '\x7d'])))
      || (inFlow && ch ∈ [',', '?', '[', ']', '\x7b', '\x7d'])
    if ends then 0 else plainLength inFlow rest + 1

/-- Passes the blanks inside a plain scalar: what they fold to, the place after them, and whether a
    line was ended. -/
def plainBlanks (c : Cursor) : List Char × Cursor × Bool :=
  let (spaces, c) := c.run (· = ' ')
  if isBreak c.head then
    let (br, c) := c.lineBreak
    match c.blankLines false (c.rest.length + 1) with
    | none => ([], c, true)
    | some (breaks, c) => (folded br breaks, c, true)
  else (spaces, c, false)

/-- The text of a plain scalar, the place after it, and whether it ended at the start of a line. The
    lines of a block scalar have at least the given indentation. -/
def plain (inFlow : Bool) (indent : Int) (pending : List Char) (lineEnded : Bool) :
    Nat → Cursor → List Char × Cursor × Bool
  | 0, c => ([], c, lineEnded)
  | fuel + 1, c =>
    let length := plainLength inFlow c.rest
    if c.head = '#' || length = 0 then ([], c, lineEnded)
    else
      let word := c.rest.take length
      let (blanks, c, ended) := (c.skip length).plainBlanks
      if blanks = [] || c.head = '#' || (!inFlow && c.column < indent) then
        (pending ++ word, c, ended)
      else
        let (more, c, ended) := plain inFlow indent blanks ended fuel c
        (pending ++ word ++ more, c, ended)

/-! ## Quoted scalars -/

/-- The characters that an escape with one letter stands for. -/
def escapes : List (Char × Nat) :=
  [('0', 0), ('a', 7), ('b', 8), ('t', 9), ('\t', 9), ('n', 10), ('v', 11), ('f', 12), ('r', 13),
    ('e', 27), (' ', 32), ('"', 34), ('\\', 92), ('/', 47), ('N', 0x85), ('_', 0xA0),
    ('L', 0x2028), ('P', 0x2029)]

/-- How many digits an escape by number has. -/
def escapeWidth? (ch : Char) : Option Nat :=
  if ch = 'x' then some 2 else if ch = 'u' then some 4 else if ch = 'U' then some 8 else none

/-- The value of a hexadecimal digit. -/
def hexValue (c : Char) : Nat := (Numeral.digitValue? 16 c).getD 0

/-- The value of some hexadecimal digits. -/
def hexNumber (cs : List Char) : Nat := cs.foldl (fun n c => n * 16 + hexValue c) 0

/-- The character with a number, if there is one. Halves of surrogate pairs are none. -/
def charOf (n : Nat) : Except Fault Char :=
  if h : n.isValidChar then .ok (Char.ofNatAux n h)
  else if n < 0x110000 then .error .surrogate
  else if n < 2147483648 then .error .pastLastCodePoint
  else .error .codePointOverflow

/-- An escape after its backslash: what it stands for, and the place after it. -/
def escape (c : Cursor) : Except Fault (List Char × Cursor) :=
  let ch := c.head
  match escapes.find? (·.1 = ch) with
  | some (_, n) => .ok ([Char.ofNat n], c.next)
  | none =>
    match escapeWidth? ch with
    | some width =>
      let digits := c.next.rest.take width
      if digits.length = width && digits.all isHexDigit then
        (charOf (hexNumber digits)).map fun ch => ([ch], c.next.skip width)
      else malformed
    | none =>
      if isBreak ch then
        let c := c.lineBreak.2
        match c.blankLines true (c.rest.length + 1) with
        | some r => .ok r
        | none => malformed
      else malformed

/-- The blanks inside a quoted scalar: what they fold to, and the place after them. -/
def quotedBlanks (c : Cursor) : Except Fault (List Char × Cursor) :=
  let (spaces, c) := c.run fun ch => ch = ' ' || ch = '\t'
  if c.head = endMark then malformed
  else if isBreak c.head then
    let (br, c) := c.lineBreak
    match c.blankLines true (c.rest.length + 1) with
    | some (breaks, c) => .ok (folded br breaks, c)
    | none => malformed
  else .ok (spaces, c)

/-- The rest of a quoted scalar up to its closing quote, and the place after that. -/
def quotedRest (double : Bool) : Nat → Cursor → Except Fault (List Char × Cursor)
  | 0, _ => malformed
  | fuel + 1, c =>
    let ch := c.head
    let quote := if double then '"' else '\''
    if !double && ch = '\'' && c.peek 1 = '\'' then do
      let (more, c) ← quotedRest double fuel (c.skip 2)
      return ('\'' :: more, c)
    else if ch = quote then .ok ([], c.next)
    else if double && ch = '\\' then do
      let (shown, c) ← c.next.escape
      let (more, c) ← quotedRest double fuel c
      return (shown ++ more, c)
    else if isSeparator ch then do
      let (blanks, c) ← c.quotedBlanks
      let (more, c) ← quotedRest double fuel c
      return (blanks ++ more, c)
    else do
      let (more, c) ← quotedRest double fuel c.next
      return (ch :: more, c)

/-! ## Block scalars -/

/-- The head of a block scalar: whether it keeps its last breaks, and how far it is indented. -/
def blockHead (c : Cursor) : Except Fault (Option Bool × Option Nat × Cursor) :=
  let keep? (c : Cursor) : Option Bool × Cursor :=
    if c.head = '+' then (some true, c.next)
    else if c.head = '-' then (some false, c.next) else (none, c)
  let depth? (c : Cursor) : Option Nat × Cursor :=
    if c.head.isDigit then (some (c.head.toNat - 48), c.next) else (none, c)
  let (keep, c) := keep? c
  let (depth, c) := depth? c
  let (keep, c) := if keep.isNone && depth.isSome then keep? c else (keep, c)
  if depth = some 0 || !endsWord c.head then malformed else .ok (keep, depth, c)

/-- Passes the rest of a line that may hold a comment only. -/
def restOfLine (c : Cursor) : Except Fault Cursor :=
  let c := c.skipSpaces
  let c := if c.head = '#' then c.skipLine else c
  if endsLine c.head then .ok c.lineBreak.2 else malformed

/-- The blank lines before a block scalar, and the column of the longest of them. -/
def blockIndentation : Nat → Nat → Cursor → List Char × Nat × Cursor
  | 0, widest, c => ([], widest, c)
  | fuel + 1, widest, c =>
    if c.head = ' ' then
      let c := c.next
      blockIndentation fuel (max widest c.column) c
    else if isBreak c.head then
      let (br, c) := c.lineBreak
      let (breaks, widest, c) := blockIndentation fuel widest c
      (br ++ breaks, widest, c)
    else ([], widest, c)

/-- Passes the indentation of a line of a block scalar. -/
def passIndent (indent : Nat) (c : Cursor) : Cursor :=
  let spaces := (c.rest.take (indent - c.column)).takeWhile (· = ' ')
  c.skip spaces.length

/-- The blank lines inside a block scalar, and the indentation after them. -/
def blockBreaks (indent : Nat) : Nat → Cursor → List Char × Cursor
  | 0, c => ([], c)
  | fuel + 1, c =>
    let c := c.passIndent indent
    if isBreak c.head then
      let (br, c) := c.lineBreak
      let (breaks, c) := blockBreaks indent fuel c
      (br ++ breaks, c)
    else ([], c)

/-- Whether a line of a folded block starts with a blank, so that it keeps its breaks. -/
def startsBlank (c : Cursor) : Bool := c.head = ' ' || c.head = '\t'

/-- The lines of a block scalar: their text without the last break, the last break, the blank lines
    after it, and the place after them. -/
def blockLines (fold : Bool) (indent : Nat) (breaks : List Char) :
    Nat → Cursor → List Char × List Char × List Char × Cursor
  | 0, c => ([], [], breaks, c)
  | fuel + 1, c =>
    if c.column = indent && c.head ≠ endMark then
      let blank := c.startsBlank
      let (line, c) := c.run (!endsLine ·)
      let (br, c) := c.lineBreak
      let (after, c) := blockBreaks indent (c.rest.length + 1) c
      if c.column = indent && c.head ≠ endMark then
        let joint :=
          if fold && br = ['\n'] && !blank && !c.startsBlank then
            if after = [] then [' '] else []
          else br
        let (more, last, trailing, c) := blockLines fold indent after fuel c
        (breaks ++ line ++ joint ++ more, last, trailing, c)
      else (breaks ++ line, br, after, c)
    else ([], [], breaks, c)

/-- A block scalar after its indicator, inside a block with the given indentation. -/
def block (fold : Bool) (outer : Int) (c : Cursor) : Except Fault (List Char × Cursor) := do
  let (keep, depth, c) ← c.blockHead
  let c ← c.restOfLine
  let least := max (outer + 1).toNat 1
  let (breaks, indent, c) := match depth with
    | some d =>
      let (breaks, c) := c.blockBreaks (least + d - 1) (c.rest.length + 1)
      (breaks, least + d - 1, c)
    | none =>
      let (breaks, widest, c) := c.blockIndentation (c.rest.length + 1) 0
      (breaks, max least widest, c)
  let (text, last, trailing, c) := c.blockLines fold indent breaks (c.rest.length + 1)
  let text := if keep = some false then text else text ++ last
  return (if keep = some true then text ++ trailing else text, c)

end Cursor
end Runbook.Yaml
