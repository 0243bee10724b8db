set_option autoImplicit false

/-! # A place in a document text

The characters that remain, with the line and column of the first of them. Past the end every look
ahead yields the character with the number zero, which a document text never holds. -/

namespace Runbook.Yaml

/-- The character that stands for the end of the text. -/
def endMark : Char := Char.ofNat 0

/-- Whether a document text may hold a character. -/
def isAllowed (c : Char) : Bool :=
  let n := c.toNat
  n = 9 || n = 10 || n = 13 || (32 ≤ n && n ≤ 126) || n = 133 || (160 ≤ n && n ≤ 0xD7FF)
    || (0xE000 ≤ n && n ≤ 0xFFFD) || 0x10000 ≤ n

/-- Whether a character breaks a line of a document text. -/
def isBreak (c : Char) : Bool :=
  c = '\n' || c = '\r' || c.toNat = 0x85 || c.toNat = 0x2028 || c.toNat = 0x2029

/-- A line break or the end of the text. -/
def endsLine (c : Char) : Bool := c = endMark || isBreak c

/-- A space, a line break or the end of the text. -/
def endsWord (c : Char) : Bool := c = ' ' || endsLine c

/-- A blank that ends an indicator: as before, and the tab. -/
def isSeparator (c : Char) : Bool := c = '\t' || endsWord c

/-- A letter or digit of ASCII, the hyphen or the underscore: the characters of names. -/
def isNameChar (c : Char) : Bool := c.isAlphanum || c = '-' || c = '_'

/-- Whether a character is a hexadecimal digit. -/
def isHexDigit (c : Char) : Bool :=
  c.isDigit || ('a' ≤ c && c ≤ 'f') || ('A' ≤ c && c ≤ 'F')

/-- A place in a document text. -/
structure Cursor where
  rest : List Char
  index : Nat
  line : Nat
  column : Nat

namespace Cursor

/-- The start of a text. -/
def start (cs : List Char) : Cursor := ⟨cs, 0, 0, 0⟩

/-- The next character. -/
def head (c : Cursor) : Char := c.rest.headD endMark

/-- The character some way ahead. -/
def peek (c : Cursor) (ahead : Nat) : Char := c.rest.getD ahead endMark

/-- The place after the next character. A byte order mark has no width. -/
def next (c : Cursor) : Cursor :=
  match c.rest with
  | [] => c
  | ch :: rest =>
    if isBreak ch && !(ch = '\r' && rest.head? = some '\n') then
      ⟨rest, c.index + 1, c.line + 1, 0⟩
    else if ch = '\r' then ⟨rest, c.index + 1, c.line, c.column + 1⟩
    else if ch.toNat = 0xFEFF then ⟨rest, c.index + 1, c.line, c.column⟩
    else ⟨rest, c.index + 1, c.line, c.column + 1⟩

/-- The place some characters further. -/
def skip : Nat → Cursor → Cursor
  | 0, c => c
  | n + 1, c => skip n c.next

/-- The longest run of characters of a class, and the place after it. -/
def run (c : Cursor) (p : Char → Bool) : List Char × Cursor :=
  let cs := c.rest.takeWhile p
  (cs, c.skip cs.length)

/-- The place after the spaces. -/
def skipSpaces (c : Cursor) : Cursor := (c.run (· = ' ')).2

/-- The place at the end of the line. -/
def skipLine (c : Cursor) : Cursor := (c.run (!endsLine ·)).2

/-- Passes a line break, if there is one. The break counts as a line feed, unless it is one of the
    separators of Unicode, which stay as they are. -/
def lineBreak (c : Cursor) : List Char × Cursor :=
  let ch := c.head
  if ch = '\r' && c.peek 1 = '\n' then (['\n'], c.skip 2)
  else if ch = '\r' || ch = '\n' || ch.toNat = 0x85 then (['\n'], c.next)
  else if isBreak ch then ([ch], c.next)
  else ([], c)

/-- Whether a mark of three characters stands here, followed by a separator. -/
def atMark (c : Cursor) (mark : List Char) : Bool :=
  mark.isPrefixOf c.rest && isSeparator (c.peek 3)

/-- Whether a document starts or ends here. -/
def atDocumentMark (c : Cursor) : Bool := c.atMark ['-', '-', '-'] || c.atMark ['.', '.', '.']

end Cursor
end Runbook.Yaml
