set_option autoImplicit false

/-! # UTF-8, strict and lossy

Bytes are read as UTF-8 in two ways: a workflow file must be well formed, and the first ill-formed
place is reported; the output of a remote command may be anything, and each ill-formed place is
shown as one replacement character. Both read the bytes piece by piece, and an ill-formed piece is
the longest run of bytes that could have begun a character. -/

namespace Runbook

/-- The content of a file, or the output of a process. -/
abbrev Bytes := List UInt8

/-- The bytes of a text. -/
def Bytes.ofText (s : String) : Bytes := s.toUTF8.toList

namespace Text

/-- Why a piece is ill formed. -/
inductive Utf8Reason where
  | invalidStart
  | invalidContinuation
  | unexpectedEnd
deriving DecidableEq, Repr

/-- What stands at the head of some bytes: a character, or a run of bytes that is none. Either way
    with its size, which is never zero. -/
inductive Utf8Piece where
  | char (c : Char) (size : Nat)
  | illFormed (reason : Utf8Reason) (size : Nat)
deriving DecidableEq, Repr

namespace Utf8Piece

/-- Whether a byte continues a character. -/
def continues (b : UInt8) : Bool := 128 ≤ b.toNat && b.toNat ≤ 191

/-- The six bits that a continuing byte adds. -/
def push (n : Nat) (b : UInt8) : Nat := n * 64 + (b.toNat - 128)

/-- The range of the second byte after a first byte: it excludes overlong forms, surrogates and
    numbers past the last code point. -/
def secondRange (lead : Nat) : Nat × Nat :=
  if lead = 224 then (160, 191)
  else if lead = 237 then (128, 159)
  else if lead = 240 then (144, 191)
  else if lead = 244 then (128, 143)
  else (128, 191)

/-- Reads the remaining `need` bytes of a character of which `have_` bytes with the value `n` are
    read. -/
def continueWith (n : Nat) : Nat → Nat → Bytes → Utf8Piece
  | 0, size, _ => char (Char.ofNat n) size
  | _ + 1, size, [] => illFormed .unexpectedEnd size
  | need + 1, size, b :: rest =>
    if continues b then continueWith (push n b) need (size + 1) rest
    else illFormed .invalidContinuation size

/-- The piece that a first byte and the bytes after it form. -/
def read (b : UInt8) (rest : Bytes) : Utf8Piece :=
  let lead := b.toNat
  if lead < 128 then char (Char.ofNat lead) 1
  else if lead < 194 || 244 < lead then illFormed .invalidStart 1
  else
    let need := if lead < 224 then 1 else if lead < 240 then 2 else 3
    let high := if lead < 224 then lead - 192 else if lead < 240 then lead - 224 else lead - 240
    match rest with
    | [] => illFormed .unexpectedEnd 1
    | second :: rest =>
      let (lo, hi) := secondRange lead
      if lo ≤ second.toNat && second.toNat ≤ hi then
        continueWith (push high second) (need - 1) 2 rest
      else illFormed .invalidContinuation 1

/-- How many bytes the piece takes. -/
def size : Utf8Piece → Nat
  | char _ n => n
  | illFormed _ n => n

end Utf8Piece

/-- Where and why bytes are not UTF-8. -/
structure Utf8Fault where
  position : Nat
  size : Nat
  first : UInt8
  reason : Utf8Reason
deriving DecidableEq, Repr

/-- Reads bytes as text, with one replacement character for each ill-formed piece. -/
def decodeLossyList : Bytes → List Char
  | [] => []
  | b :: rest =>
    let piece := Utf8Piece.read b rest
    let c := match piece with
      | .char c _ => c
      | .illFormed _ _ => Char.ofNat 0xFFFD
    c :: decodeLossyList (rest.drop (piece.size - 1))
termination_by bs => bs.length
decreasing_by simp only [List.length_drop, List.length_cons]; omega

/-- Reads bytes as text, with one replacement character for each ill-formed piece. -/
def decodeLossy (bs : Bytes) : String := String.ofList (decodeLossyList bs)

/-- Reads bytes that stand at a position of the whole, up to the first ill-formed piece. -/
def decodeFrom (position : Nat) : Bytes → Except Utf8Fault (List Char)
  | [] => .ok []
  | b :: rest =>
    match Utf8Piece.read b rest with
    | .char c size =>
      (decodeFrom (position + size) (rest.drop (size - 1))).map (c :: ·)
    | .illFormed reason size => .error { position, size, first := b, reason }
termination_by bs => bs.length
decreasing_by simp only [List.length_drop, List.length_cons]; omega

/-- Reads bytes as text, or says where they are not UTF-8. -/
def decode (bs : Bytes) : Except Utf8Fault String := (decodeFrom 0 bs).map String.ofList

end Text
end Runbook
