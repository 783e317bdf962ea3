import RillLang.Text.Quoted

/-!
# UTF-8

A character takes one to four bytes.  The first byte tells how many follow and in
which range the second one must lie, so that no character has two spellings and no
surrogate has any; every further byte lies between `0x80` and `0xbf`.

Decoding stops at the first sequence that is cut short or malformed, with the place
of the bytes that were good so far.
-/

namespace RillLang.Text.Utf8

/-- What is wrong with a sequence of bytes. -/
inductive Reason where
  | invalidStart
  | invalidContinuation
  | unexpectedEnd
  deriving DecidableEq, Repr

/-- A malformed sequence: where it starts, its first byte, and how many of its bytes
are good. -/
structure Fault where
  /-- The offset of the first byte. -/
  start : Nat
  /-- The first byte. -/
  lead : UInt8
  /-- The number of good bytes, or one when the first byte is already bad. -/
  good : Nat
  /-- What is wrong. -/
  reason : Reason
  deriving DecidableEq, Repr

/-- The description of a reason. -/
def Reason.message : Reason → String
  | invalidStart => "invalid start byte"
  | invalidContinuation => "invalid continuation byte"
  | unexpectedEnd => "unexpected end of data"

/-- The message for a malformed sequence. -/
def Fault.message (f : Fault) : String :=
  let place :=
    if f.good = 1 then
      "byte 0x" ++ String.ofList (hexDigits 2 f.lead.toNat) ++ " in position " ++ toString f.start
    else "bytes in position " ++ toString f.start ++ "-" ++ toString (f.start + f.good - 1)
  "'utf-8' codec can't decode " ++ place ++ ": " ++ f.reason.message

/-- A closed range of byte values. -/
abbrev Range : Type := Nat × Nat

/-- The range of a byte that is not restricted further. -/
def anyContinuation : Range := (0x80, 0xbf)

/-- What the first byte of a longer sequence announces: the bits it contributes, the
range of the second byte, and the ranges of the bytes after it. -/
def lead? (b : Nat) : Option (Nat × Range × List Range) :=
  if b < 0xc2 then none
  else if b < 0xe0 then some (b - 0xc0, anyContinuation, [])
  else if b = 0xe0 then some (0, (0xa0, 0xbf), [anyContinuation])
  else if b = 0xed then some (0xd, (0x80, 0x9f), [anyContinuation])
  else if b < 0xf0 then some (b - 0xe0, anyContinuation, [anyContinuation])
  else if b = 0xf0 then some (0, (0x90, 0xbf), [anyContinuation, anyContinuation])
  else if b < 0xf4 then some (b - 0xf0, anyContinuation, [anyContinuation, anyContinuation])
  else if b = 0xf4 then some (4, (0x80, 0x8f), [anyContinuation, anyContinuation])
  else none

/-- A sequence that has begun and is not complete. -/
structure Partial where
  /-- The offset of the first byte. -/
  start : Nat
  /-- The first byte. -/
  lead : UInt8
  /-- The number of bytes so far. -/
  taken : Nat
  /-- The bits so far. -/
  bits : Nat
  /-- The range of the next byte. -/
  next : Range
  /-- The ranges of the bytes after it. -/
  more : List Range

/-- A partial sequence that cannot be completed. -/
def Partial.fault (p : Partial) (reason : Reason) : Fault := ⟨p.start, p.lead, p.taken, reason⟩

/-- The characters of bytes that start at an offset inside the sequence `pending`,
if there is one, after the characters `done`, which are held last character
first. -/
def decodeOnto (done : List Char) (offset : Nat) (pending : Option Partial) :
    List UInt8 → Except Fault (List Char)
  | [] =>
    match pending with
    | none => .ok done.reverse
    | some p => .error (p.fault .unexpectedEnd)
  | b :: bytes =>
    match pending with
    | none =>
      if b.toNat < 0x80 then decodeOnto (Char.ofNat b.toNat :: done) (offset + 1) none bytes
      else
        match lead? b.toNat with
        | none => .error ⟨offset, b, 1, .invalidStart⟩
        | some (bits, next, more) =>
          decodeOnto done (offset + 1) (some ⟨offset, b, 1, bits, next, more⟩) bytes
    | some p =>
      if p.next.1 ≤ b.toNat ∧ b.toNat ≤ p.next.2 then
        let bits := p.bits * 64 + (b.toNat - 0x80)
        match p.more with
        | [] => decodeOnto (Char.ofNat bits :: done) (offset + 1) none bytes
        | next :: more =>
          decodeOnto done (offset + 1)
            (some ⟨p.start, p.lead, p.taken + 1, bits, next, more⟩) bytes
      else .error (p.fault .invalidContinuation)

/-- The characters of some bytes. -/
def decode (bytes : List UInt8) : Except Fault (List Char) := decodeOnto [] 0 none bytes

end RillLang.Text.Utf8
