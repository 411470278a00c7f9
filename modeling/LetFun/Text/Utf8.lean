import LetFun.Text.Layout
/-!
# Reading UTF-8

Bytes become text one at a time.  A first byte says how many bytes follow it and
between which bounds the next one lies, so that overlong forms, surrogates and
code points past the last are refused at the first byte that gives them away.
A fault covers the bytes of the character as far as they were right.
-/

namespace LetFun.Text.Utf8

/-- Why bytes are not UTF-8. -/
inductive Reason where
  | badStart
  | badContinuation
  | cutShort
deriving DecidableEq, Repr

def Reason.text : Reason → String
  | badStart => "invalid start byte"
  | badContinuation => "invalid continuation byte"
  | cutShort => "unexpected end of data"

/-- The first fault in a sequence of bytes: the bytes from `start` to `stop`, the last excluded,
of which `byte` is the first. -/
structure Fault where
  reason : Reason
  byte : UInt8
  start : Nat
  stop : Nat
deriving DecidableEq, Repr

def Fault.message (f : Fault) : String :=
  let what :=
    if f.stop = f.start + 1 then
      "byte 0x" ++ String.ofList (hex 2 f.byte.toNat) ++ " in position " ++ toString f.start
    else "bytes in position " ++ toString f.start ++ "-" ++ toString (f.stop - 1)
  "'utf-8' codec can't decode " ++ what ++ ": " ++ f.reason.text

/-- A character of which the first bytes are read. -/
structure Pending where
  first : UInt8
  start : Nat
  /-- The bits so far. -/
  value : Nat
  /-- The bounds of the next byte. -/
  low : UInt8
  high : UInt8
  /-- How many bytes follow the next one; any continuation bytes will do. -/
  later : Nat
deriving DecidableEq, Repr

/-- What a first byte at offset `start` begins, if it is one of a longer character. -/
def lead? (b : UInt8) (start : Nat) : Option Pending :=
  let pending (base : UInt8) (low high : UInt8) (later : Nat) :=
    some ⟨b, start, (b - base).toNat, low, high, later⟩
  if 0xc2 ≤ b ∧ b ≤ 0xdf then pending 0xc0 0x80 0xbf 0
  else if b = 0xe0 then pending 0xe0 0xa0 0xbf 1
  else if b = 0xed then pending 0xe0 0x80 0x9f 1
  else if 0xe1 ≤ b ∧ b ≤ 0xef then pending 0xe0 0x80 0xbf 1
  else if b = 0xf0 then pending 0xf0 0x90 0xbf 2
  else if b = 0xf4 then pending 0xf0 0x80 0x8f 2
  else if 0xf1 ≤ b ∧ b ≤ 0xf3 then pending 0xf0 0x80 0xbf 2
  else none

/-- The characters of the bytes from offset `at`, behind those of `done`, which come last first. -/
def decodeFrom (offset : Nat) (pending : Option Pending) (done : List Char) :
    List UInt8 → Except Fault (List Char)
  | [] =>
    match pending with
    | none => .ok done.reverse
    | some p => .error ⟨.cutShort, p.first, p.start, offset⟩
  | b :: bs =>
    match pending with
    | none =>
      if b < 0x80 then decodeFrom (offset + 1) none (Char.ofNat b.toNat :: done) bs
      else
        match lead? b offset with
        | some p => decodeFrom (offset + 1) (some p) done bs
        | none => .error ⟨.badStart, b, offset, offset + 1⟩
    | some p =>
      if p.low ≤ b ∧ b ≤ p.high then
        let value := p.value * 64 + (b - 0x80).toNat
        match p.later with
        | 0 => decodeFrom (offset + 1) none (Char.ofNat value :: done) bs
        | later + 1 =>
          decodeFrom (offset + 1) (some { p with value, low := 0x80, high := 0xbf, later }) done bs
      else .error ⟨.badContinuation, p.first, p.start, offset⟩

/-- The text that bytes hold. -/
def decode (bytes : List UInt8) : Except Fault String :=
  String.ofList <$> decodeFrom 0 none [] bytes

end LetFun.Text.Utf8
