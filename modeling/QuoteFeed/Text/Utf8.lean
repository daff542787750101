/-! # UTF-8

Text is written as UTF-8 and read from bytes that need not be well formed: every maximal part that
begins a character and does not end it, and every byte that begins none, is read as the replacement
character.
-/

namespace QuoteFeed.Utf8

def encode (text : String) : List UInt8 :=
  text.toList.flatMap String.utf8EncodeChar

/-- The character that stands for a part that is not well formed. -/
def replacement : Char := '\uFFFD'

/-- A character that has begun and has not ended. -/
structure Pending where
  /-- The code point as far as it is known. -/
  value : Nat
  /-- How many bytes are still owed. -/
  owed : Nat
  /-- The least byte that may come next. -/
  low : Nat
  /-- The greatest byte that may come next. -/
  high : Nat

/-- A byte between characters: what it stands for by itself, and the character it begins. The
narrower ranges of the next byte keep out the long forms of short characters, the surrogates and
what lies above the last code point. -/
def start (b : UInt8) : List Char × Option Pending :=
  let n := b.toNat
  if n < 0x80 then ([Char.ofNat n], none)
  else if n < 0xC2 then ([replacement], none)
  else if n < 0xE0 then ([], some ⟨n - 0xC0, 1, 0x80, 0xBF⟩)
  else if n < 0xF0 then
    ([], some ⟨n - 0xE0, 2, if n = 0xE0 then 0xA0 else 0x80, if n = 0xED then 0x9F else 0xBF⟩)
  else if n < 0xF5 then
    ([], some ⟨n - 0xF0, 3, if n = 0xF0 then 0x90 else 0x80, if n = 0xF4 then 0x8F else 0xBF⟩)
  else ([replacement], none)

/-- One byte: the characters that are known after it, and the one that is still pending. A byte out
of range ends the pending character and is read afresh. -/
def step : Option Pending → UInt8 → List Char × Option Pending
  | none, b => start b
  | some p, b =>
      if p.low ≤ b.toNat ∧ b.toNat ≤ p.high then
        let value := p.value * 64 + (b.toNat - 0x80)
        if p.owed = 1 then ([Char.ofNat value], none)
        else ([], some ⟨value, p.owed - 1, 0x80, 0xBF⟩)
      else
        let fresh := start b
        (replacement :: fresh.1, fresh.2)

/-- The characters that bytes stand for after what is pending. -/
def decodeAfter : Option Pending → List UInt8 → List Char
  | none, [] => []
  | some _, [] => [replacement]
  | pending, b :: bs => (step pending b).1 ++ decodeAfter (step pending b).2 bs

/-- The characters that bytes stand for. -/
def decode (bs : List UInt8) : List Char :=
  decodeAfter none bs

def decodeText (bs : List UInt8) : String :=
  String.ofList (decode bs)

end QuoteFeed.Utf8
