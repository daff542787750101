import QuoteFeed.Quote.Basic
import QuoteFeed.Wire.Layout

/-! # Checks before decoding

A payload passes if it holds the mandatory fields and its symbol is printable. Length is checked
first, and of several bytes that are not printable the first one is named.
-/

namespace QuoteFeed.Wire

inductive Fault
  /-- The payload has fewer bytes than the mandatory fields. -/
  | tooShort (need size : Nat)
  /-- A byte of the symbol is not printable. -/
  | unprintable (offset : Nat) (byte : UInt8)
deriving DecidableEq

/-- The last two hexadecimal digits of a number. -/
def hexByte (n : Nat) : String :=
  String.ofList [Nat.digitChar (n / 16 % 16), Nat.digitChar (n % 16)]

def Fault.message : Fault → String
  | tooShort need size =>
      "buffer too small: need " ++ toString need ++ " bytes, have " ++ toString size
  | unprintable offset byte =>
      "non-printable symbol byte 0x" ++ hexByte byte.toNat ++ " at offset " ++ toString offset

/-- Whether a byte is a space or a visible ASCII character. -/
def isPrintable (b : UInt8) : Bool :=
  0x20 ≤ b && b ≤ 0x7E

/-- Checks a payload, and names the first fault. -/
def check (payload : Payload) : Except Fault Unit :=
  if payload.length < minSize then .error (.tooShort minSize payload.length)
  else
    match (payload.take symbolSize).zipIdx.find? fun entry => !isPrintable entry.1 with
    | some (byte, offset) => .error (.unprintable offset byte)
    | none => .ok ()

def isWellFormed (payload : Payload) : Bool :=
  match check payload with
  | .ok _ => true
  | .error _ => false

/-- Whether a payload begins with a symbol, of which no more than eight bytes count. The payload
may be too short to be decoded. -/
def matchesSymbol (payload : Payload) (target : List UInt8) : Bool :=
  (target.take symbolSize).isPrefixOf payload

end QuoteFeed.Wire
