/-!
# Digests

A digest is a word of 64 bits computed from a text.  Equal texts have equal
digests, but two different texts may share one as well.  Programs can be run with
any digest.

The digest that is taken where nothing else is said goes by the bytes of a text.
They are taken in by blocks of sixteen, into two lanes that are multiplied and
folded; what is left at the end goes in last, together with the number of bytes.
The constants are the first three words after the point of π.
-/

namespace MonkeyLang

/-- A way to digest texts. -/
class Digest where
  /-- The digest of a text. -/
  ofText : String → UInt64

/-- The word that some bytes spell, the least significant byte first. -/
def wordOfBytes (bytes : List UInt8) : UInt64 :=
  bytes.foldr (fun b word => b.toUInt64 + 256 * word) 0

/-- The two halves of a product of 128 bits, laid over each other. -/
def foldedProduct (a b : UInt64) : UInt64 :=
  let product := a.toNat * b.toNat
  UInt64.ofNat product ^^^ UInt64.ofNat (product / 0x10000000000000000)

/-- What a digest remembers of the bytes taken in so far. -/
structure Lanes where
  first : UInt64
  second : UInt64
  deriving DecidableEq, Repr, Inhabited

namespace Lanes

/-- The lanes before any byte. -/
def start : Lanes :=
  ⟨0x243f6a8885a308d3, 0x13198a2e03707344⟩

/-- Takes in a block of two words: the second lane moves up, and what becomes
of the first one takes its place. -/
def mix (l : Lanes) (x y : UInt64) : Lanes :=
  ⟨l.second, foldedProduct (l.first ^^^ x) (0xa4093822299f31d0 ^^^ y)⟩

/-- Takes in blocks as long as something is left behind them. -/
def absorb (l : Lanes) (bytes : List UInt8) : Lanes :=
  match hrest : bytes.drop 16 with
  | [] => l
  | b :: rest =>
    have : (b :: rest).length < bytes.length := by
      have hlength := congrArg List.length hrest
      simp only [List.length_drop, List.length_cons] at hlength ⊢
      omega
    (l.mix (wordOfBytes (bytes.take 8)) (wordOfBytes ((bytes.drop 8).take 8))).absorb
      (b :: rest)
termination_by bytes.length

/-- Takes in the last two words, which end the digest. -/
def close (l : Lanes) (x y : UInt64) : UInt64 :=
  foldedProduct (l.first ^^^ x) (l.second ^^^ y)

end Lanes

/-- The two words made of at most sixteen bytes: one of the bytes at the front,
and one of the bytes at the end.  They overlap where there are too few. -/
def endWords (bytes : List UInt8) : UInt64 × UInt64 :=
  match bytes with
  | [] => (0, 0)
  | [a] => (wordOfBytes [a], wordOfBytes [a, a])
  | [a, b] => (wordOfBytes [a], wordOfBytes [b, b])
  | [a, b, c] => (wordOfBytes [a], wordOfBytes [b, c])
  | _ =>
    let width := if 8 ≤ bytes.length then 8 else 4
    (wordOfBytes (bytes.take width), wordOfBytes (bytes.drop (bytes.length - width)))

/-- The digest of some bytes. -/
def digestOfBytes (bytes : List UInt8) : UInt64 :=
  let ends := endWords (bytes.drop (bytes.length - 16))
  (Lanes.start.absorb bytes).close ends.1 ends.2 ^^^ UInt64.ofNat bytes.length

/-- The digest of a text is that of its bytes in UTF-8. -/
instance : Digest where
  ofText text := digestOfBytes text.toUTF8.data.toList

end MonkeyLang
