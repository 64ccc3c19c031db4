import GrammarKit.Text.Utf8

/-!
# Digests of texts

The digest of a text by the SHA-256 algorithm, which names a grammar text by 32 bytes.

* `Digest.pad`: the padding to whole blocks.
* `Digest.compress`: one block worked into the state.
* `Digest.ofText`, `Digest.hex`: the digest of a text, and its hexadecimal form.
-/

namespace GrammarKit

/-- **The digest of a text**: eight words. -/
structure Digest where
  words : List UInt32
deriving Repr, DecidableEq, Inhabited

namespace Digest

/-- The words the state starts with. -/
def initial : List UInt32 :=
  [0x6a09e667, 0xbb67ae85, 0x3c6ef372, 0xa54ff53a, 0x510e527f, 0x9b05688c, 0x1f83d9ab, 0x5be0cd19]

/-- The constants of the rounds. -/
def roundConstants : List UInt32 :=
  [0x428a2f98, 0x71374491, 0xb5c0fbcf, 0xe9b5dba5, 0x3956c25b, 0x59f111f1, 0x923f82a4, 0xab1c5ed5,
    0xd807aa98, 0x12835b01, 0x243185be, 0x550c7dc3, 0x72be5d74, 0x80deb1fe, 0x9bdc06a7, 0xc19bf174,
    0xe49b69c1, 0xefbe4786, 0x0fc19dc6, 0x240ca1cc, 0x2de92c6f, 0x4a7484aa, 0x5cb0a9dc, 0x76f988da,
    0x983e5152, 0xa831c66d, 0xb00327c8, 0xbf597fc7, 0xc6e00bf3, 0xd5a79147, 0x06ca6351, 0x14292967,
    0x27b70a85, 0x2e1b2138, 0x4d2c6dfc, 0x53380d13, 0x650a7354, 0x766a0abb, 0x81c2c92e, 0x92722c85,
    0xa2bfe8a1, 0xa81a664b, 0xc24b8b70, 0xc76c51a3, 0xd192e819, 0xd6990624, 0xf40e3585, 0x106aa070,
    0x19a4c116, 0x1e376c08, 0x2748774c, 0x34b0bcb5, 0x391c0cb3, 0x4ed8aa4a, 0x5b9cca4f, 0x682e6ff3,
    0x748f82ee, 0x78a5636f, 0x84c87814, 0x8cc70208, 0x90befffa, 0xa4506ceb, 0xbef9a3f7, 0xc67178f2]

/-- The word turned right by `n` bits. -/
def rotate (x : UInt32) (n : UInt32) : UInt32 := (x >>> n) ||| (x <<< (32 - n))

/-- The big-endian bytes of a number, `count` of them. -/
def bigEndian (n : Nat) : (count : Nat) → List UInt8
  | 0 => []
  | count + 1 => (n >>> (8 * count)).toUInt8 :: bigEndian n count

/-- The bytes with a one bit, zeros and their number of bits behind them: whole blocks. -/
def pad (bytes : List UInt8) : List UInt8 :=
  bytes ++ 0x80 :: List.replicate ((119 - bytes.length % 64) % 64) 0 ++
    bigEndian (8 * bytes.length) 8

/-- The big-endian words of bytes. -/
def wordsOf : List UInt8 → List UInt32
  | a :: b :: c :: d :: bytes =>
    ((a.toUInt32 <<< 24) ||| (b.toUInt32 <<< 16) ||| (c.toUInt32 <<< 8) ||| d.toUInt32) ::
      wordsOf bytes
  | _ => []

/-- The words of a block with `n` more behind them; the latest word comes first. -/
def schedule : Nat → List UInt32 → List UInt32
  | 0, ws => ws
  | n + 1, ws =>
    let w (k : Nat) : UInt32 := ws.getD k 0
    let s0 := rotate (w 14) 7 ^^^ rotate (w 14) 18 ^^^ (w 14 >>> 3)
    let s1 := rotate (w 1) 17 ^^^ rotate (w 1) 19 ^^^ (w 1 >>> 10)
    schedule n ((w 15 + s0 + w 6 + s1) :: ws)

/-- One round on the eight words of the state, with a constant and a word of the block. -/
def round (state : List UInt32) (k w : UInt32) : List UInt32 :=
  match state with
  | [a, b, c, d, e, f, g, h] =>
    let s1 := rotate e 6 ^^^ rotate e 11 ^^^ rotate e 25
    let choice := (e &&& f) ^^^ ((e ^^^ 0xffffffff) &&& g)
    let t1 := h + s1 + choice + k + w
    let s0 := rotate a 2 ^^^ rotate a 13 ^^^ rotate a 22
    let majority := (a &&& b) ^^^ (a &&& c) ^^^ (b &&& c)
    [t1 + (s0 + majority), a, b, c, d + t1, e, f, g]
  | _ => state

/-- A block of sixteen words worked into the state. -/
def compress (state block : List UInt32) : List UInt32 :=
  let ws := (schedule 48 block.reverse).reverse
  let worked := (roundConstants.zip ws).foldl (fun s (k, w) => round s k w) state
  List.zipWith (· + ·) state worked

/-- All blocks worked into the state, at most `n` of them. -/
def compressAll : Nat → List UInt32 → List UInt32 → List UInt32
  | 0, state, _ => state
  | n + 1, state, ws =>
    if ws.isEmpty then state else compressAll n (compress state (ws.take 16)) (ws.drop 16)

/-- **The digest of a text**, from the bytes of its UTF-8 form. -/
def ofText (text : String) : Digest :=
  let ws := wordsOf (pad (Text.encode text.toList))
  ⟨compressAll ws.length initial ws⟩

/-- A word in eight hexadecimal digits. -/
def wordHex (w : UInt32) : String :=
  let digits := Nat.toDigits 16 w.toNat
  String.ofList (List.replicate (8 - digits.length) '0' ++ digits)

/-- The hexadecimal form of a digest. -/
def hex (d : Digest) : String := String.join (d.words.map wordHex)

end Digest

end GrammarKit
