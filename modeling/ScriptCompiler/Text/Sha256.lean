/-!
# SHA-256

The digest of a sequence of bytes, written as 64 hexadecimal digits. Words are 32 bits wide and
additions wrap.
-/

namespace ScriptCompiler.Sha256

def initial : List UInt32 := [
  0x6a09e667, 0xbb67ae85, 0x3c6ef372, 0xa54ff53a, 0x510e527f, 0x9b05688c, 0x1f83d9ab, 0x5be0cd19]

def roundConstants : List UInt32 := [
  0x428a2f98, 0x71374491, 0xb5c0fbcf, 0xe9b5dba5, 0x3956c25b, 0x59f111f1, 0x923f82a4, 0xab1c5ed5,
  0xd807aa98, 0x12835b01, 0x243185be, 0x550c7dc3, 0x72be5d74, 0x80deb1fe, 0x9bdc06a7, 0xc19bf174,
  0xe49b69c1, 0xefbe4786, 0x0fc19dc6, 0x240ca1cc, 0x2de92c6f, 0x4a7484aa, 0x5cb0a9dc, 0x76f988da,
  0x983e5152, 0xa831c66d, 0xb00327c8, 0xbf597fc7, 0xc6e00bf3, 0xd5a79147, 0x06ca6351, 0x14292967,
  0x27b70a85, 0x2e1b2138, 0x4d2c6dfc, 0x53380d13, 0x650a7354, 0x766a0abb, 0x81c2c92e, 0x92722c85,
  0xa2bfe8a1, 0xa81a664b, 0xc24b8b70, 0xc76c51a3, 0xd192e819, 0xd6990624, 0xf40e3585, 0x106aa070,
  0x19a4c116, 0x1e376c08, 0x2748774c, 0x34b0bcb5, 0x391c0cb3, 0x4ed8aa4a, 0x5b9cca4f, 0x682e6ff3,
  0x748f82ee, 0x78a5636f, 0x84c87814, 0x8cc70208, 0x90befffa, 0xa4506ceb, 0xbef9a3f7, 0xc67178f2]

def rotateRight (x : UInt32) (n : UInt32) : UInt32 := (x >>> n) ||| (x <<< (32 - n))

def bigSigma0 (x : UInt32) : UInt32 := rotateRight x 2 ^^^ rotateRight x 13 ^^^ rotateRight x 22

def bigSigma1 (x : UInt32) : UInt32 := rotateRight x 6 ^^^ rotateRight x 11 ^^^ rotateRight x 25

def smallSigma0 (x : UInt32) : UInt32 := rotateRight x 7 ^^^ rotateRight x 18 ^^^ (x >>> 3)

def smallSigma1 (x : UInt32) : UInt32 := rotateRight x 17 ^^^ rotateRight x 19 ^^^ (x >>> 10)

def choose (x y z : UInt32) : UInt32 := (x &&& y) ^^^ (~~~x &&& z)

def majority (x y z : UInt32) : UInt32 := (x &&& y) ^^^ (x &&& z) ^^^ (y &&& z)

/-- A number as `width` bytes, the most significant first. -/
def bigEndian : Nat → Nat → List UInt8
  | 0, _ => []
  | width + 1, n => (n / Nat.pow 256 width).toUInt8 :: bigEndian width n

/-- The message, a one bit, zeros up to 56 modulo 64 bytes, and the length in bits as eight
bytes. -/
def pad (message : List UInt8) : List UInt8 :=
  let size := message.length
  let zeros := (119 - size % 64) % 64
  message ++ [0x80] ++ List.replicate zeros 0 ++ bigEndian 8 (8 * size)

def words : List UInt8 → List UInt32
  | a :: b :: c :: d :: rest =>
    ((a.toUInt32 <<< 24) ||| (b.toUInt32 <<< 16) ||| (c.toUInt32 <<< 8) ||| d.toUInt32) ::
      words rest
  | _ => []

/-- Extend a schedule, kept with its last word first, by `count` words. -/
def extend : Nat → List UInt32 → List UInt32
  | 0, ws => ws
  | count + 1, ws =>
    let word (i : Nat) : UInt32 := ws.getD i 0
    extend count ((smallSigma1 (word 1) + word 6 + smallSigma0 (word 14) + word 15) :: ws)

/-- The 64 words that one block is mixed in with. -/
def schedule (block : List UInt32) : List UInt32 := (extend 48 block.reverse).reverse

def round (state : List UInt32) (constant word : UInt32) : List UInt32 :=
  match state with
  | [a, b, c, d, e, f, g, h] =>
    let t1 := h + bigSigma1 e + choose e f g + constant + word
    let t2 := bigSigma0 a + majority a b c
    [t1 + t2, a, b, c, d + t1, e, f, g]
  | other => other

/-- Mix one block of sixteen words into the digest so far. -/
def compress (digest block : List UInt32) : List UInt32 :=
  let mixed := (roundConstants.zip (schedule block)).foldl (fun s p => round s p.1 p.2) digest
  (digest.zip mixed).map (fun p => p.1 + p.2)

/-- Split into blocks of sixteen words; `count` bounds the number of blocks. -/
def blocks : Nat → List UInt32 → List (List UInt32)
  | 0, _ => []
  | _, [] => []
  | count + 1, ws => ws.take 16 :: blocks count (ws.drop 16)

def digest (message : List UInt8) : List UInt32 :=
  let ws := words (pad message)
  (blocks ws.length ws).foldl compress initial

def hex (w : UInt32) : String :=
  let ds := Nat.toDigits 16 w.toNat
  String.ofList (List.replicate (8 - ds.length) '0' ++ ds)

def hexDigest (message : List UInt8) : String := String.join ((digest message).map hex)

end ScriptCompiler.Sha256
