namespace HarvestPlan.Hash64

def prime1 : UInt64 := 0x9e3779b185ebca87
def prime2 : UInt64 := 0xc2b2ae3d27d4eb4f
def prime3 : UInt64 := 0x165667b19e3779f9
def prime4 : UInt64 := 0x85ebca77c2b2ae63
def prime5 : UInt64 := 0x27d4eb2f165667c5

def rotateLeft (x : UInt64) (n : UInt64) : UInt64 := (x <<< n) ||| (x >>> (64 - n))

def word (bytes : List UInt8) : UInt64 :=
  bytes.foldr (fun byte rest => (rest <<< 8) ||| byte.toUInt64) 0

def round (lane input : UInt64) : UInt64 :=
  rotateLeft (lane + input * prime2) 31 * prime1

structure Lanes where
  first : UInt64
  second : UInt64
  third : UInt64
  fourth : UInt64
deriving DecidableEq, Repr

def Lanes.start : Lanes := ⟨prime1 + prime2, prime2, 0, 0 - prime1⟩

def Lanes.absorb (lanes : Lanes) (stripe : List UInt8) : Lanes where
  first := round lanes.first (word (stripe.take 8))
  second := round lanes.second (word ((stripe.drop 8).take 8))
  third := round lanes.third (word ((stripe.drop 16).take 8))
  fourth := round lanes.fourth (word ((stripe.drop 24).take 8))

def stripes : (count : Nat) → Lanes → List UInt8 → Lanes × List UInt8
  | 0, lanes, bytes => (lanes, bytes)
  | count + 1, lanes, bytes => stripes count (lanes.absorb (bytes.take 32)) (bytes.drop 32)

def Lanes.merge (lanes : Lanes) : UInt64 :=
  let sum := rotateLeft lanes.first 1 + rotateLeft lanes.second 7 + rotateLeft lanes.third 12 +
    rotateLeft lanes.fourth 18
  [lanes.first, lanes.second, lanes.third, lanes.fourth].foldl
    (fun hash lane => (hash ^^^ round 0 lane) * prime1 + prime4) sum

def absorbWord (hash : UInt64) (bytes : List UInt8) : UInt64 :=
  rotateLeft (hash ^^^ round 0 (word bytes)) 27 * prime1 + prime4

def absorbHalfWord (hash : UInt64) (bytes : List UInt8) : UInt64 :=
  rotateLeft (hash ^^^ (word bytes * prime1)) 23 * prime2 + prime3

def absorbByte (hash : UInt64) (byte : UInt8) : UInt64 :=
  rotateLeft (hash ^^^ (byte.toUInt64 * prime5)) 11 * prime1

def words : (count : Nat) → UInt64 → List UInt8 → UInt64 × List UInt8
  | 0, hash, bytes => (hash, bytes)
  | count + 1, hash, bytes => words count (absorbWord hash (bytes.take 8)) (bytes.drop 8)

def tail (hash : UInt64) (bytes : List UInt8) : UInt64 :=
  let (hash, rest) := words (bytes.length / 8) hash bytes
  if 4 ≤ rest.length then (rest.drop 4).foldl absorbByte (absorbHalfWord hash (rest.take 4))
  else rest.foldl absorbByte hash

def avalanche (hash : UInt64) : UInt64 :=
  let hash := (hash ^^^ (hash >>> 33)) * prime2
  let hash := (hash ^^^ (hash >>> 29)) * prime3
  hash ^^^ (hash >>> 32)

def hash (bytes : List UInt8) : UInt64 :=
  let size := bytes.length
  let (lanes, rest) := stripes (size / 32) .start bytes
  let start := if size < 32 then prime5 else lanes.merge
  avalanche (tail (start + size.toUInt64) rest)

end HarvestPlan.Hash64
