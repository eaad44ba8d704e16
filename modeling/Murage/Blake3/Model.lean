import Mathlib.Tactic.Common

/-!
Owns the hash of a byte string: compression, the blocks of a chunk, the stack of chaining values
and the hexadecimal digits of the result.

Does not own: the bytes of a text.
-/

namespace Murage.Blake3

def BLOCK_LEN : Nat := 64
def CHUNK_LEN : Nat := 1024
def CHUNK_START : Nat := 1
def CHUNK_END : Nat := 2
def PARENT : Nat := 4
def ROOT : Nat := 8

abbrev ChainingValue := Vector UInt32 8
abbrev Block := Vector UInt32 16

def IV : ChainingValue :=
  #v[0x6a09e667, 0xbb67ae85, 0x3c6ef372, 0xa54ff53a, 0x510e527f, 0x9b05688c, 0x1f83d9ab, 0x5be0cd19]

def PERMUTATION : Vector (Fin 16) 16 := #v[2, 6, 3, 10, 7, 0, 4, 13, 1, 11, 12, 5, 9, 14, 15, 8]

/-! ## Compression -/

def rotr (x n : UInt32) : UInt32 := (x >>> n) ||| (x <<< (32 - n))

def g (s : Block) (a b c d : Fin 16) (x y : UInt32) : Block :=
  let s := s.set a (s[a] + s[b] + x)
  let s := s.set d (rotr (s[d] ^^^ s[a]) 16)
  let s := s.set c (s[c] + s[d])
  let s := s.set b (rotr (s[b] ^^^ s[c]) 12)
  let s := s.set a (s[a] + s[b] + y)
  let s := s.set d (rotr (s[d] ^^^ s[a]) 8)
  let s := s.set c (s[c] + s[d])
  s.set b (rotr (s[b] ^^^ s[c]) 7)

/-- The columns, then the diagonals. -/
def mixed (s m : Block) : Block :=
  let s := g s 0 4 8 12 m[0] m[1]
  let s := g s 1 5 9 13 m[2] m[3]
  let s := g s 2 6 10 14 m[4] m[5]
  let s := g s 3 7 11 15 m[6] m[7]
  let s := g s 0 5 10 15 m[8] m[9]
  let s := g s 1 6 11 12 m[10] m[11]
  let s := g s 2 7 8 13 m[12] m[13]
  g s 3 4 9 14 m[14] m[15]

/-- The message is permuted between two rounds. -/
def rounds : Nat → Block → Block → Block
  | 0, s, _ => s
  | 1, s, m => mixed s m
  | count + 2, s, m => rounds (count + 1) (mixed s m) (PERMUTATION.map fun index => m[index])

def compress (cv : ChainingValue) (block : Block) (counter blockLen flags : Nat) : Block :=
  let counters := #v[UInt32.ofNat counter, UInt32.ofNat (counter / 0x100000000)]
  let s := rounds 7 (cv ++ IV.take 4 ++ counters ++ #v[UInt32.ofNat blockLen, UInt32.ofNat flags])
    block
  Vector.ofFn (fun i : Fin 8 => s[i.val] ^^^ s[i.val + 8]) ++
    Vector.ofFn (fun i : Fin 8 => s[i.val + 8] ^^^ cv[i.val])

/-! ## Chunks and parents -/

/-- `bytes.subarray(from, to)` -/
def subarray (bytes : List UInt8) (first last : Nat) : List UInt8 :=
  (bytes.drop first).take (last - first)

/-- The words of a block, least byte first, padded with zeros. -/
def words (bytes : List UInt8) : Block :=
  Vector.ofFn fun i : Fin 16 =>
    let byte := fun j => (bytes.getD (i.val * 4 + j) 0).toUInt32
    byte 0 ||| (byte 1 <<< 8) ||| (byte 2 <<< 16) ||| (byte 3 <<< 24)

/-- A node before its last compression, so that a caller can set `ROOT`. -/
structure Output where
  cv : ChainingValue
  block : Block
  counter : Nat
  blockLen : Nat
  flags : Nat

/-- `compress`, from a chaining value, a block, a counter, a length and flags. -/
abbrev Compress := ChainingValue → Block → Nat → Nat → Nat → Block

section

variable (compress : Compress)

def first8 (s : Block) : ChainingValue := Vector.ofFn fun i : Fin 8 => s[i.val]

/-- `Math.max(1, Math.ceil(length / unit))` -/
def partsOf (length unit : Nat) : Nat := max 1 ((length + (unit - 1)) / unit)

/-- The chaining value after the first `count` blocks of a chunk. -/
def chained (chunk : List UInt8) (counter count : Nat) : ChainingValue :=
  (List.range count).foldl (fun cv i =>
    first8 (compress cv (words (subarray chunk (i * BLOCK_LEN) ((i + 1) * BLOCK_LEN))) counter
      BLOCK_LEN (if i = 0 then CHUNK_START else 0))) IV

def chunkOutput (chunk : List UInt8) (counter : Nat) : Output :=
  let blocks := partsOf chunk.length BLOCK_LEN
  let last := chunk.drop ((blocks - 1) * BLOCK_LEN)
  { cv := chained compress chunk counter (blocks - 1)
    block := words last
    counter := counter
    blockLen := last.length
    flags := (if blocks = 1 then CHUNK_START else 0) ||| CHUNK_END }

def chainingValue (output : Output) : ChainingValue :=
  first8 (compress output.cv output.block output.counter output.blockLen output.flags)

def parentOutput (left right : ChainingValue) : Output :=
  { cv := IV, block := left ++ right, counter := 0, blockLen := BLOCK_LEN, flags := PARENT }

/-! ## The stack -/

/-- Merges completed subtrees as the trailing zero bits of the count say, in 32 bits, and pushes
the result. An empty stack has nothing to pop: its `undefined` is no block, which throws. -/
def merge (total : BitVec 32) (cv : ChainingValue) : List ChainingValue → Option (List ChainingValue)
  | [] => if total &&& 1#32 = 0#32 then none else some [cv]
  | top :: rest =>
    if total &&& 1#32 = 0#32 then
      merge (total.sshiftRight 1) (chainingValue compress (parentOutput top cv)) rest
    else some (cv :: top :: rest)

def chunkOf (bytes : List UInt8) (index : Nat) : List UInt8 :=
  subarray bytes (index * CHUNK_LEN) ((index + 1) * CHUNK_LEN)

def nextChunk (bytes : List UInt8) (held : List ChainingValue × Output) (index : Nat) :
    Option (List ChainingValue × Output) :=
  match merge compress (BitVec.ofNat 32 index) (chainingValue compress held.2) held.1 with
  | none => none
  | some stack => some (stack, chunkOutput compress (chunkOf bytes index) index)

/-- The node over a stack. -/
def closed (held : List ChainingValue × Output) : Output :=
  held.1.foldl (fun output top => parentOutput top (chainingValue compress output)) held.2

def hexDigit (n : Nat) : Char := "0123456789abcdef".toList.getD n '0'

/-- The digits of a word, least byte first. -/
def hexWord (word : UInt32) : List Char :=
  ([0, 8, 16, 24] : List UInt32).flatMap fun shift =>
    let byte := ((word >>> shift) &&& 0xff).toNat
    [hexDigit (byte / 16), hexDigit (byte % 16)]

/-- The last compression, with `ROOT`, as text. -/
def rootHex (output : Output) : List Char :=
  (first8 (compress output.cv output.block output.counter output.blockLen
    (output.flags ||| ROOT))).toList.flatMap hexWord

/-- The hash in lower-case hexadecimal digits, unless it throws. -/
def blake3Hex (bytes : List UInt8) : Option (List Char) :=
  let chunks := partsOf bytes.length CHUNK_LEN
  ((List.range' 1 (chunks - 1)).foldlM (nextChunk compress bytes)
      ([], chunkOutput compress (chunkOf bytes 0) 0)).map fun held =>
    rootHex compress (closed compress held)

end

end Murage.Blake3
