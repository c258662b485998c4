import HeaderReflect.Text.Bytes

/-!
The BLAKE3 digest of a byte string. The input is cut into chunks, the chunks into blocks; the
blocks of a chunk are compressed one after another, and the chunks are the leaves of a binary tree
whose left parts are as large as possible.
-/

namespace HeaderReflect.Digest

/-- The eight words that go from one compression to the next. -/
abbrev Chaining := Vector UInt32 8

abbrev Block := Vector UInt32 16

def blockSize : Nat := 64

def chunkSize : Nat := 1024

def initialChaining : Chaining :=
  #v[0x6A09E667, 0xBB67AE85, 0x3C6EF372, 0xA54FF53A, 0x510E527F, 0x9B05688C, 0x1F83D9AB,
    0x5BE0CD19]

/-- What is said about a block: it starts a chunk, ends one, is an inner node of the tree, or is
the last one of all. -/
structure Role where
  startsChunk : Bool := false
  endsChunk : Bool := false
  isParent : Bool := false
  isRoot : Bool := false

def Role.flags (r : Role) : UInt32 :=
  (if r.startsChunk then 1 else 0) ||| (if r.endsChunk then 2 else 0)
    ||| (if r.isParent then 4 else 0) ||| (if r.isRoot then 8 else 0)

def rotateRight (w : UInt32) (n : UInt32) : UInt32 :=
  (w >>> n) ||| (w <<< (32 - n))

/-- Mixes two message words into four words of the state. -/
def mix (s : Block) (a b c d : Fin 16) (x y : UInt32) : Block :=
  let va := s[a] + s[b] + x
  let vd := rotateRight (s[d] ^^^ va) 16
  let vc := s[c] + vd
  let vb := rotateRight (s[b] ^^^ vc) 12
  let va := va + vb + y
  let vd := rotateRight (vd ^^^ va) 8
  let vc := vc + vd
  let vb := rotateRight (vb ^^^ vc) 7
  (((s.set a va).set b vb).set c vc).set d vd

/-- One round: the columns of the state, then its diagonals. -/
def mixAll (m s : Block) : Block :=
  let s := mix s 0 4 8 12 m[0] m[1]
  let s := mix s 1 5 9 13 m[2] m[3]
  let s := mix s 2 6 10 14 m[4] m[5]
  let s := mix s 3 7 11 15 m[6] m[7]
  let s := mix s 0 5 10 15 m[8] m[9]
  let s := mix s 1 6 11 12 m[10] m[11]
  let s := mix s 2 7 8 13 m[12] m[13]
  mix s 3 4 9 14 m[14] m[15]

/-- The order of the message words in the next round. -/
def permute (m : Block) : Block :=
  #v[m[2], m[6], m[3], m[10], m[7], m[0], m[4], m[13], m[1], m[11], m[12], m[5], m[9], m[14],
    m[15], m[8]]

def rounds : (count : Nat) → (m s : Block) → Block
  | 0, _, s => s
  | count + 1, m, s => rounds count (permute m) (mixAll m s)

/-- A block ready to be compressed. -/
structure Node where
  chaining : Chaining
  block : Block
  length : UInt32
  counter : UInt64
  role : Role

def Node.compress (n : Node) : Chaining :=
  let v := n.chaining
  let start : Block :=
    #v[v[0], v[1], v[2], v[3], v[4], v[5], v[6], v[7],
      initialChaining[0], initialChaining[1], initialChaining[2], initialChaining[3],
      n.counter.toUInt32, (n.counter >>> 32).toUInt32, n.length, n.role.flags]
  let s := rounds 7 n.block start
  Vector.ofFn fun (i : Fin 8) => s[i.val] ^^^ s[i.val + 8]

/-- A number from its bytes, lowest first. -/
def littleEndian (bytes : Bytes) : Nat :=
  bytes.foldr (fun b n => b.toNat + 256 * n) 0

/-- The sixteen words of a block, filled up with zeros. -/
def blockOf (bytes : Bytes) : Block :=
  Vector.ofFn fun (i : Fin 16) => UInt32.ofNat (littleEndian ((bytes.drop (4 * i.val)).take 4))

/-- The last block of a chunk, after the blocks before it have been compressed. -/
def chunkNode (counter : UInt64) (chaining : Chaining) (first : Bool) (bytes : Bytes) : Node :=
  if bytes.length ≤ blockSize then
    { chaining, block := blockOf bytes, length := UInt32.ofNat bytes.length, counter,
      role := { startsChunk := first, endsChunk := true } }
  else
    let full : Node :=
      { chaining, block := blockOf (bytes.take blockSize), length := UInt32.ofNat blockSize,
        counter, role := { startsChunk := first } }
    chunkNode counter full.compress false (bytes.drop blockSize)
termination_by bytes.length
decreasing_by simp [blockSize] at *; omega

def parentNode (left right : Chaining) : Node where
  chaining := initialChaining
  block := left ++ right
  length := UInt32.ofNat blockSize
  counter := 0
  role := { isParent := true }

/-- Size of the left part of a long input: the largest power of two that leaves something over. -/
def leftSize (size : Nat) : Nat :=
  1 <<< (size - 1).log2

theorem leftSize_pos (size : Nat) : 0 < leftSize size := by
  rw [leftSize, Nat.one_shiftLeft]
  exact Nat.two_pow_pos _

theorem leftSize_lt {size : Nat} (h : chunkSize < size) : leftSize size < size := by
  have : size - 1 ≠ 0 := by simp only [chunkSize] at h; omega
  have := Nat.log2_self_le this
  simp only [leftSize, Nat.one_shiftLeft]
  omega

/-- The top node over the input, whose first chunk has the given number. -/
def treeNode (counter : Nat) (bytes : Bytes) : Node :=
  if _h : bytes.length ≤ chunkSize then
    chunkNode (UInt64.ofNat counter) initialChaining true bytes
  else
    let size := leftSize bytes.length
    parentNode (treeNode counter (bytes.take size)).compress
      (treeNode (counter + size / chunkSize) (bytes.drop size)).compress
termination_by bytes.length
decreasing_by
  · have := leftSize_lt (Nat.lt_of_not_le _h)
    simp only [List.length_take]
    omega
  · have := leftSize_pos bytes.length
    simp only [List.length_drop]
    simp only [chunkSize] at _h
    omega

def wordBytes (w : UInt32) : Bytes :=
  [w.toUInt8, (w >>> 8).toUInt8, (w >>> 16).toUInt8, (w >>> 24).toUInt8]

end HeaderReflect.Digest

namespace HeaderReflect

/-- The digest of a byte string: thirty-two bytes. -/
def digest (bytes : Bytes) : Bytes :=
  let top := Digest.treeNode 0 bytes
  let root := { top with role := { top.role with isRoot := true } }
  root.compress.toList.flatMap Digest.wordBytes

end HeaderReflect
