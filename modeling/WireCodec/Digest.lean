import WireCodec.Text.Quoted
/-! # Digests

The BLAKE3 digest of a list of bytes, unkeyed and of 32 bytes, as its specification defines it.

* The bytes are cut into chunks of 1024 and each chunk into blocks of 64.  A chunk's blocks are
  compressed one after another into a chaining value of eight words.
* Chaining values are joined in pairs, level by level, until one is left; one without a partner moves
  up unchanged.  The compression that gives the last value is marked as the root. -/

namespace WireCodec.Digest

/-! ### Words -/

/-- A chaining value. -/
abbrev Chain := Vector UInt32 8

/-- The words of a block, and the state of a compression. -/
abbrev Block := Vector UInt32 16

/-- The value that every chunk starts from. -/
def start : Chain :=
  #v[0x6A09E667, 0xBB67AE85, 0x3C6EF372, 0xA54FF53A, 0x510E527F, 0x9B05688C, 0x1F83D9AB, 0x5BE0CD19]

def rotateRight (w n : UInt32) : UInt32 := w >>> n ||| w <<< (32 - n)

/-- The word that four bytes write, the lowest byte first; missing bytes are zero. -/
def word : List UInt8 → UInt32
  | [] => 0
  | b :: bs => b.toUInt32 ||| (word bs <<< 8)

/-- The words of at most 64 bytes. -/
def words (bytes : List UInt8) : Block :=
  Vector.ofFn fun i => word ((bytes.drop (4 * i.val)).take 4)

/-! ### Compression -/

/-- Mixes two words of the message into four words of the state. -/
def mix (v : Block) (a b c d : Fin 16) (x y : UInt32) : Block :=
  let va := v[a] + v[b] + x
  let vd := rotateRight (v[d] ^^^ va) 16
  let vc := v[c] + vd
  let vb := rotateRight (v[b] ^^^ vc) 12
  let va := va + vb + y
  let vd := rotateRight (vd ^^^ va) 8
  let vc := vc + vd
  let vb := rotateRight (vb ^^^ vc) 7
  (((v.set a va).set b vb).set c vc).set d vd

/-- Mixes a message into the columns of the state and then into its diagonals. -/
def round (v m : Block) : Block :=
  let v := mix v 0 4 8 12 m[0] m[1]
  let v := mix v 1 5 9 13 m[2] m[3]
  let v := mix v 2 6 10 14 m[4] m[5]
  let v := mix v 3 7 11 15 m[6] m[7]
  let v := mix v 0 5 10 15 m[8] m[9]
  let v := mix v 1 6 11 12 m[10] m[11]
  let v := mix v 2 7 8 13 m[12] m[13]
  mix v 3 4 9 14 m[14] m[15]

/-- Where each word of the next round's message stands in this round's. -/
def schedule : Vector (Fin 16) 16 := #v[2, 6, 3, 10, 7, 0, 4, 13, 1, 11, 12, 5, 9, 14, 15, 8]

def permute (m : Block) : Block := schedule.map fun i => m[i]

/-- A number of rounds, each with the message permuted once more. -/
def rounds : Nat → Block → Block → Block
  | 0, v, _ => v
  | n + 1, v, m => rounds n (round v m) (permute m)

/-- What a compressed block is part of. -/
structure Role where
  chunkStart : Bool := false
  chunkEnd : Bool := false
  parent : Bool := false
  root : Bool := false
  deriving DecidableEq, Repr

/-- The role as a word, one bit each. -/
def Role.word (r : Role) : UInt32 :=
  (if r.chunkStart then 1 else 0) ||| (if r.chunkEnd then 2 else 0) ||| (if r.parent then 4 else 0)
    ||| (if r.root then 8 else 0)

/-- Compresses a block of some length, in the chunk of some number, into a chaining value. -/
def compress (chain : Chain) (block : Block) (chunk length : Nat) (role : Role) : Chain :=
  let tail : Block := #v[start[0], start[1], start[2], start[3], UInt32.ofNat chunk,
    UInt32.ofNat (chunk >>> 32), UInt32.ofNat length, role.word, 0, 0, 0, 0, 0, 0, 0, 0]
  let state : Block := Vector.ofFn fun i =>
    if h : i.val < 8 then chain[i.val] else tail[i.val - 8]
  let v := rounds 7 state block
  Vector.ofFn fun i => v[i.val] ^^^ v[i.val + 8]

/-! ### Chunks and their tree -/

/-- Cuts a list into pieces of `n + 1`, the last one shorter; the empty list has one empty piece. -/
def cut {α : Type} (n : Nat) (xs : List α) : List (List α) :=
  if (xs.drop (n + 1)).isEmpty then [xs] else xs.take (n + 1) :: cut n (xs.drop (n + 1))
termination_by xs.length
decreasing_by
  have h : ¬ xs.length ≤ n + 1 := fun h => by simp_all [List.drop_eq_nil_of_le h]
  rw [List.length_drop]
  omega

/-- Compresses the blocks of a chunk; `first` marks the chunk's first block. -/
def chunkBlocks (chunk : Nat) (alone first : Bool) (chain : Chain) : List (List UInt8) → Chain
  | [] => chain
  | [block] =>
    compress chain (words block) chunk block.length
      { chunkStart := first, chunkEnd := true, root := alone }
  | block :: blocks =>
    chunkBlocks chunk alone false
      (compress chain (words block) chunk block.length { chunkStart := first }) blocks

/-- The chaining value of a chunk, which may be the only one. -/
def chunkChain (alone : Bool) (chunk : Nat) (bytes : List UInt8) : Chain :=
  chunkBlocks chunk alone true start (cut 63 bytes)

/-- The chaining value above two others. -/
def join (root : Bool) (left right : Chain) : Chain :=
  compress start (left ++ right) 0 64 { parent := true, root }

/-- One level of the tree up. -/
def level : List Chain → List Chain
  | left :: right :: rest => join false left right :: level rest
  | chains => chains

theorem length_level (chains : List Chain) : (level chains).length = (chains.length + 1) / 2 := by
  fun_induction level chains with
  | case1 left right rest ih => simp only [List.length_cons, ih]; omega
  | case2 chains h =>
    match chains, h with
    | [], _ => simp
    | [_], _ => simp
    | a :: b :: rest, h => exact absurd rfl (h a b rest)

/-- The value at the top of a tree. -/
def top : List Chain → Chain
  | [] => start
  | [chain] => chain
  | [left, right] => join true left right
  | a :: b :: c :: rest => top (level (a :: b :: c :: rest))
termination_by chains => chains.length
decreasing_by simp only [length_level, List.length_cons]; omega

/-- The first 32 bytes of the digest, as words. -/
def ofBytes (bytes : List UInt8) : Chain :=
  match cut 1023 bytes with
  | [chunk] => chunkChain true 0 chunk
  | chunks => top (chunks.zipIdx.map fun (chunk, i) => chunkChain false i chunk)

/-! ### Text -/

/-- The bytes of a word in base 16, the lowest byte first. -/
def hexWord (w : UInt32) : List Char :=
  [w, w >>> 8, w >>> 16, w >>> 24].flatMap fun v =>
    [Quoted.hexDigit (v.toNat / 16 % 16), Quoted.hexDigit (v.toNat % 16)]

/-- The first eight digits of the digest of some bytes. -/
def short (bytes : List UInt8) : String := String.ofList (hexWord (ofBytes bytes)[0])

end WireCodec.Digest
