namespace SignalDesk.Blake3

/-- The words of a chaining value, and of a digest. -/
abbrev Chain := Vector UInt32 8

abbrev Block := Vector UInt32 16

def initialChain : Chain :=
  #v[0x6A09E667, 0xBB67AE85, 0x3C6EF372, 0xA54FF53A, 0x510E527F, 0x9B05688C, 0x1F83D9AB, 0x5BE0CD19]

/-- Where each message word of a round comes from in the round before. -/
def permutation : Vector (Fin 16) 16 := #v[2, 6, 3, 10, 7, 0, 4, 13, 1, 11, 12, 5, 9, 14, 15, 8]

def rotateRight (x n : UInt32) : UInt32 := (x >>> n) ||| (x <<< (32 - n))

/-- Mixes two message words into four words of the state. -/
def mix (state : Block) (a b c d : Fin 16) (x y : UInt32) : Block :=
  let a1 := state[a] + state[b] + x
  let d1 := rotateRight (state[d] ^^^ a1) 16
  let c1 := state[c] + d1
  let b1 := rotateRight (state[b] ^^^ c1) 12
  let a2 := a1 + b1 + y
  let d2 := rotateRight (d1 ^^^ a2) 8
  let c2 := c1 + d2
  let b2 := rotateRight (b1 ^^^ c2) 7
  (((state.set a a2).set b b2).set c c2).set d d2

/-- The columns of the four by four state, then its diagonals. -/
def round (state message : Block) : Block :=
  let state := mix state 0 4 8 12 message[0] message[1]
  let state := mix state 1 5 9 13 message[2] message[3]
  let state := mix state 2 6 10 14 message[4] message[5]
  let state := mix state 3 7 11 15 message[6] message[7]
  let state := mix state 0 5 10 15 message[8] message[9]
  let state := mix state 1 6 11 12 message[10] message[11]
  let state := mix state 2 7 8 13 message[12] message[13]
  mix state 3 4 9 14 message[14] message[15]

def rounds : Nat → Block → Block → Block
  | 0, state, _ => state
  | n + 1, state, message =>
    rounds n (round state message) (Vector.ofFn fun i => message[permutation[i]])

/-- A block of the tree before it is compressed. -/
structure Node where
  chain : Chain
  block : Block
  counter : UInt64
  length : UInt32
  flags : UInt32

def chunkStart : UInt32 := 1
def chunkEnd : UInt32 := 2
def parentFlag : UInt32 := 4
def rootFlag : UInt32 := 8

def Node.compress (node : Node) (flags : UInt32) : Chain :=
  let h := node.chain
  let v := initialChain
  let state : Block :=
    #v[h[0], h[1], h[2], h[3], h[4], h[5], h[6], h[7], v[0], v[1], v[2], v[3],
      node.counter.toUInt32, (node.counter >>> 32).toUInt32, node.length, node.flags ||| flags]
  let final := rounds 7 state node.block
  Vector.ofFn fun i => final[i] ^^^ final[i.val + 8]

def Node.chaining (node : Node) : Chain := node.compress 0

def Node.digest (node : Node) : Chain := node.compress rootFlag

/-- Words from bytes, the lowest byte first; what is missing is zero. -/
def blockOf (bytes : List UInt8) : Block :=
  let bytes := bytes.toArray
  Vector.ofFn fun i =>
    let byte (k : Nat) : UInt32 := (bytes.getD (4 * i.val + k) 0).toUInt32
    byte 0 ||| (byte 1 <<< 8) ||| (byte 2 <<< 16) ||| (byte 3 <<< 24)

/-- Runs of `size` bytes, the last one being shorter where they do not fill it. -/
def split (size : Nat) (bytes : List UInt8) : List (List UInt8) :=
  if _small : size = 0 ∨ bytes.length ≤ size then [bytes]
  else bytes.take size :: split size (bytes.drop size)
termination_by bytes.length
decreasing_by
  simp only [List.length_drop]
  omega

/-- The last block of a chunk waits for its flags; the ones before it are compressed in order. -/
def lastBlock (counter : UInt64) (chain : Chain) (flags : UInt32) : List (List UInt8) → Node
  | [] => ⟨chain, blockOf [], counter, 0, flags ||| chunkEnd⟩
  | [bytes] => ⟨chain, blockOf bytes, counter, bytes.length.toUInt32, flags ||| chunkEnd⟩
  | bytes :: rest =>
    let node : Node := ⟨chain, blockOf bytes, counter, bytes.length.toUInt32, flags⟩
    lastBlock counter node.chaining 0 rest

def chunkNode (counter : Nat) (bytes : List UInt8) : Node :=
  lastBlock counter.toUInt64 initialChain chunkStart (split 64 bytes)

def parentNode (left right : Node) : Node :=
  ⟨initialChain, (left.chaining ++ right.chaining), 0, 64, parentFlag⟩

/-- Joins neighbours; a last one without neighbour rises alone. -/
def pairUp : List Node → List Node
  | left :: right :: rest => parentNode left right :: pairUp rest
  | nodes => nodes

theorem length_pairUp_le (nodes : List Node) : (pairUp nodes).length ≤ nodes.length := by
  fun_induction pairUp nodes with
  | case1 left right rest ih => simp only [List.length_cons]; omega
  | case2 => exact Nat.le_refl _

/-- The root of the tree over the chunks of an input, which has at least one. -/
def rootNode (first : Node) (rest : List Node) : Node :=
  match rest with
  | [] => first
  | second :: others => rootNode (parentNode first second) (pairUp others)
termination_by rest.length
decreasing_by
  have shorter := length_pairUp_le others
  simp only [List.length_cons]
  omega

def hash (bytes : List UInt8) : Chain :=
  let nodes := (split 1024 bytes).mapIdx chunkNode
  match nodes with
  | [] => (chunkNode 0 bytes).digest
  | first :: rest => (rootNode first rest).digest

/-- Sixty-four hexadecimal digits, byte by byte from the lowest byte of the first word. -/
def hexDigest (bytes : List UInt8) : String :=
  String.ofList <| (hash bytes).toList.flatMap fun word =>
    [0, 8, 16, 24].flatMap fun shift =>
      let byte := (word >>> shift).toNat % 256
      [Nat.digitChar (byte / 16), Nat.digitChar (byte % 16)]

end SignalDesk.Blake3
