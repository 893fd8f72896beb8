import NativeHeaders.ClassFile.Decoder

/-!
# Compressed content

Compressed content is a row of blocks. A block holds plain bytes, or it holds tokens: a byte, or the
order to repeat bytes from some distance back. Tokens are written in codes without separators, of
which a block gives only the lengths: among codes of one length the order is that of the symbols,
and shorter codes come first. Bits are taken from the low end of each byte.

Content that breaks off gives what could be read of it. Its checksum tells whether that is all.
-/

set_option autoImplicit false

namespace NativeHeaders.Deflate

/-! ## Bits -/

/-- Bits in the order in which they are read. -/
abbrev Bits := List Bool

/-- The bits of some bytes. -/
def bitsOf (bytes : Bytes) : Bits :=
  bytes.flatMap fun b => (List.range 8).map fun i => b.toNat.testBit i

/-- Why reading stops. -/
inductive Stop where
  | exhausted
  | corrupt
deriving DecidableEq

/-- A reader of the bits that are left. -/
abbrev Reader (α : Type) := StateT Bits (Except Stop) α

/-- Gives up on what no block may hold. -/
def corrupt {α : Type} : Reader α := fun _ => .error .corrupt

/-- The next bit. -/
def bit : Reader Bool
  | [] => .error .exhausted
  | b :: bits => .ok (b, bits)

/-- The number of the next `width` bits, least significant first. -/
def number : Nat → Reader Nat
  | 0 => return 0
  | width + 1 => do
    let b ← bit
    let n ← number width
    return 2 * n + b.toNat

/-! ## Codes -/

/-- A code, given by how many symbols have codes of length one, two and so on, and by its symbols
in the order of their codes. -/
structure Code where
  counts : List Nat
  symbols : Array Nat

/-- The length of the longest codes. -/
def maxLength : Nat := 15

/-- The code in which each symbol has a code of the length listed for it; zero stands for a symbol
without a code. -/
def Code.ofLengths (lengths : List Nat) : Code :=
  let used := (List.range maxLength).map fun i =>
    (lengths.zipIdx.filter fun (length, _) => length == i + 1).map Prod.snd
  ⟨used.map List.length, used.flatten.toArray⟩

/-- Whether the codes leave no row of bits without a symbol. -/
def Code.isFull (code : Code) : Bool :=
  code.counts.foldl (fun total count => 2 * total + count) 0 == Nat.pow 2 maxLength

/-- The next symbol. The codes of the lengths before had `index` symbols; `bits` is what was read
so far, less the first code of the length at hand. -/
def Code.symbolFrom (symbols : Array Nat) : List Nat → (index bits : Nat) → Reader Nat
  | [], _, _ => corrupt
  | count :: counts, index, bits => do
    let bits := bits + (← bit).toNat
    if bits < count then
      match symbols[index + bits]? with
      | some symbol => return symbol
      | none => corrupt
    else symbolFrom symbols counts (index + count) (2 * (bits - count))

/-- The next symbol in a code. -/
def Code.symbol (code : Code) : Reader Nat := symbolFrom code.symbols code.counts 0 0

/-! ## Tokens -/

/-- A token of a block. -/
inductive Token where
  | literal (byte : UInt8)
  /-- Bytes from some distance back, one after the other. -/
  | repeated (length distance : Nat)
  | ended
deriving DecidableEq

/-- For each symbol of a length, the least length and how many bits are added to it. -/
def lengthClasses : List (Nat × Nat) :=
  [(3, 0), (4, 0), (5, 0), (6, 0), (7, 0), (8, 0), (9, 0), (10, 0), (11, 1), (13, 1), (15, 1),
    (17, 1), (19, 2), (23, 2), (27, 2), (31, 2), (35, 3), (43, 3), (51, 3), (59, 3), (67, 4),
    (83, 4), (99, 4), (115, 4), (131, 5), (163, 5), (195, 5), (227, 5), (258, 0)]

/-- For each symbol of a distance, the least distance and how many bits are added to it. -/
def distanceClasses : List (Nat × Nat) :=
  [(1, 0), (2, 0), (3, 0), (4, 0), (5, 1), (7, 1), (9, 2), (13, 2), (17, 3), (25, 3), (33, 4),
    (49, 4), (65, 5), (97, 5), (129, 6), (193, 6), (257, 7), (385, 7), (513, 8), (769, 8),
    (1025, 9), (1537, 9), (2049, 10), (3073, 10), (4097, 11), (6145, 11), (8193, 12), (12289, 12),
    (16385, 13), (24577, 13)]

/-- A number of the class that a symbol selects. -/
def ofClass (classes : List (Nat × Nat)) (symbol : Nat) : Reader Nat :=
  match classes[symbol]? with
  | some (least, width) => do return least + (← number width)
  | none => corrupt

/-- The next token; lengths share a code with bytes. -/
def token (lengths distances : Code) : Reader Token := do
  let symbol ← lengths.symbol
  if symbol < 256 then return .literal (UInt8.ofNat symbol)
  else if symbol = 256 then return .ended
  else
    let length ← ofClass lengthClasses (symbol - 257)
    let distance ← ofClass distanceClasses (← distances.symbol)
    return .repeated length distance

/-! ## Blocks -/

/-- What became of a block, with all content so far. -/
inductive Progress where
  | finished (content : Array UInt8) (rest : Bits)
  | exhausted (content : Array UInt8)
  | corrupt

/-- Content with bytes from some distance back repeated. -/
def repeatBack (distance : Nat) : Nat → Array UInt8 → Array UInt8
  | 0, content => content
  | length + 1, content =>
    repeatBack distance length (content.push (content.getD (content.size - distance) 0))

/-- Takes the tokens of a block, at most as many as there are bits. -/
def takeTokens (lengths distances : Code) : Nat → Array UInt8 → Bits → Progress
  | 0, content, _ => .exhausted content
  | most + 1, content, bits =>
    match token lengths distances bits with
    | .error .exhausted => .exhausted content
    | .error .corrupt => .corrupt
    | .ok (.ended, rest) => .finished content rest
    | .ok (.literal byte, rest) => takeTokens lengths distances most (content.push byte) rest
    | .ok (.repeated length distance, rest) =>
      if distance ≤ content.size then
        takeTokens lengths distances most (repeatBack distance length content) rest
      else .corrupt

/-- Takes plain bytes. -/
def takeBytes : Nat → Array UInt8 → Bits → Progress
  | 0, content, bits => .finished content bits
  | count + 1, content, bits =>
    match number 8 bits with
    | .error _ => .exhausted content
    | .ok (byte, rest) => takeBytes count (content.push (UInt8.ofNat byte)) rest

/-- How many plain bytes follow; the number stands there twice, once with its bits inverted. -/
def plainSize : Reader Nat := do
  let size ← number 16
  let inverted ← number 16
  if size + inverted = 0xffff then return size else corrupt

/-- The codes of blocks that do not give any. -/
def standardCodes : Code × Code :=
  (.ofLengths (List.replicate 144 8 ++ List.replicate 112 9 ++ List.replicate 24 7
      ++ List.replicate 8 8),
    .ofLengths (List.replicate 32 5))

/-- The order in which the lengths of the codes for lengths are given. -/
def lengthOrder : List Nat := [16, 17, 18, 0, 8, 7, 9, 6, 10, 5, 11, 4, 12, 3, 13, 2, 14, 1, 15]

/-- Numbers of three bits. -/
def smallNumbers : Nat → Reader (List Nat)
  | 0 => return []
  | count + 1 => do
    let n ← number 3
    let others ← smallNumbers count
    return n :: others

/-- Takes as many code lengths as are missing. A symbol is a length, or the order to repeat the one
before it or zero; `found` holds the lengths before, last first. Each symbol adds at least one, so
no more than `most` symbols are read. -/
def codeLengths (code : Code) (total : Nat) : (most : Nat) → (found : List Nat) → Reader (List Nat)
  | 0, found => return found.reverse
  | most + 1, found => do
    if total ≤ found.length then return found.reverse
    else
      let symbol ← code.symbol
      match symbol, found with
      | 16, [] => corrupt
      | 16, last :: _ =>
        let count ← number 2
        codeLengths code total most (List.replicate (count + 3) last ++ found)
      | 17, _ =>
        let count ← number 3
        codeLengths code total most (List.replicate (count + 3) 0 ++ found)
      | 18, _ =>
        let count ← number 7
        codeLengths code total most (List.replicate (count + 11) 0 ++ found)
      | length, _ => codeLengths code total most (length :: found)

/-- Whether a code may be used: it is full or has at most one symbol. -/
def Code.isUsable (code : Code) : Bool := code.isFull || code.symbols.size ≤ 1

/-- The codes that a block gives. -/
def givenCodes : Reader (Code × Code) := do
  let lengthCount := (← number 5) + 257
  let distanceCount := (← number 5) + 1
  let given := (← number 4) + 4
  if 286 < lengthCount || 30 < distanceCount then corrupt
  else
    let small ← smallNumbers given
    let lengthOf := fun symbol => ((lengthOrder.zip small).lookup symbol).getD 0
    let code := Code.ofLengths ((List.range 19).map lengthOf)
    let total := lengthCount + distanceCount
    if !code.isFull then corrupt
    else
      let found ← codeLengths code total total []
      let lengths := Code.ofLengths (found.take lengthCount)
      let distances := Code.ofLengths (found.drop lengthCount)
      if found.length = total && lengths.isUsable && distances.isUsable then
        return (lengths, distances)
      else corrupt

/-- Goes on with what was read, unless reading stopped. -/
def Progress.next {α : Type} (content : Array UInt8) (result : Except Stop (α × Bits))
    (go : α → Bits → Progress) : Progress :=
  match result with
  | .ok (value, rest) => go value rest
  | .error .exhausted => .exhausted content
  | .error .corrupt => .corrupt

/-- Takes the content of a block of some kind. Plain bytes start where a byte starts. -/
def takeBlock (kind : Nat) (content : Array UInt8) (bits : Bits) : Progress :=
  match kind with
  -- plain bytes
  | 0 =>
    Progress.next content (plainSize (bits.drop (bits.length % 8))) fun size rest =>
      takeBytes size content rest
  -- tokens in the standard codes
  | 1 => takeTokens standardCodes.1 standardCodes.2 bits.length content bits
  -- tokens in codes that come first
  | 2 =>
    Progress.next content (givenCodes bits) fun (lengths, distances) rest =>
      takeTokens lengths distances rest.length content rest
  | _ => .corrupt

/-- Whether a block is the last, and its kind. -/
def blockStart : Reader (Bool × Nat) := do
  let isLast ← bit
  let kind ← number 2
  return (isLast, kind)

/-- Takes blocks up to the last one, at most as many as there are bits. -/
def takeBlocks : Nat → Array UInt8 → Bits → Progress
  | 0, content, _ => .exhausted content
  | most + 1, content, bits =>
    Progress.next content (blockStart bits) fun (isLast, kind) rest =>
      match takeBlock kind content rest with
      | .finished content rest =>
        if isLast then .finished content rest else takeBlocks most content rest
      | stopped => stopped

/-- The content that some bytes are the compressed form of, as far as they go, unless they are
corrupt. -/
def expand? (bytes : Bytes) : Option Bytes :=
  let bits := bitsOf bytes
  match takeBlocks bits.length #[] bits with
  | .finished content _ => some content.toList
  | .exhausted content => some content.toList
  | .corrupt => none

end NativeHeaders.Deflate
