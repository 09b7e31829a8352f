/-!
# Unpacking of deflated data

Deflated data is a sequence of blocks.  A block holds bytes as they are, or codes of variable length
for bytes and for repetitions of what came before; the lengths of the codes are fixed or stand at the
start of the block.
-/

namespace JavaSema.Inflate

/-- Bits that are not read yet: those of the current byte as a number, and the bytes after it. -/
structure Bits where
  /-- The bits of the current byte, the next one lowest. -/
  current : Nat := 0
  /-- The number of bits of the current byte. -/
  left : Nat := 0
  /-- The bytes after it. -/
  rest : List UInt8 := []
deriving DecidableEq, Inhabited

/-- A reader of bits, which fails where the data makes no sense. -/
abbrev Reader := StateT Bits Option

namespace Reader

/-- Fails. -/
def fail {α : Type} : Reader α := fun _ => none

/-- The next bit. -/
def bit : Reader Nat := fun b =>
  if b.left = 0 then
    match b.rest with
    | [] => none
    | x :: rest => some (x.toNat % 2, ⟨x.toNat / 2, 7, rest⟩)
  else some (b.current % 2, ⟨b.current / 2, b.left - 1, b.rest⟩)

/-- A number of so many bits, the lowest one first. -/
def number : Nat → Reader Nat
  | 0 => pure 0
  | n + 1 => do
    let low ← bit
    return low + 2 * (← number n)

/-- The next byte, after the bits of the current byte are dropped. -/
def byte : Reader UInt8 := fun b =>
  match b.rest with
  | [] => none
  | x :: rest => some (x, ⟨0, 0, rest⟩)

/-- The element at an index, which must be there. -/
def element {α : Type} (l : List α) (i : Nat) : Reader α :=
  match l[i]? with
  | some a => pure a
  | none => fail

end Reader

open Reader

/-- Codes of variable length for symbols: the number of codes of each length from 1 up, and the
symbols in the order of their codes. -/
structure PrefixCode where
  /-- The number of codes of each length. -/
  counts : List Nat
  /-- The symbols in the order of their codes. -/
  symbols : List Nat
deriving DecidableEq, Inhabited

namespace PrefixCode

/-- The longest codes have so many bits. -/
def maxLength : Nat := 15

/-- The code in which each symbol has a code of the given length, or none if that is zero. -/
def ofLengths (lengths : List Nat) : PrefixCode :=
  let sizes := (List.range maxLength).map (· + 1)
  { counts := sizes.map fun n => lengths.count n
    symbols := sizes.flatMap fun n =>
      (List.range lengths.length).filter fun s => lengths[s]? = some n }

/-- Reads on in a code whose bits so far make up half of `code`, where `first` is the first code of
the next length and `index` the place of its symbol. -/
def symbolFrom (symbols : List Nat) : List Nat → Nat → Nat → Nat → Reader Nat
  | [], _, _, _ => fail
  | count :: counts, code, first, index => do
    let code := code + (← bit)
    if code < first + count then element symbols (index + (code - first))
    else symbolFrom symbols counts (2 * code) (2 * (first + count)) (index + count)

/-- The next symbol. -/
def symbol (c : PrefixCode) : Reader Nat := symbolFrom c.symbols c.counts 0 0 0

end PrefixCode

/-- The least length, and the number of further bits, of each symbol for a repetition. -/
def lengthSymbols : List (Nat × Nat) :=
  [(3, 0), (4, 0), (5, 0), (6, 0), (7, 0), (8, 0), (9, 0), (10, 0), (11, 1), (13, 1), (15, 1),
   (17, 1), (19, 2), (23, 2), (27, 2), (31, 2), (35, 3), (43, 3), (51, 3), (59, 3), (67, 4),
   (83, 4), (99, 4), (115, 4), (131, 5), (163, 5), (195, 5), (227, 5), (258, 0)]

/-- The least distance, and the number of further bits, of each symbol for a distance. -/
def distanceSymbols : List (Nat × Nat) :=
  [(1, 0), (2, 0), (3, 0), (4, 0), (5, 1), (7, 1), (9, 2), (13, 2), (17, 3), (25, 3), (33, 4),
   (49, 4), (65, 5), (97, 5), (129, 6), (193, 6), (257, 7), (385, 7), (513, 8), (769, 8),
   (1025, 9), (1537, 9), (2049, 10), (3073, 10), (4097, 11), (6145, 11), (8193, 12), (12289, 12),
   (16385, 13), (24577, 13)]

/-- The number that a symbol and further bits stand for. -/
def extended (table : List (Nat × Nat)) (symbol : Nat) : Reader Nat := do
  let (least, bits) ← element table symbol
  return least + (← number bits)

/-- Repeats what stands at a distance from the end, byte by byte. -/
def repeatFrom (distance : Nat) : Nat → Array UInt8 → Reader (Array UInt8)
  | 0, out => pure out
  | n + 1, out =>
    match if distance ≤ out.size then out[out.size - distance]? else none with
    | some b => repeatFrom distance n (out.push b)
    | none => fail

/-- Reads coded bytes and repetitions up to the end of the block, with a budget of symbols. -/
def coded (literals distances : PrefixCode) : Nat → Array UInt8 → Reader (Array UInt8)
  | 0, _ => fail
  | n + 1, out => do
    let s ← literals.symbol
    if s < 256 then coded literals distances n (out.push (UInt8.ofNat s))
    else if s = 256 then return out
    else
      let length ← extended lengthSymbols (s - 257)
      let distance ← extended distanceSymbols (← distances.symbol)
      coded literals distances n (← repeatFrom distance length out)

/-- The codes of blocks that do not bring their own. -/
def fixedCodes : PrefixCode × PrefixCode :=
  (.ofLengths (List.replicate 144 8 ++ List.replicate 112 9 ++ List.replicate 24 7
      ++ List.replicate 8 8),
    .ofLengths (List.replicate 30 5))

/-- The order in which the lengths of the codes for lengths are given. -/
def lengthOrder : List Nat := [16, 17, 18, 0, 8, 7, 9, 6, 10, 5, 11, 4, 12, 3, 13, 2, 14, 1, 15]

/-- Reads lengths of codes until there are enough, with a budget of symbols.  The lengths so far are
in reverse order. -/
def lengths (code : PrefixCode) (wanted : Nat) : Nat → List Nat → Reader (List Nat)
  | 0, _ => fail
  | n + 1, sofar => do
    if sofar.length = wanted then return sofar.reverse
    if wanted < sofar.length then fail
    let s ← code.symbol
    if s < 16 then lengths code wanted n (s :: sofar)
    else if s = 16 then
      let times ← number 2
      let last ← element sofar 0
      lengths code wanted n (List.replicate (times + 3) last ++ sofar)
    else
      let times ← if s = 17 then (· + 3) <$> number 3 else (· + 11) <$> number 7
      lengths code wanted n (List.replicate times 0 ++ sofar)

/-- So many numbers of three bits. -/
def shortNumbers : Nat → Reader (List Nat)
  | 0 => pure []
  | n + 1 => do
    let a ← number 3
    return a :: (← shortNumbers n)

/-- The codes that stand at the start of a block. -/
def ownCodes : Reader (PrefixCode × PrefixCode) := do
  let literals := (← number 5) + 257
  let distances := (← number 5) + 1
  let given ← shortNumbers ((← number 4) + 4)
  let pairs := lengthOrder.zip given
  let code := PrefixCode.ofLengths ((List.range 19).map fun s => (pairs.lookup s).getD 0)
  let all ← lengths code (literals + distances) (literals + distances + 1) []
  return (.ofLengths (all.take literals), .ofLengths (all.drop literals))

/-- So many bytes as they are. -/
def plainBytes : Nat → Array UInt8 → Reader (Array UInt8)
  | 0, out => pure out
  | n + 1, out => do plainBytes n (out.push (← byte))

/-- The bytes of a block that is not packed, after its length. -/
def plain (out : Array UInt8) : Reader (Array UInt8) := do
  let low ← byte
  let high ← byte
  discard byte
  discard byte
  plainBytes (low.toNat + 256 * high.toNat) out

/-- Reads blocks up to the last one, with a budget of symbols for each block and of blocks. -/
def blocks (symbols : Nat) : Nat → Array UInt8 → Reader (Array UInt8)
  | 0, _ => fail
  | n + 1, out => do
    let isLast ← bit
    let kind ← number 2
    let out ←
      if kind = 0 then plain out
      else if kind = 1 then coded fixedCodes.1 fixedCodes.2 symbols out
      else if kind = 2 then do
        let (literals, distances) ← ownCodes
        coded literals distances symbols out
      else fail
    if isLast = 1 then return out else blocks symbols n out

/-- The data that was deflated.  Each symbol and each block takes a bit at least, which bounds their
number. -/
def inflate? (data : List UInt8) : Option (List UInt8) :=
  let budget := 8 * data.length + 1
  ((blocks budget budget #[]).run { rest := data }).map fun r => r.1.toList

end JavaSema.Inflate
