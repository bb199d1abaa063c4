import ActiveMQCpp.DecafInteger
import Mathlib.Data.List.GetD

/-! `decaf::util::BitSet`: words of 64 bits that grow with the indexes set in them. Words from `actualArrayLength`
on have not been used; that length is kept lazily, with a flag that says whether it is known to be exact. -/

namespace ActiveMQCpp.Decaf

open MachineInt

/-- The exceptions of the class, and `undefined` for an access outside the words that are allocated. -/
inductive BitSetException where
  | negativeArraySizeException
  | indexOutOfBoundsException
  | undefined
  deriving DecidableEq

/-- An array of `unsigned long long`. -/
abbrev Words := List (BitVec 64)

structure BitSet where
  /-- The words that are allocated. -/
  bits : Words
  bitsSize : Nat
  needClear : Bool := false
  actualArrayLength : Nat := 0
  isLengthActual : Bool := true
  deriving DecidableEq

namespace BitSet

/-- `TWO_N_ARRAY[index & RIGHT_BITS]`. -/
def twoN (index : Nat) : BitVec 64 := 1#64 <<< (index % 64)

/-- `length << OFFSET`, an `int`. -/
def shiftOffset (length : Nat) : Int := toInt32 (length * 64 : Nat)

/-! ### Words and loops over words -/

def word (bits : Words) (pos : Nat) : Except BitSetException (BitVec 64) :=
  match bits[pos]? with
  | some w => .ok w
  | none => .error .undefined

def modifyWord (f : BitVec 64 → BitVec 64) (pos : Nat) (bits : Words) : Except BitSetException Words := do
  let w ← word bits pos
  .ok (bits.set pos (f w))

/-- `for (i = pos; i < pos + count; i++) bits[i] = f(bits[i])`. -/
def modifyWords (f : BitVec 64 → BitVec 64) : (pos count : Nat) → Words → Except BitSetException Words
  | _, 0, bits => .ok bits
  | pos, count + 1, bits => do
    let bits ← modifyWord f pos bits
    modifyWords f (pos + 1) count bits

/-- `for (i = pos; i < pos + count; i++) bits[i] = op(bits[i], other[i])`. -/
def combineWords (op : BitVec 64 → BitVec 64 → BitVec 64) (other : Words) :
    (pos count : Nat) → Words → Except BitSetException Words
  | _, 0, bits => .ok bits
  | pos, count + 1, bits => do
    let w ← word other pos
    let bits ← modifyWord (fun v => op v w) pos bits
    combineWords op other (pos + 1) count bits

/-- The number of words up to the last one among the first `length` that is not zero. -/
def usedWords (bits : Words) : Nat → Except BitSetException Nat
  | 0 => .ok 0
  | length + 1 => do
    let w ← word bits length
    if w = 0 then usedWords bits length else .ok (length + 1)

/-- The state of `isLengthActual` that is computed from the last word in use. -/
def lastWordUsed (bits : Words) (actualArrayLength : Nat) : Except BitSetException Bool :=
  if actualArrayLength > 0 then do
    let w ← word bits (actualArrayLength - 1)
    .ok (w != 0)
  else .ok true

/-! ### Construction and copies -/

/-- `BitSet()`. -/
def empty : BitSet := { bits := [0], bitsSize := 1 }

/-- `BitSet(int bitCount)`. -/
def new (bitCount : Int) : Except BitSetException BitSet :=
  if bitCount < 0 then .error .negativeArraySizeException
  else
    let bitsSize := bitCount.toNat / 64 + if bitCount.toNat % 64 > 0 then 1 else 0
    .ok { bits := List.replicate bitsSize 0, bitsSize := bitsSize }

/-- `System::arraycopy` of the first `length` words into a new array of `size` words; the other words of the
new array are not initialized, so a copy that leaves some of them is not modelled further. -/
def arraycopy (bits : Words) (size length : Nat) : Except BitSetException Words :=
  if length > bits.length ∨ length ≠ size then .error .undefined
  else .ok (bits.take length)

/-- `BitSet(const BitSet& set)`. -/
def copy (set : BitSet) : Except BitSetException BitSet := do
  let bits ← arraycopy set.bits set.bitsSize set.bitsSize
  .ok { set with bits := bits }

/-- `operator=`. The words of the target are deleted first; where it is the argument as well (`same`), the copy
reads the new words, and none of them is initialized. -/
def assign (same : Bool) (set : BitSet) : Except BitSetException BitSet := do
  let bits ← arraycopy (if same then [] else set.bits) set.bitsSize set.bitsSize
  .ok { set with bits := bits }

def ensureCapacity (length : Nat) (s : BitSet) : Except BitSetException BitSet :=
  let newSize := max length (s.bitsSize * 2)
  if s.actualArrayLength > s.bits.length ∨ s.actualArrayLength > newSize then .error .undefined
  else .ok { s with
    bits := s.bits.take s.actualArrayLength ++ List.replicate (newSize - s.actualArrayLength) 0
    bitsSize := newSize }

def reserve (len : Nat) (s : BitSet) : Except BitSetException BitSet :=
  if len > s.bitsSize then s.ensureCapacity len else .ok s

/-- `getActualArrayLength`, which remembers what it finds. -/
def getActualArrayLength (s : BitSet) : Except BitSetException BitSet :=
  if s.isLengthActual then .ok s
  else do
    let length ← usedWords s.bits s.actualArrayLength
    .ok { s with actualArrayLength := length, isLengthActual := true }

/-! ### Single bits -/

def get (index : Int) (s : BitSet) : Except BitSetException Bool :=
  if index < 0 then .error .indexOutOfBoundsException
  else
    let arrayPos := index.toNat / 64
    if arrayPos < s.actualArrayLength then do
      let w ← word s.bits arrayPos
      .ok (w &&& twoN index.toNat != 0)
    else .ok false

def set (index : Int) (s : BitSet) : Except BitSetException BitSet :=
  if index < 0 then .error .indexOutOfBoundsException
  else do
    let len := index.toNat / 64 + 1
    let s ← s.reserve len
    let bits ← modifyWord (· ||| twoN index.toNat) (len - 1) s.bits
    let s := { s with bits := bits, needClear := true }
    if len > s.actualArrayLength then .ok { s with actualArrayLength := len, isLengthActual := true }
    else .ok s

def clear (index : Int) (s : BitSet) : Except BitSetException BitSet :=
  if index < 0 then .error .indexOutOfBoundsException
  else if s.needClear = false then .ok s
  else
    let arrayPos := index.toNat / 64
    if arrayPos < s.actualArrayLength then do
      let bits ← modifyWord (· &&& ~~~twoN index.toNat) arrayPos s.bits
      let last ← word bits (s.actualArrayLength - 1)
      .ok { s with bits := bits, isLengthActual := s.isLengthActual && last != 0 }
    else .ok s

def flip (index : Int) (s : BitSet) : Except BitSetException BitSet :=
  if index < 0 then .error .indexOutOfBoundsException
  else do
    let len := index.toNat / 64 + 1
    let s ← s.reserve len
    let bits ← modifyWord (· ^^^ twoN index.toNat) (len - 1) s.bits
    let actualArrayLength := max s.actualArrayLength len
    let isLengthActual ← lastWordUsed bits actualArrayLength
    .ok { s with
      bits := bits
      needClear := true
      actualArrayLength := actualArrayLength
      isLengthActual := isLengthActual }

/-- `set(int index, bool value)`. -/
def setValue (index : Int) (value : Bool) (s : BitSet) : Except BitSetException BitSet :=
  if value then s.set index else s.clear index

/-! ### Ranges of bits -/

def invalidRange (fromIndex toIndex : Int) : Bool :=
  decide (fromIndex < 0) || decide (toIndex < 0) || decide (toIndex < fromIndex)

/-- The bits from `fromIndex` on, in its word. -/
def factor1 (fromIndex : Nat) : BitVec 64 := BitVec.allOnes 64 <<< (fromIndex % 64)

/-- The bits below `toIndex`, in the word of the last one of them. -/
def factor2 (toIndex : Nat) : BitVec 64 :=
  let shift := 64 - toIndex % 64
  if shift < 64 then BitVec.allOnes 64 >>> shift else BitVec.allOnes 64

/-- The update of the words that `set`, `clear` and `flip` share: `op` takes a word and the mask of the bits
to be changed. -/
def modifyRange (op : BitVec 64 → BitVec 64 → BitVec 64) (fromIndex toIndex : Nat) (bits : Words) :
    Except BitSetException Words :=
  let idx1 := fromIndex / 64
  let idx2 := (toIndex - 1) / 64
  if idx1 = idx2 then modifyWord (fun w => op w (factor1 fromIndex &&& factor2 toIndex)) idx1 bits
  else do
    let bits ← modifyWord (fun w => op w (factor1 fromIndex)) idx1 bits
    let bits ← modifyWord (fun w => op w (factor2 toIndex)) idx2 bits
    modifyWords (fun w => op w (BitVec.allOnes 64)) (idx1 + 1) (idx2 - (idx1 + 1)) bits

def setRange (fromIndex toIndex : Int) (s : BitSet) : Except BitSetException BitSet :=
  if invalidRange fromIndex toIndex then .error .indexOutOfBoundsException
  else if fromIndex = toIndex then .ok s
  else do
    let len2 := (toIndex.toNat - 1) / 64 + 1
    let s ← s.reserve len2
    let bits ← modifyRange (· ||| ·) fromIndex.toNat toIndex.toNat s.bits
    let s := { s with bits := bits, needClear := true }
    if len2 > s.actualArrayLength then .ok { s with actualArrayLength := len2, isLengthActual := true }
    else .ok s

def clearRange (fromIndex toIndex : Int) (s : BitSet) : Except BitSetException BitSet :=
  if invalidRange fromIndex toIndex then .error .indexOutOfBoundsException
  else if s.needClear = false then .ok s
  else
    let last := shiftOffset s.actualArrayLength
    if fromIndex ≥ last ∨ fromIndex = toIndex then .ok s
    else do
      let toIndex := if toIndex > last then last else toIndex
      let bits ← modifyRange (fun w mask => w &&& ~~~mask) fromIndex.toNat toIndex.toNat s.bits
      let isLengthActual ← lastWordUsed bits s.actualArrayLength
      .ok { s with bits := bits, isLengthActual := s.isLengthActual && isLengthActual }

def flipRange (fromIndex toIndex : Int) (s : BitSet) : Except BitSetException BitSet :=
  if invalidRange fromIndex toIndex then .error .indexOutOfBoundsException
  else if fromIndex = toIndex then .ok s
  else do
    let len2 := (toIndex.toNat - 1) / 64 + 1
    let s ← s.reserve len2
    let bits ← modifyRange (· ^^^ ·) fromIndex.toNat toIndex.toNat s.bits
    let actualArrayLength := max s.actualArrayLength len2
    let isLengthActual ← lastWordUsed bits actualArrayLength
    .ok { s with
      bits := bits
      needClear := true
      actualArrayLength := actualArrayLength
      isLengthActual := isLengthActual }

/-- `set(int fromIndex, int toIndex, bool value)`. -/
def setRangeValue (fromIndex toIndex : Int) (value : Bool) (s : BitSet) : Except BitSetException BitSet :=
  if value then s.setRange fromIndex toIndex else s.clearRange fromIndex toIndex

/-- `clear()`. -/
def clearAll (s : BitSet) : Except BitSetException BitSet :=
  if s.needClear then do
    let bits ← modifyWords (fun _ => 0) 0 s.bitsSize s.bits
    .ok { s with bits := bits, actualArrayLength := 0, isLengthActual := true, needClear := false }
  else .ok s

/-- Every element is shifted down and takes the bits shifted out of the next one. -/
def shiftDown (numBitsToShift : Nat) : Words → Words
  | [] => []
  | [w] => [w >>> numBitsToShift]
  | w :: next :: rest =>
    (w >>> numBitsToShift ||| next <<< (64 - numBitsToShift)) :: shiftDown numBitsToShift (next :: rest)

/-- The number of elements up to the last one that is not zero, or all of them. -/
def actualLen (newbits : Words) : Nat :=
  newbits.zipIdx.foldl (fun len (w, i) => if w ≠ 0 then i + 1 else len) newbits.length

/-- `get(int fromIndex, int toIndex)`. -/
def getRange (fromIndex toIndex : Int) (s : BitSet) : Except BitSetException BitSet :=
  if invalidRange fromIndex toIndex then .error .indexOutOfBoundsException
  else
    let last := shiftOffset s.actualArrayLength
    if fromIndex ≥ last ∨ fromIndex = toIndex then new 0
    else
      let toIndex := if toIndex > last then last else toIndex
      let idx1 := fromIndex.toNat / 64
      let idx2 := (toIndex.toNat - 1) / 64
      let factor1 := factor1 fromIndex.toNat
      let factor2 := factor2 toIndex.toNat
      if idx1 = idx2 then do
        let w ← word s.bits idx1
        let result := (w &&& (factor1 &&& factor2)) >>> (fromIndex.toNat % 64)
        if result = 0 then new 0
        else .ok { bits := [result], bitsSize := 1, needClear := s.needClear, actualArrayLength := 1 }
      else do
        let newBitsSize := idx2 - idx1 + 1
        let first ← word s.bits idx1
        let last ← word s.bits idx2
        let newbits := (first &&& factor1) :: (s.bits.drop (idx1 + 1)).take (idx2 - idx1 - 1) ++ [last &&& factor2]
        let numBitsToShift := fromIndex.toNat % 64
        let newbits := if numBitsToShift ≠ 0 then shiftDown numBitsToShift newbits else newbits
        let actualLen := if numBitsToShift ≠ 0 then actualLen newbits else newBitsSize
        let isLengthActual ← lastWordUsed newbits actualLen
        .ok { bits := newbits
              bitsSize := newBitsSize
              needClear := s.needClear
              actualArrayLength := actualLen
              isLengthActual := isLengthActual }

/-! ### Two sets -/

def AND (set s : BitSet) : Except BitSetException BitSet :=
  if s.needClear = false then .ok s
  else
    let length1 := s.actualArrayLength
    let length2 := set.actualArrayLength
    if length1 ≤ length2 then do
      let bits ← combineWords (· &&& ·) set.bits 0 length1 s.bits
      let isLengthActual ← lastWordUsed bits length1
      .ok { s with bits := bits, isLengthActual := isLengthActual }
    else do
      let bits ← combineWords (· &&& ·) set.bits 0 length2 s.bits
      let bits ← modifyWords (fun _ => 0) length2 (length1 - length2) bits
      let isLengthActual ← lastWordUsed bits length2
      .ok { s with bits := bits, actualArrayLength := length2, isLengthActual := isLengthActual }

def andNot (set s : BitSet) : Except BitSetException BitSet :=
  if s.needClear = false then .ok s
  else do
    let range := min s.actualArrayLength set.actualArrayLength
    let bits ← combineWords (fun w other => w &&& ~~~other) set.bits 0 range s.bits
    let actualArrayLength := max s.actualArrayLength range
    let isLengthActual ← lastWordUsed bits actualArrayLength
    .ok { s with bits := bits, actualArrayLength := actualArrayLength, isLengthActual := isLengthActual }

/-- The words of the argument of `OR` and `XOR` in an array of their own, with the receiver's combined into them. -/
def combineInto (op : BitVec 64 → BitVec 64 → BitVec 64) (set s : BitSet) : Except BitSetException Words := do
  let tempBits ← arraycopy set.bits set.actualArrayLength set.actualArrayLength
  combineWords op s.bits 0 s.actualArrayLength tempBits

/-- `OR`, for an argument after its `getActualArrayLength`. Where the words do not fit, they are allocated anew;
`bitsSize` stays. -/
def OR (set s : BitSet) : Except BitSetException BitSet :=
  let setActualLen := set.actualArrayLength
  if setActualLen > s.bitsSize then do
    let tempBits ← combineInto (· ||| ·) set s
    .ok { s with bits := tempBits, actualArrayLength := setActualLen, isLengthActual := true, needClear := true }
  else do
    let bits ← combineWords (· ||| ·) set.bits 0 setActualLen s.bits
    let s := { s with bits := bits, needClear := true }
    if setActualLen > s.actualArrayLength then .ok { s with actualArrayLength := setActualLen, isLengthActual := true }
    else .ok s

/-- `XOR`, likewise. -/
def XOR (set s : BitSet) : Except BitSetException BitSet :=
  let setActualLength := set.actualArrayLength
  if setActualLength > s.bitsSize then do
    let tempBits ← combineInto (· ^^^ ·) set s
    let isLengthActual ← lastWordUsed tempBits setActualLength
    .ok { s with
      bits := tempBits
      actualArrayLength := setActualLength
      isLengthActual := isLengthActual
      needClear := true }
  else do
    let bits ← combineWords (· ^^^ ·) set.bits 0 setActualLength s.bits
    let s := { s with bits := bits, needClear := true }
    if setActualLength > s.actualArrayLength then
      .ok { s with actualArrayLength := setActualLength, isLengthActual := true }
    else .ok s

def meetWords (bits bsBits : Words) : (pos count : Nat) → Except BitSetException Bool
  | _, 0 => .ok false
  | pos, count + 1 => do
    let w ← word bits pos
    let other ← word bsBits pos
    if w &&& other ≠ 0 then .ok true else meetWords bits bsBits (pos + 1) count

def intersects (set s : BitSet) : Except BitSetException Bool :=
  if s.actualArrayLength ≤ set.actualArrayLength then meetWords s.bits set.bits 0 s.actualArrayLength
  else meetWords s.bits set.bits 0 set.actualArrayLength

def sameWords (bits bsBits : Words) : (pos count : Nat) → Except BitSetException Bool
  | _, 0 => .ok true
  | pos, count + 1 => do
    let w ← word bits pos
    let other ← word bsBits pos
    if w ≠ other then .ok false else sameWords bits bsBits (pos + 1) count

def zeroWords (bits : Words) : (pos count : Nat) → Except BitSetException Bool
  | _, 0 => .ok true
  | pos, count + 1 => do
    let w ← word bits pos
    if w ≠ 0 then .ok false else zeroWords bits (pos + 1) count

/-- `equals`; `same` says that the two are one object. -/
def equals (same : Bool) (set s : BitSet) : Except BitSetException Bool :=
  let length1 := s.actualArrayLength
  let length2 := set.actualArrayLength
  if same then .ok true
  else if s.isLengthActual ∧ set.isLengthActual ∧ length1 ≠ length2 then .ok false
  else if length1 ≤ length2 then do
    if ← sameWords s.bits set.bits 0 length1 then zeroWords set.bits length1 (length2 - length1) else .ok false
  else do
    if ← sameWords s.bits set.bits 0 length2 then zeroWords s.bits length2 (length1 - length2) else .ok false

/-! ### Queries -/

/-- `pop`, on 64 bits. -/
def pop (x : BitVec 64) : Nat :=
  let x := x - ((x >>> 1) &&& 0x55555555#64)
  let x := (x &&& 0x33333333#64) + ((x >>> 2) &&& 0x33333333#64)
  let x := (x + (x >>> 4)) &&& 0x0f0f0f0f#64
  let x := x + (x >>> 8)
  let x := x + (x >>> 16)
  (x.setWidth 32 &&& 0x0000003f#32).toNat

def countWords (bits : Words) : (pos count : Nat) → Except BitSetException Nat
  | _, 0 => .ok 0
  | pos, count + 1 => do
    let w ← word bits pos
    let rest ← countWords bits (pos + 1) count
    .ok (pop (w &&& 0xffffffff#64) + pop (w >>> 32) + rest)

def cardinality (s : BitSet) : Except BitSetException Nat :=
  if s.needClear = false then .ok 0 else countWords s.bits 0 s.bitsSize

def isEmpty (s : BitSet) : Except BitSetException Bool :=
  if s.needClear = false then .ok true else zeroWords s.bits 0 s.bitsSize

/-- `while ((val & (TWO_N_ARRAY[i])) == 0 && i > 0) i--`. -/
def highestBit (val : BitVec 64) : Nat → Nat
  | 0 => 0
  | i + 1 => if val &&& twoN (i + 1) = 0 then highestBit val i else i + 1

/-- `length`, which also remembers the number of words up to the last one that is not zero. -/
def length (s : BitSet) : Except BitSetException (Int × BitSet) := do
  let used ← usedWords s.bits s.actualArrayLength
  let s := { s with actualArrayLength := used }
  if used = 0 then .ok (0, s)
  else
    let val ← word s.bits (used - 1)
    .ok (toInt32 (shiftOffset (used - 1) + highestBit val 63 + 1), s)

/-- The first bit of a word with the given value, among `count` bits from `j` on. -/
def findBit (value : Bool) (w : BitVec 64) : (j count : Nat) → Option Nat
  | _, 0 => none
  | j, count + 1 => if (w &&& twoN j != 0) = value then some j else findBit value w (j + 1) count

/-- The first word from `idx` on that is not `skip`, or the end. -/
def skipWords (bits : Words) (skip : BitVec 64) : (idx count : Nat) → Except BitSetException Nat
  | idx, 0 => .ok idx
  | idx, count + 1 => do
    let w ← word bits idx
    if w = skip then skipWords bits skip (idx + 1) count else .ok idx

/-- The search that `nextSetBit` and `nextClearBit` share: for a bit with the given value, skipping the words
that have none; `beyond` is returned for an index after the words in use and `absent` where none is found. -/
def nextBit (value : Bool) (skip : BitVec 64) (beyond absent index : Int) (s : BitSet) : Except BitSetException Int :=
  if index < 0 then .error .indexOutOfBoundsException
  else if index ≥ shiftOffset s.actualArrayLength then .ok beyond
  else do
    let idx := index.toNat / 64
    let w ← word s.bits idx
    match if w ≠ skip then findBit value w (index.toNat % 64) (64 - index.toNat % 64) else none with
    | some j => .ok (shiftOffset idx + j)
    | none =>
      let idx ← skipWords s.bits skip (idx + 1) (s.actualArrayLength - (idx + 1))
      if idx = s.actualArrayLength then .ok absent
      else
        let w ← word s.bits idx
        match findBit value w 0 64 with
        | some j => .ok (shiftOffset idx + j)
        | none => .ok absent

def nextSetBit (index : Int) (s : BitSet) : Except BitSetException Int := nextBit true 0 (-1) (-1) index s

def nextClearBit (index : Int) (s : BitSet) : Except BitSetException Int :=
  nextBit false (BitVec.allOnes 64) index (shiftOffset s.actualArrayLength) index s

/-- The loop of `toString` over the bits of a word. -/
def appendBits (w : BitVec 64) : (j count bitCount : Nat) → ByteString × Bool → ByteString × Bool
  | _, 0, _, sb => sb
  | j, count + 1, bitCount, (sb, comma) =>
    if w &&& twoN j ≠ 0 then
      appendBits w (j + 1) count (bitCount + 1)
        ((if comma then sb ++ ascii ", " else sb) ++ Integer.toString bitCount, true)
    else appendBits w (j + 1) count (bitCount + 1) (sb, comma)

def appendWords (bits : Words) : (pos count bitCount : Nat) → ByteString × Bool →
    Except BitSetException (ByteString × Bool)
  | _, 0, _, sb => .ok sb
  | pos, count + 1, bitCount, sb => do
    let w ← word bits pos
    appendWords bits (pos + 1) count (bitCount + 64) (if w = 0 then sb else appendBits w 0 64 bitCount sb)

def toString (s : BitSet) : Except BitSetException ByteString := do
  let (sb, _) ← appendWords s.bits 0 s.bitsSize 0 (ascii "\x7b", false)
  .ok (sb ++ ascii "\x7d")

end BitSet

end ActiveMQCpp.Decaf
