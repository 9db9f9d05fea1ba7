import MuduoRebuild.Fault
import MuduoRebuild.Foundations.Block
import MuduoRebuild.Foundations.Word64

/-!
# `Buffer`: the growable byte buffer

The class `Buffer` keeps its bytes in one `std::vector<char>` with two indices:

```
| prependable bytes |  readable bytes  |  writable bytes  |
0        <=     readIndex     <=    writeIndex    <=   buffer.size()
```

The indices and all sizes have type `size_t`, so differences of sizes wrap (`Word64`). A
member function that violates an `assert`, lets `std::copy` run outside the vector or asks the
vector for more than `max_size()` cells ends in a `Fault`.
-/

namespace MuduoRebuild

/-- `std::vector<char>::max_size()`. -/
def maxSize : ℕ := 2 ^ 63 - 1

/-- `buffer.resize(n)`: new bytes are zero. -/
def resize (buffer : List UInt8) (n : ℕ) : Except Fault (List UInt8) :=
  if n ≤ maxSize then .ok (Block.resize 0 buffer n) else .error .lengthError

/-- `std::copy(data, data + len, buffer.data() + pos)` from outside the vector. -/
def copyIn (buffer : List UInt8) (pos : ℕ) (data : List UInt8) : Except Fault (List UInt8) :=
  if pos + data.length ≤ buffer.length then .ok (Block.splice buffer pos data)
  else .error .outOfBounds

/-- `std::copy(buffer.data() + first, buffer.data() + last, buffer.data() + dst)` inside the
vector, front to back. -/
def copyWithin (buffer : List UInt8) (first last dst : ℕ) : Except Fault (List UInt8) :=
  if first ≤ last ∧ last ≤ buffer.length ∧ dst + (last - first) ≤ buffer.length then
    .ok (Block.copyForward buffer first dst (last - first))
  else .error .outOfBounds

/-- `std::string(buffer.data() + first, len)`. -/
def copyOut (buffer : List UInt8) (first len : ℕ) : Except Fault (List UInt8) :=
  if first + len ≤ buffer.length then .ok (Block.slice buffer first (first + len))
  else .error .outOfBounds

/-- The data members of the class. -/
structure Buffer where
  buffer : List UInt8
  readIndex : ℕ
  writeIndex : ℕ
  deriving DecidableEq, Repr

namespace Buffer

def kCheapPrepend : ℕ := 8

def kInitialSize : ℕ := 1024

/-- The constructor. -/
def fresh : Buffer where
  buffer := List.replicate (kCheapPrepend + kInitialSize) 0
  readIndex := kCheapPrepend
  writeIndex := kCheapPrepend

def readableBytes (b : Buffer) : ℕ := Word64.sub b.writeIndex b.readIndex

def writableBytes (b : Buffer) : ℕ := Word64.sub b.buffer.length b.writeIndex

def prependableBytes (b : Buffer) : ℕ := b.readIndex

def hasWritten (b : Buffer) (len : ℕ) : Buffer :=
  { b with writeIndex := Word64.add b.writeIndex len }

/-- Whether `makeSpace` grows the vector; otherwise it moves the content to the front. -/
def mustGrow (b : Buffer) (len : ℕ) : Bool :=
  Word64.add b.writableBytes b.prependableBytes < Word64.add len kCheapPrepend

def makeSpace (b : Buffer) (len : ℕ) : Except Fault Buffer :=
  if b.mustGrow len then do
    let buffer ← resize b.buffer (Word64.add b.writableBytes len)
    return { b with buffer }
  else do
    assertThat (kCheapPrepend < b.readIndex)
    let readable := b.readableBytes
    let buffer ← copyWithin b.buffer b.readIndex b.writeIndex kCheapPrepend
    let b' : Buffer :=
      { buffer, readIndex := kCheapPrepend, writeIndex := Word64.add kCheapPrepend readable }
    assertThat (readable = b'.readableBytes)
    return b'

def ensureWritable (b : Buffer) (len : ℕ) : Except Fault Buffer := do
  let b' ← (if b.writableBytes < len then b.makeSpace len else .ok b)
  assertThat (len ≤ b'.writableBytes)
  return b'

def append (b : Buffer) (data : List UInt8) : Except Fault Buffer := do
  let b' ← b.ensureWritable data.length
  let buffer ← copyIn b'.buffer b'.writeIndex data
  return { b' with buffer }.hasWritten data.length

def retrieve (b : Buffer) (len : ℕ) : Except Fault Buffer := do
  assertThat (len ≤ b.readableBytes)
  return { b with readIndex := Word64.add b.readIndex len }

def retrieveAll (b : Buffer) : Buffer :=
  { b with readIndex := kCheapPrepend, writeIndex := kCheapPrepend }

/-- The returned string, and the emptied buffer. -/
def retrieveAsString (b : Buffer) : Except Fault (List UInt8 × Buffer) := do
  let str ← copyOut b.buffer b.readIndex b.readableBytes
  return (str, b.retrieveAll)

def prepend (b : Buffer) (data : List UInt8) : Except Fault Buffer := do
  assertThat (data.length ≤ b.prependableBytes)
  let readIndex := Word64.sub b.readIndex data.length
  let buffer ← copyIn b.buffer readIndex data
  return { b with buffer, readIndex }

/-- The readable bytes. -/
def content (b : Buffer) : List UInt8 := Block.slice b.buffer b.readIndex b.writeIndex

end Buffer

end MuduoRebuild
