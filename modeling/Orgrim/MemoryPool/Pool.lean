import Mathlib.Data.Finset.Card
import Mathlib.Data.Finset.Option
import Orgrim.Theory.Heap
import Orgrim.Theory.Machine

/-!
# The memory pool

`MemoryChunk.cpp` and `MemoryPool.cpp`.  A `CMemoryPool` hands out blocks of a few sizes, each
from a `CMemoryChunk` that keeps the blocks it got back in a list threaded through the memory
it hands out; larger requests go to `malloc`.  The memory of a block is a sequence of 8-byte
words, and a pointer is a block with the number of words before it.  What `malloc` answers is
an argument of every call, see `Heap.malloc`.

An access outside of an allocated block, a word used as something else than was stored there,
an index outside of `m_pChunkList` and an overflow of an `int` have no result.  The locks of the
chunks are left out.
-/

namespace MemoryPool

/-- `size_t` -/
abbrev SizeT : Type := BitVec 64

/-- `MIN_SIZE` -/
def minSize : SizeT := 8#64

/-- `MAX_SIZE` -/
def maxSize : SizeT := 1024#64

/-- `sizeof(MemoryHeap_t)` -/
def memoryHeapSize : SizeT := 8#64

/-- `sizeof(BlockHeader_t)` -/
def blockHeaderSize : SizeT := 16#64

/-- The largest `int`. -/
abbrev intMax : ℕ := 2 ^ 31 - 1

/-- An 8-byte word in memory: an `nSize`, a `pChunk`, a `pNext`, or data of the user. -/
inductive Word (β : Type) where
  | size (nSize : SizeT)
  | chunk (i : ℕ)
  | next (pNext : Option β)
  | data (w : SizeT)

namespace Word

variable {β : Type}

def toSize : Word β → Option SizeT
  | size nSize => some nSize
  | _ => none

def toChunk : Word β → Option ℕ
  | chunk i => some i
  | _ => none

def toNext : Word β → Option (Option β)
  | next pNext => some pNext
  | _ => none

end Word

/-- The code that called `malloc`: `CreateBlock` of a chunk, or `LargeMalloc`. -/
inductive Caller where
  | createBlock (i : ℕ)
  | largeMalloc
deriving DecidableEq

/-- A block of memory: the bytes `malloc` was asked for, and by whom, and its words. -/
structure Block (β : Type) where
  size : SizeT
  caller : Caller
  word : ℕ → Word β

/-- A pointer into a block, behind `offset` words. -/
structure Ptr (β : Type) where
  block : β
  offset : ℕ
deriving DecidableEq

namespace Ptr

variable {β : Type}

/-- The pointer `words` words before `pMem`. -/
def sub (pMem : Ptr β) (words : ℕ) : Option (Ptr β) :=
  if words ≤ pMem.offset then some ⟨pMem.block, pMem.offset - words⟩ else none

/-- The block that `pMem` is the start of. -/
def base (pMem : Ptr β) : Option β :=
  if pMem.offset = 0 then some pMem.block else none

end Ptr

/-! ### Words of blocks -/

section

variable {β : Type}

/-- `malloc` is asked for `size` bytes. -/
def Block.requested (size : SizeT) (caller : Caller) (block : Block β) : Block β :=
  { block with size := size, caller := caller }

/-- The word `k` is stored. -/
def Block.setWord (k : ℕ) (w : Word β) (block : Block β) : Block β :=
  { block with word := Function.update block.word k w }

/-- The word `k` lies inside of a block. -/
def Block.Contains (block : Block β) (k : ℕ) : Prop := 8 * (k + 1) ≤ block.size.toNat

instance (block : Block β) (k : ℕ) : Decidable (block.Contains k) :=
  inferInstanceAs (Decidable (_ ≤ _))

variable [DecidableEq β]

def loadWord (heap : Heap β (Block β)) (b : β) (k : ℕ) : Option (Word β) :=
  (heap.load b).bind (fun block => if block.Contains k then some (block.word k) else none)

def storeWord (heap : Heap β (Block β)) (b : β) (k : ℕ) (w : Word β) :
    Option (Heap β (Block β)) :=
  if (heap.cell b).Contains k then heap.modify b (Block.setWord k w) else none

end

/-! ### Chunks -/

structure CMemoryChunk (β : Type) where
  pFreeBlock : Option β
  nSize : SizeT
  iBlockCount : ℕ

/-- A pool, and the memory; a `CMemoryChunk *` is an index into `pChunkList`. -/
structure CMemoryPool (β : Type) where
  heap : Heap β (Block β)
  pChunkList : List (CMemoryChunk β)
  nMaxSize : SizeT

namespace CMemoryPool

variable {β : Type} [DecidableEq β]

/-- The pool where `m_pChunkList[i]` is `chunk`. -/
def setChunk (pool : CMemoryPool β) (i : ℕ) (chunk : CMemoryChunk β) : CMemoryPool β :=
  { pool with pChunkList := pool.pChunkList.set i chunk }

/-- `CMemoryChunk::CreateBlock` -/
def createBlock (pool : CMemoryPool β) (i : ℕ) (answer : Option β) :
    Option (Option β × CMemoryPool β) := do
  let chunk ← pool.pChunkList[i]?
  let (pBlock, heap) :=
    pool.heap.malloc answer (Block.requested (blockHeaderSize + chunk.nSize) (.createBlock i))
  match pBlock with
  | none => some (none, pool)
  | some b => do
      let heap ← storeWord heap b 0 (.chunk i)
      let heap ← storeWord heap b 1 (.size chunk.nSize)
      if chunk.iBlockCount < intMax then
        let pool := { pool with heap := heap }
        some (some b, pool.setChunk i { chunk with iBlockCount := chunk.iBlockCount + 1 })
      else none

/-- `CMemoryChunk::Free(MemBlock_t *)` -/
def freeBlock (pool : CMemoryPool β) (i : ℕ) (b : β) : Option (CMemoryPool β) := do
  let chunk ← pool.pChunkList[i]?
  let heap ← storeWord pool.heap b 2 (.next chunk.pFreeBlock)
  let pool := { pool with heap := heap }
  some (pool.setChunk i { chunk with pFreeBlock := some b })

/-- `CMemoryChunk::Malloc` -/
def chunkMalloc (pool : CMemoryPool β) (i : ℕ) (answer : Option β) :
    Option (Option (Ptr β) × CMemoryPool β) := do
  let chunk ← pool.pChunkList[i]?
  match chunk.pFreeBlock with
  | some b => do
      let pNext ← (loadWord pool.heap b 2).bind Word.toNext
      some (some ⟨b, 2⟩, pool.setChunk i { chunk with pFreeBlock := pNext })
  | none => do
      let (pBlock, pool) ← pool.createBlock i answer
      some (pBlock.map (fun b => ⟨b, 2⟩), pool)

/-- `CMemoryChunk::Free(void *)` -/
def chunkFree (pool : CMemoryPool β) (pMem : Ptr β) : Option (CMemoryPool β) := do
  let pBlock ← pMem.sub 2
  let b ← pBlock.base
  let i ← (loadWord pool.heap b 0).bind Word.toChunk
  pool.freeBlock i b

/-- The loop of the constructor of `CMemoryChunk`.  It puts a block into the list of free
blocks with the two statements of `Free`. -/
def createBlocks (i : ℕ) (answer : ℕ → Option β) : ℕ → CMemoryPool β → Option (CMemoryPool β)
  | 0, pool => some pool
  | iBlockNum + 1, pool => do
      let (pBlock, pool) ← pool.createBlock i (answer iBlockNum)
      match pBlock with
      | none => some pool
      | some b => do
          let pool ← pool.freeBlock i b
          createBlocks i answer iBlockNum pool

/-- The loop of the destructor of `CMemoryChunk`, with `iFreedCount`: it ends, for every block
it frees was allocated. -/
def deleteBlocks : ℕ → Heap β (Block β) → Option β → ℕ → Option (ℕ × Heap β (Block β))
  | _, heap, none, iFreedCount => some (iFreedCount, heap)
  | 0, _, some _, _ => none
  | fuel + 1, heap, some b, iFreedCount => do
      let pNext ← (loadWord heap b 2).bind Word.toNext
      let heap ← heap.free b
      deleteBlocks fuel heap pNext (iFreedCount + 1)

/-! ### Pools -/

/-- The sizes the loops of the constructor go through, from `size` on; a `size_t` can be
doubled 64 times at most before it is zero. -/
def sizesFrom (nMaxSize : SizeT) : ℕ → SizeT → List SizeT
  | 0, _ => []
  | fuel + 1, size =>
      if size ≤ nMaxSize then size :: sizesFrom nMaxSize fuel (size * 2) else []

def chunkSizes (nMaxSize : SizeT) : List SizeT := sizesFrom nMaxSize 64 minSize

/-- `m_nMaxSize`, as the constructor sets it. -/
def clamp (nMaxSize : SizeT) : SizeT := if nMaxSize > maxSize then maxSize else nMaxSize

/-- The constructor of `CMemoryChunk`; the chunk is the next one in `m_pChunkList`. -/
def createChunk (iBlockNum : ℕ) (answers : ℕ → ℕ → Option β) (pool : CMemoryPool β)
    (nSize : SizeT) : Option (CMemoryPool β) :=
  createBlocks pool.pChunkList.length (answers pool.pChunkList.length) iBlockNum
    { pool with pChunkList := pool.pChunkList ++ [⟨none, nSize, 0⟩] }

/-- The constructor of `CMemoryPool`; `answers` is what `malloc` answers to every chunk. -/
def create (heap : Heap β (Block β)) (nMaxSize : SizeT) (iChunkBlockNum : ℕ)
    (answers : ℕ → ℕ → Option β) : Option (CMemoryPool β) :=
  (chunkSizes (clamp nMaxSize)).foldlM (createChunk iChunkBlockNum answers)
    ⟨heap, [], clamp nMaxSize⟩

/-- The loop of `New`, with `i`. -/
def indexFrom (nMaxSize nSize : SizeT) : ℕ → SizeT → ℕ → ℕ
  | 0, _, i => i
  | fuel + 1, size, i =>
      if size ≤ nMaxSize then
        if size ≥ nSize then i else indexFrom nMaxSize nSize fuel (size * 2) (i + 1)
      else i

/-- The index into `m_pChunkList` that `New` selects. -/
def chunkIndex (pool : CMemoryPool β) (nSize : SizeT) : ℕ :=
  indexFrom pool.nMaxSize nSize 64 minSize 0

/-- `LargeMalloc` -/
def largeMalloc (pool : CMemoryPool β) (nSize : SizeT) (answer : Option β) :
    Option (Option (Ptr β) × CMemoryPool β) :=
  let (pHeap, heap) :=
    pool.heap.malloc answer (Block.requested (memoryHeapSize + nSize) .largeMalloc)
  match pHeap with
  | none => some (none, pool)
  | some b => do
      let heap ← storeWord heap b 0 (.size nSize)
      some (some ⟨b, 1⟩, { pool with heap := heap })

/-- `LargeFree` -/
def largeFree (pool : CMemoryPool β) (pMem : Ptr β) : Option (Bool × CMemoryPool β) := do
  let pHeap ← pMem.sub 1
  let nSize ← (loadWord pool.heap pHeap.block pHeap.offset).bind Word.toSize
  if nSize > pool.nMaxSize then do
    let b ← pHeap.base
    let heap ← pool.heap.free b
    some (true, { pool with heap := heap })
  else some (false, pool)

/-- `New` -/
def new (pool : CMemoryPool β) (nSize : SizeT) (answer : Option β) :
    Option (Option (Ptr β) × CMemoryPool β) :=
  if nSize > pool.nMaxSize then pool.largeMalloc nSize answer
  else pool.chunkMalloc (pool.chunkIndex nSize) answer

/-- `Delete` -/
def delete (pool : CMemoryPool β) (pMem : Ptr β) : Option (CMemoryPool β) := do
  let (freed, pool) ← pool.largeFree pMem
  if freed then some pool else pool.chunkFree pMem

/-- The destructors of the chunks, one after the other; `some none` if the assertion of one of
them fails. -/
def deleteChunks : List (CMemoryChunk β) → Heap β (Block β) → Option (Option (Heap β (Block β)))
  | [], heap => some (some heap)
  | chunk :: chunks, heap => do
      let (iFreedCount, heap) ← deleteBlocks heap.live.card heap chunk.pFreeBlock 0
      if iFreedCount = chunk.iBlockCount then deleteChunks chunks heap else some none

/-- The destructor -/
def destroy (pool : CMemoryPool β) : Option (Option (Heap β (Block β))) :=
  deleteChunks pool.pChunkList pool.heap

end CMemoryPool

/-! ### Using a pool -/

/-- What a program does with a pool: it calls `New` and `Delete`, and stores words in its
memory. -/
inductive Call (β : Type) where
  | new (nSize : SizeT) (answer : Option β)
  | delete (pMem : Ptr β)
  | store (pMem : Ptr β) (k : ℕ) (w : Word β)

/-- A pool, with the pointers that `New` returned and that have not been deleted. -/
structure Use (β : Type) where
  pool : CMemoryPool β
  live : Finset (Ptr β)

variable {β : Type} [DecidableEq β]

def Use.call (x : Use β) : Call β → Option (Use β)
  | .new nSize answer =>
      (x.pool.new nSize answer).map (fun r => ⟨r.2, r.1.toFinset ∪ x.live⟩)
  | .delete pMem => (x.pool.delete pMem).map (fun pool => ⟨pool, x.live.erase pMem⟩)
  | .store pMem k w =>
      (storeWord x.pool.heap pMem.block (pMem.offset + k) w).map
        (fun heap => ⟨{ x.pool with heap := heap }, x.live⟩)

/-- The program keeps to its memory: it deletes what it got and not yet deleted, and stores
there only; and no size is so large that it cannot be had. -/
def Use.Permits (x : Use β) : Call β → Prop
  | .new nSize _ => nSize.toNat < 2 ^ 64 - 8
  | .delete pMem => pMem ∈ x.live
  | .store pMem _ _ => pMem ∈ x.live

instance (x : Use β) : (c : Call β) → Decidable (x.Permits c)
  | .new _ _ => inferInstanceAs (Decidable (_ < _))
  | .delete _ => inferInstanceAs (Decidable (_ ∈ _))
  | .store _ _ _ => inferInstanceAs (Decidable (_ ∈ _))

/-- Pools in use. -/
def memoryPool : Machine (Use β) (Call β) where
  step x c := x.call c

end MemoryPool
