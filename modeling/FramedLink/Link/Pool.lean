import FramedLink.Bytes

/-! # Storage blocks

A pool lends out blocks of one size and takes them back. Every free block is blank, so a pool is
known by how many are free.
-/

namespace FramedLink

/-- A block on loan. -/
structure Buffer where
  block : Bytes
  /-- How many of its bytes mean something. -/
  length : Nat := 0
  deriving DecidableEq, Repr, Inhabited

namespace Buffer

def capacity (b : Buffer) : Nat := b.block.length

def contents (b : Buffer) : Bytes := b.block.take b.length

/-- The buffer with `data` over the start of its block, and the same length as before. -/
def write (b : Buffer) (data : Bytes) : Buffer := { b with block := b.block.overlay data }

/-- The buffer with another length, at most that of the block. -/
def setLength (b : Buffer) (length : Nat) : Buffer := { b with length := min length b.capacity }

/-- The buffer with `data` as its contents, as much of it as fits. -/
def fill (b : Buffer) (data : Bytes) : Buffer := (b.write data).setLength data.length

@[simp] theorem capacity_fill (b : Buffer) (data : Bytes) :
    (b.fill data).capacity = b.capacity := by
  simp [fill, setLength, write, capacity]

theorem contents_fill {b : Buffer} {data : Bytes} (h : data.length ≤ b.capacity) :
    (b.fill data).contents = data := by
  have fits : min data.length b.block.length = data.length := Nat.min_eq_left h
  simp only [fill, setLength, write, contents, capacity, Bytes.length_overlay, fits]
  exact Bytes.take_overlay h

end Buffer

structure Pool where
  blockSize : Nat
  blocks : Nat
  /-- How many blocks are not on loan. -/
  free : Nat
  deriving DecidableEq, Repr, Inhabited

namespace Pool

/-- A pool with none of its blocks on loan. -/
def ofSize (blockSize blocks : Nat) : Pool := ⟨blockSize, blocks, blocks⟩

/-- A blank block and the pool without it, unless all are on loan. -/
def acquire (p : Pool) : Option (Buffer × Pool) :=
  match p.free with
  | 0 => none
  | free + 1 => some ({ block := List.replicate p.blockSize 0 }, { p with free })

/-- The pool with a block given back. A block of another size, or beyond those of the pool, is
dropped. -/
def release (p : Pool) (b : Buffer) : Pool :=
  if b.capacity = p.blockSize ∧ p.free < p.blocks then { p with free := p.free + 1 } else p

def releaseAll (p : Pool) (buffers : List Buffer) : Pool := buffers.foldl release p

@[simp] theorem blockSize_release (p : Pool) (b : Buffer) :
    (p.release b).blockSize = p.blockSize := by
  unfold release
  split <;> rfl

@[simp] theorem blocks_release (p : Pool) (b : Buffer) : (p.release b).blocks = p.blocks := by
  unfold release
  split <;> rfl

theorem releaseAll_eq {p : Pool} {buffers : List Buffer}
    (sized : ∀ b ∈ buffers, b.capacity = p.blockSize) (room : p.free + buffers.length ≤ p.blocks) :
    p.releaseAll buffers = { p with free := p.free + buffers.length } := by
  induction buffers generalizing p with
  | nil => rfl
  | cons b rest ih =>
    have hb : b.capacity = p.blockSize := sized b (by simp)
    simp only [List.length_cons] at room
    have step : p.release b = { p with free := p.free + 1 } := by
      rw [release, if_pos ⟨hb, by omega⟩]
    have later := ih (p := { p with free := p.free + 1 })
      (fun b' hb' => sized b' (by simp [hb'])) (by simp only; omega)
    simp only [releaseAll, List.foldl_cons, step] at later ⊢
    rw [later]
    simp only [List.length_cons]
    congr 1
    omega

end Pool

end FramedLink
