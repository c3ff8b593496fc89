import AmmarServer.Lib.CBuffer
import AmmarServer.Lib.Substitution

/-! The replacement of variables in a memory handler, `AString/AString.c`. The block that `content`
points at is the list of its bytes, and a pointer into it is an index. Names and values are the
bytes before their NUL. -/

namespace AmmarServer.AString
open CString Substitution

inductive Fault
  | outOfBounds
deriving DecidableEq, Repr

structure MemoryHandler where
  contentSize : ℕ
  contentCurrentLength : ℕ
  content : List UInt8
deriving DecidableEq, Repr

/-- `realloc`: the bytes that fit the new block are kept. -/
structure Allocator where
  realloc : List UInt8 → ℕ → Option (List UInt8)
  length : ∀ block size block', realloc block size = some block' → block'.length = size
  kept : ∀ block size block', realloc block size = some block' →
    block'.take block.length = block.take size

/-- `*target = *source`. -/
def copyByte (block : List UInt8) (target source : ℕ) : Except Fault (List UInt8) :=
  if source < block.length ∧ target < block.length then .ok (block.set target (charAt block source))
  else .error .outOfBounds

/-- The bytes of a loop that runs down from the last one. -/
def reverseSyncMemcpy (block : List UInt8) (target source : ℕ) : ℕ → Except Fault (List UInt8)
  | 0 => .ok block
  | sourceLength + 1 =>
    (copyByte block (target + sourceLength) (source + sourceLength)).bind fun block =>
      reverseSyncMemcpy block target source sourceLength

def straightSyncMemcpy (block : List UInt8) (target source : ℕ) : ℕ → Except Fault (List UInt8)
  | 0 => .ok block
  | sourceLength + 1 =>
    (copyByte block target source).bind fun block =>
      straightSyncMemcpy block (target + 1) (source + 1) sourceLength

/-- `memcpy` of bytes from outside the block. -/
def memcpy (block : List UInt8) (target : ℕ) (bytes : List UInt8) : Except Fault (List UInt8) :=
  if target + bytes.length ≤ block.length then
    .ok (block.take target ++ (bytes ++ block.drop (target + bytes.length)))
  else .error .outOfBounds

variable (allocator : Allocator)

/-- The answer, the handler and `offset`. -/
def injectDataToMemoryHandlerOffset (mh : MemoryHandler) (offset : ℕ) (var value : List UInt8) :
    Except Fault (Bool × MemoryHandler × ℕ) :=
  match firstAt var (cstring (mh.content.drop offset)) with
  | none => .ok (false, mh, offset)
  | some found =>
    let varPtr := offset + found
    let injectOffset := varPtr % 2 ^ 32
    let valueLength := value.length % 2 ^ 32
    let varLength := var.length % 2 ^ 32
    let startLength := varPtr % 2 ^ 32
    let endPtr := varPtr + varLength
    -- the difference is an `unsigned int`
    let endLength := ((mh.contentCurrentLength : ℤ) - endPtr) % 2 ^ 32 |>.toNat
    if valueLength = varLength then
      (memcpy mh.content varPtr (value.take valueLength)).map fun content =>
        (true, { mh with content }, injectOffset)
    else if valueLength ≤ varLength then
      (memcpy mh.content varPtr (value.take valueLength)).bind fun content =>
        (straightSyncMemcpy content (varPtr + valueLength) endPtr endLength).bind fun content =>
          let contentCurrentLength := (startLength + valueLength + endLength) % 2 ^ 32
          (memcpy content contentCurrentLength [0]).map fun content =>
            (true, { mh with contentCurrentLength, content }, injectOffset)
    else
      let extraBufferLength := valueLength - varLength
      let oldContentCurrentLength := mh.contentCurrentLength
      let reallocatedBufferSize := (oldContentCurrentLength + extraBufferLength) % 2 ^ 32
      match allocator.realloc mh.content ((reallocatedBufferSize + 1) % 2 ^ 32) with
      | none => .ok (false, mh, injectOffset)
      | some newBuffer =>
        (memcpy newBuffer oldContentCurrentLength [0]).bind fun newBuffer =>
          -- the bytes that the block has got are cleared
          (memcpy newBuffer oldContentCurrentLength
            (List.replicate (reallocatedBufferSize - oldContentCurrentLength) 0)).bind
          fun newBuffer =>
            let contentCurrentLength := reallocatedBufferSize
            let varPtr := injectOffset
            (reverseSyncMemcpy newBuffer (varPtr + valueLength) (varPtr + varLength) endLength).bind
            fun newBuffer =>
              (memcpy newBuffer varPtr (value.take valueLength)).bind fun newBuffer =>
                (memcpy newBuffer contentCurrentLength [0]).map fun content =>
                  (true, ⟨contentCurrentLength, contentCurrentLength, content⟩, injectOffset)

/-- The loop of `astringReplaceAllInstancesOfVarInMemoryFile`. -/
def replaceRemaining (var value : List UInt8) :
    ℕ → MemoryHandler → ℕ → Except Fault (Bool × MemoryHandler × ℕ)
  | 0, mh, offset => .ok (true, mh, offset)
  | remainingInstances + 1, mh, offset =>
    (injectDataToMemoryHandlerOffset allocator mh offset var value).bind
      fun (injected, mh, offset) =>
        if injected then replaceRemaining var value remainingInstances mh offset
        else .ok (false, mh, offset)

def replaceAllInstancesOfVarInMemoryFile (mh : MemoryHandler) (instances : ℕ)
    (var value : List UInt8) : Except Fault (Bool × MemoryHandler) :=
  if instances = 0 then .ok (false, mh)
  else (replaceRemaining allocator var value instances mh 0).map fun (replaced, mh, _) =>
    (replaced, mh)

end AmmarServer.AString
