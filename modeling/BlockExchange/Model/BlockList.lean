import BlockExchange.Sha256
import BlockExchange.Model.Error
import BlockExchange.Model.FileRecord

namespace BlockExchange

structure Block where
  offset : Int
  size : Int
  hash : String
  deriving DecidableEq, Repr

namespace Block

def hashBytes (b : Block) : Except ModelError Bytes :=
  match Hex.decode b.hash with
  | .ok bytes => .ok bytes
  | .error e => .error (.blockHashNotHex e)

def joinedHashes (blocks : List Block) : Except ModelError Bytes := do
  return (← blocks.mapM hashBytes).flatten

def totalSize (blocks : List Block) : Int :=
  blocks.foldr (fun b total => b.size + total) 0

end Block

structure BlockList where
  folder : String
  path : String
  blocks : List Block
  hash : String
  size : Int
  hash_eq : (Block.joinedHashes blocks).map (fun h => Hex.encode (Sha256.digest h)) = .ok hash
  size_eq : Block.totalSize blocks = size
  deriving DecidableEq

namespace BlockList

def ofBlocks (folder path : String) (blocks : List Block) : Except ModelError BlockList :=
  match h : Block.joinedHashes blocks with
  | .error e => .error e
  | .ok hashes =>
    .ok ⟨folder, path, blocks, Hex.encode (Sha256.digest hashes), Block.totalSize blocks,
      by rw [h]; rfl, rfl⟩

def checkAgainst (b : BlockList) (r : FileRecord) : Except ModelError Unit :=
  match r.kind with
  | .file hash size _ =>
    if b.folder ≠ r.folder then .error (.blocksMismatch r.folder r.path .folder)
    else if b.path ≠ r.path then .error (.blocksMismatch r.folder r.path .path)
    else if b.size ≠ size then .error (.blocksMismatch r.folder r.path .size)
    else if b.hash ≠ hash then .error (.blocksMismatch r.folder r.path .hash)
    else .ok ()
  | other => .error (.blocksOnNonFile other.name)

end BlockList

end BlockExchange
