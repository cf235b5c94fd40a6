import TxDb.BlockTreeStore

/-!
# The sidechain tree database

`WriteSidechainIndex` writes only objects of operation `DB_SIDECHAIN_BLOCK_OP`, while
`WriteSidechainBlockData` writes under the operation the data carries and `GetBlockData`
reads under the block operation only (`getBlockData_runOps`).
-/

namespace TxDb
namespace CSidechainTreeDB

open CBlockTreeDB (writeAll read_applyOps_puts pairKey_injective)

/-- What the sidechain database takes from headers `src/` does not include
(`sidechain.h`, `dbwrapper.h`): the tag `DB_SIDECHAIN_BLOCK_OP`, the serializer of
`SidechainBlockData`, and the operation a block data carries.  `ReadSidechain`, the
read of `GetBlockData`, is taken to be the point read `Read` is, with that
serializer. -/
structure SidechainExternals (D : Type) where
  DB_SIDECHAIN_BLOCK_OP : UInt8
  blockData : Serializer D
  sidechainop : D → UInt8

/-- A `SidechainObj` of the index list: its operation, and the block data a cast to
`SidechainBlockData` reads, which is written only when the operation is the block
one. -/
structure SidechainObj (D : Type) where
  sidechainop : UInt8
  data : D

variable {D : Type} (ext : SidechainExternals D)

/-! ## The writes and the readers -/

/-- `CSidechainTreeDB::WriteSidechainIndex`: one batch with a write of each object of
`list` whose operation is the block one, under `(sidechainop, objid)`. -/
def writeSidechainIndex (list : List (Uint256 × SidechainObj D)) : CDBBatch :=
  list.foldl (fun batch x =>
    if x.2.sidechainop = ext.DB_SIDECHAIN_BLOCK_OP then
      batch.write (pairKey x.2.sidechainop x.1) (ext.blockData.ser x.2.data)
    else batch) CDBBatch.empty

/-- `CSidechainTreeDB::WriteSidechainBlockData`: the data under its own operation and
the hash, in one batch. -/
def writeSidechainBlockData (data : Uint256 × D) : CDBBatch :=
  CDBBatch.empty.write (pairKey (ext.sidechainop data.2) data.1) (ext.blockData.ser data.2)

/-- `CSidechainTreeDB::GetBlockData`: `ReadSidechain` of `(DB_SIDECHAIN_BLOCK_OP, hashBlock)`. -/
def getBlockData (db : Db) (hashBlock : Uint256) : Option D :=
  db.read ext.blockData (pairKey ext.DB_SIDECHAIN_BLOCK_OP hashBlock)

/-- `CSidechainTreeDB::HaveBlockData`. -/
def haveBlockData (db : Db) (hashBlock : Uint256) : Bool := (getBlockData ext db hashBlock).isSome

/-- The block data of the index list that `WriteSidechainIndex` writes, with their ids. -/
def indexedBlocks (list : List (Uint256 × SidechainObj D)) : List (Uint256 × D) :=
  (list.filter fun x => x.2.sidechainop = ext.DB_SIDECHAIN_BLOCK_OP).map fun x => (x.1, x.2.data)

theorem ops_writeSidechainIndex (list : List (Uint256 × SidechainObj D)) :
    (writeSidechainIndex ext list).ops = (indexedBlocks ext list).map fun x =>
      .put (pairKey ext.DB_SIDECHAIN_BLOCK_OP x.1) (ext.blockData.ser x.2) := by
  suffices ∀ batch : CDBBatch, (list.foldl (fun batch x =>
      if x.2.sidechainop = ext.DB_SIDECHAIN_BLOCK_OP then
        batch.write (pairKey x.2.sidechainop x.1) (ext.blockData.ser x.2.data)
      else batch) batch).ops = batch.ops ++ (indexedBlocks ext list).map fun x =>
        .put (pairKey ext.DB_SIDECHAIN_BLOCK_OP x.1) (ext.blockData.ser x.2) from this CDBBatch.empty
  induction list with
  | nil => simp [indexedBlocks]
  | cons x list ih =>
      intro batch
      by_cases hx : x.2.sidechainop = ext.DB_SIDECHAIN_BLOCK_OP <;>
        simp [indexedBlocks, List.filter_cons, hx, ih]

/-- The writes of the database, each one `WriteBatch` call. -/
inductive SidechainOp (D : Type) where
  | writeSidechainIndex (list : List (Uint256 × SidechainObj D))
  | writeSidechainBlockData (data : Uint256 × D)

namespace SidechainOp

def batch : SidechainOp D → CDBBatch
  | writeSidechainIndex list => CSidechainTreeDB.writeSidechainIndex ext list
  | writeSidechainBlockData data => CSidechainTreeDB.writeSidechainBlockData ext data

/-- What a write needs for the block data it writes under the block operation to
read back. -/
def Fits : SidechainOp D → Prop
  | writeSidechainIndex list => ∀ x ∈ indexedBlocks ext list, ext.blockData.RoundTrips x.2
  | writeSidechainBlockData data =>
      ext.sidechainop data.2 = ext.DB_SIDECHAIN_BLOCK_OP → ext.blockData.RoundTrips data.2

end SidechainOp

def runOps (db : Db) (ops : List (SidechainOp D)) : Db := db.writeBatches (ops.map (·.batch ext))

/-! ## What the database is for -/

/-- Per hash, the block data last written under the block operation: an index write
of its block objects in turn, or a block data that carries the block operation. -/
def step (v : Uint256 → Option D) : SidechainOp D → Uint256 → Option D
  | .writeSidechainIndex list => writeAll v (indexedBlocks ext list)
  | .writeSidechainBlockData data =>
      if ext.sidechainop data.2 = ext.DB_SIDECHAIN_BLOCK_OP then Function.update v data.1 (some data.2)
      else v

def run (ops : List (SidechainOp D)) : Uint256 → Option D := ops.foldl (step ext) fun _ => none

/-! ## Every write keeps the relation -/

variable {ext}

theorem getBlockData_step {db : Db} {v : Uint256 → Option D} (hr : ∀ h, getBlockData ext db h = v h)
    (op : SidechainOp D) (hfits : op.Fits ext) (h : Uint256) :
    getBlockData ext (db.writeBatch (op.batch ext)) h = step ext v op h := by
  cases op with
  | writeSidechainIndex list =>
      rw [getBlockData, SidechainOp.batch, Db.writeBatch, ops_writeSidechainIndex]
      exact read_applyOps_puts (P := fun _ => True) (fun _ _ _ _ heq => pairKey_injective heq) _
        (fun x hx => ⟨trivial, hfits x hx⟩) db v (fun a _ => hr a) h trivial
  | writeSidechainBlockData data =>
      simp only [SidechainOp.batch, step, writeSidechainBlockData, getBlockData, Db.writeBatch,
        CDBBatch.ops_write, CDBBatch.ops_empty, List.nil_append, Db.applyOps_cons, Db.applyOps_nil,
        Db.apply, Db.read, Db.get_put]
      by_cases hop : ext.sidechainop data.2 = ext.DB_SIDECHAIN_BLOCK_OP
      · by_cases hh : h = data.1
        · subst hh
          simp [hop, Serializer.read_ser (hfits hop)]
        · have hkey : pairKey (ext.sidechainop data.2) data.1 ≠ pairKey ext.DB_SIDECHAIN_BLOCK_OP h :=
            fun heq => hh (pairKey_injective (hop ▸ heq)).symm
          rw [if_neg hkey, if_pos hop, Function.update_noteq hh, ← hr h, getBlockData, Db.read]
      · -- the record goes under another operation, where `GetBlockData` does not read
        have hkey : pairKey (ext.sidechainop data.2) data.1 ≠ pairKey ext.DB_SIDECHAIN_BLOCK_OP h :=
          fun heq => hop (List.cons.inj heq).1
        rw [if_neg hkey, if_neg hop, ← hr h, getBlockData, Db.read]

/-- **The sidechain database after any run** answers each hash with the block data written
last under the operation `GetBlockData` reads. -/
theorem getBlockData_runOps (ops : List (SidechainOp D)) (hfits : ∀ op ∈ ops, op.Fits ext)
    (h : Uint256) :
    getBlockData ext (runOps ext Db.empty ops) h = run ext ops h ∧
      haveBlockData ext (runOps ext Db.empty ops) h = (run ext ops h).isSome := by
  suffices ∀ (db : Db) (v : Uint256 → Option D), (∀ h, getBlockData ext db h = v h) →
      ∀ h, getBlockData ext (db.writeBatches (ops.map (·.batch ext))) h = ops.foldl (step ext) v h by
    have hget := this Db.empty (fun _ => none) (fun _ => rfl) h
    exact ⟨hget, by rw [haveBlockData, runOps, hget, run]⟩
  induction ops with
  | nil => exact fun _ _ hr => hr
  | cons op ops ih =>
      intro db v hr
      exact ih (fun op' hop' => hfits op' (List.mem_cons_of_mem _ hop')) _ _
        (getBlockData_step hr op (hfits op (List.mem_cons_self _ _)))

/-- Block data that are hashes, carrying their first byte as their operation, with
`'s'` as the block operation. -/
def Reference.sidechainExt : SidechainExternals Uint256 :=
  ⟨0x73, Uint256.serializer, fun d => d.data.headD 0⟩

def Reference.sidechainRun : List (SidechainOp Uint256) :=
  [.writeSidechainIndex [(Reference.tip, ⟨0x73, Reference.tip⟩), (Uint256.zero, ⟨0x01, Reference.tip⟩)],
    .writeSidechainBlockData (Reference.tip, Uint256.zero)]

theorem getBlockData_runOps_sidechainRun :
    (∀ op ∈ Reference.sidechainRun, op.Fits Reference.sidechainExt) ∧
      getBlockData Reference.sidechainExt (runOps Reference.sidechainExt Db.empty Reference.sidechainRun)
          Reference.tip = run Reference.sidechainExt Reference.sidechainRun Reference.tip ∧
        haveBlockData Reference.sidechainExt
            (runOps Reference.sidechainExt Db.empty Reference.sidechainRun) Reference.tip =
          (run Reference.sidechainExt Reference.sidechainRun Reference.tip).isSome :=
  have hfits : ∀ op ∈ Reference.sidechainRun, op.Fits Reference.sidechainExt := by
    intro op hop
    simp only [Reference.sidechainRun, List.mem_cons, List.mem_singleton, List.not_mem_nil,
      or_false] at hop
    rcases hop with rfl | rfl
    · intro x _
      exact Uint256.roundTrips _
    · exact fun _ => Uint256.roundTrips _
  ⟨hfits, getBlockData_runOps Reference.sidechainRun hfits Reference.tip⟩

end CSidechainTreeDB
end TxDb
