import TxDb.BlockTree

/-!
# The block index database as a store

The six kinds of record of `CBlockTreeDB` have six first bytes, so the database is six
tables of last-written values (`BlockTreeView`).  Every write keeps `Refines`, so after
any run each reader answers as the view (`refines_runOps`), and the load computes what
the run's `WriteBatchSync` calls alone give (`loadBlockIndexGuts_runOps`).
-/

namespace TxDb
namespace CBlockTreeDB

def DB_TXINDEX : UInt8 := 0x74

def DB_FLAG : UInt8 := 0x46

def DB_REINDEX_FLAG : UInt8 := 0x52

/-! ## Keys and values -/

def charSer : Serializer UInt8 where
  ser c := [c]
  deser
    | [] => none
    | c :: bs => some (c, bs)

def intSer : Serializer Int where
  ser := writeInt32
  deser := readInt32

/-- Modelled from the spec: a `std::string` as `serialize.h` writes it, a
`CompactSize` length, then the bytes. -/
def writeString (s : Bytes) : Bytes := writeCompactSize s.length ++ s

/-- The key `std::make_pair(DB_BLOCK_FILES, nFile)`. -/
def blockFilesKey (nFile : Int) : Bytes := DB_BLOCK_FILES :: writeInt32 nFile

/-- The key `std::make_pair(DB_FLAG, name)`. -/
def flagKey (name : Bytes) : Bytes := DB_FLAG :: writeString name

theorem blockFilesKey_injective {n n' : Int} (hn : -2 ^ 31 ≤ n ∧ n < 2 ^ 31)
    (hn' : -2 ^ 31 ≤ n' ∧ n' < 2 ^ 31) (h : blockFilesKey n = blockFilesKey n') : n = n' := by
  have hread := readInt32_writeInt32 hn.1 hn.2 []
  rw [(List.cons.inj h).2, readInt32_writeInt32 hn'.1 hn'.2] at hread
  simpa using hread.symm

theorem flagKey_injective {a b : Bytes} (ha : a.length ≤ MAX_SIZE) (hb : b.length ≤ MAX_SIZE)
    (h : flagKey a = flagKey b) : a = b := by
  have hread := readCompactSize_writeCompactSize ha a
  rw [show writeCompactSize a.length ++ a = writeCompactSize b.length ++ b from (List.cons.inj h).2,
    readCompactSize_writeCompactSize hb] at hread
  exact (Prod.mk.inj (Option.some.inj hread)).2.symm

theorem pairKey_injective {tag : UInt8} {h h' : Uint256} (heq : pairKey tag h = pairKey tag h') :
    h = h' :=
  Uint256.ext (List.cons.inj heq).2

/-! ## The writes and the readers -/

variable {ext : BlockTreeExternals} {TxPos : Type}

/-- `CBlockTreeDB::WriteReindexing`: `Write(DB_REINDEX_FLAG, '1')` or
`Erase(DB_REINDEX_FLAG)`, each a batch of one operation (`CDBWrapper::Write` and
`Erase`, modelled from the spec). -/
def writeReindexing (fReindexing : Bool) : CDBBatch :=
  if fReindexing then CDBBatch.empty.write [DB_REINDEX_FLAG] (charSer.ser 0x31)
  else CDBBatch.empty.erase [DB_REINDEX_FLAG]

/-- `CBlockTreeDB::WriteTxIndex`: each position under `('t', txid)`, in one batch.
`CDiskTxPos` is not in `src/`: the index stores values of any type with a
serializer. -/
def writeTxIndex (txPos : Serializer TxPos) (vect : List (Uint256 × TxPos)) : CDBBatch :=
  CDBBatch.empty.addOps (vect.map fun it => .put (pairKey DB_TXINDEX it.1) (txPos.ser it.2))

/-- `CBlockTreeDB::WriteFlag`: `Write(std::make_pair(DB_FLAG, name), fValue ? '1' : '0')`. -/
def writeFlag (name : Bytes) (fValue : Bool) : CDBBatch :=
  CDBBatch.empty.write (flagKey name) (charSer.ser (if fValue then 0x31 else 0x30))

/-- `CBlockTreeDB::ReadBlockFileInfo`. -/
def readBlockFileInfo (ext : BlockTreeExternals) (db : Db) (nFile : Int) : Option CBlockFileInfo :=
  db.read ext.blockFileInfo (blockFilesKey nFile)

/-- `CBlockTreeDB::ReadReindexing`: it returns `true`, with `fReindexing` set to whether
`'R'` exists. -/
def readReindexing (db : Db) : Bool := db.Exists [DB_REINDEX_FLAG]

/-- `CBlockTreeDB::ReadLastBlockFile`. -/
def readLastBlockFile (db : Db) : Option Int := db.read intSer [DB_LAST_BLOCK]

/-- `CBlockTreeDB::ReadTxIndex`. -/
def readTxIndex (txPos : Serializer TxPos) (db : Db) (txid : Uint256) : Option TxPos :=
  db.read txPos (pairKey DB_TXINDEX txid)

/-- `CBlockTreeDB::ReadFlag`: `none` when the `char` cannot be read (`false`), else
whether it is `'1'`. -/
def readFlag (db : Db) (name : Bytes) : Option Bool :=
  (db.read charSer (flagKey name)).map (· == 0x31)

/-- The writes of the block index database, each one `WriteBatch` call. -/
inductive BlockTreeOp (ext : BlockTreeExternals) (TxPos : Type) where
  | writeBatchSync (c : WriteBatchSyncCall ext)
  | writeReindexing (fReindexing : Bool)
  | writeTxIndex (vect : List (Uint256 × TxPos))
  | writeFlag (name : Bytes) (fValue : Bool)

namespace BlockTreeOp

def batch (txPos : Serializer TxPos) : BlockTreeOp ext TxPos → CDBBatch
  | writeBatchSync c => c.batch
  | writeReindexing fReindexing => CBlockTreeDB.writeReindexing fReindexing
  | writeTxIndex vect => CBlockTreeDB.writeTxIndex txPos vect
  | writeFlag name fValue => CBlockTreeDB.writeFlag name fValue

def tags : BlockTreeOp ext TxPos → List UInt8
  | writeBatchSync _ => [DB_BLOCK_FILES, DB_LAST_BLOCK, DB_BLOCK_INDEX]
  | writeReindexing _ => [DB_REINDEX_FLAG]
  | writeTxIndex _ => [DB_TXINDEX]
  | writeFlag _ _ => [DB_FLAG]

/-- What a write needs for its records to read back: file numbers an `int` holds,
records that decode, a flag name a stream can hold. -/
def Fits (txPos : Serializer TxPos) : BlockTreeOp ext TxPos → Prop
  | writeBatchSync c =>
      (∀ fi ∈ c.fileInfo, (-2 ^ 31 ≤ fi.1 ∧ fi.1 < 2 ^ 31) ∧ ext.blockFileInfo.RoundTrips fi.2) ∧
        (-2 ^ 31 ≤ c.nLastFile ∧ c.nLastFile < 2 ^ 31) ∧
        ∀ b ∈ c.blockinfo, ext.diskBlockIndex.RoundTrips b.disk
  | writeReindexing _ => True
  | writeTxIndex vect => ∀ it ∈ vect, txPos.RoundTrips it.2
  | writeFlag name _ => name.length ≤ MAX_SIZE

end BlockTreeOp

def runOps (txPos : Serializer TxPos) (db : Db) (ops : List (BlockTreeOp ext TxPos)) : Db :=
  db.writeBatches (ops.map (·.batch txPos))

/-! ## What the database is for -/

/-- Per kind of record, the value written last under each key. -/
structure BlockTreeView (TxPos : Type) where
  blockFileInfo : Int → Option CBlockFileInfo
  lastBlockFile : Option Int
  reindexing : Bool
  txIndex : Uint256 → Option TxPos
  flag : Bytes → Option Bool
  blockIndex : Uint256 → Option CDiskBlockIndex

def writeAll {α β : Type} [DecidableEq α] (f : α → Option β) (xs : List (α × β)) : α → Option β :=
  xs.foldl (fun f x => Function.update f x.1 (some x.2)) f

namespace BlockTreeView

def empty : BlockTreeView TxPos :=
  ⟨fun _ => none, none, false, fun _ => none, fun _ => none, fun _ => none⟩

def step (v : BlockTreeView TxPos) : BlockTreeOp ext TxPos → BlockTreeView TxPos
  | .writeBatchSync c => { v with
      blockFileInfo := writeAll v.blockFileInfo c.fileInfo
      lastBlockFile := some c.nLastFile
      blockIndex := writeAll v.blockIndex (c.blockinfo.map fun b => (b.hash, b.disk)) }
  | .writeReindexing fReindexing => { v with reindexing := fReindexing }
  | .writeTxIndex vect => { v with txIndex := writeAll v.txIndex vect }
  | .writeFlag name fValue => { v with flag := Function.update v.flag name (some fValue) }

def run (ops : List (BlockTreeOp ext TxPos)) : BlockTreeView TxPos := ops.foldl step empty

end BlockTreeView

/-- The database answers every reader as the view says, for every file number an
`int` holds and every flag name a stream can hold. -/
structure Refines (ext : BlockTreeExternals) (txPos : Serializer TxPos) (db : Db)
    (v : BlockTreeView TxPos) : Prop where
  blockFileInfo : ∀ n, -2 ^ 31 ≤ n → n < 2 ^ 31 → readBlockFileInfo ext db n = v.blockFileInfo n
  lastBlockFile : readLastBlockFile db = v.lastBlockFile
  reindexing : readReindexing db = v.reindexing
  txIndex : ∀ txid, readTxIndex txPos db txid = v.txIndex txid
  flag : ∀ name, name.length ≤ MAX_SIZE → readFlag db name = v.flag name
  blockIndex : ∀ h, db.read ext.diskBlockIndex (pairKey DB_BLOCK_INDEX h) = v.blockIndex h

/-! ## Frames: a write leaves the other tables alone -/

def AgreeOn (tag : UInt8) (db db' : Db) : Prop :=
  ∀ k, k.head? = some tag → db.get k = db'.get k

variable {tag : UInt8} {db db' : Db}

theorem AgreeOn.trans {db'' : Db} (h : AgreeOn tag db db') (h' : AgreeOn tag db' db'') :
    AgreeOn tag db db'' :=
  fun k hk => (h k hk).trans (h' k hk)

theorem AgreeOn.applyOps (h : AgreeOn tag db db') (ops : List BatchOp) :
    AgreeOn tag (db.applyOps ops) (db'.applyOps ops) := fun k hk => by
  rw [Db.get_applyOps, Db.get_applyOps, h k hk]

theorem agreeOn_applyOps {ops : List BatchOp} (h : ∀ op ∈ ops, op.key.head? ≠ some tag) :
    AgreeOn tag (db.applyOps ops) db :=
  fun _ hk => Db.get_applyOps_of_forall_ne fun op hop hkey => h op hop (hkey ▸ hk)

theorem BlockTreeOp.agreeOn (txPos : Serializer TxPos) (op : BlockTreeOp ext TxPos)
    (htag : tag ∉ op.tags) : AgreeOn tag (db.writeBatch (op.batch txPos)) db := by
  cases op with
  | writeBatchSync c =>
      refine agreeOn_applyOps fun o ho hhead => htag ?_
      simp only [batch, WriteBatchSyncCall.batch, CBlockTreeDB.writeBatchSync, writeBatchSyncOps,
        CDBBatch.ops_addOps, CDBBatch.ops_empty, List.nil_append, List.mem_append, List.mem_cons,
        List.mem_map] at ho
      rcases ho with ⟨fi, -, rfl⟩ | rfl | ⟨b, -, rfl⟩ <;> simp_all [tags, BatchOp.key, blockIndexOp, pairKey]
  | writeReindexing f =>
      refine agreeOn_applyOps fun o ho hhead => htag ?_
      cases f <;> simp_all [batch, CBlockTreeDB.writeReindexing, tags, BatchOp.key]
  | writeTxIndex vect =>
      refine agreeOn_applyOps fun o ho hhead => htag ?_
      simp only [batch, CBlockTreeDB.writeTxIndex, CDBBatch.ops_addOps, CDBBatch.ops_empty,
        List.nil_append, List.mem_map] at ho
      obtain ⟨it, -, rfl⟩ := ho
      simp_all [tags, BatchOp.key, pairKey]
  | writeFlag name fValue =>
      refine agreeOn_applyOps fun o ho hhead => htag ?_
      simp_all [batch, CBlockTreeDB.writeFlag, tags, BatchOp.key, flagKey]

/-! ## The readers read one table each -/

theorem readBlockFileInfo_congr (h : AgreeOn DB_BLOCK_FILES db db') (n : Int) :
    readBlockFileInfo ext db n = readBlockFileInfo ext db' n := by
  rw [readBlockFileInfo, readBlockFileInfo, Db.read, Db.read, h (blockFilesKey n) rfl]

theorem readLastBlockFile_congr (h : AgreeOn DB_LAST_BLOCK db db') :
    readLastBlockFile db = readLastBlockFile db' := by
  rw [readLastBlockFile, readLastBlockFile, Db.read, Db.read, h [DB_LAST_BLOCK] rfl]

theorem readReindexing_congr (h : AgreeOn DB_REINDEX_FLAG db db') :
    readReindexing db = readReindexing db' := by
  rw [readReindexing, readReindexing, Db.Exists, Db.Exists, h [DB_REINDEX_FLAG] rfl]

theorem readTxIndex_congr (txPos : Serializer TxPos) (h : AgreeOn DB_TXINDEX db db') (txid : Uint256) :
    readTxIndex txPos db txid = readTxIndex txPos db' txid := by
  rw [readTxIndex, readTxIndex, Db.read, Db.read, h (pairKey DB_TXINDEX txid) rfl]

theorem readFlag_congr (h : AgreeOn DB_FLAG db db') (name : Bytes) :
    readFlag db name = readFlag db' name := by
  rw [readFlag, readFlag, Db.read, Db.read, h (flagKey name) rfl]

theorem readBlockIndex_congr (h : AgreeOn DB_BLOCK_INDEX db db') (hash : Uint256) :
    db.read ext.diskBlockIndex (pairKey DB_BLOCK_INDEX hash) =
      db'.read ext.diskBlockIndex (pairKey DB_BLOCK_INDEX hash) := by
  rw [Db.read, Db.read, h (pairKey DB_BLOCK_INDEX hash) rfl]

/-! ## Writes of a table -/

theorem read_applyOps_puts {α β : Type} [DecidableEq α] {s : Serializer β} {key : α → Bytes}
    {P : α → Prop} (hinj : ∀ a b, P a → P b → key a = key b → a = b) :
    ∀ (xs : List (α × β)), (∀ x ∈ xs, P x.1 ∧ s.RoundTrips x.2) →
      ∀ (db : Db) (f : α → Option β), (∀ a, P a → db.read s (key a) = f a) →
      ∀ a, P a → (db.applyOps (xs.map fun x => .put (key x.1) (s.ser x.2))).read s (key a) =
        writeAll f xs a
  | [], _, _, _, hf => hf
  | x :: xs, hxs, db, f, hf => by
      obtain ⟨hPx, hrt⟩ := hxs x (List.mem_cons_self _ _)
      refine read_applyOps_puts hinj xs (fun y hy => hxs y (List.mem_cons_of_mem _ hy))
        (db.put (key x.1) (s.ser x.2)) (Function.update f x.1 (some x.2)) fun a ha => ?_
      by_cases hax : a = x.1
      · subst hax
        simp [Db.read, Serializer.read_ser hrt]
      · have hkey : key x.1 ≠ key a := fun h => hax (hinj _ _ ha hPx h.symm)
        rw [Function.update_noteq hax, ← hf a ha]
        simp [Db.read, hkey]

/-! ## Every write keeps the relation -/

variable {txPos : Serializer TxPos} {v : BlockTreeView TxPos}

theorem Refines.writeBatchSync (h : Refines ext txPos db v) (c : WriteBatchSyncCall ext)
    (hfits : (BlockTreeOp.writeBatchSync c).Fits txPos) :
    Refines ext txPos (db.writeBatch c.batch) (v.step (.writeBatchSync c)) := by
  obtain ⟨hfiles, ⟨hlo, hhi⟩, hblocks⟩ := hfits
  let fileOps := c.fileInfo.map fun fi => BatchOp.put (blockFilesKey fi.1) (ext.blockFileInfo.ser fi.2)
  let lastOp := BatchOp.put [DB_LAST_BLOCK] (writeInt32 c.nLastFile)
  let blockOps := (c.blockinfo.map fun b => (b.hash, b.disk)).map fun x =>
    BatchOp.put (pairKey DB_BLOCK_INDEX x.1) (ext.diskBlockIndex.ser x.2)
  -- the batch writes the files, then the last file number, then the blocks
  have hbatch : db.writeBatch c.batch = ((db.applyOps fileOps).apply lastOp).applyOps blockOps := by
    simp [Db.writeBatch, WriteBatchSyncCall.batch, CBlockTreeDB.writeBatchSync, writeBatchSyncOps, fileOps, lastOp,
      blockOps, Db.applyOps_append, blockFilesKey, Function.comp_def]
    rfl
  have hblock : ∀ t ≠ DB_BLOCK_INDEX, AgreeOn t (db.writeBatch c.batch) ((db.applyOps fileOps).apply lastOp) :=
    fun t ht => hbatch ▸ agreeOn_applyOps fun op hop => by
      obtain ⟨x, -, rfl⟩ := List.mem_map.mp hop
      simp [BatchOp.key, pairKey, Ne.symm ht]
  have hlast : ∀ t ≠ DB_LAST_BLOCK, AgreeOn t ((db.applyOps fileOps).apply lastOp) (db.applyOps fileOps) :=
    fun t ht => show AgreeOn t ((db.applyOps fileOps).applyOps [lastOp]) _ from
      agreeOn_applyOps (by simp [lastOp, BatchOp.key, Ne.symm ht])
  have hfile : ∀ t ≠ DB_BLOCK_FILES, AgreeOn t (db.applyOps fileOps) db :=
    fun t ht => agreeOn_applyOps fun op hop => by
      obtain ⟨fi, -, rfl⟩ := List.mem_map.mp hop
      simp [BatchOp.key, blockFilesKey, Ne.symm ht]
  have hother : ∀ t, t ≠ DB_BLOCK_INDEX → t ≠ DB_LAST_BLOCK → t ≠ DB_BLOCK_FILES →
      AgreeOn t (db.writeBatch c.batch) db :=
    fun t hb hl hf => ((hblock t hb).trans (hlast t hl)).trans (hfile t hf)
  refine ⟨fun n hlo' hhi' => ?_, ?_, ?_, ?_, ?_, fun hash => ?_⟩
  · rw [readBlockFileInfo_congr ((hblock _ (by decide)).trans (hlast _ (by decide)))]
    exact read_applyOps_puts (fun a b ha hb => blockFilesKey_injective ha hb) c.fileInfo hfiles _ _
      (fun n hn => h.blockFileInfo n hn.1 hn.2) n ⟨hlo', hhi'⟩
  · rw [readLastBlockFile_congr (hblock _ (by decide))]
    simp [readLastBlockFile, Db.read, Db.apply, lastOp, Serializer.read, intSer,
      BlockTreeView.step, by simpa using readInt32_writeInt32 hlo hhi []]
  · exact (readReindexing_congr (hother _ (by decide) (by decide) (by decide))).trans h.reindexing
  · exact fun txid => (readTxIndex_congr txPos (hother _ (by decide) (by decide) (by decide)) txid).trans
      (h.txIndex txid)
  · exact fun name hname => (readFlag_congr (hother _ (by decide) (by decide) (by decide)) name).trans
      (h.flag name hname)
  · rw [hbatch]
    refine read_applyOps_puts (P := fun _ => True) (fun a b _ _ => pairKey_injective) _
      (fun x hx => ⟨trivial, ?_⟩) _ _ (fun a _ => ?_) hash trivial
    · obtain ⟨b, hb, rfl⟩ := List.mem_map.mp hx
      exact hblocks b hb
    · exact (readBlockIndex_congr ((hlast _ (by decide)).trans (hfile _ (by decide))) a).trans
        (h.blockIndex a)

theorem Refines.step (h : Refines ext txPos db v) (op : BlockTreeOp ext TxPos)
    (hfits : op.Fits txPos) : Refines ext txPos (db.writeBatch (op.batch txPos)) (v.step op) := by
  cases op with
  | writeBatchSync c => exact h.writeBatchSync c hfits
  | writeReindexing f =>
      have hag : ∀ t ≠ DB_REINDEX_FLAG, AgreeOn t (db.writeBatch (writeReindexing f)) db :=
        fun t ht => BlockTreeOp.agreeOn txPos (.writeReindexing f : BlockTreeOp ext TxPos)
          fun hm => ht (List.mem_singleton.mp hm)
      refine ⟨fun n hlo hhi => (readBlockFileInfo_congr (hag _ (by decide)) n).trans
          (h.blockFileInfo n hlo hhi),
        (readLastBlockFile_congr (hag _ (by decide))).trans h.lastBlockFile, ?_,
        fun txid => (readTxIndex_congr txPos (hag _ (by decide)) txid).trans (h.txIndex txid),
        fun name hname => (readFlag_congr (hag _ (by decide)) name).trans (h.flag name hname),
        fun hash => (readBlockIndex_congr (hag _ (by decide)) hash).trans (h.blockIndex hash)⟩
      cases f <;> simp [readReindexing, Db.Exists, Db.writeBatch, BlockTreeOp.batch,
        CBlockTreeDB.writeReindexing, Db.apply, BlockTreeView.step]
  | writeTxIndex vect =>
      have hag : ∀ t ≠ DB_TXINDEX, AgreeOn t (db.writeBatch (writeTxIndex txPos vect)) db :=
        fun t ht => BlockTreeOp.agreeOn txPos (.writeTxIndex vect : BlockTreeOp ext TxPos)
          fun hm => ht (List.mem_singleton.mp hm)
      refine ⟨fun n hlo hhi => (readBlockFileInfo_congr (hag _ (by decide)) n).trans
          (h.blockFileInfo n hlo hhi),
        (readLastBlockFile_congr (hag _ (by decide))).trans h.lastBlockFile,
        (readReindexing_congr (hag _ (by decide))).trans h.reindexing, fun txid => ?_,
        fun name hname => (readFlag_congr (hag _ (by decide)) name).trans (h.flag name hname),
        fun hash => (readBlockIndex_congr (hag _ (by decide)) hash).trans (h.blockIndex hash)⟩
      simpa [readTxIndex, Db.writeBatch, BlockTreeOp.batch, CBlockTreeDB.writeTxIndex] using
        read_applyOps_puts (P := fun _ => True) (fun a b _ _ => pairKey_injective) vect
          (fun x hx => ⟨trivial, hfits x hx⟩) _ _ (fun a _ => h.txIndex a) txid trivial
  | writeFlag name fValue =>
      have hag : ∀ t ≠ DB_FLAG, AgreeOn t (db.writeBatch (writeFlag name fValue)) db :=
        fun t ht => BlockTreeOp.agreeOn txPos (.writeFlag name fValue : BlockTreeOp ext TxPos)
          fun hm => ht (List.mem_singleton.mp hm)
      refine ⟨fun n hlo hhi => (readBlockFileInfo_congr (hag _ (by decide)) n).trans
          (h.blockFileInfo n hlo hhi),
        (readLastBlockFile_congr (hag _ (by decide))).trans h.lastBlockFile,
        (readReindexing_congr (hag _ (by decide))).trans h.reindexing,
        fun txid => (readTxIndex_congr txPos (hag _ (by decide)) txid).trans (h.txIndex txid),
        fun name' hname' => ?_,
        fun hash => (readBlockIndex_congr (hag _ (by decide)) hash).trans (h.blockIndex hash)⟩
      by_cases hn : name' = name
      · subst hn
        cases fValue <;> simp [readFlag, Db.read, Db.writeBatch, BlockTreeOp.batch,
          CBlockTreeDB.writeFlag, Db.apply, Serializer.read, charSer, BlockTreeView.step]
      · have hkey : flagKey name ≠ flagKey name' := fun heq => hn (flagKey_injective hfits hname' heq).symm
        simp only [BlockTreeView.step, Function.update_noteq hn, ← h.flag name' hname']
        simp [readFlag, Db.read, Db.writeBatch, BlockTreeOp.batch, CBlockTreeDB.writeFlag, Db.apply,
          hkey]

theorem refines_empty : Refines ext txPos Db.empty BlockTreeView.empty :=
  ⟨fun _ _ _ => rfl, rfl, rfl, fun _ => rfl, fun _ _ => rfl, fun _ => rfl⟩

/-- **Every run.**  After any run of writes that fit, every reader of the block index
database answers as the view of the run. -/
theorem refines_runOps (ops : List (BlockTreeOp ext TxPos)) (hfits : ∀ op ∈ ops, op.Fits txPos) :
    Refines ext txPos (runOps txPos Db.empty ops) (BlockTreeView.run ops) := by
  suffices ∀ (db : Db) (v : BlockTreeView TxPos), Refines ext txPos db v →
      Refines ext txPos (db.writeBatches (ops.map (·.batch txPos))) (ops.foldl BlockTreeView.step v) from
    this _ _ refines_empty
  induction ops with
  | nil => exact fun _ _ h => h
  | cons op ops ih =>
      exact fun db v h => ih (fun op' hop' => hfits op' (List.mem_cons_of_mem _ hop')) _ _
        (h.step op (hfits op (List.mem_cons_self _ _)))

namespace Reference

def storeRun : List (BlockTreeOp blockTreeExt Int) :=
  [.writeBatchSync chainCall, .writeReindexing true, .writeTxIndex [(root 1, 7)],
    .writeFlag [0x74, 0x78, 0x69, 0x6e, 0x64, 0x65, 0x78] true, .writeReindexing false]

end Reference

theorem refines_runOps_storeRun :
    (∀ op ∈ Reference.storeRun, op.Fits TxDb.Reference.int64Ser) ∧
      Refines Reference.blockTreeExt TxDb.Reference.int64Ser
        (runOps TxDb.Reference.int64Ser Db.empty Reference.storeRun)
        (BlockTreeView.run Reference.storeRun) := by
  have hfits : ∀ op ∈ Reference.storeRun, op.Fits TxDb.Reference.int64Ser := by
    intro op hop
    simp only [Reference.storeRun, List.mem_cons, List.mem_singleton, List.not_mem_nil,
      or_false] at hop
    rcases hop with rfl | rfl | rfl | rfl | rfl
    · refine ⟨by simp [Reference.chainCall], by decide, fun b hb => ?_⟩
      simp only [Reference.chainCall, List.mem_cons, List.mem_singleton, List.not_mem_nil,
        or_false] at hb
      rcases hb with rfl | rfl <;> exact Reference.diskBlockIndexSer_roundTrips (by decide)
    · trivial
    · intro it hit
      rw [List.mem_singleton] at hit
      subst hit
      exact TxDb.Reference.int64Ser_roundTrips (by decide) (by decide)
    · exact (by decide : 7 ≤ MAX_SIZE)
    · trivial
  exact ⟨hfits, refines_runOps _ hfits⟩

/-! ## The load after any run -/

def syncCalls : List (BlockTreeOp ext TxPos) → List (WriteBatchSyncCall ext)
  | [] => []
  | .writeBatchSync c :: ops => c :: syncCalls ops
  | _ :: ops => syncCalls ops

theorem agreeOn_runOps (txPos : Serializer TxPos) :
    ∀ (ops : List (BlockTreeOp ext TxPos)) {db db' : Db}, AgreeOn DB_BLOCK_INDEX db db' →
      AgreeOn DB_BLOCK_INDEX (runOps txPos db ops)
        (db'.writeBatches ((syncCalls ops).map WriteBatchSyncCall.batch))
  | [], _, _, h => h
  | .writeBatchSync c :: ops, _, _, h => agreeOn_runOps txPos ops (h.applyOps c.batch.ops)
  | .writeReindexing f :: ops, _, _, h => agreeOn_runOps txPos ops
      ((BlockTreeOp.agreeOn txPos (.writeReindexing f) fun hm =>
        absurd (List.mem_singleton.mp hm) (by decide)).trans h)
  | .writeTxIndex vect :: ops, _, _, h => agreeOn_runOps txPos ops
      ((BlockTreeOp.agreeOn txPos (.writeTxIndex vect) fun hm =>
        absurd (List.mem_singleton.mp hm) (by decide)).trans h)
  | .writeFlag name fValue :: ops, _, _, h => agreeOn_runOps txPos ops
      ((BlockTreeOp.agreeOn txPos (.writeFlag name fValue) fun hm =>
        absurd (List.mem_singleton.mp hm) (by decide)).trans h)

theorem lookup_filter_head (tag : UInt8) (k : Bytes) :
    ∀ entries : List (Bytes × Bytes), Db.lookup k (entries.filter fun e => e.1.head? = some tag) =
      if k.head? = some tag then Db.lookup k entries else none
  | [] => by simp [Db.lookup]
  | (k', v) :: rest => by
      by_cases hk : k' = k
      · subst hk
        by_cases hp : k'.head? = some tag <;>
          simp [Db.lookup, List.filter_cons, hp, lookup_filter_head tag k' rest]
      · by_cases hp : k'.head? = some tag <;>
          simp [Db.lookup, List.filter_cons, hp, hk, lookup_filter_head tag k rest]

theorem blockRecords_eq_of_agreeOn (h : AgreeOn DB_BLOCK_INDEX db db') :
    blockRecords db = blockRecords db' :=
  Db.ext_entries (db.sorted.sublist (List.filter_sublist _))
    (db'.sorted.sublist (List.filter_sublist _)) fun k => by
      rw [blockRecords, blockRecords, lookup_filter_head, lookup_filter_head]
      split_ifs with hk
      · exact h k hk
      · rfl

theorem loadLoop_append_above {rest : List (Bytes × Bytes)}
    (habove : ∀ e ∈ rest, e.1.head?.any (DB_BLOCK_INDEX < ·)) :
    ∀ (i : Nat) (recs : List (Bytes × Bytes)) (m : BlockMap),
      loadLoop ext noInterruption i (recs ++ rest) m = loadLoop ext noInterruption i recs m
  | _, [], _ => loadLoop_above habove
  | i, (k, v) :: recs, m => by
      rw [List.cons_append, loadLoop, loadLoop]
      simp only [noInterruption, Bool.false_eq_true, if_false]
      split
      · split
        · split
          · exact loadLoop_append_above habove (i + 1) recs _
          · rfl
        · rfl
      · rfl

theorem loadBlockIndexGuts_eq_loadLoop
    (hwf : ∀ e ∈ blockRecords db, ∃ hash, e.1 = pairKey DB_BLOCK_INDEX hash) (m : BlockMap) :
    loadBlockIndexGuts ext noInterruption db m = loadLoop ext noInterruption 0 (blockRecords db) m := by
  have hlen : ∀ e ∈ db.entries, e.1.head? = some DB_BLOCK_INDEX → 33 ≤ e.1.length :=
    fun e he hhead => by
      obtain ⟨hash, hk⟩ := hwf e (List.mem_filter.mpr ⟨he, by simpa using hhead⟩)
      simp [hk, pairKey, hash.size_eq]
  rw [loadBlockIndexGuts, seek_pairKey_zero hlen, ← blockRecords,
    loadLoop_append_above (fun e he => (List.mem_filter.mp he).2) 0]

/-- **The load after any run** computes what it computes after the run's
`WriteBatchSync` calls alone. -/
theorem loadBlockIndexGuts_runOps (txPos : Serializer TxPos) (ops : List (BlockTreeOp ext TxPos))
    (m : BlockMap) :
    loadBlockIndexGuts ext noInterruption (runOps txPos Db.empty ops) m =
      loadBlockIndexGuts ext noInterruption (afterCalls (syncCalls ops)) m := by
  have hrec : blockRecords (runOps txPos Db.empty ops) = blockRecords (afterCalls (syncCalls ops)) :=
    blockRecords_eq_of_agreeOn (agreeOn_runOps txPos ops fun _ _ => rfl)
  have hpair : ∀ e ∈ blockRecords (afterCalls (syncCalls ops)),
      ∃ hash, e.1 = pairKey DB_BLOCK_INDEX hash :=
    fun e he => (blockRecords_afterCalls _ he).elim fun b hb => ⟨b.hash, hb.2.1⟩
  rw [loadBlockIndexGuts_eq_loadLoop (hrec ▸ hpair), loadBlockIndexGuts_eq_loadLoop hpair, hrec]

end CBlockTreeDB
end TxDb
