import TxDb.Reference

/-!
# The block index database

`WriteBatchSync` writes file records, the last file number and a `CDiskBlockIndex` per
block; `LoadBlockIndexGuts` scans the block records from `('b', 0)` and links each node to
its predecessor's, through the get-or-insert resolver `mapBlockIndex`.  After any
`WriteBatchSync` calls every block is rebuilt with its last fields and its predecessor
(`loadBlockIndexGuts_after_writeBatchSync`).
-/

namespace TxDb
namespace CBlockTreeDB

/-! ## Records -/

def DB_BLOCK_FILES : UInt8 := 0x66

def DB_BLOCK_INDEX : UInt8 := 0x62

def DB_LAST_BLOCK : UInt8 := 0x6c

/-- The fields of a block index node that `LoadBlockIndexGuts` copies from the stored
record: height, file and positions, the header fields, status and transaction count. -/
structure BlockFields where
  nHeight : Int
  nFile : Int
  nDataPos : Nat
  nUndoPos : Nat
  nVersion : Int
  hashMerkleRoot : Uint256
  nTime : Nat
  nBits : Nat
  nNonce : Nat
  nStatus : Nat
  nTx : Nat
  deriving DecidableEq

/-- Modelled from the spec: the fields of a `new CBlockIndex` (`chain.h`), all zero. -/
def BlockFields.null : BlockFields := ⟨0, 0, 0, 0, 0, Uint256.zero, 0, 0, 0, 0, 0⟩

/-- Modelled from the spec: `CDiskBlockIndex` (`chain.h`), the stored form of a node:
its fields and the hash of its predecessor. -/
structure CDiskBlockIndex where
  fields : BlockFields
  hashPrev : Uint256
  deriving DecidableEq

/-- Modelled from the spec: `CBlockFileInfo` (`chain.h`), the metadata of one block
file. -/
structure CBlockFileInfo where
  nBlocks : Nat
  nSize : Nat
  nUndoSize : Nat
  nHeightFirst : Nat
  nHeightLast : Nat
  nTimeFirst : Nat
  nTimeLast : Nat
  deriving DecidableEq

/-- What the block index database takes from headers that `src/` does not include:
the serializers of `CDiskBlockIndex` and `CBlockFileInfo`, and
`CDiskBlockIndex::GetBlockHash`, the hash of the header that a stored record's fields
and `hashPrev` make up. -/
structure BlockTreeExternals where
  diskBlockIndex : Serializer CDiskBlockIndex
  blockFileInfo : Serializer CBlockFileInfo
  GetBlockHash : CDiskBlockIndex → Uint256

variable {ext : BlockTreeExternals}

/-- A `const CBlockIndex*` of `blockinfo` as `WriteBatchSync` reads it: the hash the
node is known by and the `CDiskBlockIndex` made from it.  A node of `mapBlockIndex`
is keyed by the hash of its header, the hash `CDiskBlockIndex::GetBlockHash`
recomputes. -/
structure WrittenIndex (ext : BlockTreeExternals) where
  hash : Uint256
  disk : CDiskBlockIndex
  hash_eq : ext.GetBlockHash disk = hash

/-! ## `WriteBatchSync` -/

def blockIndexOp (ext : BlockTreeExternals) (b : WrittenIndex ext) : BatchOp :=
  .put (pairKey DB_BLOCK_INDEX b.hash) (ext.diskBlockIndex.ser b.disk)

/-- The writes of `WriteBatchSync`, in order: each file's record under
`('f', nFile)`, the last file number under `'l'`, then each block's record. -/
def writeBatchSyncOps (ext : BlockTreeExternals) (fileInfo : List (Int × CBlockFileInfo))
    (nLastFile : Int) (blockinfo : List (WrittenIndex ext)) : List BatchOp :=
  fileInfo.map (fun fi => .put (DB_BLOCK_FILES :: writeInt32 fi.1) (ext.blockFileInfo.ser fi.2)) ++
    .put [DB_LAST_BLOCK] (writeInt32 nLastFile) :: blockinfo.map (blockIndexOp ext)

/-- `CBlockTreeDB::WriteBatchSync`: its writes, in one batch. -/
def writeBatchSync (ext : BlockTreeExternals) (fileInfo : List (Int × CBlockFileInfo))
    (nLastFile : Int) (blockinfo : List (WrittenIndex ext)) : CDBBatch :=
  CDBBatch.empty.addOps (writeBatchSyncOps ext fileInfo nLastFile blockinfo)

structure WriteBatchSyncCall (ext : BlockTreeExternals) where
  fileInfo : List (Int × CBlockFileInfo)
  nLastFile : Int
  blockinfo : List (WrittenIndex ext)

def WriteBatchSyncCall.batch (c : WriteBatchSyncCall ext) : CDBBatch :=
  writeBatchSync ext c.fileInfo c.nLastFile c.blockinfo

/-! ## The resolver -/

/-- A node of `mapBlockIndex` as the load fills it: the copied fields, and `pprev` as
the position of the predecessor's node, `none` for `nullptr`. -/
structure CBlockIndex where
  fields : BlockFields
  pprev : Option Nat
  deriving DecidableEq

def CBlockIndex.fresh : CBlockIndex := ⟨BlockFields.null, none⟩

/-- `mapBlockIndex` in the order its nodes were created: node `i` is the `i`-th entry,
beside the hash it is known by.  A pointer to a node is its position. -/
abbrev BlockMap := List (Uint256 × CBlockIndex)

namespace BlockMap

def indexOf? : BlockMap → Uint256 → Option Nat
  | [], _ => none
  | (h', _) :: rest, h => if h' = h then some 0 else (indexOf? rest h).map (· + 1)

def node? (m : BlockMap) (i : Nat) : Option CBlockIndex := m[i]?.map Prod.snd

def setNode : BlockMap → Nat → CBlockIndex → BlockMap
  | [], _, _ => []
  | (h, _) :: rest, 0, n => (h, n) :: rest
  | e :: rest, i + 1, n => e :: setNode rest i n

theorem indexOf?_spec : ∀ {m : BlockMap} {h : Uint256} {i : Nat}, indexOf? m h = some i →
    (m[i]?).map Prod.fst = some h
  | [], _, _, hi => by simp [indexOf?] at hi
  | (h', _) :: rest, h, i, hi => by
      unfold indexOf? at hi
      split at hi
      · cases hi; simpa
      · obtain ⟨j, hj, rfl⟩ := Option.map_eq_some'.mp hi
        simpa using indexOf?_spec hj

theorem indexOf?_lt {m : BlockMap} {h : Uint256} {i : Nat} (hi : indexOf? m h = some i) :
    i < m.length := by
  have := indexOf?_spec hi
  by_contra hle
  rw [List.getElem?_eq_none (by omega)] at this
  simp at this

theorem eq_of_indexOf? {m : BlockMap} {h h' : Uint256} {i : Nat}
    (hi : indexOf? m h = some i) (hi' : indexOf? m h' = some i) : h = h' := by
  have := (indexOf?_spec hi).symm.trans (indexOf?_spec hi')
  simpa using this

theorem indexOf?_append_of_some (t : BlockMap) :
    ∀ {m : BlockMap} {h : Uint256} {i : Nat}, indexOf? m h = some i → indexOf? (m ++ t) h = some i
  | [], _, _, hi => by simp [indexOf?] at hi
  | (h', _) :: rest, h, i, hi => by
      unfold indexOf? at hi ⊢
      split at hi
      · simp_all
      · obtain ⟨j, hj, rfl⟩ := Option.map_eq_some'.mp hi
        simp [*, indexOf?_append_of_some t hj]

theorem indexOf?_append_of_none (n : CBlockIndex) :
    ∀ {m : BlockMap} {h : Uint256}, indexOf? m h = none → indexOf? (m ++ [(h, n)]) h = some m.length
  | [], h, _ => by simp [indexOf?]
  | (h', _) :: rest, h, hi => by
      unfold indexOf? at hi ⊢
      split at hi
      · simp at hi
      · simp [*, indexOf?_append_of_none n (Option.map_eq_none'.mp hi)]

theorem indexOf?_setNode (h : Uint256) (n : CBlockIndex) :
    ∀ (m : BlockMap) (i : Nat), indexOf? (setNode m i n) h = indexOf? m h
  | [], _ => rfl
  | (h', _) :: rest, 0 => by simp [setNode, indexOf?]
  | (h', _) :: rest, i + 1 => by simp [setNode, indexOf?, indexOf?_setNode h n rest i]

theorem node?_setNode_self (n : CBlockIndex) :
    ∀ {m : BlockMap} {i : Nat}, i < m.length → node? (setNode m i n) i = some n
  | [], _, hi => absurd hi (Nat.not_lt_zero _)
  | (h', _) :: rest, 0, _ => by simp [node?, setNode]
  | (h', _) :: rest, i + 1, hi => by
      simpa [node?, setNode] using node?_setNode_self n (m := rest) (by simpa using hi)

theorem node?_setNode_ne (n : CBlockIndex) :
    ∀ {m : BlockMap} {i k : Nat}, k ≠ i → node? (setNode m i n) k = node? m k
  | [], _, _, _ => rfl
  | (h', _) :: rest, 0, 0, hk => absurd rfl hk
  | (h', _) :: rest, 0, k + 1, _ => by simp [node?, setNode]
  | (h', _) :: rest, i + 1, 0, _ => by simp [node?, setNode]
  | (h', _) :: rest, i + 1, k + 1, hk => by
      simpa [node?, setNode] using node?_setNode_ne n (m := rest) (i := i) (k := k) (by omega)

theorem node?_append {m : BlockMap} (t : BlockMap) {k : Nat} (hk : k < m.length) :
    node? (m ++ t) k = node? m k := by
  simp [node?, List.getElem?_append_left hk]

end BlockMap

open BlockMap

/-- The caller's resolver, `InsertBlockIndex` with get-or-insert semantics: the node
for `h`, created on first request. -/
def insertBlockIndex (m : BlockMap) (h : Uint256) : Nat × BlockMap :=
  match indexOf? m h with
  | some i => (i, m)
  | none => (m.length, m ++ [(h, CBlockIndex.fresh)])

theorem insertBlockIndex_spec (m : BlockMap) (h : Uint256) :
    indexOf? (insertBlockIndex m h).2 h = some (insertBlockIndex m h).1 ∧
      (∀ h' i, indexOf? m h' = some i → indexOf? (insertBlockIndex m h).2 h' = some i) ∧
      (∀ k < m.length, node? (insertBlockIndex m h).2 k = node? m k) := by
  unfold insertBlockIndex
  split
  next i hi => exact ⟨hi, fun _ _ hi' => hi', fun _ _ => rfl⟩
  next hnone =>
    exact ⟨indexOf?_append_of_none _ hnone, fun _ _ hi' => indexOf?_append_of_some _ hi',
      fun _ hk => node?_append _ hk⟩

/-! ## `LoadBlockIndexGuts` -/

/-- The loop body for a record that decodes: resolve the block's node and its
predecessor's, then set the predecessor pointer and copy the fields. -/
def loadRecord (ext : BlockTreeExternals) (m : BlockMap) (diskindex : CDiskBlockIndex) :
    BlockMap :=
  let (pindexNew, m) := insertBlockIndex m (ext.GetBlockHash diskindex)
  let (pprev, m) := insertBlockIndex m diskindex.hashPrev
  setNode m pindexNew ⟨diskindex.fields, some pprev⟩

/-- The loop of `LoadBlockIndexGuts` from iteration `i` over the records from the
cursor on: `none` when the interruption point throws (`interrupted i`), `some false`
at a block-index record whose value does not decode, `some true` at the first key
that is not a block-index pair or at the end. -/
def loadLoop (ext : BlockTreeExternals) (interrupted : Nat → Bool) :
    Nat → List (Bytes × Bytes) → BlockMap → Option Bool × BlockMap
  | _, [], m => (some true, m)
  | i, (k, v) :: rest, m =>
      if interrupted i then (none, m)
      else match pairSer.read k with
        | some (tag, _) =>
            if tag = DB_BLOCK_INDEX then
              match ext.diskBlockIndex.read v with
              | some diskindex => loadLoop ext interrupted (i + 1) rest (loadRecord ext m diskindex)
              | none => (some false, m)
            else (some true, m)
        | none => (some true, m)

/-- `CBlockTreeDB::LoadBlockIndexGuts` on the block index database, with the
resolver's map as the caller holds it: what it returns (`none` when an interruption
point throws) and the map after. -/
def loadBlockIndexGuts (ext : BlockTreeExternals) (interrupted : Nat → Bool) (db : Db)
    (m : BlockMap) : Option Bool × BlockMap :=
  loadLoop ext interrupted 0 (db.newIterator.seek (pairKey DB_BLOCK_INDEX Uint256.zero)).rest m

/-! ## What the load rebuilds -/

def blockRecords (db : Db) : List (Bytes × Bytes) :=
  db.entries.filter fun e => e.1.head? = some DB_BLOCK_INDEX

/-- The last version of the block known by `h` among the blocks written, in order. -/
def lastWritten (blocks : List (WrittenIndex ext)) (h : Uint256) : Option CDiskBlockIndex :=
  (blocks.reverse.find? (·.hash = h)).map (·.disk)

/-- The map holds a node for `h` with the fields of `d`, pointing at the node for
`d.hashPrev`. -/
def Loaded (m : BlockMap) (h : Uint256) (d : CDiskBlockIndex) : Prop :=
  ∃ i j, indexOf? m h = some i ∧ indexOf? m d.hashPrev = some j ∧
    node? m i = some ⟨d.fields, some j⟩

theorem loadRecord_loaded (m : BlockMap) (d : CDiskBlockIndex) :
    Loaded (loadRecord ext m d) (ext.GetBlockHash d) d := by
  obtain ⟨hself₁, -, -⟩ := insertBlockIndex_spec m (ext.GetBlockHash d)
  obtain ⟨hself₂, hkeep₂, -⟩ := insertBlockIndex_spec (insertBlockIndex m (ext.GetBlockHash d)).2
    d.hashPrev
  refine ⟨_, _, ?_, ?_, node?_setNode_self _ (indexOf?_lt (hkeep₂ _ _ hself₁))⟩ <;>
    simp only [loadRecord, indexOf?_setNode]
  · exact hkeep₂ _ _ hself₁
  · exact hself₂

theorem loadRecord_keeps {m : BlockMap} {h : Uint256} {d : CDiskBlockIndex}
    (hl : Loaded m h d) (d' : CDiskBlockIndex) (hne : ext.GetBlockHash d' ≠ h) :
    Loaded (loadRecord ext m d') h d := by
  obtain ⟨i, j, hi, hj, hnode⟩ := hl
  obtain ⟨hself₁, hkeep₁, hnode₁⟩ := insertBlockIndex_spec m (ext.GetBlockHash d')
  obtain ⟨-, hkeep₂, hnode₂⟩ := insertBlockIndex_spec (insertBlockIndex m (ext.GetBlockHash d')).2
    d'.hashPrev
  have hi₂ := hkeep₂ _ _ (hkeep₁ _ _ hi)
  have hne' : i ≠ (insertBlockIndex m (ext.GetBlockHash d')).1 := fun heq =>
    hne (eq_of_indexOf? (hkeep₂ _ _ hself₁) (heq ▸ hi₂))
  have hlt := indexOf?_lt hi
  refine ⟨i, j, ?_, ?_, ?_⟩ <;> simp only [loadRecord, indexOf?_setNode]
  · exact hi₂
  · exact hkeep₂ _ _ (hkeep₁ _ _ hj)
  · rw [node?_setNode_ne _ hne', hnode₂ _ (by
      have := indexOf?_lt (hkeep₁ _ _ hi); exact this), hnode₁ _ hlt, hnode]

theorem foldl_loadRecord_keeps {h : Uint256} {d : CDiskBlockIndex} :
    ∀ {ds : List CDiskBlockIndex} {m : BlockMap}, Loaded m h d →
      (∀ d' ∈ ds, ext.GetBlockHash d' ≠ h) → Loaded (ds.foldl (loadRecord ext) m) h d
  | [], _, hl, _ => hl
  | d' :: ds, _, hl, hne => by
      rw [List.foldl_cons]
      exact foldl_loadRecord_keeps (loadRecord_keeps hl d' (hne d' (List.mem_cons_self _ _)))
        fun d'' hd'' => hne d'' (List.mem_cons_of_mem _ hd'')

theorem foldl_loadRecord_loaded :
    ∀ {ds : List CDiskBlockIndex}, (ds.map ext.GetBlockHash).Nodup → ∀ (m : BlockMap),
      ∀ d ∈ ds, Loaded (ds.foldl (loadRecord ext) m) (ext.GetBlockHash d) d
  | [], _, _, _, hd => absurd hd (List.not_mem_nil _)
  | d :: ds, hnd, m, e, he => by
      rw [List.map_cons, List.nodup_cons] at hnd
      rw [List.foldl_cons]
      rcases List.mem_cons.mp he with rfl | he
      · exact foldl_loadRecord_keeps (loadRecord_loaded m e) fun d' hd' heq =>
          hnd.1 (heq ▸ List.mem_map_of_mem _ hd')
      · exact foldl_loadRecord_loaded hnd.2 _ e he

/-! ## The scan -/

theorem pairSer_read_head {k : Bytes} {tag : UInt8} {h : Uint256}
    (hk : pairSer.read k = some (tag, h)) : k.head? = some tag := by
  rcases k with _ | ⟨c, t⟩
  · simp [Serializer.read, pairSer] at hk
  · simp only [Serializer.read, pairSer, Option.map_map, Option.map_eq_some'] at hk
    obtain ⟨_, -, hr⟩ := hk
    simp only [Function.comp, Prod.mk.injEq] at hr
    simp [hr.1]

theorem loadLoop_above {m : BlockMap} :
    ∀ {i : Nat} {rest : List (Bytes × Bytes)}, (∀ e ∈ rest, e.1.head?.any (DB_BLOCK_INDEX < ·)) →
      loadLoop ext noInterruption i rest m = (some true, m)
  | _, [], _ => rfl
  | i, (k, v) :: rest, habove => by
      have hk := habove (k, v) (List.mem_cons_self _ _)
      simp only [loadLoop, noInterruption, Bool.false_eq_true, if_false]
      split
      next tag _ hread =>
        have htag : tag ≠ DB_BLOCK_INDEX := by
          rintro rfl
          simp [pairSer_read_head hread] at hk
        simp [htag]
      · rfl

theorem loadLoop_records (rest : List (Bytes × Bytes)) :
    ∀ {i : Nat} {recs : List (Bytes × Bytes)} {m : BlockMap},
      (∀ e ∈ recs, (∃ h, e.1 = pairKey DB_BLOCK_INDEX h) ∧ (ext.diskBlockIndex.read e.2).isSome) →
      loadLoop ext noInterruption i (recs ++ rest) m =
        loadLoop ext noInterruption (i + recs.length) rest
          ((recs.filterMap fun e => ext.diskBlockIndex.read e.2).foldl (loadRecord ext) m)
  | _, [], _, _ => rfl
  | i, (k, v) :: recs, m, hrecs => by
      obtain ⟨⟨h, rfl⟩, hv⟩ := hrecs (k, v) (List.mem_cons_self _ _)
      obtain ⟨d, hd⟩ := Option.isSome_iff_exists.mp hv
      have hkey : pairSer.read (pairKey DB_BLOCK_INDEX h) = some (DB_BLOCK_INDEX, h) :=
        Serializer.read_ser (pairSer_roundTrips (DB_BLOCK_INDEX, h))
      rw [List.cons_append, loadLoop, hkey]
      simp only [noInterruption, Bool.false_eq_true, if_false, if_true, hd, List.filterMap_cons,
        List.foldl_cons, List.length_cons]
      rw [loadLoop_records rest fun e he => hrecs e (List.mem_cons_of_mem _ he)]
      congr 1
      omega

/-! ## After `WriteBatchSync` -/

section Written

variable (calls : List (WriteBatchSyncCall ext))

def WriteBatchSyncCall.blocks : List (WrittenIndex ext) := calls.flatMap (·.blockinfo)

def afterCalls : Db := Db.empty.writeBatches (calls.map WriteBatchSyncCall.batch)

theorem effect_blockIndexOps (k : Bytes) :
    ∀ blocks : List (WrittenIndex ext), BatchOp.effect k (blocks.map (blockIndexOp ext)) =
      (blocks.reverse.find? fun b => pairKey DB_BLOCK_INDEX b.hash = k).map
        fun b => some (ext.diskBlockIndex.ser b.disk)
  | [] => rfl
  | b :: bs => by
      rw [List.map_cons, BatchOp.effect, effect_blockIndexOps k bs, List.reverse_cons,
        List.find?_append]
      by_cases hb : pairKey DB_BLOCK_INDEX b.hash = k <;>
        cases List.find? (fun b => decide (pairKey DB_BLOCK_INDEX b.hash = k)) bs.reverse <;>
        simp [blockIndexOp, BatchOp.key, BatchOp.value?, hb]

theorem effect_calls {k : Bytes} (hk : k.head? = some DB_BLOCK_INDEX) :
    ∀ calls : List (WriteBatchSyncCall ext),
      BatchOp.effect k (calls.flatMap fun c => c.batch.ops) =
        BatchOp.effect k ((WriteBatchSyncCall.blocks calls).map (blockIndexOp ext))
  | [] => rfl
  | c :: cs => by
      have hother : ∀ op ∈ c.fileInfo.map (fun fi => BatchOp.put (DB_BLOCK_FILES :: writeInt32 fi.1)
          (ext.blockFileInfo.ser fi.2)) ++ [.put [DB_LAST_BLOCK] (writeInt32 c.nLastFile)],
          op.key ≠ k := by
        intro op hop hkey
        simp only [List.mem_append, List.mem_map, List.mem_singleton] at hop
        rcases hop with ⟨fi, -, rfl⟩ | rfl <;>
          simp [BatchOp.key, ← hkey, DB_BLOCK_FILES, DB_LAST_BLOCK, DB_BLOCK_INDEX] at hk
      have hops : c.batch.ops = (c.fileInfo.map (fun fi => BatchOp.put
          (DB_BLOCK_FILES :: writeInt32 fi.1) (ext.blockFileInfo.ser fi.2)) ++
          [.put [DB_LAST_BLOCK] (writeInt32 c.nLastFile)]) ++ c.blockinfo.map (blockIndexOp ext) := by
        simp [WriteBatchSyncCall.batch, writeBatchSync, writeBatchSyncOps]
      rw [List.flatMap_cons, BatchOp.effect_append, effect_calls hk cs, hops,
        BatchOp.effect_append, BatchOp.effect_eq_none.mpr hother, Option.or_none]
      simp only [WriteBatchSyncCall.blocks, List.flatMap_cons, List.map_append,
        BatchOp.effect_append]

theorem get_afterCalls {k : Bytes} (hk : k.head? = some DB_BLOCK_INDEX) :
    (afterCalls calls).get k =
      ((WriteBatchSyncCall.blocks calls).reverse.find? fun b => pairKey DB_BLOCK_INDEX b.hash = k).map
        fun b => ext.diskBlockIndex.ser b.disk := by
  rw [afterCalls, Db.writeBatches_eq, Db.get_applyOps, List.flatMap_map, effect_calls hk,
    effect_blockIndexOps]
  cases List.find? _ _ <;> rfl

theorem blockRecords_afterCalls {e : Bytes × Bytes} (he : e ∈ blockRecords (afterCalls calls)) :
    ∃ b ∈ (WriteBatchSyncCall.blocks calls).reverse, e.1 = pairKey DB_BLOCK_INDEX b.hash ∧
      lastWritten (WriteBatchSyncCall.blocks calls) b.hash = some b.disk ∧
      e.2 = ext.diskBlockIndex.ser b.disk := by
  obtain ⟨hmem, hhead⟩ := List.mem_filter.mp he
  have hget := (Db.lookup_eq_some_iff (afterCalls calls).sorted).mpr hmem
  rw [← Db.get, get_afterCalls calls (by simpa using hhead), Option.map_eq_some'] at hget
  obtain ⟨b, hfind, hv⟩ := hget
  have hkey : pairKey DB_BLOCK_INDEX b.hash = e.1 := by simpa using List.find?_some hfind
  refine ⟨b, List.mem_of_find?_eq_some hfind, hkey.symm, ?_, hv.symm⟩
  have hcongr : (fun b' : WrittenIndex ext => decide (b'.hash = b.hash)) =
      fun b' => decide (pairKey DB_BLOCK_INDEX b'.hash = e.1) := by
    funext b'
    simp [← hkey, pairKey, Uint256.ext_iff]
  simp [lastWritten, hcongr, hfind]

theorem mem_blockRecords_afterCalls {h : Uint256} {d : CDiskBlockIndex}
    (hd : lastWritten (WriteBatchSyncCall.blocks calls) h = some d) :
    (pairKey DB_BLOCK_INDEX h, ext.diskBlockIndex.ser d) ∈ blockRecords (afterCalls calls) := by
  have hcongr : (fun b : WrittenIndex ext => decide (pairKey DB_BLOCK_INDEX b.hash =
      pairKey DB_BLOCK_INDEX h)) = fun b => decide (b.hash = h) := by
    funext b
    simp [pairKey, Uint256.ext_iff]
  have hget := get_afterCalls calls (k := pairKey DB_BLOCK_INDEX h) rfl
  rw [hcongr] at hget
  obtain ⟨b, hfind, rfl⟩ := Option.map_eq_some'.mp hd
  rw [hfind, Option.map_some'] at hget
  exact List.mem_filter.mpr ⟨(Db.lookup_eq_some_iff (afterCalls calls).sorted).mp hget, by
    simp [pairKey]⟩

end Written

theorem blockRecords_decode {ext : BlockTreeExternals} {calls : List (WriteBatchSyncCall ext)}
    (hrt : ∀ b ∈ WriteBatchSyncCall.blocks calls, ext.diskBlockIndex.RoundTrips b.disk) :
    ∀ e ∈ blockRecords (afterCalls calls), ∃ b : WrittenIndex ext,
      e.1 = pairKey DB_BLOCK_INDEX b.hash ∧ ext.diskBlockIndex.read e.2 = some b.disk := by
  intro e he
  obtain ⟨b, hb, hkey, -, hv⟩ := blockRecords_afterCalls calls he
  exact ⟨b, hkey, by rw [hv, Serializer.read_ser (hrt b (List.mem_reverse.mp hb))]⟩

theorem blockRecords_hashes_nodup {ext : BlockTreeExternals} {calls : List (WriteBatchSyncCall ext)}
    (hrt : ∀ b ∈ WriteBatchSyncCall.blocks calls, ext.diskBlockIndex.RoundTrips b.disk) :
    (((blockRecords (afterCalls calls)).filterMap fun e => ext.diskBlockIndex.read e.2).map
      ext.GetBlockHash).Nodup := by
  rw [List.Nodup, List.pairwise_map, List.pairwise_filterMap]
  refine ((afterCalls calls).sorted.sublist (List.filter_sublist _)).imp_of_mem ?_
  intro e e' he he' hlt d hd d' hd' heq
  obtain ⟨b, hkey, hv⟩ := blockRecords_decode hrt e he
  obtain ⟨b', hkey', hv'⟩ := blockRecords_decode hrt e' he'
  rw [hv, Option.mem_def, Option.some.injEq] at hd
  rw [hv', Option.mem_def, Option.some.injEq] at hd'
  subst hd hd'
  exact keyLt_ne hlt (by rw [hkey, hkey', ← b.hash_eq, ← b'.hash_eq, heq])

/-- After any `WriteBatchSync` calls, the load runs its body on every block-index record in
key order, and each block ends with its last fields and its predecessor's node. -/
theorem loadBlockIndexGuts_after_writeBatchSync (ext : BlockTreeExternals)
    (calls : List (WriteBatchSyncCall ext))
    (hrt : ∀ b ∈ WriteBatchSyncCall.blocks calls, ext.diskBlockIndex.RoundTrips b.disk)
    (m₀ : BlockMap) :
    (∀ e ∈ blockRecords (afterCalls calls), (ext.diskBlockIndex.read e.2).isSome) ∧
      loadBlockIndexGuts ext noInterruption (afterCalls calls) m₀ =
        (some true, ((blockRecords (afterCalls calls)).filterMap fun e =>
          ext.diskBlockIndex.read e.2).foldl (loadRecord ext) m₀) ∧
      ∀ h d, lastWritten (WriteBatchSyncCall.blocks calls) h = some d →
        Loaded (((blockRecords (afterCalls calls)).filterMap fun e =>
          ext.diskBlockIndex.read e.2).foldl (loadRecord ext) m₀) h d := by
  have hrec := blockRecords_decode hrt
  have hdecode : ∀ e ∈ blockRecords (afterCalls calls), (ext.diskBlockIndex.read e.2).isSome :=
    fun e he => by
      obtain ⟨b, -, hv⟩ := hrec e he
      simp [hv]
  refine ⟨hdecode, ?_, ?_⟩
  · -- the scan from ('b', 0) meets the block records, then keys of higher tags
    have hwf : ∀ e ∈ (afterCalls calls).entries, e.1.head? = some DB_BLOCK_INDEX →
        33 ≤ e.1.length := fun e he hhead => by
      obtain ⟨b, hkey, -⟩ := hrec e (List.mem_filter.mpr ⟨he, by simpa using hhead⟩)
      simp [hkey, pairKey, b.hash.size_eq]
    rw [loadBlockIndexGuts, seek_pairKey_zero hwf, ← blockRecords,
      loadLoop_records _ fun e he => ⟨(hrec e he).elim fun b hb => ⟨b.hash, hb.1⟩, hdecode e he⟩,
      loadLoop_above fun e he => (List.mem_filter.mp he).2]
  · -- the last version of each block is among the records, under a hash of its own
    intro h d hd
    obtain ⟨b, hfind, rfl⟩ := Option.map_eq_some'.mp hd
    have hbh : b.hash = h := by simpa using List.find?_some hfind
    have hread : ext.diskBlockIndex.read (ext.diskBlockIndex.ser b.disk) = some b.disk :=
      Serializer.read_ser (hrt b (List.mem_reverse.mp (List.mem_of_find?_eq_some hfind)))
    have := foldl_loadRecord_loaded (blockRecords_hashes_nodup hrt) m₀ b.disk
      (List.mem_filterMap.mpr ⟨_, mem_blockRecords_afterCalls calls hd, hread⟩)
    rwa [b.hash_eq, hbh] at this

/-! ## A concrete instance -/

namespace Reference

def numbers (d : CDiskBlockIndex) : List Int :=
  [d.fields.nHeight, d.fields.nFile, d.fields.nDataPos, d.fields.nUndoPos, d.fields.nVersion,
    d.fields.nTime, d.fields.nBits, d.fields.nNonce, d.fields.nStatus, d.fields.nTx]

def ofNumbers (hashPrev hashMerkleRoot : Uint256) : List Int → Option CDiskBlockIndex
  | [nHeight, nFile, nDataPos, nUndoPos, nVersion, nTime, nBits, nNonce, nStatus, nTx] =>
      some ⟨⟨nHeight, nFile, nDataPos.toNat, nUndoPos.toNat, nVersion, hashMerkleRoot,
        nTime.toNat, nBits.toNat, nNonce.toNat, nStatus.toNat, nTx.toNat⟩, hashPrev⟩
  | _ => none

def diskBlockIndexSer : Serializer CDiskBlockIndex where
  ser d := d.hashPrev.data ++ d.fields.hashMerkleRoot.data ++
    TxDb.Reference.int64Ser.vector.ser (numbers d)
  deser bs := (Uint256.serializer.deser bs).bind fun r₁ =>
    (Uint256.serializer.deser r₁.2).bind fun r₂ =>
      (TxDb.Reference.int64Ser.vector.deser r₂.2).bind fun r₃ =>
        (ofNumbers r₁.1 r₂.1 r₃.1).map (·, r₃.2)

theorem diskBlockIndexSer_roundTrips {d : CDiskBlockIndex}
    (hd : ∀ x ∈ numbers d, -2 ^ 63 ≤ x ∧ x < 2 ^ 63) : diskBlockIndexSer.RoundTrips d := by
  intro rest
  have hnum := Serializer.vector_roundTrips
    (fun x hx => TxDb.Reference.int64Ser_roundTrips (hd x hx).1 (hd x hx).2)
    (by simp [numbers, MAX_SIZE]) rest
  have hprev : Uint256.serializer.deser (d.hashPrev.data ++ (d.fields.hashMerkleRoot.data ++
      (TxDb.Reference.int64Ser.vector.ser (numbers d) ++ rest))) =
      some (d.hashPrev, _) := Uint256.roundTrips d.hashPrev _
  have hroot : Uint256.serializer.deser (d.fields.hashMerkleRoot.data ++
      (TxDb.Reference.int64Ser.vector.ser (numbers d) ++ rest)) =
      some (d.fields.hashMerkleRoot, _) := Uint256.roundTrips d.fields.hashMerkleRoot _
  simp only [diskBlockIndexSer, List.append_assoc, hprev, Option.some_bind, hroot, hnum]
  simp [ofNumbers, numbers]

def blockFileInfoSer : Serializer CBlockFileInfo where
  ser f := TxDb.Reference.int64Ser.vector.ser
    [f.nBlocks, f.nSize, f.nUndoSize, f.nHeightFirst, f.nHeightLast, f.nTimeFirst, f.nTimeLast]
  deser bs := (TxDb.Reference.int64Ser.vector.deser bs).bind fun r =>
    match r.1 with
    | [a, b, c, d, e, f, g] =>
        some (⟨a.toNat, b.toNat, c.toNat, d.toNat, e.toNat, f.toNat, g.toNat⟩, r.2)
    | _ => none

/-- `GetBlockHash` is replaced by the merkle root, distinct for the blocks below. -/
def blockTreeExt : BlockTreeExternals where
  diskBlockIndex := diskBlockIndexSer
  blockFileInfo := blockFileInfoSer
  GetBlockHash d := d.fields.hashMerkleRoot

def root (x : UInt8) : Uint256 := ⟨List.replicate 31 0 ++ [x], by simp⟩

def genesis : CDiskBlockIndex :=
  ⟨{ BlockFields.null with hashMerkleRoot := root 2, nTx := 1 }, Uint256.zero⟩

/-- Its child, whose hash is below the genesis hash: the scan meets it first. -/
def child : CDiskBlockIndex :=
  ⟨{ BlockFields.null with nHeight := 1, hashMerkleRoot := root 1, nTx := 1 }, root 2⟩

def chainCall : WriteBatchSyncCall blockTreeExt := ⟨[], 0, [⟨root 2, genesis, rfl⟩, ⟨root 1, child, rfl⟩]⟩

end Reference

theorem loadBlockIndexGuts_after_writeBatchSync_chain :
    (∀ b ∈ WriteBatchSyncCall.blocks [Reference.chainCall],
        Reference.blockTreeExt.diskBlockIndex.RoundTrips b.disk) ∧
      ((∀ e ∈ blockRecords (afterCalls [Reference.chainCall]),
          (Reference.blockTreeExt.diskBlockIndex.read e.2).isSome) ∧
        loadBlockIndexGuts Reference.blockTreeExt noInterruption (afterCalls [Reference.chainCall]) [] =
          (some true, ((blockRecords (afterCalls [Reference.chainCall])).filterMap fun e =>
            Reference.blockTreeExt.diskBlockIndex.read e.2).foldl (loadRecord Reference.blockTreeExt) []) ∧
        ∀ h d, lastWritten (WriteBatchSyncCall.blocks [Reference.chainCall]) h = some d →
          Loaded (((blockRecords (afterCalls [Reference.chainCall])).filterMap fun e =>
            Reference.blockTreeExt.diskBlockIndex.read e.2).foldl (loadRecord Reference.blockTreeExt) []) h d) := by
  have hrt : ∀ b ∈ WriteBatchSyncCall.blocks [Reference.chainCall],
      Reference.blockTreeExt.diskBlockIndex.RoundTrips b.disk := by
    intro b hb
    simp only [WriteBatchSyncCall.blocks, Reference.chainCall, List.flatMap_cons,
      List.flatMap_nil, List.append_nil, List.mem_cons, List.mem_singleton,
      List.not_mem_nil, or_false] at hb
    rcases hb with rfl | rfl <;> exact Reference.diskBlockIndexSer_roundTrips (by decide)
  exact ⟨hrt, loadBlockIndexGuts_after_writeBatchSync Reference.blockTreeExt [Reference.chainCall] hrt []⟩

set_option maxRecDepth 8000 in
/-- The child is met first: its predecessor's node is created empty, then filled when
the genesis record is met. -/
example : loadBlockIndexGuts Reference.blockTreeExt noInterruption (afterCalls [Reference.chainCall]) [] =
    (some true, [(Reference.root 1, ⟨Reference.child.fields, some 1⟩),
      (Reference.root 2, ⟨Reference.genesis.fields, some 2⟩),
      (Uint256.zero, CBlockIndex.fresh)]) := by
  decide

end CBlockTreeDB
end TxDb
