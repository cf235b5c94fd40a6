import TxDb.Reference

/-!
# The commit protocol of `CCoinsViewDB::BatchWrite`

`BatchWrite` erases `'B'` and writes `'H' = [new tip, old tip]`, drains the changeset,
flushing between entries, and ends by erasing `'H'` and writing `'B'`.  A crash keeps a
prefix of the `WriteBatch` calls: the marker, then the writes of a prefix of the changeset
(`batchWrite_durable`).  Loaded entries stay in the changeset (`batchWrite_remaining`).
-/

namespace TxDb
namespace CCoinsViewDB

/-! ## The tip markers -/

/-- `GetBestBlock`: the zero hash when `'B'` is missing or does not decode. -/
def getBestBlock (db : Db) : Uint256 :=
  (db.read Uint256.serializer keyBestBlock).getD Uint256.zero

/-- `GetHeadBlocks`: empty when `'H'` is missing or does not decode. -/
def getHeadBlocks (db : Db) : List Uint256 :=
  (db.read Uint256.serializer.vector keyHeadBlocks).getD []

/-- The value written under `'H'`: the vector `[h, t]`. -/
def headBlocksValue (h t : Uint256) : Bytes := Uint256.serializer.vector.ser [h, t]

theorem read_headBlocksValue (h t : Uint256) :
    Uint256.serializer.vector.read (headBlocksValue h t) = some [h, t] :=
  Serializer.read_ser (Serializer.vector_roundTrips
    (fun x _ => Uint256.roundTrips x) (by simp [MAX_SIZE]))

theorem read_hash (h : Uint256) : Uint256.serializer.read h.data = some h :=
  Serializer.read_ser (Uint256.roundTrips h)

/-- Steady state at tip `t`: `'B'` holds `t`, `'H'` is absent. -/
def Steady (db : Db) (t : Uint256) : Prop :=
  db.read Uint256.serializer keyBestBlock = some t ∧ db.get keyHeadBlocks = none

/-- In transition to `h` from `t`: `'B'` is absent, `'H'` holds `[h, t]`. -/
def Transitional (db : Db) (h t : Uint256) : Prop :=
  db.get keyBestBlock = none ∧ db.read Uint256.serializer.vector keyHeadBlocks = some [h, t]

/-- Never committed to: neither marker is present. -/
def Pristine (db : Db) : Prop :=
  db.get keyBestBlock = none ∧ db.get keyHeadBlocks = none

/-- The tip markers are steady, transitional or pristine. -/
def TipMarkerInvariant (db : Db) : Prop :=
  (∃ t, Steady db t) ∨ (∃ h t, Transitional db h t) ∨ Pristine db

/-- The tip recovered from the markers: `'B'` if present, else the second hash of
`'H'` when it holds two, else zero. -/
def recoveredTip (db : Db) : Uint256 :=
  match db.read Uint256.serializer keyBestBlock with
  | some t => t
  | none =>
      match db.read Uint256.serializer.vector keyHeadBlocks with
      | some [_, t] => t
      | _ => Uint256.zero

/-! ## The model -/

/-- The tip `BatchWrite` starts from: `GetBestBlock`, or, when that is null and
`'H'` holds two hashes, the second of them. -/
def oldTip (db : Db) : Uint256 :=
  if (getBestBlock db).IsNull then
    match getHeadBlocks db with
    | [_, t] => t
    | _ => getBestBlock db
  else getBestBlock db

/-- The two `assert`s of `BatchWrite`: a non-null target, and a target equal to
the first hash of `'H'` when the commit resumes an interrupted one. -/
def AssertsHold (db : Db) (hashBlock : Uint256) : Bool :=
  !hashBlock.IsNull &&
    (!(getBestBlock db).IsNull ||
      match getHeadBlocks db with
      | [h, _] => h = hashBlock
      | _ => true)

/-- A changeset entry `BatchWrite` writes out: dirty, and not from the overlay. -/
def Written (e : COutPoint × CCoinsCacheEntry) : Bool := e.2.IsDirty && !e.2.coin.fLoaded

/-- The operation for a written entry: erase a spent coin, store an unspent one. -/
def coinOp (ext : Externals) (e : COutPoint × CCoinsCacheEntry) : BatchOp :=
  if e.2.coin.IsSpent then .erase (CoinEntry.serialize e.1)
  else .put (CoinEntry.serialize e.1) (ext.coin.ser e.2.coin)

/-- The drain loop's state: the batch being filled, the batches already handed to
`WriteBatch`, and the entries left in `mapCoins`. -/
structure DrainState where
  batch : CDBBatch
  flushed : List CDBBatch
  kept : List (COutPoint × CCoinsCacheEntry)

/-- A dirty entry's write or erase under its `CoinEntry` key. -/
def addEntry (ext : Externals) (batch : CDBBatch) (e : COutPoint × CCoinsCacheEntry) :
    CDBBatch :=
  if e.2.IsDirty then
    if e.2.coin.IsSpent then batch.erase (CoinEntry.serialize e.1)
    else batch.write (CoinEntry.serialize e.1) (ext.coin.ser e.2.coin)
  else batch

/-- One turn of the drain loop: a loaded entry is skipped and stays in the map;
any other is added if dirty, removed from the map, and the batch flushed if its
size estimate passes `batchSize`. -/
def drainStep (ext : Externals) (batchSize : Nat) (st : DrainState)
    (e : COutPoint × CCoinsCacheEntry) : DrainState :=
  if e.2.coin.fLoaded then { st with kept := st.kept ++ [e] }
  else
    let batch := addEntry ext st.batch e
    if batchSize < batch.sizeEstimate then
      { batch := CDBBatch.empty, flushed := st.flushed ++ [batch], kept := st.kept }
    else { st with batch := batch }

/-- What one `BatchWrite` call issues and leaves behind. -/
structure BatchWriteResult where
  /-- The `WriteBatch` calls, in order; the last is the final batch. -/
  batches : List CDBBatch
  /-- What remains in `mapCoins`. -/
  remaining : List (COutPoint × CCoinsCacheEntry)

/-- The first batch before any entry: the transition marker. -/
def markerBatch (db : Db) (hashBlock : Uint256) : CDBBatch :=
  (CDBBatch.empty.erase keyBestBlock).write keyHeadBlocks (headBlocksValue hashBlock (oldTip db))

/-- `CCoinsViewDB::BatchWrite` on the chainstate database, with the
`-dbbatchsize` threshold `batchSize`; `none` when an `assert` aborts the process,
before any write. -/
def batchWrite (ext : Externals) (db : Db) (mapCoins : CCoinsMap) (hashBlock : Uint256)
    (batchSize : Nat) : Option BatchWriteResult :=
  if AssertsHold db hashBlock then
    let st := mapCoins.entries.foldl (drainStep ext batchSize) ⟨markerBatch db hashBlock, [], []⟩
    let last := (st.batch.erase keyHeadBlocks).write keyBestBlock hashBlock.data
    some ⟨st.flushed ++ [last], st.kept⟩
  else none

/-! ## The drain loop flushes between entries -/

def DrainState.issued (st : DrainState) : List BatchOp :=
  st.flushed.flatMap CDBBatch.ops ++ st.batch.ops

def writtenOps (ext : Externals) (es : List (COutPoint × CCoinsCacheEntry)) : List BatchOp :=
  (es.filter Written).map (coinOp ext)

@[simp] theorem writtenOps_nil (ext : Externals) : writtenOps ext [] = [] := rfl

theorem writtenOps_cons (ext : Externals) (e : COutPoint × CCoinsCacheEntry)
    (es : List (COutPoint × CCoinsCacheEntry)) :
    writtenOps ext (e :: es) = writtenOps ext [e] ++ writtenOps ext es := by
  by_cases h : Written e <;> simp [writtenOps, List.filter_cons, h]

theorem addEntry_ops (ext : Externals) (batch : CDBBatch) {e : COutPoint × CCoinsCacheEntry}
    (hloaded : e.2.coin.fLoaded = false) :
    (addEntry ext batch e).ops = batch.ops ++ writtenOps ext [e] := by
  unfold addEntry writtenOps Written coinOp
  by_cases hd : e.2.IsDirty <;> by_cases hs : e.2.coin.IsSpent <;>
    simp [hd, hs, hloaded, List.filter_cons]

theorem drainStep_spec (ext : Externals) (batchSize : Nat) (st : DrainState)
    (e : COutPoint × CCoinsCacheEntry) :
    (drainStep ext batchSize st e).issued = st.issued ++ writtenOps ext [e] ∧
      ((drainStep ext batchSize st e).flushed = st.flushed ∨
        ∃ b, (drainStep ext batchSize st e).flushed = st.flushed ++ [b] ∧
          (drainStep ext batchSize st e).batch.ops = []) := by
  unfold drainStep
  by_cases hl : e.2.coin.fLoaded = true
  · simp only [hl, if_true]
    exact ⟨by simp [DrainState.issued, writtenOps, Written, hl], by simp⟩
  · rw [Bool.not_eq_true] at hl
    simp only [hl, Bool.false_eq_true, if_false]
    by_cases hs : batchSize < (addEntry ext st.batch e).sizeEstimate
    · simp only [hs, if_true]
      exact ⟨by simp [DrainState.issued, addEntry_ops ext _ hl], .inr ⟨_, rfl, rfl⟩⟩
    · simp only [hs, if_false]
      exact ⟨by simp [DrainState.issued, addEntry_ops ext _ hl], by simp⟩

theorem drain_issued (ext : Externals) (batchSize : Nat) :
    ∀ (es : List (COutPoint × CCoinsCacheEntry)) (st : DrainState),
      (es.foldl (drainStep ext batchSize) st).issued = st.issued ++ writtenOps ext es
  | [], st => by simp
  | e :: es, st => by
      rw [List.foldl_cons, drain_issued ext batchSize es, (drainStep_spec ext batchSize st e).1,
        writtenOps_cons ext e es, List.append_assoc]

theorem drainStep_kept (ext : Externals) (batchSize : Nat) (st : DrainState)
    (e : COutPoint × CCoinsCacheEntry) :
    (drainStep ext batchSize st e).kept = st.kept ++ [e].filter (·.2.coin.fLoaded) := by
  unfold drainStep
  by_cases hl : e.2.coin.fLoaded = true
  · simp [hl]
  · by_cases hs : batchSize < (addEntry ext st.batch e).sizeEstimate <;> simp [hl, hs]

theorem drain_kept (ext : Externals) (batchSize : Nat) :
    ∀ (es : List (COutPoint × CCoinsCacheEntry)) (st : DrainState),
      (es.foldl (drainStep ext batchSize) st).kept = st.kept ++ es.filter (·.2.coin.fLoaded)
  | [], st => by simp
  | e :: es, st => by
      rw [List.foldl_cons, drain_kept ext batchSize es, drainStep_kept, List.append_assoc,
        ← List.filter_append, List.singleton_append]

theorem drain_flushed_take (ext : Externals) (batchSize : Nat) :
    ∀ (es : List (COutPoint × CCoinsCacheEntry)) (st : DrainState),
      (es.foldl (drainStep ext batchSize) st).flushed.take st.flushed.length = st.flushed
  | [], st => by simp
  | e :: es, st => by
      rw [List.foldl_cons]
      have hrec := drain_flushed_take ext batchSize es (drainStep ext batchSize st e)
      rcases (drainStep_spec ext batchSize st e).2 with h | ⟨b, h, -⟩
      · rwa [h] at hrec
      · rw [h, List.length_append] at hrec
        have := congrArg (List.take st.flushed.length) hrec
        rwa [List.take_take, min_eq_left (by simp), List.take_left'] at this
        rfl

theorem drain_flushed_prefix (ext : Externals) (batchSize : Nat) :
    ∀ (es : List (COutPoint × CCoinsCacheEntry)) (st : DrainState) (k : Nat),
      st.flushed.length < k → k ≤ (es.foldl (drainStep ext batchSize) st).flushed.length →
      ∃ j ≤ es.length, ((es.foldl (drainStep ext batchSize) st).flushed.take k).flatMap
        CDBBatch.ops = st.issued ++ writtenOps ext (es.take j)
  | [], st, k, hlo, hhi => by simp at hhi; omega
  | e :: es, st, k, hlo, hhi => by
      rw [List.foldl_cons] at hhi ⊢
      set st' := drainStep ext batchSize st e
      obtain ⟨hissued, hflushed⟩ := drainStep_spec ext batchSize st e
      by_cases hk : st'.flushed.length < k
      · obtain ⟨j, hj, hops⟩ := drain_flushed_prefix ext batchSize es st' k hk hhi
        refine ⟨j + 1, by simp; omega, ?_⟩
        rw [hops, hissued, List.take_succ_cons, writtenOps_cons ext e (es.take j),
          List.append_assoc]
      · rcases hflushed with h | ⟨b, h, hbatch⟩
        · rw [h] at hk; omega
        · have hkeq : k = st'.flushed.length := by rw [h] at hk ⊢; simp at hk ⊢; omega
          refine ⟨1, by simp, ?_⟩
          rw [hkeq, drain_flushed_take, List.take_succ_cons, List.take_zero, ← hissued,
            DrainState.issued, hbatch, List.append_nil]

theorem filter_take_eq_take_filter {α : Type} (p : α → Bool) :
    ∀ (l : List α) (j : Nat), ∃ n ≤ (l.filter p).length, (l.take j).filter p = (l.filter p).take n
  | [], j => ⟨0, by simp⟩
  | a :: l, 0 => ⟨0, by simp⟩
  | a :: l, j + 1 => by
      obtain ⟨n, hn, h⟩ := filter_take_eq_take_filter p l j
      by_cases ha : p a
      · exact ⟨n + 1, by simp [List.filter_cons, ha, hn], by simp [List.filter_cons, ha, h]⟩
      · exact ⟨n, by simp [List.filter_cons, ha, hn], by simp [List.filter_cons, ha, h]⟩

/-! ## What a crash leaves -/

/-- A completed commit to `h`: the writes of `E` applied, `'H'` erased, `'B' = h`. -/
def committedState (ext : Externals) (db : Db) (E : List (COutPoint × CCoinsCacheEntry))
    (h : Uint256) : Db :=
  ((db.applyOps (E.map (coinOp ext))).erase keyHeadBlocks).put keyBestBlock h.data

/-- A commit to `h` from `t` in flight: the writes of `E` applied, `'B'` erased,
`'H' = [h, t]`. -/
def inFlightState (ext : Externals) (db : Db) (E : List (COutPoint × CCoinsCacheEntry))
    (h t : Uint256) : Db :=
  ((db.applyOps (E.map (coinOp ext))).erase keyBestBlock).put keyHeadBlocks (headBlocksValue h t)

theorem coinOp_key (ext : Externals) (e : COutPoint × CCoinsCacheEntry) :
    (coinOp ext e).key = CoinEntry.serialize e.1 := by
  unfold coinOp; split <;> rfl

theorem effect_coinOps_marker (ext : Externals) (E : List (COutPoint × CCoinsCacheEntry))
    {k : Bytes} (hk : k = keyBestBlock ∨ k = keyHeadBlocks) :
    BatchOp.effect k (E.map (coinOp ext)) = none := by
  rw [BatchOp.effect_eq_none]
  simp only [List.mem_map]
  rintro _ ⟨e, -, rfl⟩ hkey
  rw [coinOp_key] at hkey
  rcases hk with rfl | rfl
  · exact CoinEntry.serialize_ne_keyBestBlock e.1 hkey
  · exact CoinEntry.serialize_ne_keyHeadBlocks e.1 hkey

theorem applyOps_marker (ext : Externals) (db : Db) (E : List (COutPoint × CCoinsCacheEntry))
    (h t : Uint256) :
    db.applyOps ([.erase keyBestBlock, .put keyHeadBlocks (headBlocksValue h t)] ++
      E.map (coinOp ext)) = inFlightState ext db E h t := by
  apply Db.ext
  intro k
  rw [Db.get_applyOps, BatchOp.effect_append, inFlightState, Db.get_put, Db.get_erase,
    Db.get_applyOps]
  by_cases hH : keyHeadBlocks = k
  · subst hH
    simp [effect_coinOps_marker ext E (.inr rfl), BatchOp.effect, BatchOp.key, BatchOp.value?]
  by_cases hB : keyBestBlock = k
  · subst hB
    simp [effect_coinOps_marker ext E (.inl rfl), BatchOp.effect, BatchOp.key, BatchOp.value?,
      keyBestBlock_ne_keyHeadBlocks.symm]
  · cases BatchOp.effect k (E.map (coinOp ext)) <;>
      simp [BatchOp.effect, BatchOp.key, hB, hH]

theorem applyOps_marker_final (ext : Externals) (db : Db) (E : List (COutPoint × CCoinsCacheEntry))
    (h t : Uint256) :
    db.applyOps ([.erase keyBestBlock, .put keyHeadBlocks (headBlocksValue h t)] ++
      E.map (coinOp ext) ++ [.erase keyHeadBlocks, .put keyBestBlock h.data]) =
      committedState ext db E h := by
  rw [Db.applyOps_append, applyOps_marker]
  apply Db.ext
  intro k
  simp only [Db.applyOps_cons, Db.applyOps_nil, Db.apply, committedState, inFlightState,
    Db.get_put, Db.get_erase]
  by_cases hB : keyBestBlock = k <;> by_cases hH : keyHeadBlocks = k <;> simp [hB, hH]

theorem markerBatch_ops (db : Db) (h : Uint256) :
    (markerBatch db h).ops = [.erase keyBestBlock, .put keyHeadBlocks (headBlocksValue h (oldTip db))] :=
  rfl

theorem batchWrite_some {ext : Externals} {db : Db} {mapCoins : CCoinsMap} {h : Uint256}
    {batchSize : Nat} {r : BatchWriteResult} (hr : batchWrite ext db mapCoins h batchSize = some r) :
    AssertsHold db h ∧ ∃ st : DrainState,
      st = mapCoins.entries.foldl (drainStep ext batchSize) ⟨markerBatch db h, [], []⟩ ∧
      r = ⟨st.flushed ++ [(st.batch.erase keyHeadBlocks).write keyBestBlock h.data], st.kept⟩ := by
  unfold batchWrite at hr
  split at hr
  · exact ⟨‹_›, _, rfl, (Option.some.inj hr).symm⟩
  · cases hr

theorem batchWrite_length_pos {ext : Externals} {db : Db} {mapCoins : CCoinsMap} {h : Uint256}
    {batchSize : Nat} {r : BatchWriteResult} (hr : batchWrite ext db mapCoins h batchSize = some r) :
    0 < r.batches.length := by
  obtain ⟨-, st, -, rfl⟩ := batchWrite_some hr
  simp

theorem batchWrite_ops {ext : Externals} {db : Db} {mapCoins : CCoinsMap} {h : Uint256}
    {batchSize : Nat} {r : BatchWriteResult} (hr : batchWrite ext db mapCoins h batchSize = some r) :
    r.batches.flatMap CDBBatch.ops =
      [.erase keyBestBlock, .put keyHeadBlocks (headBlocksValue h (oldTip db))] ++
        (mapCoins.entries.filter Written).map (coinOp ext) ++
          [.erase keyHeadBlocks, .put keyBestBlock h.data] := by
  obtain ⟨-, st, hst, rfl⟩ := batchWrite_some hr
  have hissued := drain_issued ext batchSize mapCoins.entries ⟨markerBatch db h, [], []⟩
  rw [← hst] at hissued
  simp only [DrainState.issued, List.flatMap_nil, List.nil_append, markerBatch_ops] at hissued
  simp only [List.flatMap_append, List.flatMap_singleton, CDBBatch.ops_write, CDBBatch.ops_erase,
    ← List.append_assoc]
  rw [hissued, writtenOps]
  simp

theorem batchWrite_prefix_ops {ext : Externals} {db : Db} {mapCoins : CCoinsMap} {h : Uint256}
    {batchSize : Nat} {r : BatchWriteResult} (hr : batchWrite ext db mapCoins h batchSize = some r)
    {k : Nat} (hk0 : 0 < k) (hk : k < r.batches.length) :
    ∃ n ≤ (mapCoins.entries.filter Written).length,
      (r.batches.take k).flatMap CDBBatch.ops =
        [.erase keyBestBlock, .put keyHeadBlocks (headBlocksValue h (oldTip db))] ++
          ((mapCoins.entries.filter Written).take n).map (coinOp ext) := by
  obtain ⟨-, st, hst, rfl⟩ := batchWrite_some hr
  simp only [List.length_append, List.length_singleton] at hk
  rw [List.take_append_of_le_length (by omega)]
  obtain ⟨j, -, hops⟩ := drain_flushed_prefix ext batchSize mapCoins.entries
    ⟨markerBatch db h, [], []⟩ k hk0 (by rw [← hst]; omega)
  rw [← hst] at hops
  obtain ⟨n, hn, hfilter⟩ := filter_take_eq_take_filter Written mapCoins.entries j
  refine ⟨n, hn, ?_⟩
  rw [hops, writtenOps, hfilter]
  rfl

theorem batchWrite_durable {ext : Externals} {db : Db} {mapCoins : CCoinsMap} {h : Uint256}
    {batchSize : Nat} {r : BatchWriteResult} (hr : batchWrite ext db mapCoins h batchSize = some r)
    (k : Nat) :
    (k = 0 ∧ db.writeBatches (r.batches.take k) = db) ∨
    (r.batches.length ≤ k ∧
      db.writeBatches (r.batches.take k) =
        committedState ext db (mapCoins.entries.filter Written) h) ∨
    (0 < k ∧ k < r.batches.length ∧ ∃ n ≤ (mapCoins.entries.filter Written).length,
      db.writeBatches (r.batches.take k) =
        inFlightState ext db ((mapCoins.entries.filter Written).take n) h (oldTip db)) := by
  rcases Nat.eq_zero_or_pos k with rfl | hk0
  · exact .inl ⟨rfl, rfl⟩
  by_cases hk : r.batches.length ≤ k
  · refine .inr (.inl ⟨hk, ?_⟩)
    rw [List.take_of_length_le hk, Db.writeBatches_eq, batchWrite_ops hr, applyOps_marker_final]
  · obtain ⟨n, hn, hops⟩ := batchWrite_prefix_ops hr hk0 (by omega)
    refine .inr (.inr ⟨hk0, by omega, n, hn, ?_⟩)
    rw [Db.writeBatches_eq, hops, applyOps_marker]

/-! ## Crash states of one commit -/

theorem Db.read_of_get_none {α : Type} {db : Db} {k : Bytes} (s : Serializer α)
    (h : db.get k = none) : db.read s k = none := by
  simp [Db.read, h]

theorem TipMarkerInvariant.oldTip_and_asserts {db : Db} (hinv : TipMarkerInvariant db)
    {h : Uint256} (hnull : ¬h.IsNull) (hhead : ∀ h' t, Transitional db h' t → h' = h) :
    oldTip db = recoveredTip db ∧ AssertsHold db h := by
  rcases hinv with ⟨t, hB, hH⟩ | ⟨h', t, hB, hH⟩ | ⟨hB, hH⟩
  · have hH' := Db.read_of_get_none Uint256.serializer.vector hH
    by_cases ht : t.IsNull <;>
      simp [oldTip, recoveredTip, AssertsHold, getBestBlock, getHeadBlocks, hB, hH', ht, hnull]
  · have hB' := Db.read_of_get_none Uint256.serializer hB
    have := hhead h' t ⟨hB, hH⟩
    simp [oldTip, recoveredTip, AssertsHold, getBestBlock, getHeadBlocks, hB', hH, hnull, this]
  · have hB' := Db.read_of_get_none Uint256.serializer hB
    have hH' := Db.read_of_get_none Uint256.serializer.vector hH
    simp [oldTip, recoveredTip, AssertsHold, getBestBlock, getHeadBlocks, hB', hH', hnull]

/-- **A crash leaves one of three states**: the chainstate unchanged, the full commit, or
`'B'` erased, `'H' = [h, recovered tip]` and a prefix of the written entries. -/
theorem batchWrite_crash_states (ext : Externals) (S : Db) (mapCoins : CCoinsMap)
    (h : Uint256) (batchSize k : Nat) (hinv : TipMarkerInvariant S) (hnull : ¬h.IsNull)
    (hhead : ∀ h' t, Transitional S h' t → h' = h) :
    ∃ r, batchWrite ext S mapCoins h batchSize = some r ∧
      (k = 0 → S.writeBatches (r.batches.take k) = S) ∧
      (r.batches.length ≤ k → S.writeBatches (r.batches.take k) =
        committedState ext S (mapCoins.entries.filter Written) h) ∧
      (0 < k → k < r.batches.length → ∃ n ≤ (mapCoins.entries.filter Written).length,
        S.writeBatches (r.batches.take k) =
          inFlightState ext S ((mapCoins.entries.filter Written).take n) h (recoveredTip S)) := by
  obtain ⟨htip, hasserts⟩ := hinv.oldTip_and_asserts hnull hhead
  refine ⟨_, if_pos hasserts, ?_⟩
  rcases batchWrite_durable (if_pos hasserts) k with ⟨hk, hS⟩ | ⟨hk, hS⟩ | ⟨hk0, hk, hS⟩
  · exact ⟨fun _ => hS, fun hle => by simp at hle; omega, fun h0 => by omega⟩
  · exact ⟨fun hk0 => by subst hk0; rfl, fun _ => hS, fun _ hlt => by omega⟩
  · exact ⟨fun h0 => by omega, fun hle => by omega, fun _ _ => htip ▸ hS⟩

def lostEntry : COutPoint × CCoinsCacheEntry :=
  (⟨Reference.tip, 0⟩, ⟨⟨⟨50, []⟩, 1, false, false⟩, DIRTY⟩)

def oneEntryMap : CCoinsMap := ⟨[lostEntry], by simp⟩

/-- A commit of `lostEntry` to the reference tip from an empty chainstate, cut off
after its first batch: `'H' = [tip, 0]` and the coin. -/
def interruptedDb : Db := inFlightState Reference.ext Db.empty [lostEntry] Reference.tip Uint256.zero

theorem batchWrite_crash_states_interrupted :
    TipMarkerInvariant interruptedDb ∧ ¬Reference.tip.IsNull ∧
      (∀ h' t, Transitional interruptedDb h' t → h' = Reference.tip) ∧
      ∃ r, batchWrite Reference.ext interruptedDb oneEntryMap Reference.tip 0 = some r ∧
        (1 = 0 → interruptedDb.writeBatches (r.batches.take 1) = interruptedDb) ∧
        (r.batches.length ≤ 1 → interruptedDb.writeBatches (r.batches.take 1) =
          committedState Reference.ext interruptedDb (oneEntryMap.entries.filter Written)
            Reference.tip) ∧
        (0 < 1 → 1 < r.batches.length → ∃ n ≤ (oneEntryMap.entries.filter Written).length,
          interruptedDb.writeBatches (r.batches.take 1) =
            inFlightState Reference.ext interruptedDb ((oneEntryMap.entries.filter Written).take n)
              Reference.tip (recoveredTip interruptedDb)) := by
  have hH : interruptedDb.read Uint256.serializer.vector keyHeadBlocks =
      some [Reference.tip, Uint256.zero] := by decide
  have hhead : ∀ h' t, Transitional interruptedDb h' t → h' = Reference.tip := by
    rintro h' t ⟨-, hT⟩
    rw [hH, Option.some.injEq, List.cons.injEq] at hT
    exact hT.1.symm
  have hinv : TipMarkerInvariant interruptedDb := .inr (.inl ⟨_, _, by decide, hH⟩)
  have hnull : ¬Reference.tip.IsNull := by decide
  exact ⟨hinv, hnull, hhead, batchWrite_crash_states Reference.ext interruptedDb oneEntryMap
    Reference.tip 0 1 hinv hnull hhead⟩

/-! ## Loaded entries stay in the changeset -/

/-- When `BatchWrite` returns, the changeset holds exactly its loaded entries, in
map order. -/
theorem batchWrite_remaining {ext : Externals} {db : Db} {mapCoins : CCoinsMap} {h : Uint256}
    {batchSize : Nat} {r : BatchWriteResult} (hr : batchWrite ext db mapCoins h batchSize = some r) :
    r.remaining = mapCoins.entries.filter (·.2.coin.fLoaded) := by
  obtain ⟨-, st, rfl, rfl⟩ := batchWrite_some hr
  simpa using drain_kept ext batchSize mapCoins.entries _

def loadedEntry : COutPoint × CCoinsCacheEntry :=
  (⟨Reference.tip, 1⟩, ⟨⟨⟨50, []⟩, 1, false, true⟩, DIRTY⟩)

def mixedMap : CCoinsMap := ⟨[lostEntry, loadedEntry], by decide⟩

theorem batchWrite_remaining_mixedMap :
    ∃ r, batchWrite Reference.ext Db.empty mixedMap Reference.tip 0 = some r ∧
      r.remaining = mixedMap.entries.filter (·.2.coin.fLoaded) :=
  ⟨_, rfl, @batchWrite_remaining Reference.ext Db.empty mixedMap Reference.tip 0 _ rfl⟩

/-- `BatchWrite` to a non-null target drains the ordinary entry and returns with the
loaded one still in the changeset. -/
theorem batchWrite_keeps_loaded_entry :
    Reference.tip.IsNull = false ∧
      ∃ r, batchWrite Reference.ext Db.empty mixedMap Reference.tip 0 = some r ∧
        r.remaining = [loadedEntry] :=
  ⟨by decide, _, rfl, rfl⟩

end CCoinsViewDB
end TxDb
