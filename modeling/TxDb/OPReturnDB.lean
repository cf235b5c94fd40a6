import TxDb.BlockTree

/-!
# The OP_RETURN database

`OPReturnDB` keeps block data under `('x', hash)` and news types under `('X', hash)`;
`GetNewsTypes` walks from `('X', 0)` to the end.  After any run of writes the point reads
(`readers_runOps`) and `GetNewsTypes` (`getNewsTypes_runOps`) answer as `OPReturnView`.
-/

namespace TxDb
namespace OPReturnDB

def DB_OP_RETURN : UInt8 := 0x78

def DB_OP_RETURN_TYPES : UInt8 := 0x58

/-- What the OP_RETURN database takes from headers `src/` does not include: the
serializers of a block's `std::vector<OPReturnData>` and of `NewsType`, and
`NewsType::GetHash`. -/
structure OPReturnExternals (D N : Type) where
  blockData : Serializer (List D)
  newsType : Serializer N
  GetHash : N → Uint256

variable {D N : Type} (ext : OPReturnExternals D N)

/-! ## The writes and the readers -/

/-- `OPReturnDB::WriteBlockData`: the block's data under `('x', hash)`, in one batch. -/
def writeBlockData (data : Uint256 × List D) : CDBBatch :=
  CDBBatch.empty.write (pairKey DB_OP_RETURN data.1) (ext.blockData.ser data.2)

/-- `OPReturnDB::GetBlockData`. -/
def getBlockData (db : Db) (hashBlock : Uint256) : Option (List D) :=
  db.read ext.blockData (pairKey DB_OP_RETURN hashBlock)

/-- `OPReturnDB::HaveBlockData`. -/
def haveBlockData (db : Db) (hashBlock : Uint256) : Bool := (getBlockData ext db hashBlock).isSome

/-- `OPReturnDB::WriteNewsType`: the type under `('X', type.GetHash())`, in one batch;
the result of `WriteBatch` is dropped. -/
def writeNewsType (type : N) : CDBBatch :=
  CDBBatch.empty.write (pairKey DB_OP_RETURN_TYPES (ext.GetHash type)) (ext.newsType.ser type)

/-- `OPReturnDB::EraseNewsType`: `Erase(std::make_pair(DB_OP_RETURN_TYPES, hash))`. -/
def eraseNewsType (hash : Uint256) : CDBBatch :=
  CDBBatch.empty.erase (pairKey DB_OP_RETURN_TYPES hash)

/-- The loop of `GetNewsTypes` from iteration `i` over the records from the cursor on:
a record whose key reads as a pair tagged `'X'` and whose value reads as a news type
is pushed onto `vType`; every other record is passed over, up to the end of the
database (`some ()`) or an interruption point that throws (`none`). -/
def getNewsTypesLoop (interrupted : Nat → Bool) :
    Nat → List (Bytes × Bytes) → List N → Option Unit × List N
  | _, [], vType => (some (), vType)
  | i, (k, v) :: rest, vType =>
      if interrupted i then (none, vType)
      else match pairSer.read k with
        | some (tag, _) =>
            if tag = DB_OP_RETURN_TYPES then
              match ext.newsType.read v with
              | some type => getNewsTypesLoop interrupted (i + 1) rest (vType ++ [type])
              | none => getNewsTypesLoop interrupted (i + 1) rest vType
            else getNewsTypesLoop interrupted (i + 1) rest vType
        | none => getNewsTypesLoop interrupted (i + 1) rest vType

/-- `OPReturnDB::GetNewsTypes` into the caller's `vType`, which it does not clear:
whether it returns, and the vector after. -/
def getNewsTypes (interrupted : Nat → Bool) (db : Db) (vType : List N) : Option Unit × List N :=
  getNewsTypesLoop ext interrupted 0
    (db.newIterator.seek (pairKey DB_OP_RETURN_TYPES Uint256.zero)).rest vType

/-- The writes of the database, each one `WriteBatch` call. -/
inductive OPReturnOp (D N : Type) where
  | writeBlockData (data : Uint256 × List D)
  | writeNewsType (type : N)
  | eraseNewsType (hash : Uint256)

namespace OPReturnOp

def batch : OPReturnOp D N → CDBBatch
  | writeBlockData data => OPReturnDB.writeBlockData ext data
  | writeNewsType type => OPReturnDB.writeNewsType ext type
  | eraseNewsType hash => OPReturnDB.eraseNewsType hash

/-- What a write needs for its record to read back. -/
def Fits : OPReturnOp D N → Prop
  | writeBlockData data => ext.blockData.RoundTrips data.2
  | writeNewsType type => ext.newsType.RoundTrips type
  | eraseNewsType _ => True

end OPReturnOp

def runOps (db : Db) (ops : List (OPReturnOp D N)) : Db := db.writeBatches (ops.map (·.batch ext))

/-! ## What the database is for -/

/-- Per block hash the data written last; per hash the news type written last and not
erased since. -/
structure OPReturnView (D N : Type) where
  blockData : Uint256 → Option (List D)
  newsTypes : Uint256 → Option N

namespace OPReturnView

def empty : OPReturnView D N := ⟨fun _ => none, fun _ => none⟩

def step (v : OPReturnView D N) : OPReturnOp D N → OPReturnView D N
  | .writeBlockData data => { v with blockData := Function.update v.blockData data.1 (some data.2) }
  | .writeNewsType type =>
      { v with newsTypes := Function.update v.newsTypes (ext.GetHash type) (some type) }
  | .eraseNewsType hash => { v with newsTypes := Function.update v.newsTypes hash none }

def run (ops : List (OPReturnOp D N)) : OPReturnView D N := ops.foldl (step ext) empty

end OPReturnView

/-- The database answers the point reads as the view says, and each of its news
records is a type that reads back, under that type's hash. -/
structure Refines (db : Db) (v : OPReturnView D N) : Prop where
  blockData : ∀ h, getBlockData ext db h = v.blockData h
  newsTypes : ∀ h, db.read ext.newsType (pairKey DB_OP_RETURN_TYPES h) = v.newsTypes h
  newsRecords : ∀ e ∈ db.entries, e.1.head? = some DB_OP_RETURN_TYPES →
    ∃ type, e.1 = pairKey DB_OP_RETURN_TYPES (ext.GetHash type) ∧ ext.newsType.read e.2 = some type

/-! ## Every write keeps the relation -/

variable {ext} {db : Db} {v : OPReturnView D N}

theorem pairKey_ne_of_tag {tag tag' : UInt8} (htag : tag ≠ tag') (h h' : Uint256) :
    pairKey tag h ≠ pairKey tag' h' :=
  fun heq => htag (List.cons.inj heq).1

theorem pairKey_inj {tag : UInt8} {h h' : Uint256} : pairKey tag h = pairKey tag h' ↔ h = h' :=
  ⟨fun heq => Uint256.ext (List.cons.inj heq).2, congrArg _⟩

theorem Refines.writeBlockData (hr : Refines ext db v) (data : Uint256 × List D)
    (hrt : ext.blockData.RoundTrips data.2) :
    Refines ext (db.writeBatch (writeBlockData ext data)) (v.step ext (.writeBlockData data)) := by
  refine ⟨fun h => ?_, fun h => ?_, fun e he hhead => ?_⟩
  · by_cases hh : h = data.1
    · subst hh
      simp [getBlockData, OPReturnDB.writeBlockData, Db.writeBatch, Db.apply, Db.read,
        Serializer.read_ser hrt, OPReturnView.step]
    · simp only [OPReturnView.step, Function.update_noteq hh, ← hr.blockData h]
      simp [getBlockData, OPReturnDB.writeBlockData, Db.writeBatch, Db.apply, Db.read,
        pairKey_inj, Ne.symm hh]
  · simp only [OPReturnView.step, ← hr.newsTypes h]
    simp [OPReturnDB.writeBlockData, Db.writeBatch, Db.apply, Db.read, OPReturnView.step,
      pairKey_ne_of_tag (show DB_OP_RETURN ≠ DB_OP_RETURN_TYPES by decide)]
  · rcases Db.mem_insertEntry he with rfl | he
    · simp [pairKey, DB_OP_RETURN, DB_OP_RETURN_TYPES] at hhead
    · exact hr.newsRecords e he hhead

theorem Refines.writeNewsType (hr : Refines ext db v) (type : N)
    (hrt : ext.newsType.RoundTrips type) :
    Refines ext (db.writeBatch (writeNewsType ext type)) (v.step ext (.writeNewsType type)) := by
  refine ⟨fun h => ?_, fun h => ?_, fun e he hhead => ?_⟩
  · simp only [OPReturnView.step, ← hr.blockData h]
    simp [getBlockData, OPReturnDB.writeNewsType, Db.writeBatch, Db.apply, Db.read, OPReturnView.step,
      pairKey_ne_of_tag (show DB_OP_RETURN_TYPES ≠ DB_OP_RETURN by decide)]
  · by_cases hh : h = ext.GetHash type
    · subst hh
      simp [OPReturnDB.writeNewsType, Db.writeBatch, Db.apply, Db.read, Serializer.read_ser hrt,
        OPReturnView.step]
    · simp only [OPReturnView.step, Function.update_noteq hh, ← hr.newsTypes h]
      simp [OPReturnDB.writeNewsType, Db.writeBatch, Db.apply, Db.read, pairKey_inj, Ne.symm hh]
  · rcases Db.mem_insertEntry he with rfl | he
    · exact ⟨type, rfl, Serializer.read_ser hrt⟩
    · exact hr.newsRecords e he hhead

theorem Refines.eraseNewsType (hr : Refines ext db v) (hash : Uint256) :
    Refines ext (db.writeBatch (eraseNewsType hash)) (v.step ext (.eraseNewsType hash)) := by
  refine ⟨fun h => ?_, fun h => ?_, fun e he hhead => ?_⟩
  · simp only [OPReturnView.step, ← hr.blockData h]
    simp [getBlockData, OPReturnDB.eraseNewsType, Db.writeBatch, Db.apply, Db.read, OPReturnView.step,
      pairKey_ne_of_tag (show DB_OP_RETURN_TYPES ≠ DB_OP_RETURN by decide)]
  · by_cases hh : h = hash
    · subst hh
      simp [OPReturnDB.eraseNewsType, Db.writeBatch, Db.apply, Db.read, OPReturnView.step]
    · simp only [OPReturnView.step, Function.update_noteq hh, ← hr.newsTypes h]
      simp [OPReturnDB.eraseNewsType, Db.writeBatch, Db.apply, Db.read, pairKey_inj, Ne.symm hh]
  · exact hr.newsRecords e (List.mem_filter.mp he).1 hhead

theorem Refines.step (hr : Refines ext db v) (op : OPReturnOp D N) (hfits : op.Fits ext) :
    Refines ext (db.writeBatch (op.batch ext)) (v.step ext op) := by
  cases op with
  | writeBlockData data => exact hr.writeBlockData data hfits
  | writeNewsType type => exact hr.writeNewsType type hfits
  | eraseNewsType hash => exact hr.eraseNewsType hash

theorem runOps_refines (ops : List (OPReturnOp D N)) (hfits : ∀ op ∈ ops, op.Fits ext) :
    Refines ext (runOps ext Db.empty ops) (OPReturnView.run ext ops) := by
  suffices ∀ (db : Db) (v : OPReturnView D N), Refines ext db v →
      Refines ext (db.writeBatches (ops.map (·.batch ext))) (ops.foldl (OPReturnView.step ext) v) from
    this _ _ ⟨fun _ => rfl, fun _ => rfl, fun _ he => absurd he (List.not_mem_nil _)⟩
  induction ops with
  | nil => exact fun _ _ h => h
  | cons op ops ih =>
      exact fun db v h => ih (fun op' hop' => hfits op' (List.mem_cons_of_mem _ hop')) _ _
        (h.step op (hfits op (List.mem_cons_self _ _)))

/-- **The point reads after any run** return the block data and news types written last. -/
theorem readers_runOps (ops : List (OPReturnOp D N)) (hfits : ∀ op ∈ ops, op.Fits ext)
    (h : Uint256) :
    getBlockData ext (runOps ext Db.empty ops) h = (OPReturnView.run ext ops).blockData h ∧
      haveBlockData ext (runOps ext Db.empty ops) h = ((OPReturnView.run ext ops).blockData h).isSome ∧
      (runOps ext Db.empty ops).read ext.newsType (pairKey DB_OP_RETURN_TYPES h) =
        (OPReturnView.run ext ops).newsTypes h := by
  have hr := runOps_refines ops hfits
  exact ⟨hr.blockData h, by rw [haveBlockData, hr.blockData h], hr.newsTypes h⟩

/-! ## `GetNewsTypes` -/

variable (ext) in
def newsRecord? (e : Bytes × Bytes) : Option N :=
  match pairSer.read e.1 with
  | some (tag, _) => if tag = DB_OP_RETURN_TYPES then ext.newsType.read e.2 else none
  | none => none

variable (ext) in
theorem getNewsTypesLoop_eq :
    ∀ (i : Nat) (recs : List (Bytes × Bytes)) (vType : List N),
      getNewsTypesLoop ext noInterruption i recs vType =
        (some (), vType ++ recs.filterMap (newsRecord? ext))
  | _, [], vType => by simp [getNewsTypesLoop]
  | i, (k, v) :: rest, vType => by
      rw [getNewsTypesLoop, List.filterMap_cons, newsRecord?]
      simp only [noInterruption, Bool.false_eq_true, if_false]
      split
      · split
        · split <;> simp [getNewsTypesLoop_eq (i + 1) rest, *]
        · simp [getNewsTypesLoop_eq (i + 1) rest, *]
      · simp [getNewsTypesLoop_eq (i + 1) rest, *]

theorem newsRecord?_above {e : Bytes × Bytes} (he : e.1.head?.any (DB_OP_RETURN_TYPES < ·)) :
    newsRecord? ext e = none := by
  unfold newsRecord?
  split
  next tag _ hread =>
    have htag : tag ≠ DB_OP_RETURN_TYPES := by
      rintro rfl
      simp [CBlockTreeDB.pairSer_read_head hread] at he
    simp [htag]
  · rfl

def typeRecords (db : Db) : List (Bytes × Bytes) :=
  db.entries.filter fun e => e.1.head? = some DB_OP_RETURN_TYPES

theorem Refines.getNewsTypes_eq (hr : Refines ext db v) (vType : List N) :
    getNewsTypes ext noInterruption db vType =
      (some (), vType ++ (typeRecords db).filterMap fun e => ext.newsType.read e.2) := by
  have hlen : ∀ e ∈ db.entries, e.1.head? = some DB_OP_RETURN_TYPES → 33 ≤ e.1.length :=
    fun e he hhead => by
      obtain ⟨type, hk, -⟩ := hr.newsRecords e he hhead
      simp [hk, pairKey, (ext.GetHash type).size_eq]
  rw [getNewsTypes, seek_pairKey_zero hlen, getNewsTypesLoop_eq, List.filterMap_append,
    List.filterMap_eq_nil_iff.mpr fun e he => newsRecord?_above (List.mem_filter.mp he).2,
    List.append_nil, ← typeRecords]
  congr 2
  refine List.filterMap_congr fun e he => ?_
  obtain ⟨type, hk, -⟩ := hr.newsRecords e (List.mem_filter.mp he).1 (by simpa using (List.mem_filter.mp he).2)
  have hkey : pairSer.read (pairKey DB_OP_RETURN_TYPES (ext.GetHash type)) =
      some (DB_OP_RETURN_TYPES, ext.GetHash type) :=
    Serializer.read_ser (pairSer_roundTrips (DB_OP_RETURN_TYPES, ext.GetHash type))
  simp [newsRecord?, hk, hkey]

theorem Refines.mem_newsRecords (hr : Refines ext db v) (type : N) :
    type ∈ (typeRecords db).filterMap (fun e => ext.newsType.read e.2) ↔
      v.newsTypes (ext.GetHash type) = some type := by
  rw [← hr.newsTypes, List.mem_filterMap]
  constructor
  · rintro ⟨e, he, hread⟩
    obtain ⟨hmem, hhead⟩ := List.mem_filter.mp he
    obtain ⟨type', hk, hread'⟩ := hr.newsRecords e hmem (by simpa using hhead)
    obtain rfl : type' = type := Option.some.inj (hread'.symm.trans hread)
    rw [Db.read, ← hk, Db.get, (Db.lookup_eq_some_iff db.sorted).mpr hmem]
    exact hread
  · intro hread
    obtain ⟨bytes, hget, hbytes⟩ := Option.bind_eq_some.mp hread
    exact ⟨_, List.mem_filter.mpr ⟨(Db.lookup_eq_some_iff db.sorted).mp hget, by simp [pairKey]⟩,
      hbytes⟩

theorem Refines.newsRecords_sorted (hr : Refines ext db v) :
    (((typeRecords db).filterMap fun e => ext.newsType.read e.2).map ext.GetHash).Pairwise
      fun h h' => keyLt h.data h'.data := by
  rw [List.pairwise_map, List.pairwise_filterMap]
  refine (db.sorted.sublist (List.filter_sublist _)).imp_of_mem fun he he' hlt => ?_
  intro type htype type' htype'
  obtain ⟨t, hk, hread⟩ := hr.newsRecords _ (List.mem_filter.mp he).1
    (by simpa using (List.mem_filter.mp he).2)
  obtain ⟨t', hk', hread'⟩ := hr.newsRecords _ (List.mem_filter.mp he').1
    (by simpa using (List.mem_filter.mp he').2)
  rw [Option.mem_def, hread, Option.some.injEq] at htype
  rw [Option.mem_def, hread', Option.some.injEq] at htype'
  subst htype htype'
  simpa [hk, hk', pairKey] using hlt

/-- **`GetNewsTypes` after any run** appends the view's news types once each, in hash
order. -/
theorem getNewsTypes_runOps (ops : List (OPReturnOp D N)) (hfits : ∀ op ∈ ops, op.Fits ext)
    (vType : List N) :
    ∃ L, getNewsTypes ext noInterruption (runOps ext Db.empty ops) vType = (some (), vType ++ L) ∧
      (∀ type, type ∈ L ↔ (OPReturnView.run ext ops).newsTypes (ext.GetHash type) = some type) ∧
      (L.map ext.GetHash).Pairwise fun h h' => keyLt h.data h'.data := by
  have hr := runOps_refines ops hfits
  exact ⟨_, hr.getNewsTypes_eq vType, hr.mem_newsRecords, hr.newsRecords_sorted⟩

/-! ## A concrete instance -/

namespace Reference

def opReturnExt : OPReturnExternals Uint256 Uint256 := ⟨Uint256.serializer.vector, Uint256.serializer, id⟩

open CBlockTreeDB.Reference in
def newsRun : List (OPReturnOp Uint256 Uint256) :=
  [.writeNewsType (root 2), .writeBlockData (root 1, [root 2]), .writeNewsType (root 1),
    .eraseNewsType (root 2)]

theorem newsRun_fits : ∀ op ∈ newsRun, op.Fits opReturnExt := by
  intro op hop
  simp only [newsRun, List.mem_cons, List.mem_singleton, List.not_mem_nil, or_false] at hop
  rcases hop with rfl | rfl | rfl | rfl
  · exact Uint256.roundTrips _
  · exact Serializer.vector_roundTrips (fun x _ => Uint256.roundTrips x) (by decide)
  · exact Uint256.roundTrips _
  · trivial

end Reference

theorem readers_runOps_newsRun :
    (∀ op ∈ Reference.newsRun, op.Fits Reference.opReturnExt) ∧
      (getBlockData Reference.opReturnExt (runOps Reference.opReturnExt Db.empty Reference.newsRun)
          (CBlockTreeDB.Reference.root 1) =
        (OPReturnView.run Reference.opReturnExt Reference.newsRun).blockData (CBlockTreeDB.Reference.root 1) ∧
      haveBlockData Reference.opReturnExt (runOps Reference.opReturnExt Db.empty Reference.newsRun)
          (CBlockTreeDB.Reference.root 1) =
        ((OPReturnView.run Reference.opReturnExt Reference.newsRun).blockData
          (CBlockTreeDB.Reference.root 1)).isSome ∧
      (runOps Reference.opReturnExt Db.empty Reference.newsRun).read Reference.opReturnExt.newsType
          (pairKey DB_OP_RETURN_TYPES (CBlockTreeDB.Reference.root 1)) =
        (OPReturnView.run Reference.opReturnExt Reference.newsRun).newsTypes (CBlockTreeDB.Reference.root 1)) :=
  ⟨Reference.newsRun_fits, readers_runOps _ Reference.newsRun_fits _⟩

theorem getNewsTypes_runOps_newsRun :
    (∀ op ∈ Reference.newsRun, op.Fits Reference.opReturnExt) ∧
      ∃ L, getNewsTypes Reference.opReturnExt noInterruption
          (runOps Reference.opReturnExt Db.empty Reference.newsRun) [] = (some (), [] ++ L) ∧
        (∀ type, type ∈ L ↔ (OPReturnView.run Reference.opReturnExt Reference.newsRun).newsTypes
          (Reference.opReturnExt.GetHash type) = some type) ∧
        (L.map Reference.opReturnExt.GetHash).Pairwise fun h h' => keyLt h.data h'.data :=
  ⟨Reference.newsRun_fits, getNewsTypes_runOps _ Reference.newsRun_fits []⟩

end OPReturnDB
end TxDb
