import TxDb.Lookup

/-!
# The loaded-coin file

`WriteMyLoadedCoins` writes two versions, a count and the records; `ReadMyLoadedCoins`
reads them back and `ReadLoadedCoins` imports the same format in batches of 4000000
(`loadedCoinFile_round_trip`, `readLoadedCoins_batches`).  A file cut after `j` records
reads back as those `j` (`readMyLoadedCoins_take`).
-/

namespace TxDb

namespace CCoinsViewDB

/-! ## Writing -/

/-- The bytes `WriteMyLoadedCoins` writes.  `int count = vLoadedCoin.size()` keeps the
size modulo 2^32, as `writeInt32` does. -/
def loadedCoinFile (ext : Externals) (vLoadedCoin : List LoadedCoin) : Bytes :=
  writeInt32 210000 ++ writeInt32 ext.CLIENT_VERSION ++ writeInt32 vLoadedCoin.length ++
    vLoadedCoin.flatMap ext.loadedCoin.ser

/-- `CCoinsViewDB::WriteMyLoadedCoins` on the content of the file (`none`: there is
none): an empty vector returns before the file is opened. -/
def writeMyLoadedCoins (ext : Externals) (vLoadedCoin : List LoadedCoin)
    (file : Option Bytes) : Option Bytes :=
  if vLoadedCoin.length = 0 then file else some (loadedCoinFile ext vLoadedCoin)

/-! ## Reading -/

/-- The records `for (int i = 0; i < count; i++) filein >> loadedCoin` reads before
the first that fails, and whether all `count` were read. -/
def readRecords (ext : Externals) : Nat → Bytes → List LoadedCoin × Bool
  | 0, _ => ([], true)
  | n + 1, bs =>
      match ext.loadedCoin.deser bs with
      | none => ([], false)
      | some (c, rest) => let r := readRecords ext n rest; (c :: r.1, r.2)

/-- `CCoinsViewDB::ReadMyLoadedCoins` on the content of the file: the records read up
to the first failure, none if the header is short or asks for a newer version. -/
def readMyLoadedCoins (ext : Externals) (file : Option Bytes) : List LoadedCoin :=
  match file with
  | none => []
  | some bs =>
      match readInt32 bs with
      | none => []
      | some (nVersionRequired, bs) =>
          match readInt32 bs with
          | none => []
          | some (_, bs) =>
              if nVersionRequired > ext.CLIENT_VERSION then []
              else
                match readInt32 bs with
                | none => []
                | some (count, bs) => (readRecords ext count.toNat bs).1

/-- The write `WriteLoadedCoinIndex` makes for one record: under `('p', GetHash(out))`. -/
def loadedCoinOp (ext : Externals) (c : LoadedCoin) : BatchOp :=
  .put (pairKey DB_LOADED_COINS (c.out.GetHash ext)) (ext.loadedCoin.ser c)

/-- `CCoinsViewDB::WriteLoadedCoinIndex`: one batch with a write per record. -/
def writeLoadedCoinIndex (ext : Externals) (vLoadedCoin : List LoadedCoin) : CDBBatch :=
  CDBBatch.empty.addOps (vLoadedCoin.map (loadedCoinOp ext))

/-- `CCoinsViewDB::WriteToLoadedCoinIndex`: the index write of a single record. -/
def writeToLoadedCoinIndex (ext : Externals) (coin : LoadedCoin) : CDBBatch :=
  writeLoadedCoinIndex ext [coin]

/-- The import loop at record `i` with `n` records left: the records gathered so far
are handed to `WriteLoadedCoinIndex` whenever `i` is a multiple of `nBatch`, then one
record is read.  It returns `ReadLoadedCoins`'s result and the batches written. -/
def readLoadedCoinsLoop (ext : Externals) (nBatch : Nat) :
    Nat → Nat → Bytes → List LoadedCoin → List CDBBatch → Bool × List CDBBatch
  | _, 0, _, vLoadedCoin, batches => (true, batches ++ [writeLoadedCoinIndex ext vLoadedCoin])
  | i, n + 1, bs, vLoadedCoin, batches =>
      let (vLoadedCoin, batches) :=
        if i % nBatch = 0 then ([], batches ++ [writeLoadedCoinIndex ext vLoadedCoin])
        else (vLoadedCoin, batches)
      match ext.loadedCoin.deser bs with
      | none => (false, batches)
      | some (c, rest) => readLoadedCoinsLoop ext nBatch (i + 1) n rest (vLoadedCoin ++ [c]) batches

/-- `CCoinsViewDB::ReadLoadedCoins` on the content of `loaded_coins.dat`: what it
returns, and the batches it writes to the loaded-coin database. -/
def readLoadedCoins (ext : Externals) (file : Option Bytes) : Bool × List CDBBatch :=
  match file with
  | none => (false, [])
  | some bs =>
      match readInt32 bs with
      | none => (false, [])
      | some (nVersionRequired, bs) =>
          match readInt32 bs with
          | none => (false, [])
          | some (_, bs) =>
              if nVersionRequired > ext.CLIENT_VERSION then (false, [])
              else
                match readInt32 bs with
                | none => (false, [])
                | some (count, bs) => readLoadedCoinsLoop ext 4000000 0 count.toNat bs [] []

/-- The header both readers check: the version required to read the file, which may
not exceed `CLIENT_VERSION`, the version that wrote it, then the record count; `none`
when the file is too short or too new. -/
def fileHeader (ext : Externals) (bs : Bytes) : Option (Int × Bytes) :=
  match readInt32 bs with
  | none => none
  | some (nVersionRequired, bs) =>
      match readInt32 bs with
      | none => none
      | some (_, bs) => if nVersionRequired > ext.CLIENT_VERSION then none else readInt32 bs

/-- `ReadLoadedCoins` handing a batch to `WriteLoadedCoinIndex` every `nBatch` records
in place of every 4000000. -/
def readLoadedCoinsEvery (ext : Externals) (nBatch : Nat) (bs : Bytes) : Bool × List CDBBatch :=
  match fileHeader ext bs with
  | none => (false, [])
  | some (count, rest) => readLoadedCoinsLoop ext nBatch 0 count.toNat rest [] []

/-! ## The header -/

theorem readMyLoadedCoins_some (ext : Externals) (bs : Bytes) :
    readMyLoadedCoins ext (some bs) =
      match fileHeader ext bs with
      | none => []
      | some (count, rest) => (readRecords ext count.toNat rest).1 := by
  simp only [readMyLoadedCoins, fileHeader]
  rcases readInt32 bs with _ | ⟨nVersionRequired, bs⟩
  · rfl
  dsimp only
  rcases readInt32 bs with _ | ⟨_, bs⟩
  · rfl
  dsimp only
  split
  · rfl
  · rcases readInt32 bs with _ | ⟨_, _⟩ <;> rfl

theorem readLoadedCoins_some (ext : Externals) (bs : Bytes) :
    readLoadedCoins ext (some bs) = readLoadedCoinsEvery ext 4000000 bs := by
  simp only [readLoadedCoins, readLoadedCoinsEvery, fileHeader]
  rcases readInt32 bs with _ | ⟨nVersionRequired, bs⟩
  · rfl
  dsimp only
  rcases readInt32 bs with _ | ⟨_, bs⟩
  · rfl
  dsimp only
  split
  · rfl
  · rcases readInt32 bs with _ | ⟨_, _⟩ <;> rfl

theorem fileHeader_writeInt32 {ext : Externals} (hver : 210000 ≤ ext.CLIENT_VERSION) {count : Nat}
    (hcount : count < 2 ^ 31) (rest : Bytes) :
    fileHeader ext (writeInt32 210000 ++ writeInt32 ext.CLIENT_VERSION ++ writeInt32 count ++
      rest) = some ((count : Int), rest) := by
  obtain ⟨w, hw⟩ := readInt32_writeInt32_rest ext.CLIENT_VERSION (writeInt32 count ++ rest)
  have hnotgt : ¬(210000 : Int) > ext.CLIENT_VERSION := not_lt.mpr hver
  simp only [fileHeader, List.append_assoc,
    readInt32_writeInt32 (x := 210000) (by norm_num) (by norm_num), hw, hnotgt, if_false,
    readInt32_writeInt32 (x := count) (by omega) (by exact_mod_cast hcount)]

/-! ## Reading the records -/

section Records

variable {ext : Externals}

theorem readRecords_succ_of_deser {n : Nat} {bs rest : Bytes} {c : LoadedCoin}
    (hd : ext.loadedCoin.deser bs = some (c, rest)) :
    readRecords ext (n + 1) bs = (c :: (readRecords ext n rest).1, (readRecords ext n rest).2) := by
  simp [readRecords, hd]

theorem readRecords_succ_of_deser_none {n : Nat} {bs : Bytes}
    (hd : ext.loadedCoin.deser bs = none) : readRecords ext (n + 1) bs = ([], false) := by
  simp [readRecords, hd]

theorem readRecords_append (rest : Bytes) (n : Nat) :
    ∀ {v : List LoadedCoin}, (∀ c ∈ v, ext.loadedCoin.RoundTrips c) →
      readRecords ext (v.length + n) (v.flatMap ext.loadedCoin.ser ++ rest) =
        (v ++ (readRecords ext n rest).1, (readRecords ext n rest).2)
  | [], _ => by simp
  | c :: v, hrt => by
      rw [List.length_cons, Nat.add_right_comm, List.flatMap_cons, List.append_assoc,
        readRecords_succ_of_deser (hrt c (List.mem_cons_self _ _) _),
        readRecords_append rest n fun c' hc' => hrt c' (List.mem_cons_of_mem _ hc')]
      rfl

theorem readRecords_flatMap (rest : Bytes) {v : List LoadedCoin}
    (hrt : ∀ c ∈ v, ext.loadedCoin.RoundTrips c) :
    readRecords ext v.length (v.flatMap ext.loadedCoin.ser ++ rest) = (v, true) := by
  simpa [readRecords] using readRecords_append rest 0 hrt

theorem readRecords_nil (hnil : ext.loadedCoin.deser [] = none) :
    ∀ n, (readRecords ext n []).1 = []
  | 0 => rfl
  | _ + 1 => by rw [readRecords_succ_of_deser_none hnil]

theorem readRecords_length_of_ok : ∀ {n : Nat} {bs : Bytes}, (readRecords ext n bs).2 = true →
    (readRecords ext n bs).1.length = n
  | 0, _, _ => rfl
  | n + 1, bs, h => by
      cases hd : ext.loadedCoin.deser bs with
      | none => simp [readRecords_succ_of_deser_none hd] at h
      | some r =>
          rw [readRecords_succ_of_deser hd] at h ⊢
          simpa using readRecords_length_of_ok h

end Records

/-! ## The import loop -/

section Batches

variable {ext : Externals} {nBatch : Nat}

@[simp] theorem writeLoadedCoinIndex_ops (vLoadedCoin : List LoadedCoin) :
    (writeLoadedCoinIndex ext vLoadedCoin).ops = vLoadedCoin.map (loadedCoinOp ext) := by
  simp [writeLoadedCoinIndex, CDBBatch.empty]

theorem readLoadedCoinsLoop_succ (i n : Nat) (bs : Bytes) (vLoadedCoin : List LoadedCoin)
    (batches : List CDBBatch) :
    readLoadedCoinsLoop ext nBatch i (n + 1) bs vLoadedCoin batches =
      match ext.loadedCoin.deser bs with
      | none => (false, if i % nBatch = 0 then batches ++ [writeLoadedCoinIndex ext vLoadedCoin]
          else batches)
      | some (c, rest) => readLoadedCoinsLoop ext nBatch (i + 1) n rest
          ((if i % nBatch = 0 then [] else vLoadedCoin) ++ [c])
          (if i % nBatch = 0 then batches ++ [writeLoadedCoinIndex ext vLoadedCoin] else batches) := by
  by_cases h : i % nBatch = 0 <;> simp only [readLoadedCoinsLoop, h, if_true, if_false]

theorem readLoadedCoinsLoop_fst : ∀ (n i : Nat) (bs : Bytes) (vLoadedCoin : List LoadedCoin)
    (batches : List CDBBatch),
    (readLoadedCoinsLoop ext nBatch i n bs vLoadedCoin batches).1 = (readRecords ext n bs).2
  | 0, _, _, _, _ => rfl
  | n + 1, i, bs, vLoadedCoin, batches => by
      rw [readLoadedCoinsLoop_succ]
      cases hd : ext.loadedCoin.deser bs with
      | none => simp [readRecords_succ_of_deser_none hd]
      | some r =>
          rw [readRecords_succ_of_deser hd]
          exact readLoadedCoinsLoop_fst n _ _ _ _

theorem mul_add_div_of_lt {N m p : Nat} (hp : p < N) : (N * m + p) / N = m := by
  rw [Nat.mul_add_div (by omega), Nat.div_eq_of_lt hp, Nat.add_zero]

theorem readLoadedCoinsLoop_batches (hN : 0 < nBatch) : ∀ (n i : Nat) (bs : Bytes)
    (vLoadedCoin : List LoadedCoin) (batches : List CDBBatch) (m : Nat),
    i = nBatch * m + vLoadedCoin.length → vLoadedCoin.length ≤ nBatch →
    ∃ new, (readLoadedCoinsLoop ext nBatch i n bs vLoadedCoin batches).2 = batches ++ new ∧
      (∀ b ∈ new, ∃ vs, b = writeLoadedCoinIndex ext vs ∧ vs.length ≤ nBatch) ∧
      new.flatMap CDBBatch.ops = ((vLoadedCoin ++ (readRecords ext n bs).1).take
        (if (readRecords ext n bs).2 then vLoadedCoin.length + (readRecords ext n bs).1.length
          else nBatch * ((i + (readRecords ext n bs).1.length) / nBatch) - nBatch * m)).map
        (loadedCoinOp ext)
  | 0, i, bs, vLoadedCoin, batches, m, _, hp =>
      ⟨[writeLoadedCoinIndex ext vLoadedCoin], rfl,
        fun _ hb => ⟨_, List.eq_of_mem_singleton hb, hp⟩, by simp [readRecords]⟩
  | n + 1, i, bs, vLoadedCoin, batches, m, hi, hp => by
      rw [readLoadedCoinsLoop_succ]
      by_cases hflush : i % nBatch = 0
      · -- the pending records go out as one batch, and counting restarts at `i`
        have hdvd : nBatch * (i / nBatch) = i :=
          Nat.mul_div_cancel' (Nat.dvd_of_mod_eq_zero hflush)
        simp only [hflush, if_true]
        cases hd : ext.loadedCoin.deser bs with
        | none =>
            refine ⟨[writeLoadedCoinIndex ext vLoadedCoin], rfl,
              fun _ hb => ⟨_, List.eq_of_mem_singleton hb, hp⟩, ?_⟩
            have hall : i - nBatch * m = vLoadedCoin.length := by omega
            simp [readRecords_succ_of_deser_none hd, hdvd, hall]
        | some r =>
            obtain ⟨c, rest⟩ := r
            obtain ⟨new, hnew, hsize, hops⟩ := readLoadedCoinsLoop_batches hN n (i + 1) rest [c]
              (batches ++ [writeLoadedCoinIndex ext vLoadedCoin]) (i / nBatch)
              (by simp only [List.length_singleton]; omega) (by simpa using hN)
            refine ⟨writeLoadedCoinIndex ext vLoadedCoin :: new, by simpa using hnew,
              List.forall_mem_cons.2 ⟨⟨_, rfl, hp⟩, hsize⟩, ?_⟩
            rw [readRecords_succ_of_deser hd]
            generalize readRecords ext n rest = R at hops ⊢
            obtain ⟨recs, ok⟩ := R
            have hmono : nBatch * (i / nBatch) ≤ nBatch * ((i + 1 + recs.length) / nBatch) :=
              Nat.mul_le_mul_left _ (Nat.div_le_div_right (by omega))
            have hT : (if ok then vLoadedCoin.length + (recs.length + 1)
                else nBatch * ((i + (recs.length + 1)) / nBatch) - nBatch * m) =
                vLoadedCoin.length + (if ok then [c].length + recs.length
                  else nBatch * ((i + 1 + recs.length) / nBatch) - nBatch * (i / nBatch)) := by
              rw [show i + (recs.length + 1) = i + 1 + recs.length by omega]
              cases ok <;> simp only [List.length_singleton, Bool.false_eq_true, ↓reduceIte] <;> omega
            simp only [List.length_cons, hT, List.take_append, List.map_append,
              List.flatMap_cons, writeLoadedCoinIndex_ops, hops, List.singleton_append]
      · -- the pending records stay pending: fewer than `nBatch` of them
        have hlt : vLoadedCoin.length < nBatch := lt_of_le_of_ne hp fun h =>
          hflush (by rw [hi, h, ← Nat.mul_succ, Nat.mul_mod_right])
        simp only [hflush, if_false]
        cases hd : ext.loadedCoin.deser bs with
        | none =>
            refine ⟨[], (List.append_nil _).symm, by simp, ?_⟩
            simp [readRecords_succ_of_deser_none hd, hi, mul_add_div_of_lt hlt]
        | some r =>
            obtain ⟨c, rest⟩ := r
            have hlen : (vLoadedCoin ++ [c]).length = vLoadedCoin.length + 1 := by simp
            obtain ⟨new, hnew, hsize, hops⟩ := readLoadedCoinsLoop_batches hN n (i + 1) rest
              (vLoadedCoin ++ [c]) batches m (by omega) (by omega)
            refine ⟨new, hnew, hsize, ?_⟩
            rw [readRecords_succ_of_deser hd, hops]
            simp only [List.append_assoc, List.singleton_append, List.length_append,
              List.length_singleton, List.length_cons, List.length_nil, Nat.zero_add, Nat.add_assoc,
              Nat.add_comm 1]

end Batches

/-! ## Round trips -/

/-- A written snapshot reads back as itself by `ReadMyLoadedCoins`, and `ReadLoadedCoins`
imports the same bytes by writing its records in order. -/
theorem loadedCoinFile_round_trip (ext : Externals) (v : List LoadedCoin)
    (file : Option Bytes) (hne : v ≠ []) (hlen : v.length < 2 ^ 31)
    (hrt : ∀ c ∈ v, ext.loadedCoin.RoundTrips c) (hver : 210000 ≤ ext.CLIENT_VERSION) (L : Db) :
    readMyLoadedCoins ext (writeMyLoadedCoins ext v file) = v ∧
      (readLoadedCoins ext (writeMyLoadedCoins ext v file)).1 = true ∧
      L.writeBatches (readLoadedCoins ext (writeMyLoadedCoins ext v file)).2 =
        L.applyOps (v.map (loadedCoinOp ext)) := by
  have hfile : writeMyLoadedCoins ext v file = some (loadedCoinFile ext v) := by
    simp [writeMyLoadedCoins, List.length_eq_zero, hne]
  have hheader : fileHeader ext (loadedCoinFile ext v) =
      some ((v.length : Int), v.flatMap ext.loadedCoin.ser ++ []) := by
    rw [List.append_nil]
    exact fileHeader_writeInt32 hver hlen _
  have hrecords := readRecords_flatMap [] hrt
  obtain ⟨new, hnew, -, hops⟩ := @readLoadedCoinsLoop_batches ext 4000000 (by norm_num) v.length 0
    (v.flatMap ext.loadedCoin.ser ++ []) [] [] 0 rfl (Nat.zero_le _)
  rw [hrecords] at hops
  rw [hfile, readMyLoadedCoins_some, readLoadedCoins_some, readLoadedCoinsEvery, hheader]
  simp only [Int.toNat_ofNat, hrecords, readLoadedCoinsLoop_fst, hnew, List.nil_append,
    Db.writeBatches_eq, hops, true_and]
  simp

def staleFile : Bytes := loadedCoinFile Reference.ext [snapshotCoin]

def spentCoin : LoadedCoin := ⟨snapshotCoin.coin, true, ⟨Reference.tip, 1⟩⟩

theorem snapshotCoins_roundTrips :
    ∀ c ∈ [snapshotCoin, spentCoin], Reference.ext.loadedCoin.RoundTrips c := by
  intro c hc
  simp only [List.mem_cons, List.mem_singleton, List.not_mem_nil, or_false] at hc
  rcases hc with rfl | rfl <;> exact Reference.loadedCoinSer_roundTrips (by decide)

theorem loadedCoinFile_round_trip_twoCoins :
    [snapshotCoin, spentCoin] ≠ [] ∧ [snapshotCoin, spentCoin].length < 2 ^ 31 ∧
      (∀ c ∈ [snapshotCoin, spentCoin], Reference.ext.loadedCoin.RoundTrips c) ∧
      210000 ≤ Reference.ext.CLIENT_VERSION ∧
      (readMyLoadedCoins Reference.ext
          (writeMyLoadedCoins Reference.ext [snapshotCoin, spentCoin] (some staleFile)) =
          [snapshotCoin, spentCoin] ∧
        (readLoadedCoins Reference.ext
          (writeMyLoadedCoins Reference.ext [snapshotCoin, spentCoin] (some staleFile))).1 = true ∧
        Db.empty.writeBatches (readLoadedCoins Reference.ext
            (writeMyLoadedCoins Reference.ext [snapshotCoin, spentCoin] (some staleFile))).2 =
          Db.empty.applyOps ([snapshotCoin, spentCoin].map (loadedCoinOp Reference.ext))) :=
  ⟨by simp, by decide, snapshotCoins_roundTrips, by decide,
    loadedCoinFile_round_trip Reference.ext _ (some staleFile) (by simp) (by decide)
      snapshotCoins_roundTrips (by decide) Db.empty⟩

/-- Writing the empty vector returns before opening the file, so a stale file keeps
being read back. -/
theorem writeMyLoadedCoins_empty_keeps_stale_file :
    readMyLoadedCoins Reference.ext (writeMyLoadedCoins Reference.ext [] (some staleFile)) =
      [snapshotCoin] := by
  decide

/-! ## The import in batches -/

/-- For every batch size, the import writes at most `nBatch` records a call, all of them in
order when they decode, and whole batches before the first that fails otherwise. -/
theorem readLoadedCoins_batches (ext : Externals) (nBatch : Nat) (hN : 0 < nBatch) (bs : Bytes)
    (L : Db) :
    readLoadedCoins ext (some bs) = readLoadedCoinsEvery ext 4000000 bs ∧
      (∀ b ∈ (readLoadedCoinsEvery ext nBatch bs).2,
        ∃ vs, b = writeLoadedCoinIndex ext vs ∧ vs.length ≤ nBatch) ∧
      match fileHeader ext bs with
      | none => (readLoadedCoinsEvery ext nBatch bs).1 = false ∧
          L.writeBatches (readLoadedCoinsEvery ext nBatch bs).2 = L
      | some (count, rest) =>
          ((readRecords ext count.toNat rest).2 = true →
            (readLoadedCoinsEvery ext nBatch bs).1 = true ∧
            (readRecords ext count.toNat rest).1.length = count.toNat ∧
            L.writeBatches (readLoadedCoinsEvery ext nBatch bs).2 =
              L.applyOps ((readRecords ext count.toNat rest).1.map (loadedCoinOp ext))) ∧
          ((readRecords ext count.toNat rest).2 = false →
            (readLoadedCoinsEvery ext nBatch bs).1 = false ∧
            L.writeBatches (readLoadedCoinsEvery ext nBatch bs).2 =
              L.applyOps (((readRecords ext count.toNat rest).1.take
                (nBatch * ((readRecords ext count.toNat rest).1.length / nBatch))).map
                (loadedCoinOp ext))) := by
  refine ⟨readLoadedCoins_some ext bs, ?_⟩
  unfold readLoadedCoinsEvery
  rcases fileHeader ext bs with _ | ⟨count, rest⟩
  · exact ⟨by simp, rfl, rfl⟩
  · obtain ⟨new, hnew, hsize, hops⟩ :=
      @readLoadedCoinsLoop_batches ext nBatch hN count.toNat 0 rest [] [] 0 rfl (Nat.zero_le _)
    simp only [List.nil_append] at hnew hops
    simp only [hnew, Db.writeBatches_eq, hops, readLoadedCoinsLoop_fst, List.length_nil,
      Nat.zero_add, Nat.mul_zero, Nat.sub_zero]
    refine ⟨hsize, fun hok => ⟨hok, readRecords_length_of_ok hok, ?_⟩, fun hfail => ⟨hfail, ?_⟩⟩
    · simp [hok]
    · simp [hfail]

theorem readLoadedCoins_batches_staleFile :
    0 < 2 ∧
      (readLoadedCoins Reference.ext (some staleFile) =
          readLoadedCoinsEvery Reference.ext 4000000 staleFile ∧
        (∀ b ∈ (readLoadedCoinsEvery Reference.ext 2 staleFile).2,
          ∃ vs, b = writeLoadedCoinIndex Reference.ext vs ∧ vs.length ≤ 2) ∧
        match fileHeader Reference.ext staleFile with
        | none => (readLoadedCoinsEvery Reference.ext 2 staleFile).1 = false ∧
            Db.empty.writeBatches (readLoadedCoinsEvery Reference.ext 2 staleFile).2 = Db.empty
        | some (count, rest) =>
            ((readRecords Reference.ext count.toNat rest).2 = true →
              (readLoadedCoinsEvery Reference.ext 2 staleFile).1 = true ∧
              (readRecords Reference.ext count.toNat rest).1.length = count.toNat ∧
              Db.empty.writeBatches (readLoadedCoinsEvery Reference.ext 2 staleFile).2 =
                Db.empty.applyOps
                  ((readRecords Reference.ext count.toNat rest).1.map (loadedCoinOp Reference.ext))) ∧
            ((readRecords Reference.ext count.toNat rest).2 = false →
              (readLoadedCoinsEvery Reference.ext 2 staleFile).1 = false ∧
              Db.empty.writeBatches (readLoadedCoinsEvery Reference.ext 2 staleFile).2 =
                Db.empty.applyOps (((readRecords Reference.ext count.toNat rest).1.take
                  (2 * ((readRecords Reference.ext count.toNat rest).1.length / 2))).map
                  (loadedCoinOp Reference.ext)))) :=
  ⟨by decide, readLoadedCoins_batches Reference.ext 2 (by decide) staleFile Db.empty⟩

/-! ## Truncated files -/

/-- A file that `WriteMyLoadedCoins` was writing when it stopped after record `j` reads
back as the first `j` records. -/
theorem readMyLoadedCoins_take {ext : Externals} (v : List LoadedCoin) (hlen : v.length < 2 ^ 31)
    (hrt : ∀ c ∈ v, ext.loadedCoin.RoundTrips c) (hver : 210000 ≤ ext.CLIENT_VERSION)
    (hnil : ext.loadedCoin.deser [] = none) (j : Nat) :
    readMyLoadedCoins ext (some ((loadedCoinFile ext v).take
      (12 + ((v.take j).flatMap ext.loadedCoin.ser).length))) = v.take j := by
  have hcut : (loadedCoinFile ext v).take (12 + ((v.take j).flatMap ext.loadedCoin.ser).length) =
      writeInt32 210000 ++ writeInt32 ext.CLIENT_VERSION ++ writeInt32 v.length ++
        ((v.take j).flatMap ext.loadedCoin.ser ++ []) := by
    have hv : v.flatMap ext.loadedCoin.ser =
        (v.take j).flatMap ext.loadedCoin.ser ++ (v.drop j).flatMap ext.loadedCoin.ser := by
      rw [← List.flatMap_append, List.take_append_drop]
    rw [loadedCoinFile, hv, List.append_nil,
      show 12 = (writeInt32 210000 ++ writeInt32 ext.CLIENT_VERSION ++ writeInt32 v.length).length
        by simp [writeInt32], List.take_append, List.take_left]
  have hsplit : v.length = (v.take j).length + (v.length - (v.take j).length) := by
    rw [List.length_take]; omega
  rw [hcut, readMyLoadedCoins_some, fileHeader_writeInt32 hver hlen]
  dsimp only
  rw [Int.toNat_ofNat, hsplit, readRecords_append [] _ fun c hc => hrt c (List.mem_of_mem_take hc),
    readRecords_nil hnil, List.append_nil]

theorem readMyLoadedCoins_take_first :
    [snapshotCoin, spentCoin].length < 2 ^ 31 ∧
      (∀ c ∈ [snapshotCoin, spentCoin], Reference.ext.loadedCoin.RoundTrips c) ∧
      210000 ≤ Reference.ext.CLIENT_VERSION ∧ Reference.ext.loadedCoin.deser [] = none ∧
      readMyLoadedCoins Reference.ext (some ((loadedCoinFile Reference.ext [snapshotCoin, spentCoin]).take
        (12 + (([snapshotCoin, spentCoin].take 1).flatMap Reference.ext.loadedCoin.ser).length))) =
        [snapshotCoin, spentCoin].take 1 :=
  ⟨by decide, snapshotCoins_roundTrips, by decide, by decide,
    readMyLoadedCoins_take _ (by decide) snapshotCoins_roundTrips (by decide) (by decide) 1⟩

def truncatedFile : Bytes :=
  (loadedCoinFile Reference.ext [snapshotCoin, spentCoin]).take
    (12 + (Reference.ext.loadedCoin.ser snapshotCoin).length)

/-- `ReadMyLoadedCoins` reads the cut file as its first record alone, a non-empty
proper prefix of what was being written. -/
theorem readMyLoadedCoins_partial_file :
    writeMyLoadedCoins Reference.ext [snapshotCoin, spentCoin] none =
        some (loadedCoinFile Reference.ext [snapshotCoin, spentCoin]) ∧
      truncatedFile <+: loadedCoinFile Reference.ext [snapshotCoin, spentCoin] ∧
      readMyLoadedCoins Reference.ext (some truncatedFile) = [snapshotCoin] ∧
      [snapshotCoin] <+: [snapshotCoin, spentCoin] ∧ [snapshotCoin] ≠ [snapshotCoin, spentCoin] :=
  ⟨rfl, List.take_prefix _ _, by decide, by decide, by decide⟩

end CCoinsViewDB
end TxDb
