import TxDb.LoadedCoinFile
import TxDb.ChainstateView

/-!
# The loaded-coin format from writer to lookups

`WriteMyLoadedCoins` writes `my_loaded_coins.dat` and `ReadLoadedCoins` imports
`loaded_coins.dat`, in one format.  The bytes the writer produces, imported, serve
`GetLoadedCoin` (`snapshot_import_lookup`), the node's lookups (`node_coin_lookups`) and
`LoadedCursor` (`snapshot_import_loadedCursor`).
-/

namespace TxDb

theorem Db.mem_applyOps {db : Db} {ops : List BatchOp} {k w : Bytes}
    (he : (k, w) ∈ (db.applyOps ops).entries) :
    (k, w) ∈ db.entries ∨ ∃ op ∈ ops, op.key = k := by
  have hget : (db.applyOps ops).get k = some w :=
    (Db.lookup_eq_some_iff (db.applyOps ops).sorted).mpr he
  rw [Db.get_applyOps] at hget
  cases heff : BatchOp.effect k ops with
  | none =>
      rw [heff, Option.getD_none] at hget
      exact .inl ((Db.lookup_eq_some_iff db.sorted).mp hget)
  | some _ =>
      refine .inr ?_
      by_contra hne
      push_neg at hne
      rw [BatchOp.effect_eq_none.mpr hne] at heff
      cases heff

namespace CCoinsViewDB

variable {ext : Externals}

/-- The last coin of the snapshot `v` whose outpoint hashes to `h`. -/
def lastLoaded (ext : Externals) (v : List LoadedCoin) (h : Uint256) : Option LoadedCoin :=
  (v.filter fun c => c.out.GetHash ext = h).getLast?

/-! ## The index writes -/

theorem lastLoaded_cons (c : LoadedCoin) (v : List LoadedCoin) (h : Uint256) :
    lastLoaded ext (c :: v) h =
      if c.out.GetHash ext = h then some ((lastLoaded ext v h).getD c) else lastLoaded ext v h := by
  by_cases hc : c.out.GetHash ext = h <;>
    simp only [lastLoaded, List.filter_cons, hc, decide_True, decide_False, Bool.false_eq_true,
      if_true, if_false, List.getLast?_cons]

theorem effect_loadedCoinOps (v : List LoadedCoin) (h : Uint256) :
    BatchOp.effect (pairKey DB_LOADED_COINS h) (v.map (loadedCoinOp ext)) =
      (lastLoaded ext v h).map fun c => some (ext.loadedCoin.ser c) := by
  induction v with
  | nil => rfl
  | cons c v ih =>
      have hkey : (loadedCoinOp ext c).key = pairKey DB_LOADED_COINS h ↔ c.out.GetHash ext = h :=
        ⟨fun hk => Uint256.ext (by simpa [loadedCoinOp, BatchOp.key, pairKey] using hk),
          fun hc => by simp [loadedCoinOp, BatchOp.key, hc]⟩
      rw [List.map_cons, BatchOp.effect, ih, lastLoaded_cons]
      by_cases hc : c.out.GetHash ext = h
      · rw [if_pos (hkey.mpr hc), if_pos hc]
        cases lastLoaded ext v h <;> rfl
      · rw [if_neg (mt hkey.mp hc), if_neg hc, Option.or_none]

theorem LoadedKeysWellFormed.applyOps_loadedCoinOps {L : Db} (hwf : LoadedKeysWellFormed L)
    (v : List LoadedCoin) : LoadedKeysWellFormed (L.applyOps (v.map (loadedCoinOp ext))) := by
  rintro ⟨k, w⟩ he
  rcases Db.mem_applyOps he with hold | ⟨op, hop, rfl⟩
  · exact hwf _ hold
  · obtain ⟨c, -, rfl⟩ := List.mem_map.mp hop
    exact .inr ⟨rfl, by simp [loadedCoinOp, BatchOp.key, pairKey, (c.out.GetHash ext).size_eq]⟩

theorem getLoadedCoin_applyOps_loadedCoinOps {L : Db} (hwf : LoadedKeysWellFormed L)
    {v : List LoadedCoin} (hrt : ∀ c ∈ v, ext.loadedCoin.RoundTrips c) (h : Uint256)
    (coinOut : LoadedCoin) :
    getLoadedCoin ext (L.applyOps (v.map (loadedCoinOp ext))) h coinOut =
      match lastLoaded ext v h with
      | some c => (true, c)
      | none => getLoadedCoin ext L h coinOut := by
  rw [getLoadedCoin_eq_get ext (hwf.applyOps_loadedCoinOps v), Db.get_applyOps,
    effect_loadedCoinOps]
  cases hl : lastLoaded ext v h with
  | none => simp [getLoadedCoin_eq_get ext hwf]
  | some c =>
      have hc : c ∈ v := (List.mem_filter.mp (List.mem_of_getLast?_eq_some hl)).1
      simp [Serializer.read_ser (hrt c hc)]

/-! ## The import of a written file -/

theorem readLoadedCoins_writeMyLoadedCoins (v : List LoadedCoin) (file : Option Bytes)
    (hne : v ≠ []) (hlen : v.length < 2 ^ 31) (hrt : ∀ c ∈ v, ext.loadedCoin.RoundTrips c)
    (hver : 210000 ≤ ext.CLIENT_VERSION) (L : Db) :
    (readLoadedCoins ext (writeMyLoadedCoins ext v file)).1 = true ∧
      L.writeBatches (readLoadedCoins ext (writeMyLoadedCoins ext v file)).2 =
        L.applyOps (v.map (loadedCoinOp ext)) := by
  have hfile : writeMyLoadedCoins ext v file = some (loadedCoinFile ext v) := by
    simp [writeMyLoadedCoins, List.length_eq_zero, hne]
  have hheader : fileHeader ext (loadedCoinFile ext v) =
      some ((v.length : Int), v.flatMap ext.loadedCoin.ser ++ []) := by
    rw [List.append_nil]
    exact fileHeader_writeInt32 hver hlen _
  have hrecords := readRecords_flatMap [] hrt
  obtain ⟨new, hnew, -, hops⟩ := @readLoadedCoinsLoop_batches ext 4000000 (by norm_num) v.length 0
    (v.flatMap ext.loadedCoin.ser ++ []) [] [] 0 rfl (Nat.zero_le _)
  rw [hrecords] at hops
  rw [hfile, readLoadedCoins_some, readLoadedCoinsEvery, hheader]
  simp only [Int.toNat_ofNat, hrecords, readLoadedCoinsLoop_fst, hnew, List.nil_append,
    Db.writeBatches_eq, hops, true_and]
  simp

/-- **Format compatibility.**  The bytes `WriteMyLoadedCoins` writes, imported as
`loaded_coins.dat`, leave each hash's last snapshot coin and the other hashes as before. -/
theorem snapshot_import_lookup (ext : Externals) (v : List LoadedCoin) (file : Option Bytes)
    (hne : v ≠ []) (hlen : v.length < 2 ^ 31) (hrt : ∀ c ∈ v, ext.loadedCoin.RoundTrips c)
    (hver : 210000 ≤ ext.CLIENT_VERSION) (L : Db) (hwf : LoadedKeysWellFormed L) :
    (readLoadedCoins ext (writeMyLoadedCoins ext v file)).1 = true ∧
      ∀ h coinOut,
        getLoadedCoin ext (L.writeBatches (readLoadedCoins ext (writeMyLoadedCoins ext v file)).2)
            h coinOut =
          (match lastLoaded ext v h with
            | some c => (true, c)
            | none => getLoadedCoin ext L h coinOut) ∧
        haveLoadedCoin ext (L.writeBatches (readLoadedCoins ext (writeMyLoadedCoins ext v file)).2)
            h =
          ((lastLoaded ext v h).isSome || haveLoadedCoin ext L h) := by
  obtain ⟨hok, hstate⟩ := readLoadedCoins_writeMyLoadedCoins v file hne hlen hrt hver L
  refine ⟨hok, fun h coinOut => ?_⟩
  rw [hstate, haveLoadedCoin, haveLoadedCoin, getLoadedCoin_applyOps_loadedCoinOps hwf hrt,
    getLoadedCoin_applyOps_loadedCoinOps hwf hrt]
  cases lastLoaded ext v h <;> simp

def respentSnapshot : List LoadedCoin := [snapshotCoin, { snapshotCoin with fSpent := true }]

theorem respentSnapshot_roundTrips :
    ∀ c ∈ respentSnapshot, Reference.ext.loadedCoin.RoundTrips c := by
  intro c hc
  simp only [respentSnapshot, List.mem_cons, List.mem_singleton, List.not_mem_nil, or_false] at hc
  rcases hc with rfl | rfl <;> exact Reference.loadedCoinSer_roundTrips (by decide)

theorem snapshot_import_lookup_respent :
    respentSnapshot ≠ [] ∧ respentSnapshot.length < 2 ^ 31 ∧
      (∀ c ∈ respentSnapshot, Reference.ext.loadedCoin.RoundTrips c) ∧
      210000 ≤ Reference.ext.CLIENT_VERSION ∧ LoadedKeysWellFormed Db.empty ∧
      ((readLoadedCoins Reference.ext (writeMyLoadedCoins Reference.ext respentSnapshot none)).1 = true ∧
        ∀ h coinOut,
          getLoadedCoin Reference.ext (Db.empty.writeBatches
              (readLoadedCoins Reference.ext (writeMyLoadedCoins Reference.ext respentSnapshot none)).2)
              h coinOut =
            (match lastLoaded Reference.ext respentSnapshot h with
              | some c => (true, c)
              | none => getLoadedCoin Reference.ext Db.empty h coinOut) ∧
          haveLoadedCoin Reference.ext (Db.empty.writeBatches
              (readLoadedCoins Reference.ext (writeMyLoadedCoins Reference.ext respentSnapshot none)).2)
              h =
            ((lastLoaded Reference.ext respentSnapshot h).isSome ||
              haveLoadedCoin Reference.ext Db.empty h)) :=
  ⟨by simp [respentSnapshot], by decide, respentSnapshot_roundTrips, by decide, by decide,
    snapshot_import_lookup Reference.ext respentSnapshot none (by simp [respentSnapshot]) (by decide)
      respentSnapshot_roundTrips (by decide) Db.empty (by decide)⟩

/-! ## The lookups of a node -/

theorem LoadedKeysWellFormed.eq_pairKey {L : Db} (hwf : LoadedKeysWellFormed L) {k w : Bytes}
    (he : (k, w) ∈ L.entries) (hk : k.head? = some DB_LOADED_COINS) :
    ∃ h, k = pairKey DB_LOADED_COINS h := by
  rcases k with _ | ⟨x, t⟩
  · cases hk
  obtain rfl : x = DB_LOADED_COINS := by simpa using hk
  rcases hwf _ he with hlow | ⟨-, hlen⟩
  · simp at hlow
  · exact ⟨⟨t, by simpa using hlen⟩, rfl⟩

theorem mem_loadedRecords_applyOps {L : Db} (hwf : LoadedKeysWellFormed L)
    (hnone : loadedRecords L = []) (v : List LoadedCoin) {e : Bytes × Bytes} :
    e ∈ loadedRecords (L.applyOps (v.map (loadedCoinOp ext))) ↔
      ∃ h c, e = (pairKey DB_LOADED_COINS h, ext.loadedCoin.ser c) ∧ lastLoaded ext v h = some c := by
  have hget : ∀ h, (L.applyOps (v.map (loadedCoinOp ext))).get (pairKey DB_LOADED_COINS h) =
      ((lastLoaded ext v h).map fun c => some (ext.loadedCoin.ser c)).getD
        (L.get (pairKey DB_LOADED_COINS h)) := fun h => by
    rw [Db.get_applyOps, effect_loadedCoinOps]
  constructor
  · rintro hmem
    obtain ⟨hmem, hhead⟩ := List.mem_filter.mp hmem
    obtain ⟨k, w⟩ := e
    obtain ⟨h, rfl⟩ := (hwf.applyOps_loadedCoinOps v).eq_pairKey hmem (by simpa using hhead)
    have hw := hget h
    rw [show (L.applyOps (v.map (loadedCoinOp ext))).get (pairKey DB_LOADED_COINS h) = some w from
      (Db.lookup_eq_some_iff (Db.sorted _)).mpr hmem] at hw
    cases hl : lastLoaded ext v h with
    | none =>
        -- the record was there before the import, and there were no loaded coins
        rw [hl, Option.map_none', Option.getD_none] at hw
        have hold : (pairKey DB_LOADED_COINS h, w) ∈ loadedRecords L :=
          List.mem_filter.mpr ⟨(Db.lookup_eq_some_iff L.sorted).mp hw.symm, by simp [pairKey]⟩
        rw [hnone] at hold
        cases hold
    | some c =>
        rw [hl, Option.map_some', Option.getD_some, Option.some.injEq] at hw
        exact ⟨h, c, by rw [hw], hl⟩
  · rintro ⟨h, c, rfl, hl⟩
    have hw := hget h
    rw [hl, Option.map_some', Option.getD_some] at hw
    exact List.mem_filter.mpr ⟨(Db.lookup_eq_some_iff (Db.sorted _)).mp hw, by simp [pairKey]⟩

/-- After the import of bytes `WriteMyLoadedCoins` wrote, `LoadedCursor` yields each
hash of the snapshot once, in key order, with its last coin. -/
theorem snapshot_import_loadedCursor (ext : Externals) (v : List LoadedCoin)
    (file : Option Bytes) (hne : v ≠ []) (hlen : v.length < 2 ^ 31)
    (hrt : ∀ c ∈ v, ext.loadedCoin.RoundTrips c) (hver : 210000 ≤ ext.CLIENT_VERSION) (L : Db)
    (hwf : LoadedKeysWellFormed L) (hnone : loadedRecords L = []) :
    ∃ hs : List Uint256,
      (∀ h, h ∈ hs ↔ (lastLoaded ext v h).isSome) ∧
      (hs.map (pairKey DB_LOADED_COINS)).Pairwise (fun a b => keyLt a b) ∧
      ∀ fuel, hs.length < fuel →
        (loadedCursor (L.writeBatches (readLoadedCoins ext (writeMyLoadedCoins ext v file)).2)).scan
            ext fuel =
          hs.map fun h => (some (DB_LOADED_COINS, h), lastLoaded ext v h) := by
  rw [(readLoadedCoins_writeMyLoadedCoins v file hne hlen hrt hver L).2]
  set R := loadedRecords (L.applyOps (v.map (loadedCoinOp ext)))
  have hR : ∀ e, e ∈ R ↔ _ := fun e => mem_loadedRecords_applyOps hwf hnone v (e := e)
  -- each record is the key of its hash and the last coin under it
  have hkey : ∀ e ∈ R, e.1 = pairKey DB_LOADED_COINS (pairGetKeyInto (0, Uint256.zero) e.1).2 ∧
      pairSer.read e.1 = some (DB_LOADED_COINS, (pairGetKeyInto (0, Uint256.zero) e.1).2) ∧
      ext.loadedCoin.read e.2 = lastLoaded ext v (pairGetKeyInto (0, Uint256.zero) e.1).2 := by
    intro e he
    obtain ⟨h, c, rfl, hl⟩ := (hR e).mp he
    have hc : c ∈ v := (List.mem_filter.mp (List.mem_of_getLast?_eq_some hl)).1
    simp only [pairGetKeyInto_pairKey, hl, Serializer.read_ser (hrt c hc), and_true, true_and]
    exact Serializer.read_ser (pairSer_roundTrips (DB_LOADED_COINS, h))
  refine ⟨R.map fun e => (pairGetKeyInto (0, Uint256.zero) e.1).2, fun h => ⟨?_, ?_⟩, ?_,
    fun fuel hf => ?_⟩
  · intro hh
    obtain ⟨e, he, rfl⟩ := List.mem_map.mp hh
    obtain ⟨h', c, rfl, hl⟩ := (hR e).mp he
    simp [pairGetKeyInto_pairKey, hl]
  · intro hsome
    obtain ⟨c, hl⟩ := Option.isSome_iff_exists.mp hsome
    exact List.mem_map.mpr ⟨_, (hR _).mpr ⟨h, c, rfl, hl⟩, congrArg Prod.snd (pairGetKeyInto_pairKey _ _ _)⟩
  · rw [List.map_map, List.pairwise_map]
    refine ((Db.sorted _).sublist (List.filter_sublist _)).imp_of_mem fun ha hb hab => ?_
    simpa only [Function.comp_apply, ← (hkey _ ha).1, ← (hkey _ hb).1] using hab
  · rw [List.length_map] at hf
    rw [loadedCursor_scan ext (hwf.applyOps_loadedCoinOps v) fuel hf, List.map_map]
    exact List.map_congr_left fun e he => by
      simp only [Function.comp_apply, (hkey e he).2.1, (hkey e he).2.2]

theorem snapshot_import_loadedCursor_respent :
    respentSnapshot ≠ [] ∧ respentSnapshot.length < 2 ^ 31 ∧
      (∀ c ∈ respentSnapshot, Reference.ext.loadedCoin.RoundTrips c) ∧
      210000 ≤ Reference.ext.CLIENT_VERSION ∧ LoadedKeysWellFormed Db.empty ∧
      loadedRecords Db.empty = [] ∧
      ∃ hs : List Uint256,
        (∀ h, h ∈ hs ↔ (lastLoaded Reference.ext respentSnapshot h).isSome) ∧
        (hs.map (pairKey DB_LOADED_COINS)).Pairwise (fun a b => keyLt a b) ∧
        ∀ fuel, hs.length < fuel →
          (loadedCursor (Db.empty.writeBatches
              (readLoadedCoins Reference.ext (writeMyLoadedCoins Reference.ext respentSnapshot none)).2)).scan
              Reference.ext fuel =
            hs.map fun h => (some (DB_LOADED_COINS, h), lastLoaded Reference.ext respentSnapshot h) :=
  ⟨by simp [respentSnapshot], by decide, respentSnapshot_roundTrips, by decide, by decide, rfl,
    snapshot_import_loadedCursor Reference.ext respentSnapshot none (by simp [respentSnapshot])
      (by decide) respentSnapshot_roundTrips (by decide) Db.empty (by decide) rfl⟩

end CCoinsViewDB
end TxDb
