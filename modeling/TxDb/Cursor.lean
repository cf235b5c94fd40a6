import TxDb.Lookup

/-!
# Cursors over the coin and loaded-coin tables

`CCoinsViewDB::Cursor` and its `Next` decode keys on two paths that agree on well-formed
coin keys, so a scan yields the stored coins in key order (`cursor_scan_coinRecords`).
`GetLoadedCoin` seeks, and answers as a point read of `('p', hash)` that ignores whether
the value decodes (`getLoadedCoin_eq_get`).
-/

namespace TxDb
namespace CCoinsViewDB

/-! ## The coin cursor -/

/-- `CCoinsViewDBCursor`: the iterator, the cached `(tag, outpoint)` of its record,
and the best block when the cursor was made. -/
structure CCoinsViewDBCursor where
  pcursor : CDBIterator
  keyTmp : UInt8 × COutPoint
  hashBlock : Uint256

namespace CCoinsViewDBCursor

def Valid (c : CCoinsViewDBCursor) : Bool := c.keyTmp.1 = DB_COIN

def getKey (c : CCoinsViewDBCursor) : Option COutPoint :=
  if c.Valid then some c.keyTmp.2 else none

def getValue (ext : Externals) (c : CCoinsViewDBCursor) : Option Coin :=
  c.pcursor.getValue ext.coin

/-- `Next`: advance, and cache the next key only if it decodes in full. -/
def next (c : CCoinsViewDBCursor) : CCoinsViewDBCursor :=
  let pcursor := c.pcursor.next
  match pcursor.rest with
  | [] => { c with pcursor, keyTmp := (0, c.keyTmp.2) }
  | (k, _) :: _ =>
      let (entry, ok) := CoinEntry.unserialize DB_COIN c.keyTmp.2 k
      { c with pcursor, keyTmp := (if ok then entry.1 else 0, entry.2) }

@[simp] theorem next_pcursor (c : CCoinsViewDBCursor) : c.next.pcursor = c.pcursor.next := by
  unfold next
  dsimp only
  split <;> rfl

/-- A scan as callers write it: while `Valid`, take `GetKey` and `GetValue`, then
`Next`; `fuel` bounds the number of records. -/
def scan (ext : Externals) : Nat → CCoinsViewDBCursor → List (COutPoint × Option Coin)
  | 0, _ => []
  | fuel + 1, c =>
      match c.getKey with
      | some o => (o, c.getValue ext) :: scan ext fuel c.next
      | none => []

end CCoinsViewDBCursor

/-- `CCoinsViewDB::Cursor`: seek to `'C'` and cache the key there.  The result of
`GetKey` is not checked: a partial decode keeps what it read, and the tag starts
as `'C'`. -/
def cursor (db : Db) : CCoinsViewDBCursor :=
  let pcursor := db.newIterator.seek [DB_COIN]
  match pcursor.rest with
  | [] => ⟨pcursor, (0, COutPoint.null), getBestBlock db⟩
  | (k, _) :: _ => ⟨pcursor, (CoinEntry.unserialize DB_COIN COutPoint.null k).1, getBestBlock db⟩

/-! ## What a scan should yield -/

def coinRecords (db : Db) : List (Bytes × Bytes) :=
  db.entries.filter fun e => e.1.head? = some DB_COIN

/-- Every `'C'`-prefixed key is a `CoinEntry` encoding. -/
def CoinKeysWellFormed (db : Db) : Prop :=
  ∀ e ∈ db.entries, e.1.head? = some DB_COIN → ∃ o, e.1 = CoinEntry.serialize o

def coinKeyOutPoint (k : Bytes) : COutPoint := (CoinEntry.unserialize DB_COIN COutPoint.null k).1.2

theorem coinKeyOutPoint_serialize (o : COutPoint) :
    coinKeyOutPoint (CoinEntry.serialize o) = o := by
  simp [coinKeyOutPoint, CoinEntry.unserialize_serialize]

instance (db : Db) : Decidable (CoinKeysWellFormed db) :=
  decidable_of_iff (∀ e ∈ db.entries, e.1.head? = some DB_COIN →
      CoinEntry.serialize (coinKeyOutPoint e.1) = e.1) <| by
    refine forall₂_congr fun e _ => imp_congr_right fun _ => ⟨fun h => ⟨_, h.symm⟩, ?_⟩
    rintro ⟨o, ho⟩
    rw [ho, coinKeyOutPoint_serialize]

/-! ## The scan meets the coin records -/

theorem unserialize_tag (key : UInt8) (o : COutPoint) (x : UInt8) (t : Bytes) :
    (CoinEntry.unserialize key o (x :: t)).1.1 = x := by
  simp only [CoinEntry.unserialize]
  split <;> (try split) <;> rfl

/-- The cursor stands at the coin records `recs`, whose keys encode `outs`, followed
by records of a higher tag, with the key of the first of `recs` cached. -/
structure CursorAt (c : CCoinsViewDBCursor) (outs : List COutPoint)
    (recs above : List (Bytes × Bytes)) : Prop where
  keys : recs.map Prod.fst = outs.map CoinEntry.serialize
  rest : c.pcursor.rest = recs ++ above
  higher : ∀ e ∈ above, e.1.head?.any (DB_COIN < ·)
  cached : ∀ o ∈ outs.head?, c.keyTmp = (DB_COIN, o)
  ended : outs = [] → c.keyTmp.1 ≠ DB_COIN

theorem tag_ne_of_higher {e : Bytes × Bytes} (he : e.1.head?.any (DB_COIN < ·))
    (o : COutPoint) (ok : Bool) :
    (if ok then (CoinEntry.unserialize DB_COIN o e.1).1.1 else 0) ≠ DB_COIN := by
  rcases e with ⟨_ | ⟨x, t⟩, v⟩
  · simp at he
  have hx : x ≠ DB_COIN := fun hx => by subst hx; simp at he
  cases ok
  · simp [DB_COIN]
  · simpa [unserialize_tag] using hx

theorem CursorAt.next {c : CCoinsViewDBCursor} {o : COutPoint} {outs : List COutPoint}
    {r : Bytes × Bytes} {recs above : List (Bytes × Bytes)}
    (hc : CursorAt c (o :: outs) (r :: recs) above) : CursorAt c.next outs recs above := by
  have hkeys := hc.keys
  simp only [List.map_cons, List.cons.injEq] at hkeys
  have hrest : c.pcursor.next.rest = recs ++ above := by simp [CDBIterator.next, hc.rest]
  refine ⟨hkeys.2, by rw [CCoinsViewDBCursor.next_pcursor, hrest], hc.higher, ?_, ?_⟩
  · intro o' ho'
    rcases recs with _ | ⟨⟨k', v'⟩, recs⟩ <;> rcases outs with _ | ⟨o'', outs⟩
    · simp at ho'
    · simp at hkeys
    · simp at ho'
    · simp only [List.map_cons, List.cons.injEq] at hkeys
      simp only [List.head?_cons, Option.mem_def, Option.some.injEq] at ho'
      subst ho'
      simp [CCoinsViewDBCursor.next, hrest, hkeys.2.1, CoinEntry.unserialize_serialize]
  · rintro rfl
    obtain rfl : recs = [] := by simpa using hkeys.2
    simp only [CCoinsViewDBCursor.next, hrest, List.nil_append]
    rcases above with _ | ⟨e, above⟩
    · simp [DB_COIN]
    · exact tag_ne_of_higher (hc.higher e (List.mem_cons_self _ _)) _ _

theorem cursor_at {db : Db} (hwf : CoinKeysWellFormed db) :
    CursorAt (cursor db) ((coinRecords db).map fun e => coinKeyOutPoint e.1) (coinRecords db)
      (db.entries.filter fun e => e.1.head?.any (DB_COIN < ·)) := by
  have hcoin : ∀ e ∈ coinRecords db, e.1 = CoinEntry.serialize (coinKeyOutPoint e.1) := by
    intro e he
    obtain ⟨hmem, hhead⟩ := List.mem_filter.mp he
    obtain ⟨o, ho⟩ := hwf e hmem (by simpa using hhead)
    rw [ho, coinKeyOutPoint_serialize]
  have hlow : ∀ e ∈ db.entries, e.1.head? = some DB_COIN → keyLt e.1 [DB_COIN] = false := by
    rintro ⟨_ | ⟨x, t⟩, v⟩ - hx
    · simp at hx
    obtain rfl : x = DB_COIN := by simpa using hx
    simp
  have hrest : (db.newIterator.seek [DB_COIN]).rest =
      coinRecords db ++ db.entries.filter fun e => e.1.head?.any (DB_COIN < ·) := by
    simp only [CDBIterator.seek, Db.newIterator, KeySorted.dropWhile_eq_filter db.sorted]
    exact KeySorted.filter_seek_tag db.sorted hlow
  refine ⟨?_, by simp only [cursor]; split <;> simp [hrest], fun e he => (List.mem_filter.mp he).2,
    ?_, ?_⟩
  · simp only [List.map_map]
    exact List.map_congr_left fun e he => hcoin e he
  · intro o ho
    rcases hr : coinRecords db with _ | ⟨⟨k, v⟩, recs⟩
    · simp [hr] at ho
    · rw [hr] at ho hrest
      simp only [List.map_cons, List.head?_cons, Option.mem_def, Option.some.injEq] at ho
      have hk := hcoin (k, v) (by simp [hr])
      simp only at hk
      simp only [cursor, hrest, List.cons_append]
      rw [hk, CoinEntry.unserialize_serialize, ← ho]
  · intro hnil
    have hr : coinRecords db = [] := by simpa using hnil
    rw [hr, List.nil_append] at hrest
    simp only [cursor]
    split
    · simp [DB_COIN]
    next k v tail hsplit =>
      have he : (k, v) ∈ db.entries.filter fun e => e.1.head?.any (DB_COIN < ·) := by
        rw [← hrest, hsplit]
        exact List.mem_cons_self _ _
      simpa using tag_ne_of_higher (List.mem_filter.mp he).2 COutPoint.null true

theorem CursorAt.scan (ext : Externals) {c : CCoinsViewDBCursor} :
    ∀ {outs : List COutPoint} {recs above : List (Bytes × Bytes)}, CursorAt c outs recs above →
      ∀ fuel, outs.length < fuel → c.scan ext fuel = outs.zip (recs.map fun e => ext.coin.read e.2)
  | _, _, _, _, 0, hf => absurd hf (Nat.not_lt_zero _)
  | [], recs, above, hc, fuel + 1, _ => by
      have hinvalid : c.getKey = none := by
        simp [CCoinsViewDBCursor.getKey, CCoinsViewDBCursor.Valid, hc.ended rfl]
      simp [CCoinsViewDBCursor.scan, hinvalid]
  | o :: outs, recs, above, hc, fuel + 1, hf => by
      rcases recs with _ | ⟨⟨k, v⟩, recs⟩
      · simpa using hc.keys
      have hkey : c.getKey = some o := by
        simp [CCoinsViewDBCursor.getKey, CCoinsViewDBCursor.Valid, hc.cached o rfl]
      have hvalue : c.getValue ext = ext.coin.read v := by
        simp [CCoinsViewDBCursor.getValue, CDBIterator.getValue, hc.rest]
      simp only [CCoinsViewDBCursor.scan, hkey, hvalue,
        (CursorAt.next hc).scan ext fuel (by simpa using hf)]
      rfl

theorem CursorAt.iterate_next_invalid {c : CCoinsViewDBCursor} :
    ∀ {outs : List COutPoint} {recs above : List (Bytes × Bytes)}, CursorAt c outs recs above →
      (CCoinsViewDBCursor.next^[outs.length] c).Valid = false
  | [], _, _, hc => by simpa [CCoinsViewDBCursor.Valid] using hc.ended rfl
  | _ :: _, _ :: _, _, hc => by
      rw [List.length_cons, Function.iterate_succ_apply]
      exact (CursorAt.next hc).iterate_next_invalid
  | _ :: _, [], _, hc => by simpa using hc.keys

/-- On well-formed coin keys the cursor yields the stored coins in strictly increasing key
order, and stops after the last. -/
theorem cursor_scan_coinRecords (ext : Externals) (db : Db) (hwf : CoinKeysWellFormed db) :
    ∃ outs : List COutPoint,
      (coinRecords db).map Prod.fst = outs.map CoinEntry.serialize ∧
      (outs.map CoinEntry.serialize).Pairwise (fun a b => keyLt a b) ∧
      (∀ fuel, outs.length < fuel →
        (cursor db).scan ext fuel = outs.zip ((coinRecords db).map fun e => ext.coin.read e.2)) ∧
      (CCoinsViewDBCursor.next^[outs.length] (cursor db)).Valid = false := by
  have hc := cursor_at hwf
  refine ⟨_, hc.keys, ?_, hc.scan ext, hc.iterate_next_invalid⟩
  rw [← hc.keys, List.pairwise_map]
  exact db.sorted.sublist (List.filter_sublist _)

def mixedDb : Db :=
  ⟨[(keyBestBlock, Reference.tip.data),
    (CoinEntry.serialize ⟨Reference.tip, 0⟩, Reference.coinSer.ser ⟨⟨50, []⟩, 1, false, false⟩),
    (keyHeadBlocks, []),
    (pairKey DB_COINS Reference.tip, [])], by decide⟩

theorem cursor_scan_coinRecords_mixedDb :
    CoinKeysWellFormed mixedDb ∧
      ∃ outs : List COutPoint,
        (coinRecords mixedDb).map Prod.fst = outs.map CoinEntry.serialize ∧
        (outs.map CoinEntry.serialize).Pairwise (fun a b => keyLt a b) ∧
        (∀ fuel, outs.length < fuel → (cursor mixedDb).scan Reference.ext fuel =
          outs.zip ((coinRecords mixedDb).map fun e => Reference.ext.coin.read e.2)) ∧
        (CCoinsViewDBCursor.next^[outs.length] (cursor mixedDb)).Valid = false :=
  ⟨by decide, cursor_scan_coinRecords Reference.ext mixedDb (by decide)⟩

example : (cursor mixedDb).scan Reference.ext 5 =
    [(⟨Reference.tip, 0⟩, some ⟨⟨50, []⟩, 1, false, false⟩)] := by
  decide

/-! ## The loaded-coin database -/

/-- Every key of a loaded-coin database either sorts below `'p'`, as the obfuscation
key does, or is a 33-byte `('p', hash)` key, the shape `WriteLoadedCoinIndex` writes. -/
def LoadedKeysWellFormed (loadedcoindb : Db) : Prop :=
  ∀ e ∈ loadedcoindb.entries, e.1.head?.any (· < DB_LOADED_COINS) ∨
    e.1.head? = some DB_LOADED_COINS ∧ e.1.length = 33

instance (loadedcoindb : Db) : Decidable (LoadedKeysWellFormed loadedcoindb) :=
  inferInstanceAs (Decidable (∀ e ∈ loadedcoindb.entries, _ ∨ _))

theorem LoadedKeysWellFormed.pairKey_of_not_lt {L : Db} (hwf : LoadedKeysWellFormed L)
    {e : Bytes × Bytes} (he : e ∈ L.entries) {h : Uint256}
    (hge : keyLt e.1 (pairKey DB_LOADED_COINS h) = false) :
    ∃ h', e.1 = pairKey DB_LOADED_COINS h' := by
  rcases e with ⟨_ | ⟨x, t⟩, v⟩
  · simp [pairKey] at hge
  rcases hwf _ he with hlow | ⟨hx, hlen⟩
  · have hxp : x < DB_LOADED_COINS := by simpa using hlow
    simp [pairKey, hxp] at hge
  · obtain rfl : x = DB_LOADED_COINS := by simpa using hx
    exact ⟨⟨t, by simpa using hlen⟩, rfl⟩

theorem getLoadedCoin_eq_get (ext : Externals) {L : Db} (hwf : LoadedKeysWellFormed L)
    (h : Uint256) (coinOut : LoadedCoin) :
    getLoadedCoin ext L h coinOut =
      match L.get (pairKey DB_LOADED_COINS h) with
      | none => (false, coinOut)
      | some v => (true, match ext.loadedCoin.read v with
          | some x => x
          | none => ext.loadedCoinInto v coinOut) := by
  rw [Db.get, KeySorted.lookup_eq_seek L.sorted]
  simp only [getLoadedCoin, CDBIterator.seek, Db.newIterator]
  split
  · next hnil => rw [hnil]
  · next k v tail hsplit =>
      rw [hsplit]
      have hfound : (k, v) ∈ L.entries.filter fun e => !keyLt e.1 (pairKey DB_LOADED_COINS h) := by
        rw [← KeySorted.dropWhile_eq_filter L.sorted, hsplit]
        exact List.mem_cons_self _ _
      obtain ⟨hmem, hge⟩ := List.mem_filter.mp hfound
      simp only [Bool.not_eq_true'] at hge
      obtain ⟨h', rfl⟩ := hwf.pairKey_of_not_lt hmem hge
      rw [pairGetKeyInto_pairKey]
      by_cases hh : h' = h
      · subst hh
        simp only [CDBIterator.getValueInto, hsplit, if_true]
        cases ext.loadedCoin.read v <;> rfl
      · have hne : pairKey DB_LOADED_COINS h' ≠ pairKey DB_LOADED_COINS h := fun heq =>
          hh (Uint256.ext (by simpa [pairKey] using heq))
        simp [hh, hne]

/-- `CCoinsViewLoadedDBCursor`: the iterator alone; keys and values are decoded when
asked for. -/
structure CCoinsViewLoadedDBCursor where
  pcursor : CDBIterator

namespace CCoinsViewLoadedDBCursor

def Valid (c : CCoinsViewLoadedDBCursor) : Bool := c.pcursor.Valid

def getKey (c : CCoinsViewLoadedDBCursor) : Option (UInt8 × Uint256) := c.pcursor.getKey pairSer

def getValue (ext : Externals) (c : CCoinsViewLoadedDBCursor) : Option LoadedCoin :=
  c.pcursor.getValue ext.loadedCoin

def next (c : CCoinsViewLoadedDBCursor) : CCoinsViewLoadedDBCursor := ⟨c.pcursor.next⟩

/-- A scan: while `Valid`, take `GetKey` and `GetValue`, then `Next`. -/
def scan (ext : Externals) :
    Nat → CCoinsViewLoadedDBCursor → List (Option (UInt8 × Uint256) × Option LoadedCoin)
  | 0, _ => []
  | fuel + 1, c => if c.Valid then (c.getKey, c.getValue ext) :: scan ext fuel c.next else []

theorem scan_rest (ext : Externals) (snapshot : List (Bytes × Bytes)) :
    ∀ (rest : List (Bytes × Bytes)) (fuel : Nat), rest.length < fuel →
      scan ext fuel ⟨⟨snapshot, rest⟩⟩ =
        rest.map fun e => (pairSer.read e.1, ext.loadedCoin.read e.2)
  | _, 0, hf => absurd hf (Nat.not_lt_zero _)
  | [], fuel + 1, _ => by simp [scan, Valid, CDBIterator.Valid]
  | e :: rest, fuel + 1, hf => by
      simp only [scan, Valid, CDBIterator.Valid, List.isEmpty_cons, Bool.not_false, if_true,
        List.map_cons]
      rw [show next ⟨⟨snapshot, e :: rest⟩⟩ = ⟨⟨snapshot, rest⟩⟩ from rfl,
        scan_rest ext snapshot rest fuel (by simpa using hf)]
      rfl

end CCoinsViewLoadedDBCursor

/-- `CCoinsViewDB::LoadedCursor`: seek to `'p'`. -/
def loadedCursor (loadedcoindb : Db) : CCoinsViewLoadedDBCursor :=
  ⟨loadedcoindb.newIterator.seek [DB_LOADED_COINS]⟩

def loadedRecords (loadedcoindb : Db) : List (Bytes × Bytes) :=
  loadedcoindb.entries.filter fun e => e.1.head? = some DB_LOADED_COINS

theorem loadedCursor_scan (ext : Externals) {L : Db} (hwf : LoadedKeysWellFormed L) (fuel : Nat)
    (hf : (loadedRecords L).length < fuel) :
    (loadedCursor L).scan ext fuel =
      (loadedRecords L).map fun e => (pairSer.read e.1, ext.loadedCoin.read e.2) := by
  have hlow : ∀ e ∈ L.entries, e.1.head? = some DB_LOADED_COINS →
      keyLt e.1 [DB_LOADED_COINS] = false := by
    rintro ⟨_ | ⟨x, t⟩, v⟩ - hx
    · simp at hx
    obtain rfl : x = DB_LOADED_COINS := by simpa using hx
    simp
  have habove : L.entries.filter (fun e => e.1.head?.any (DB_LOADED_COINS < ·)) = [] := by
    refine List.filter_eq_nil_iff.mpr fun e he hgt => ?_
    rcases e with ⟨_ | ⟨x, t⟩, v⟩
    · simp at hgt
    have hgt' : DB_LOADED_COINS.toNat < x.toNat := by simpa using hgt
    rcases hwf _ he with hlow | ⟨hx, -⟩
    · have : x.toNat < DB_LOADED_COINS.toNat := by simpa using hlow
      omega
    · obtain rfl : x = DB_LOADED_COINS := by simpa using hx
      omega
  have hrest : (L.newIterator.seek [DB_LOADED_COINS]).rest = loadedRecords L := by
    simp only [CDBIterator.seek, Db.newIterator, KeySorted.dropWhile_eq_filter L.sorted,
      KeySorted.filter_seek_tag L.sorted hlow, habove, List.append_nil, loadedRecords]
  rw [loadedCursor, show L.newIterator.seek [DB_LOADED_COINS] =
    ⟨L.entries, loadedRecords L⟩ from by rw [← hrest]; rfl]
  exact CCoinsViewLoadedDBCursor.scan_rest ext _ _ fuel hf

end CCoinsViewDB
end TxDb
