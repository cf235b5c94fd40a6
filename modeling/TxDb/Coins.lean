import TxDb.Engine

/-!
# Coins, outpoints and the chainstate keys

The records `txdb.cpp` stores and the keys it stores them under.  The coin key is
`CoinEntry`: the tag `'C'`, the transaction hash, then the output index as
`VARINT`.  The record types come from headers that `src/` does not include; their
serializers, the outpoint hash and `CLIENT_VERSION` are the parameters collected in
`Externals`.
-/

namespace TxDb

/-! ## Record types -/

/-- `COutPoint`: a transaction hash and an output index. -/
structure COutPoint where
  hash : Uint256
  n : UInt32
  deriving DecidableEq

/-- Modelled from the spec: `CTxOut` (`primitives/transaction.h`), the value and
output script of an output. -/
structure CTxOut where
  nValue : Int
  scriptPubKey : Bytes
  deriving DecidableEq

/-- Modelled from the spec: `CTxOut::IsNull`, the marker of a spent output. -/
def CTxOut.IsNull (o : CTxOut) : Bool := o.nValue = -1

/-- Modelled from the spec: `CTxOut()`, which `SetNull` leaves with value `-1` and an
empty script. -/
def CTxOut.null : CTxOut := ⟨-1, []⟩

def OP_RETURN : UInt8 := 0x6a

def MAX_SCRIPT_SIZE : Nat := 10000

/-- Modelled from the spec: `CScript::IsUnspendable` (`script/script.h`), an output
that can never be spent: it starts with `OP_RETURN` or is over the size limit. -/
def CScript.IsUnspendable (script : Bytes) : Bool :=
  script.head? = some OP_RETURN || MAX_SCRIPT_SIZE < script.length

/-- Modelled from the spec: `Coin` (`coins.h`): value and script, creation height,
coinbase flag, and the transient `fLoaded` marker of a coin read from the overlay. -/
structure Coin where
  out : CTxOut
  nHeight : Nat
  fCoinBase : Bool
  fLoaded : Bool
  deriving DecidableEq

/-- Modelled from the spec: `Coin::IsSpent`, a coin whose output is null. -/
def Coin.IsSpent (c : Coin) : Bool := c.out.IsNull

/-- Modelled from the spec: `LoadedCoin` (`coins.h`), a record of the loaded-coin
overlay: the coin, its spent flag and its outpoint. -/
structure LoadedCoin where
  coin : Coin
  fSpent : Bool
  out : COutPoint
  deriving DecidableEq

/-- Modelled from the spec: `CCoinsCacheEntry` (`coins.h`), a changeset entry. -/
structure CCoinsCacheEntry where
  coin : Coin
  flags : UInt8
  deriving DecidableEq

def DIRTY : UInt8 := 1

def FRESH : UInt8 := 2

def CCoinsCacheEntry.IsDirty (e : CCoinsCacheEntry) : Bool := e.flags &&& DIRTY != 0

/-- `CCoinsMap`, listed in its iteration order; a map holds each outpoint once. -/
structure CCoinsMap where
  entries : List (COutPoint × CCoinsCacheEntry)
  nodup : (entries.map Prod.fst).Nodup

def CCoinsMap.empty : CCoinsMap := ⟨[], List.nodup_nil⟩

/-- The declarations `txdb.cpp` takes from headers that `src/` does not include:
the serializers of `Coin` and `LoadedCoin`, what a failed read of each leaves in the
variable it reads into (the fields read before the failure), the value of a
default-initialized `LoadedCoin`, the reader of a compressed `CTxOut`
(`compressor.h`), `SerializeHash` (`hash.h`) and `CLIENT_VERSION`. -/
structure Externals where
  coin : Serializer Coin
  loadedCoin : Serializer LoadedCoin
  coinInto : Bytes → Coin → Coin
  loadedCoinInto : Bytes → LoadedCoin → LoadedCoin
  loadedCoinInit : LoadedCoin
  txOutCompressor : Bytes → Option (CTxOut × Bytes)
  serializeHash : Bytes → Uint256
  CLIENT_VERSION : Int

/-- `COutPoint::GetHash`: `SerializeHash` of the hash and the little-endian index. -/
def COutPoint.GetHash (ext : Externals) (o : COutPoint) : Uint256 :=
  ext.serializeHash (o.hash.data ++ writeLE 4 o.n.toNat)

/-- `COutPoint::SetNull`, the value of a default-constructed outpoint. -/
def COutPoint.null : COutPoint := ⟨Uint256.zero, UInt32.ofNat 0xFFFFFFFF⟩

/-! ## Keys -/

def DB_COIN : UInt8 := 0x43

def DB_COINS : UInt8 := 0x63

def DB_BEST_BLOCK : UInt8 := 0x42

def DB_HEAD_BLOCKS : UInt8 := 0x48

def DB_LOADED_COINS : UInt8 := 0x70

/-- The best-block key: the `char` `'B'` serialized. -/
def keyBestBlock : Bytes := [DB_BEST_BLOCK]

def keyHeadBlocks : Bytes := [DB_HEAD_BLOCKS]

/-- A `std::pair<char, uint256>` key. -/
def pairKey (tag : UInt8) (h : Uint256) : Bytes := tag :: h.data

/-- `std::pair<unsigned char, uint256>`: the tag byte, then the hash. -/
def pairSer : Serializer (UInt8 × Uint256) where
  ser key := pairKey key.1 key.2
  deser
    | [] => none
    | c :: bs => (Uint256.serializer.deser bs).map fun r => ((c, r.1), r.2)

theorem pairSer_roundTrips (key : UInt8 × Uint256) : pairSer.RoundTrips key := by
  intro rest
  show (Uint256.serializer.deser (Uint256.serializer.ser key.2 ++ rest)).map _ = _
  rw [Uint256.roundTrips key.2 rest]
  rfl

/-- `GetKey` into a `std::pair<char, uint256>` holding `key`: the tag is read if there
is a byte, the hash if 32 more follow; a field that fails to read keeps its value. -/
def pairGetKeyInto (key : UInt8 × Uint256) : Bytes → UInt8 × Uint256
  | [] => key
  | c :: bs =>
      match Uint256.serializer.deser bs with
      | none => (c, key.2)
      | some (h, _) => (c, h)

theorem pairGetKeyInto_pairKey (key : UInt8 × Uint256) (tag : UInt8) (h : Uint256) :
    pairGetKeyInto key (pairKey tag h) = (tag, h) := by
  have hdeser : Uint256.serializer.deser h.data = some (h, []) := by
    have := Uint256.roundTrips h []
    rwa [List.append_nil] at this
  simp [pairGetKeyInto, pairKey, hdeser]

theorem seek_pairKey_zero {db : Db} {tag : UInt8}
    (hwf : ∀ e ∈ db.entries, e.1.head? = some tag → 33 ≤ e.1.length) :
    (db.newIterator.seek (pairKey tag Uint256.zero)).rest =
      db.entries.filter (fun e => e.1.head? = some tag) ++
        db.entries.filter (fun e => e.1.head?.any (tag < ·)) := by
  simp only [CDBIterator.seek, Db.newIterator, KeySorted.dropWhile_eq_filter db.sorted, pairKey]
  refine KeySorted.filter_seek_tag db.sorted fun e he hx => ?_
  rcases e with ⟨_ | ⟨x, t⟩, v⟩
  · simp at hx
  obtain rfl : x = tag := by simpa using hx
  have hlen : 32 ≤ t.length := by simpa using hwf _ he hx
  rw [keyLt_cons_cons, show Uint256.zero.data = List.replicate 32 0 from rfl,
    keyLt_replicate_zero t hlen]
  simp

/-- `CoinEntry::Serialize`. -/
def CoinEntry.serialize (o : COutPoint) : Bytes :=
  DB_COIN :: (o.hash.data ++ writeVarInt o.n.toNat)

/-- `CoinEntry::Unserialize` into a `(key, outpoint)` pair already holding values.
The fields are read in order; one that fails to read ends the decoding and keeps
its old value, since the stream throws before assigning it.  The flag says
whether every field was read. -/
def CoinEntry.unserialize (key : UInt8) (o : COutPoint) : Bytes → (UInt8 × COutPoint) × Bool
  | [] => ((key, o), false)
  | c :: bs =>
      match Uint256.serializer.deser bs with
      | none => ((c, o), false)
      | some (h, bs') =>
          match readVarInt 0xFFFFFFFF bs' with
          | none => ((c, { o with hash := h }), false)
          | some (n, _) => ((c, ⟨h, UInt32.ofNat n⟩), true)

theorem UInt32.ofNat_toNat' (n : UInt32) : UInt32.ofNat n.toNat = n :=
  UInt32.toNat.inj (UInt32.toNat_ofNat_of_lt n.toNat_lt_size)

theorem CoinEntry.unserialize_serialize (key : UInt8) (o₀ o : COutPoint) :
    CoinEntry.unserialize key o₀ (CoinEntry.serialize o) = ((DB_COIN, o), true) := by
  have hn : o.n.toNat ≤ 0xFFFFFFFF := by
    have := o.n.toNat_lt_size
    change _ < 4294967296 at this
    omega
  have hhash := Uint256.roundTrips o.hash (writeVarInt o.n.toNat)
  have hvar := readVarInt_writeVarInt hn []
  simp only [List.append_nil] at hvar
  simp only [serialize, unserialize, Uint256.serializer] at hhash ⊢
  rw [hhash]
  simp only [hvar, UInt32.ofNat_toNat']

theorem CoinEntry.serialize_injective {o o' : COutPoint}
    (h : CoinEntry.serialize o = CoinEntry.serialize o') : o = o' := by
  have := CoinEntry.unserialize_serialize DB_COIN o o
  rw [h, CoinEntry.unserialize_serialize] at this
  simpa using this.symm

theorem CoinEntry.serialize_ne_pairKey (o : COutPoint) {tag : UInt8} (h : Uint256)
    (htag : tag ≠ DB_COIN) : CoinEntry.serialize o ≠ pairKey tag h := by
  simp [serialize, pairKey, Ne.symm htag]

theorem CoinEntry.serialize_ne_keyBestBlock (o : COutPoint) :
    CoinEntry.serialize o ≠ keyBestBlock := by
  simp [serialize, keyBestBlock, DB_COIN, DB_BEST_BLOCK]

theorem CoinEntry.serialize_ne_keyHeadBlocks (o : COutPoint) :
    CoinEntry.serialize o ≠ keyHeadBlocks := by
  simp [serialize, keyHeadBlocks, DB_COIN, DB_HEAD_BLOCKS]

theorem keyBestBlock_ne_keyHeadBlocks : keyBestBlock ≠ keyHeadBlocks := by decide

/-! ## The coin key as a stream -/

/-- `CoinEntry::Unserialize` from a stream: the key byte, the hash, then the index as
`VARINT`, leaving the rest of the stream. -/
def CoinEntry.deser : Bytes → Option ((UInt8 × COutPoint) × Bytes)
  | [] => none
  | c :: bs => (Uint256.serializer.deser bs).bind fun r₁ =>
      (readVarInt 0xFFFFFFFF r₁.2).map fun r₂ => ((c, ⟨r₁.1, UInt32.ofNat r₂.1⟩), r₂.2)

theorem CoinEntry.unserialize_of_deser {bs rest : Bytes} {c : UInt8} {o : COutPoint}
    (h : CoinEntry.deser bs = some ((c, o), rest)) (key : UInt8) (o₀ : COutPoint) :
    CoinEntry.unserialize key o₀ bs = ((c, o), true) := by
  rcases bs with _ | ⟨c', bs⟩
  · simp [deser] at h
  simp only [deser, Option.bind_eq_some, Option.map_eq_some'] at h
  obtain ⟨⟨hash, r₁⟩, h₁, ⟨n, r₂⟩, h₂, hres⟩ := h
  simp only [Prod.mk.injEq] at hres
  obtain ⟨⟨rfl, rfl⟩, rfl⟩ := hres
  simp [unserialize, h₁, h₂]

theorem CoinEntry.deser_serialize (o : COutPoint) (rest : Bytes) :
    CoinEntry.deser (CoinEntry.serialize o ++ rest) = some ((DB_COIN, o), rest) := by
  have hn : o.n.toNat ≤ 0xFFFFFFFF := by
    have := o.n.toNat_lt_size
    change _ < 4294967296 at this
    omega
  have hhash : Uint256.serializer.deser (o.hash.data ++ (writeVarInt o.n.toNat ++ rest)) =
      some (o.hash, writeVarInt o.n.toNat ++ rest) := Uint256.roundTrips o.hash _
  simp only [serialize, List.cons_append, List.append_assoc, deser, hhash, Option.some_bind,
    readVarInt_writeVarInt hn, Option.map_some', UInt32.ofNat_toNat']

/-- A coin key reads back as `'C'` and its outpoint from any stream, consuming exactly its
bytes; no coin key is a prefix of another or a marker or legacy key. -/
theorem coinEntry_round_trip :
    (∀ (o : COutPoint) (rest : Bytes),
      CoinEntry.deser (CoinEntry.serialize o ++ rest) = some ((DB_COIN, o), rest)) ∧
    (∀ o o' : COutPoint, CoinEntry.serialize o = CoinEntry.serialize o' → o = o') ∧
    (∀ (o o' : COutPoint) (t : Bytes),
      CoinEntry.serialize o ++ t = CoinEntry.serialize o' → t = []) ∧
    (∀ (o : COutPoint) (h : Uint256), CoinEntry.serialize o ≠ keyBestBlock ∧
      CoinEntry.serialize o ≠ keyHeadBlocks ∧ CoinEntry.serialize o ≠ pairKey DB_COINS h) := by
  refine ⟨CoinEntry.deser_serialize, fun _ _ h => CoinEntry.serialize_injective h,
    fun o o' t h => ?_, fun o h => ⟨CoinEntry.serialize_ne_keyBestBlock o,
      CoinEntry.serialize_ne_keyHeadBlocks o, CoinEntry.serialize_ne_pairKey o h (by decide)⟩⟩
  have hlong := CoinEntry.deser_serialize o t
  rw [h, ← List.append_nil (CoinEntry.serialize o'), CoinEntry.deser_serialize] at hlong
  simp only [Option.some.injEq, Prod.mk.injEq] at hlong
  exact hlong.2.symm

end TxDb
