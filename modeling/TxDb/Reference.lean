import TxDb.Coins

/-!
# A concrete instance of the external declarations

The theorems hold for every `Externals`; a closed instance of one needs a concrete
choice.  This one writes a `Coin` as `coins.h` does, a `VARINT` of height and
coinbase flag followed by the output, but with the output uncompressed (value as a
64-bit integer, script as a byte vector); a `LoadedCoin` is the coin, its spent
flag and its outpoint.  `SerializeHash` is replaced by truncation to 32 bytes.
-/

namespace TxDb
namespace Reference

/-- `bool`: one byte, any nonzero byte reading as `true`. -/
def boolSer : Serializer Bool where
  ser b := [if b then 1 else 0]
  deser
    | [] => none
    | c :: rest => some (c != 0, rest)

/-- `int64_t`: eight bytes, two's complement. -/
def int64Ser : Serializer Int where
  ser x := writeLE 8 (x % 2 ^ 64).toNat
  deser bs := (readLE 8 bs).map fun r =>
    (if r.1 < 2 ^ 63 then (r.1 : Int) else (r.1 : Int) - 2 ^ 64, r.2)

/-- `CScript`: a `CompactSize` length, then the bytes. -/
def scriptSer : Serializer Bytes where
  ser s := writeCompactSize s.length ++ s
  deser bs := (readCompactSize bs).bind fun r =>
    if r.1 ≤ r.2.length then some (r.2.take r.1, r.2.drop r.1) else none

def txOutSer : Serializer CTxOut where
  ser o := int64Ser.ser o.nValue ++ scriptSer.ser o.scriptPubKey
  deser bs := (int64Ser.deser bs).bind fun r₁ =>
    (scriptSer.deser r₁.2).map fun r₂ => (⟨r₁.1, r₂.1⟩, r₂.2)

/-- `Coin`: `VARINT(nHeight * 2 + fCoinBase)`, then the output; `fLoaded` is not
written and reads back `false`. -/
def coinSer : Serializer Coin where
  ser c := writeVarInt (c.nHeight * 2 + c.fCoinBase.toNat) ++ txOutSer.ser c.out
  deser bs := (readVarInt 0xFFFFFFFF bs).bind fun r₁ =>
    (txOutSer.deser r₁.2).map fun r₂ => (⟨r₂.1, r₁.1 / 2, r₁.1 % 2 = 1, false⟩, r₂.2)

def outPointSer : Serializer COutPoint where
  ser o := o.hash.data ++ writeLE 4 o.n.toNat
  deser bs := (Uint256.serializer.deser bs).bind fun r₁ =>
    (readLE 4 r₁.2).map fun r₂ => (⟨r₁.1, UInt32.ofNat r₂.1⟩, r₂.2)

def loadedCoinSer : Serializer LoadedCoin where
  ser r := coinSer.ser r.coin ++ boolSer.ser r.fSpent ++ outPointSer.ser r.out
  deser bs := (coinSer.deser bs).bind fun r₁ => (boolSer.deser r₁.2).bind fun r₂ =>
    (outPointSer.deser r₂.2).map fun r₃ => (⟨r₁.1, r₂.1, r₃.1⟩, r₃.2)

/-! ## Round trips -/

/-- What the C++ types bound: a 64-bit value, a script within `MAX_SIZE`, a height that
fits the code `VARINT`, and `fLoaded` clear since it is not written. -/
def Encodable (c : Coin) : Prop :=
  -2 ^ 63 ≤ c.out.nValue ∧ c.out.nValue < 2 ^ 63 ∧ c.out.scriptPubKey.length ≤ MAX_SIZE ∧
    c.nHeight * 2 + 1 ≤ 0xFFFFFFFF ∧ c.fLoaded = false

instance (c : Coin) : Decidable (Encodable c) := inferInstanceAs (Decidable (_ ∧ _))

theorem boolSer_roundTrips (b : Bool) : boolSer.RoundTrips b := by
  intro rest
  cases b <;> rfl

theorem int64Ser_roundTrips {x : Int} (hlo : -2 ^ 63 ≤ x) (hhi : x < 2 ^ 63) :
    int64Ser.RoundTrips x := by
  intro rest
  simp only [int64Ser, readLE_writeLE, Option.map_some', Option.some.injEq, Prod.mk.injEq,
    and_true]
  have hmod : ((x % 2 ^ 64).toNat % 256 ^ 8 : Nat) = (x % 2 ^ 64).toNat := by
    apply Nat.mod_eq_of_lt; omega
  rw [hmod]
  split <;> omega

theorem scriptSer_roundTrips {script : Bytes} (hs : script.length ≤ MAX_SIZE) :
    scriptSer.RoundTrips script := by
  intro rest
  simp [scriptSer, readCompactSize_writeCompactSize hs]

theorem txOutSer_roundTrips {o : CTxOut} (hlo : -2 ^ 63 ≤ o.nValue) (hhi : o.nValue < 2 ^ 63)
    (hs : o.scriptPubKey.length ≤ MAX_SIZE) : txOutSer.RoundTrips o := by
  intro rest
  simp only [txOutSer, List.append_assoc]
  rw [int64Ser_roundTrips hlo hhi (scriptSer.ser o.scriptPubKey ++ rest), Option.some_bind,
    scriptSer_roundTrips hs rest]
  rfl

theorem coinSer_roundTrips {c : Coin} (hc : Encodable c) : coinSer.RoundTrips c := by
  obtain ⟨hlo, hhi, hs, hh, hl⟩ := hc
  intro rest
  have hcode : c.nHeight * 2 + c.fCoinBase.toNat ≤ 0xFFFFFFFF := by
    cases c.fCoinBase <;> simp <;> omega
  simp only [coinSer, List.append_assoc]
  rw [readVarInt_writeVarInt hcode, Option.some_bind, txOutSer_roundTrips hlo hhi hs rest]
  obtain ⟨out, nHeight, fCoinBase, fLoaded⟩ := c
  simp only at hl
  subst hl
  cases fCoinBase <;> simp
  omega

theorem outPointSer_roundTrips (o : COutPoint) : outPointSer.RoundTrips o := by
  intro rest
  simp only [outPointSer, List.append_assoc]
  have hhash : Uint256.serializer.deser (o.hash.data ++ (writeLE 4 o.n.toNat ++ rest)) =
      some (o.hash, writeLE 4 o.n.toNat ++ rest) := Uint256.roundTrips o.hash _
  rw [hhash, Option.some_bind, readLE_writeLE,
    Nat.mod_eq_of_lt (show o.n.toNat < 256 ^ 4 from o.n.toNat_lt_size)]
  simp [UInt32.ofNat_toNat']

theorem loadedCoinSer_roundTrips {r : LoadedCoin} (hc : Encodable r.coin) :
    loadedCoinSer.RoundTrips r := by
  intro rest
  simp only [loadedCoinSer, List.append_assoc]
  rw [coinSer_roundTrips hc (boolSer.ser r.fSpent ++ (outPointSer.ser r.out ++ rest)),
    Option.some_bind, boolSer_roundTrips r.fSpent (outPointSer.ser r.out ++ rest), Option.some_bind,
    outPointSer_roundTrips r.out rest]
  rfl

def truncateHash (bs : Bytes) : Uint256 :=
  ⟨(bs ++ List.replicate 32 0).take 32, by simp⟩

def tip : Uint256 := ⟨List.replicate 31 0 ++ [1], by simp⟩

def ext : Externals where
  coin := coinSer
  loadedCoin := loadedCoinSer
  coinInto _ c := c
  loadedCoinInto _ c := c
  loadedCoinInit := ⟨⟨CTxOut.null, 0, false, false⟩, false, COutPoint.null⟩
  txOutCompressor := txOutSer.deser
  serializeHash := truncateHash
  CLIENT_VERSION := 210000

end Reference
end TxDb
