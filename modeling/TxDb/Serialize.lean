import TxDb.Bytes

/-!
# Serialization

The stream formats `txdb.cpp` writes and reads: fixed-width little-endian
integers, `CompactSize` counts, vectors, `uint256`, and the `VARINT` of
`serialize.h` that the coin key uses for its output index.  A reader consumes a
prefix of the stream and returns the rest; `CDBWrapper::Read` ignores trailing
bytes.  Each format comes with its round trip.
-/

namespace TxDb

/-- What `operator<<` writes and what `operator>>` reads back from the front of a
stream, leaving the rest. -/
structure Serializer (α : Type) where
  ser : α → Bytes
  deser : Bytes → Option (α × Bytes)

namespace Serializer

variable {α : Type}

/-- `x` reads back as itself from the front of any stream. -/
def RoundTrips (s : Serializer α) (x : α) : Prop :=
  ∀ rest, s.deser (s.ser x ++ rest) = some (x, rest)

/-- `CDBWrapper::Read` and `CDBIterator::GetValue`: decode from the front of the
stored bytes, trailing bytes unchecked. -/
def read (s : Serializer α) (bytes : Bytes) : Option α :=
  (s.deser bytes).map Prod.fst

theorem read_ser {s : Serializer α} {x : α} (hx : s.RoundTrips x) :
    s.read (s.ser x) = some x := by
  simpa [read] using congrArg (Option.map Prod.fst) (hx [])

end Serializer

/-! ## Fixed-width integers -/

def writeLE : (width : Nat) → Nat → Bytes
  | 0, _ => []
  | w + 1, x => UInt8.ofNat (x % 256) :: writeLE w (x / 256)

def readLE : (width : Nat) → Bytes → Option (Nat × Bytes)
  | 0, bs => some (0, bs)
  | _ + 1, [] => none
  | w + 1, b :: bs => (readLE w bs).map fun r => (b.toNat + 256 * r.1, r.2)

@[simp] theorem length_writeLE (w x : Nat) : (writeLE w x).length = w := by
  induction w generalizing x <;> simp_all [writeLE]

private theorem toNat_ofNat_mod_256 (x : Nat) : (UInt8.ofNat (x % 256)).toNat = x % 256 :=
  UInt8.toNat_ofNat_of_lt (Nat.mod_lt _ (by decide))

theorem readLE_writeLE (w x : Nat) (rest : Bytes) :
    readLE w (writeLE w x ++ rest) = some (x % 256 ^ w, rest) := by
  induction w generalizing x with
  | zero => simp [readLE, writeLE, Nat.mod_one]
  | succ w ih =>
      show readLE (w + 1) (UInt8.ofNat (x % 256) :: (writeLE w (x / 256) ++ rest)) = _
      simp only [readLE, ih, Option.map_some', toNat_ofNat_mod_256, Nat.pow_succ',
        Nat.mod_mul]

theorem readLE_lt {w : Nat} {bs rest : Bytes} {x : Nat}
    (h : readLE w bs = some (x, rest)) : x < 256 ^ w := by
  induction w generalizing bs x rest with
  | zero =>
      simp only [readLE, Option.some.injEq, Prod.mk.injEq] at h
      simp [← h.1]
  | succ w ih =>
      cases bs with
      | nil => simp [readLE] at h
      | cons b bs =>
          simp only [readLE, Option.map_eq_some'] at h
          obtain ⟨⟨y, rest'⟩, hy, hx⟩ := h
          simp only [Prod.mk.injEq] at hx
          have := ih hy
          have := b.toNat_lt_size
          rw [Nat.pow_succ]
          change _ < 256 at this
          omega

/-- `int`, as `CAutoFile` writes it: four bytes, two's complement. -/
def writeInt32 (x : Int) : Bytes := writeLE 4 (x % 2 ^ 32).toNat

def readInt32 (bs : Bytes) : Option (Int × Bytes) :=
  (readLE 4 bs).map fun r => (if r.1 < 2 ^ 31 then r.1 else (r.1 : Int) - 2 ^ 32, r.2)

theorem readInt32_writeInt32 {x : Int} (hlo : -2 ^ 31 ≤ x) (hhi : x < 2 ^ 31)
    (rest : Bytes) : readInt32 (writeInt32 x ++ rest) = some (x, rest) := by
  simp only [readInt32, writeInt32, readLE_writeLE, Option.map_some', Option.some.injEq,
    Prod.mk.injEq, and_true]
  have hmod : ((x % 2 ^ 32).toNat % 256 ^ 4 : Nat) = (x % 2 ^ 32).toNat := by
    apply Nat.mod_eq_of_lt; omega
  rw [hmod]
  split <;> omega

theorem readInt32_writeInt32_rest (x : Int) (rest : Bytes) :
    ∃ y, readInt32 (writeInt32 x ++ rest) = some (y, rest) := by
  simp [readInt32, writeInt32, readLE_writeLE]

/-! ## `uint256` and vectors -/

def Uint256.serializer : Serializer Uint256 where
  ser h := h.data
  deser bs := if hlen : 32 ≤ bs.length then
      some (⟨bs.take 32, by simp [List.length_take]; omega⟩, bs.drop 32)
    else none

theorem Uint256.roundTrips (h : Uint256) : Uint256.serializer.RoundTrips h := by
  intro rest
  have hlen := h.size_eq
  simp only [serializer, List.length_append, hlen, Nat.le_add_right, dite_true,
    Option.some.injEq, Prod.mk.injEq]
  constructor
  · cases h; simp_all [List.take_append_eq_append_take]
  · rw [← hlen, List.drop_left]

/-- `MAX_SIZE` of `serialize.h`. -/
def MAX_SIZE : Nat := 0x02000000

def writeCompactSize (n : Nat) : Bytes :=
  if n < 253 then [UInt8.ofNat n]
  else if n ≤ 0xFFFF then 253 :: writeLE 2 n
  else if n ≤ 0xFFFFFFFF then 254 :: writeLE 4 n
  else 255 :: writeLE 8 n

/-- `ReadCompactSize`: the shortest form only, and at most `MAX_SIZE`. -/
def readCompactSize : Bytes → Option (Nat × Bytes)
  | [] => none
  | b :: bs =>
      let r :=
        if b.toNat < 253 then some (b.toNat, bs)
        else if b.toNat = 253 then (readLE 2 bs).filter (253 ≤ ·.1)
        else if b.toNat = 254 then (readLE 4 bs).filter (0x10000 ≤ ·.1)
        else (readLE 8 bs).filter (0x100000000 ≤ ·.1)
      r.filter (·.1 ≤ MAX_SIZE)

theorem readCompactSize_writeCompactSize {n : Nat} (hn : n ≤ MAX_SIZE) (rest : Bytes) :
    readCompactSize (writeCompactSize n ++ rest) = some (n, rest) := by
  unfold MAX_SIZE at hn
  unfold writeCompactSize
  by_cases h1 : n < 253
  · have hb : (UInt8.ofNat n).toNat = n := UInt8.toNat_ofNat_of_lt (by change n < 256; omega)
    simp [readCompactSize, h1, hb, MAX_SIZE, Option.filter, hn]
  by_cases h2 : n ≤ 0xFFFF
  · have hmod : n % 65536 = n := Nat.mod_eq_of_lt (by omega)
    simp [readCompactSize, h1, h2, readLE_writeLE, hmod, MAX_SIZE, Option.filter, hn,
      UInt8.size, show 253 ≤ n by omega]
  · have hmod : n % 4294967296 = n := Nat.mod_eq_of_lt (by omega)
    simp [readCompactSize, h1, h2, readLE_writeLE, hmod, MAX_SIZE, Option.filter, hn,
      UInt8.size, show n ≤ 0xFFFFFFFF by omega, show 65536 ≤ n by omega]

def readMany {α : Type} (deser : Bytes → Option (α × Bytes)) : Nat → Bytes → Option (List α × Bytes)
  | 0, bs => some ([], bs)
  | n + 1, bs => (deser bs).bind fun r =>
      (readMany deser n r.2).map fun rs => (r.1 :: rs.1, rs.2)

/-- `std::vector`: a `CompactSize` count, then the elements. -/
def Serializer.vector {α : Type} (s : Serializer α) : Serializer (List α) where
  ser xs := writeCompactSize xs.length ++ xs.flatMap s.ser
  deser bs := (readCompactSize bs).bind fun r => readMany s.deser r.1 r.2

theorem readMany_flatMap {α : Type} {s : Serializer α} {xs : List α}
    (hxs : ∀ x ∈ xs, s.RoundTrips x) (rest : Bytes) :
    readMany s.deser xs.length (xs.flatMap s.ser ++ rest) = some (xs, rest) := by
  induction xs with
  | nil => rfl
  | cons x xs ih =>
      simp only [List.length_cons, List.flatMap_cons, List.append_assoc, readMany,
        hxs x (List.mem_cons_self x xs) (xs.flatMap s.ser ++ rest), Option.some_bind,
        ih (fun y hy => hxs y (List.mem_cons_of_mem x hy)), Option.map_some']

theorem Serializer.vector_roundTrips {α : Type} {s : Serializer α} {xs : List α}
    (hxs : ∀ x ∈ xs, s.RoundTrips x) (hlen : xs.length ≤ MAX_SIZE) :
    s.vector.RoundTrips xs := by
  intro rest
  simp only [vector, List.append_assoc, readCompactSize_writeCompactSize hlen,
    Option.some_bind, readMany_flatMap hxs]

/-! ## `VARINT` -/

/-- Modelled from the spec: the "variable-length integer for small indices" of the
coin key is `VARINT` of `serialize.h`, which `src/` does not include.  `WriteVarInt`
emits base-128 digits, most significant first, every digit but the last flagged
with `0x80`, and takes one off the higher part at each step so that every number
has one encoding.  `fuel` bounds the steps; the caller passes `n`. -/
def writeVarIntAux : (fuel n flag : Nat) → Bytes
  | 0, n, flag => [UInt8.ofNat (n % 128 + flag)]
  | fuel + 1, n, flag =>
      (if n ≤ 0x7F then [] else writeVarIntAux fuel (n / 128 - 1) 0x80) ++
        [UInt8.ofNat (n % 128 + flag)]

def writeVarInt (n : Nat) : Bytes := writeVarIntAux n n 0

/-- Modelled from the spec: `ReadVarInt` of `serialize.h` for an integer type whose
largest value is `max`; it throws, here `none`, rather than let the value overflow. -/
def readVarIntAux (max : Nat) : (n : Nat) → Bytes → Option (Nat × Bytes)
  | _, [] => none
  | n, ch :: rest =>
      if max / 128 < n then none
      else
        let n' := n * 128 + ch.toNat % 128
        if 128 ≤ ch.toNat then
          if n' = max then none else readVarIntAux max (n' + 1) rest
        else some (n', rest)

def readVarInt (max : Nat) (bs : Bytes) : Option (Nat × Bytes) := readVarIntAux max 0 bs

private theorem toNat_ofNat_digit {d flag : Nat} (hd : d < 128) (hflag : flag ≤ 128) :
    (UInt8.ofNat (d + flag)).toNat = d + flag :=
  UInt8.toNat_ofNat_of_lt (by change _ < 256; omega)

theorem readVarIntAux_flagged {max n d : Nat} (hn : n ≤ max / 128) (hd : d < 128)
    (hmax : n * 128 + d ≠ max) (rest : Bytes) :
    readVarIntAux max n (UInt8.ofNat (d + 128) :: rest) =
      readVarIntAux max (n * 128 + d + 1) rest := by
  simp only [readVarIntAux, toNat_ofNat_digit hd le_rfl, Nat.add_mod_right,
    Nat.mod_eq_of_lt hd]
  simp [hmax, show ¬max / 128 < n by omega]

theorem readVarIntAux_last {max n d : Nat} (hn : n ≤ max / 128) (hd : d < 128)
    (rest : Bytes) :
    readVarIntAux max n (UInt8.ofNat d :: rest) = some (n * 128 + d, rest) := by
  have hb := @toNat_ofNat_digit d 0 hd (Nat.zero_le _)
  simp only [Nat.add_zero] at hb
  simp [readVarIntAux, hb, Nat.mod_eq_of_lt hd, show ¬max / 128 < n by omega,
    show ¬128 ≤ d by omega]

theorem readVarIntAux_writeVarIntAux_flagged {max : Nat} :
    ∀ (fuel m : Nat), m ≤ fuel → m < max → ∀ rest,
      readVarIntAux max 0 (writeVarIntAux fuel m 0x80 ++ rest) =
        readVarIntAux max (m + 1) rest
  | 0, m, hfuel, hmax, rest => by
      obtain rfl : m = 0 := by omega
      simpa using readVarIntAux_flagged (Nat.zero_le (max / 128)) (by decide : 0 < 128)
        (by omega) rest
  | fuel + 1, m, hfuel, hmax, rest => by
      have hdiv : m / 128 ≤ max / 128 := Nat.div_le_div_right hmax.le
      by_cases hm : m ≤ 0x7F
      · simpa [writeVarIntAux, hm, Nat.mod_eq_of_lt (show m < 128 by omega)] using
          readVarIntAux_flagged (Nat.zero_le (max / 128)) (show m < 128 by omega)
            (by omega) rest
      · simp only [writeVarIntAux, hm, if_false, List.append_assoc, List.singleton_append]
        rw [readVarIntAux_writeVarIntAux_flagged fuel (m / 128 - 1) (by omega) (by omega),
          show m / 128 - 1 + 1 = m / 128 by omega,
          readVarIntAux_flagged hdiv (Nat.mod_lt _ (by decide)) (by omega),
          Nat.div_add_mod' m 128]

theorem readVarInt_writeVarInt {max n : Nat} (hn : n ≤ max) (rest : Bytes) :
    readVarInt max (writeVarInt n ++ rest) = some (n, rest) := by
  have hdiv : n / 128 ≤ max / 128 := Nat.div_le_div_right hn
  unfold readVarInt writeVarInt
  cases n with
  | zero => simpa using readVarIntAux_last (Nat.zero_le (max / 128)) (by decide : 0 < 128) rest
  | succ k =>
      by_cases hm : k + 1 ≤ 0x7F
      · simpa [writeVarIntAux, hm, Nat.mod_eq_of_lt (show k + 1 < 128 by omega)] using
          readVarIntAux_last (Nat.zero_le (max / 128)) (show k + 1 < 128 by omega) rest
      · simp only [writeVarIntAux, hm, if_false, Nat.add_zero, List.append_assoc,
          List.singleton_append]
        rw [readVarIntAux_writeVarIntAux_flagged k _ (by omega) (by omega),
          show (k + 1) / 128 - 1 + 1 = (k + 1) / 128 by omega,
          readVarIntAux_last hdiv (Nat.mod_lt _ (by decide)), Nat.div_add_mod' (k + 1) 128]

end TxDb
