import TxDb.Bytes
import Mathlib.Data.Nat.Digits

/-!
# The share URL of a news type

`GetShareURL` writes the days, `{`, the header bytes in hex, `}` and the title;
`SetURL` parses it back.  The string helpers are from the C++ library and
`utilstrencodings` (not in src/).  Every well-formed news type reads back from its URL
(`setURL_getShareURL`).
-/

namespace TxDb

def openBrace : Char := Char.ofNat 0x7b

def closeBrace : Char := Char.ofNat 0x7d

/-! ## The C++ string functions -/

namespace StdString

/-- `isspace` in the C locale, and `IsSpace` of `utilstrencodings`. -/
def isSpace (c : Char) : Bool := [' ', '\x0c', '\n', '\r', '\t', '\x0b'].contains c

def decimalDigits (n : Nat) : List Char :=
  if n = 0 then ['0'] else ((Nat.digits 10 n).map Nat.digitChar).reverse

/-- `std::to_string` of an `int`: a minus sign when negative, then the decimal digits
of the absolute value. -/
def toString (n : Int) : List Char :=
  if n < 0 then '-' :: decimalDigits n.natAbs else decimalDigits n.natAbs

def decimalValue (ds : List Char) : Nat :=
  ds.foldl (fun v c => 10 * v + (c.toNat - '0'.toNat)) 0

/-- The optional sign `strtol` reads: whether it is `-`, and what follows it. -/
def readSign : List Char → Bool × List Char
  | '-' :: s => (true, s)
  | '+' :: s => (false, s)
  | s => (false, s)

/-- `std::stoi` in base 10: `strtol` skips white space, reads an optional sign and the
longest run of decimal digits; `stoi` throws (`none`) when there is no digit or the
value leaves the `int` range. -/
def stoi (s : List Char) : Option Int :=
  let sign := readSign (s.dropWhile isSpace)
  let ds := sign.2.takeWhile Char.isDigit
  if ds.isEmpty then none
  else
    let n : Int := if sign.1 then -(decimalValue ds : Int) else decimalValue ds
    if -2 ^ 31 ≤ n ∧ n < 2 ^ 31 then some n else none

/-- `std::string::find` of one character: its first position, `none` for `npos`. -/
def find (c : Char) : List Char → Option Nat
  | [] => none
  | x :: s => if x = c then some 0 else (find c s).map (· + 1)

/-! ### What `to_string` writes, `stoi` reads -/

theorem digitChar_spec : ∀ d : Fin 10,
    (Nat.digitChar d).isDigit = true ∧ (Nat.digitChar d).toNat - '0'.toNat = d ∧
      isSpace (Nat.digitChar d) = false ∧ Nat.digitChar d ≠ '-' ∧ Nat.digitChar d ≠ '+' ∧
      Nat.digitChar d ≠ openBrace ∧ Nat.digitChar d ≠ closeBrace := by
  decide

theorem mem_decimalDigits {n : Nat} {c : Char} (hc : c ∈ decimalDigits n) :
    ∃ d : Fin 10, c = Nat.digitChar d := by
  unfold decimalDigits at hc
  split at hc
  · exact ⟨0, by simpa using hc⟩
  · obtain ⟨d, hd, rfl⟩ := List.mem_map.1 (List.mem_reverse.1 hc)
    exact ⟨⟨d, Nat.digits_lt_base (by norm_num) hd⟩, rfl⟩

theorem decimalDigits_ne_nil (n : Nat) : decimalDigits n ≠ [] := by
  unfold decimalDigits
  split
  · simp
  · simpa [Nat.digits_eq_nil_iff_eq_zero]

theorem decimalValue_reverse : ∀ L : List Nat, (∀ d ∈ L, d < 10) →
    decimalValue (L.map Nat.digitChar).reverse = Nat.ofDigits 10 L
  | [], _ => rfl
  | d :: L, hL => by
      have hd := (digitChar_spec ⟨d, hL d (List.mem_cons_self _ _)⟩).2.1
      have ih := decimalValue_reverse L fun d' hd' => hL d' (List.mem_cons_of_mem _ hd')
      simp only [decimalValue, List.foldl_reverse] at ih ⊢
      simp only [List.map_cons, List.foldr_cons, ih, Nat.ofDigits_cons]
      simp only at hd
      omega

theorem decimalValue_decimalDigits (n : Nat) : decimalValue (decimalDigits n) = n := by
  unfold decimalDigits
  split
  · subst n; rfl
  · rw [decimalValue_reverse _ fun d hd => Nat.digits_lt_base (by norm_num) hd,
      Nat.ofDigits_digits]

theorem readSign_of_ne {c : Char} (s : List Char) (hminus : c ≠ '-') (hplus : c ≠ '+') :
    readSign (c :: s) = (false, c :: s) := by
  unfold readSign
  split <;> simp_all

theorem stoi_of_readSign {s ds : List Char} {neg : Bool}
    (hsign : readSign (s.dropWhile isSpace) = (neg, ds)) (hdigits : ∀ c ∈ ds, c.isDigit = true)
    (hne : ds ≠ []) {n : Int} (hn : n = if neg then -(decimalValue ds : Int) else decimalValue ds)
    (hlo : -2 ^ 31 ≤ n) (hhi : n < 2 ^ 31) : stoi s = some n := by
  simp only [stoi, hsign, List.takeWhile_eq_self_iff.2 hdigits, List.isEmpty_eq_false.2 hne,
    Bool.false_eq_true, ↓reduceIte, ← hn, hlo, hhi, and_self]

theorem stoi_toString {n : Int} (hlo : -2 ^ 31 ≤ n) (hhi : n < 2 ^ 31) :
    stoi (StdString.toString n) = some n := by
  obtain ⟨c, cs, hcs⟩ := List.exists_cons_of_ne_nil (decimalDigits_ne_nil n.natAbs)
  obtain ⟨d, rfl⟩ := mem_decimalDigits (hcs ▸ List.mem_cons_self _ cs)
  obtain ⟨-, -, hspace, hminus, hplus, -⟩ := digitChar_spec d
  have hdigits : ∀ c ∈ decimalDigits n.natAbs, c.isDigit = true := fun c hc => by
    obtain ⟨d, rfl⟩ := mem_decimalDigits hc
    exact (digitChar_spec d).1
  unfold StdString.toString
  split
  · have hsign : readSign (('-' :: decimalDigits n.natAbs).dropWhile isSpace) =
        (true, decimalDigits n.natAbs) := rfl
    exact stoi_of_readSign hsign hdigits (decimalDigits_ne_nil _)
      (by rw [if_pos rfl, decimalValue_decimalDigits]; omega) hlo hhi
  · have hsign : readSign ((decimalDigits n.natAbs).dropWhile isSpace) =
        (false, decimalDigits n.natAbs) := by
      rw [hcs, List.dropWhile_cons_of_neg (by simpa using hspace), readSign_of_ne _ hminus hplus]
    exact stoi_of_readSign hsign hdigits (decimalDigits_ne_nil _)
      (by rw [if_neg Bool.false_ne_true, decimalValue_decimalDigits]; omega) hlo hhi

theorem stoi_range {s : List Char} {n : Int} (h : stoi s = some n) :
    -2 ^ 31 ≤ n ∧ n < 2 ^ 31 := by
  dsimp only [stoi] at h
  split_ifs at h <;> cases h <;> assumption

theorem toString_ne_nil (n : Int) : StdString.toString n ≠ [] := by
  unfold StdString.toString
  split
  · simp
  · exact decimalDigits_ne_nil _

theorem brace_not_mem_toString (n : Int) :
    openBrace ∉ StdString.toString n ∧ closeBrace ∉ StdString.toString n := by
  have hdigits : ∀ c ∈ decimalDigits n.natAbs, c ≠ openBrace ∧ c ≠ closeBrace := fun c hc => by
    obtain ⟨d, rfl⟩ := mem_decimalDigits hc
    obtain ⟨-, -, -, -, -, hopen, hclose⟩ := digitChar_spec d
    exact ⟨hopen, hclose⟩
  unfold StdString.toString
  split
  · simp only [List.mem_cons, not_or]
    exact ⟨⟨by decide, fun h => (hdigits _ h).1 rfl⟩, ⟨by decide, fun h => (hdigits _ h).2 rfl⟩⟩
  · exact ⟨fun h => (hdigits _ h).1 rfl, fun h => (hdigits _ h).2 rfl⟩

theorem find_append_of_not_mem {c : Char} : ∀ {A : List Char} (B : List Char), c ∉ A →
    find c (A ++ B) = (find c B).map (· + A.length)
  | [], B, _ => by simp
  | x :: A, B, h => by
      have hx : x ≠ c := fun hx => h (hx ▸ List.mem_cons_self _ _)
      rw [List.cons_append, find, if_neg hx,
        find_append_of_not_mem B fun hc => h (List.mem_cons_of_mem _ hc), Option.map_map]
      simp [Function.comp_def, Nat.add_assoc]

theorem find_cons_self (c : Char) (s : List Char) : find c (c :: s) = some 0 := by
  simp [find]

end StdString

/-! ## Hex strings of `utilstrencodings` -/

namespace StrEncodings

def hexmap : List Char :=
  ['0', '1', '2', '3', '4', '5', '6', '7', '8', '9', 'a', 'b', 'c', 'd', 'e', 'f']

/-- `HexStr` without spaces: two lower-case digits per byte, high half first. -/
def hexStr (bs : Bytes) : List Char :=
  bs.flatMap fun b => [hexmap.getD (b.toNat / 16) '0', hexmap.getD (b.toNat % 16) '0']

/-- `HexDigit`: the value of a hex digit of either case, `none` (`-1`) for any other
character. -/
def hexDigit (c : Char) : Option Nat :=
  if '0' ≤ c ∧ c ≤ '9' then some (c.toNat - '0'.toNat)
  else if 'a' ≤ c ∧ c ≤ 'f' then some (c.toNat - 'a'.toNat + 10)
  else if 'A' ≤ c ∧ c ≤ 'F' then some (c.toNat - 'A'.toNat + 10)
  else none

/-- `IsHexNumber`: after an optional `0x`, which needs a digit after it, at least one
character and only hex digits. -/
def isHexNumber (str : List Char) : Bool :=
  let startingLocation :=
    match str with
    | '0' :: 'x' :: _ :: _ => 2
    | _ => 0
  (str.drop startingLocation).all (fun c => (hexDigit c).isSome) &&
    decide (str.length > startingLocation)

/-- `ParseHex`: skip white space, then read two hex digits as a byte, and again; stop
at the first character that is not a hex digit. -/
def parseHex : List Char → Bytes
  | [] => []
  | c :: s =>
      if StdString.isSpace c then parseHex s
      else
        match hexDigit c with
        | none => []
        | some hi =>
            match s with
            | [] => []
            | c₂ :: rest =>
                match hexDigit c₂ with
                | none => []
                | some lo => UInt8.ofNat (hi * 16 + lo) :: parseHex rest

/-! ### What `HexStr` writes, `ParseHex` reads -/

theorem hexmap_spec : ∀ v : Fin 16,
    hexDigit (hexmap.getD v '0') = some v.val ∧ hexmap.getD v '0' ≠ openBrace ∧
      hexmap.getD v '0' ≠ closeBrace ∧ StdString.isSpace (hexmap.getD v '0') = false ∧
      hexmap.getD v '0' ≠ 'x' := by
  decide

theorem hexDigit_hexmap {v : Nat} (hv : v < 16) : hexDigit (hexmap.getD v '0') = some v :=
  (hexmap_spec ⟨v, hv⟩).1

theorem isSpace_hexmap {v : Nat} (hv : v < 16) : StdString.isSpace (hexmap.getD v '0') = false :=
  (hexmap_spec ⟨v, hv⟩).2.2.2.1

theorem hexStr_cons (b : UInt8) (bs : Bytes) :
    hexStr (b :: bs) = hexmap.getD (b.toNat / 16) '0' :: hexmap.getD (b.toNat % 16) '0' :: hexStr bs :=
  rfl

theorem length_hexStr : ∀ bs : Bytes, (hexStr bs).length = 2 * bs.length
  | [] => rfl
  | b :: bs => by rw [hexStr_cons, List.length_cons, List.length_cons, length_hexStr bs]; simp; omega

theorem mem_hexStr {c : Char} : ∀ {bs : Bytes}, c ∈ hexStr bs → ∃ v : Fin 16, c = hexmap.getD v '0'
  | [], h => by simp [hexStr] at h
  | b :: bs, h => by
      have hb : b.toNat < 256 := b.toNat_lt_size
      rw [hexStr_cons] at h
      rcases List.mem_cons.1 h with rfl | h
      · exact ⟨⟨b.toNat / 16, by omega⟩, rfl⟩
      rcases List.mem_cons.1 h with rfl | h
      · exact ⟨⟨b.toNat % 16, by omega⟩, rfl⟩
      exact mem_hexStr h

theorem parseHex_pair {c₁ c₂ : Char} {hi lo : Nat} (s : List Char)
    (hspace : StdString.isSpace c₁ = false) (h₁ : hexDigit c₁ = some hi)
    (h₂ : hexDigit c₂ = some lo) :
    parseHex (c₁ :: c₂ :: s) = UInt8.ofNat (hi * 16 + lo) :: parseHex s := by
  simp only [parseHex, hspace, h₁, h₂, Bool.false_eq_true, if_false]

theorem parseHex_hexStr : ∀ bs : Bytes, parseHex (hexStr bs) = bs
  | [] => rfl
  | b :: bs => by
      have hb : b.toNat < 256 := b.toNat_lt_size
      rw [hexStr_cons, parseHex_pair _ (isSpace_hexmap (by omega)) (hexDigit_hexmap (by omega))
        (hexDigit_hexmap (by omega)), parseHex_hexStr bs,
        show b.toNat / 16 * 16 + b.toNat % 16 = b.toNat by omega]
      exact congrArg (· :: bs) (UInt8.toNat.inj (UInt8.toNat_ofNat_of_lt hb))

theorem isHexNumber_hexStr {bs : Bytes} (hbs : bs ≠ []) : isHexNumber (hexStr bs) = true := by
  obtain ⟨b, bs, rfl⟩ := List.exists_cons_of_ne_nil hbs
  have hall : ∀ c ∈ hexStr (b :: bs), (hexDigit c).isSome := fun c hc => by
    obtain ⟨v, rfl⟩ := mem_hexStr hc
    rw [(hexmap_spec v).1]
    rfl
  have hb : b.toNat < 256 := b.toNat_lt_size
  have hx := (hexmap_spec ⟨b.toNat % 16, by omega⟩).2.2.2.2
  rw [hexStr_cons] at hall ⊢
  generalize hexmap.getD (b.toNat / 16) '0' = hi at hall ⊢
  generalize hexmap.getD (b.toNat % 16) '0' = lo at hall hx ⊢
  unfold isHexNumber
  split
  · simp_all
  · simpa using hall

theorem brace_not_mem_hexStr (bs : Bytes) : closeBrace ∉ hexStr bs := fun h => by
  obtain ⟨v, hv⟩ := mem_hexStr h
  exact (hexmap_spec v).2.2.1 hv.symm

end StrEncodings

open StdString StrEncodings

/-! ## The news type -/

/-- Modelled from the spec: `NewsType`, an announcement type: for how many days its
news are shown, the script bytes that mark its outputs, and its title. -/
structure NewsType where
  nDays : Int
  header : Bytes
  title : List Char
  deriving DecidableEq

/-- `NewsType::GetShareURL`. -/
def NewsType.getShareURL (t : NewsType) : List Char :=
  StdString.toString t.nDays ++ [openBrace] ++ hexStr t.header ++ [closeBrace] ++ t.title

/-- `NewsType::SetURL` on the news type `t`: whether it accepts `strURL`, and `t` with
the fields it set.  The fields are set one after the other, so a URL rejected late
still changes the fields read before.  No `substr` can throw: both braces were found
inside the string. -/
def NewsType.setURL (t : NewsType) (strURL : List Char) : Bool × NewsType :=
  if strURL.length < 12 then (false, t)
  else
    match find openBrace strURL, find closeBrace strURL with
    | some nFirst, some nSecond =>
        if nFirst = 0 ∨ nFirst ≥ strURL.length then (false, t)
        else if nSecond ≥ strURL.length then (false, t)
        else if nFirst = nSecond then (false, t)
        else
          match stoi (strURL.take nFirst) with
          | none => (false, t)
          | some nDays =>
              let t := { t with nDays := nDays }
              if nDays = 0 then (false, t)
              else
                let strBytes := (strURL.drop (nFirst + 1)).take 8
                if !isHexNumber strBytes then (false, t)
                else
                  let t := { t with header := parseHex strBytes }
                  if t.header.length ≠ 4 then (false, t)
                  else
                    let t := { t with title := strURL.drop (nSecond + 1) }
                    if t.title.isEmpty then (false, t) else (true, t)
    | _, _ => (false, t)

/-- The news types `SetURL` can accept: an `int` number of days other than zero, a
4-byte header and a title. -/
structure NewsType.WellFormed (t : NewsType) : Prop where
  nDays_range : -2 ^ 31 ≤ t.nDays ∧ t.nDays < 2 ^ 31
  nDays_ne_zero : t.nDays ≠ 0
  header_length : t.header.length = 4
  title_ne_nil : t.title ≠ []

/-! ## The round trip -/

theorem closeBrace_ne_openBrace : closeBrace ≠ openBrace := by decide

/-- `SetURL` reads a well-formed news type back from its share URL, whatever the object
held before. -/
theorem setURL_getShareURL (s t : NewsType) (hwf : t.WellFormed) :
    s.setURL t.getShareURL = (true, t) := by
  obtain ⟨⟨hlo, hhi⟩, hne, hheader, htitle⟩ := hwf
  obtain ⟨hAob, hAcb⟩ := brace_not_mem_toString t.nDays
  have hHlen : (hexStr t.header).length = 8 := by rw [length_hexStr, hheader]
  have hurl : t.getShareURL =
      StdString.toString t.nDays ++ openBrace :: (hexStr t.header ++ closeBrace :: t.title) := by
    simp [NewsType.getShareURL]
  have hurl' : t.getShareURL =
      (StdString.toString t.nDays ++ openBrace :: hexStr t.header) ++ closeBrace :: t.title := by
    simp [NewsType.getShareURL]
  have hfirst : find openBrace t.getShareURL = some (StdString.toString t.nDays).length := by
    rw [hurl, find_append_of_not_mem _ hAob, find_cons_self]
    simp
  have hsecond : find closeBrace t.getShareURL =
      some ((StdString.toString t.nDays).length + 1 + 8) := by
    rw [hurl', find_append_of_not_mem _ ?_, find_cons_self]
    · simp [hHlen]
    · simp [hAcb, closeBrace_ne_openBrace, brace_not_mem_hexStr]
  have hlen : t.getShareURL.length =
      (StdString.toString t.nDays).length + 1 + 8 + 1 + t.title.length := by
    simp [hurl, hHlen]
    omega
  have hApos : 0 < (StdString.toString t.nDays).length :=
    List.length_pos.2 (toString_ne_nil t.nDays)
  have htpos : 0 < t.title.length := List.length_pos.2 htitle
  have htake : t.getShareURL.take (StdString.toString t.nDays).length =
      StdString.toString t.nDays := by
    rw [hurl, List.take_left]
  have hbytes : (t.getShareURL.drop ((StdString.toString t.nDays).length + 1)).take 8 =
      hexStr t.header := by
    rw [hurl, List.drop_append_eq_append_drop, List.drop_eq_nil_of_le (by omega)]
    simp [hHlen]
  have hrest : t.getShareURL.drop ((StdString.toString t.nDays).length + 1 + 8 + 1) = t.title := by
    rw [hurl', List.drop_append_eq_append_drop, List.drop_eq_nil_of_le (by simp [hHlen])]
    simp [hHlen]
  have hheader' : t.header ≠ [] := List.ne_nil_of_length_eq_add_one hheader
  unfold NewsType.setURL
  rw [if_neg (by omega), hfirst, hsecond]
  dsimp only
  rw [if_neg (by omega), if_neg (by omega), if_neg (by omega), htake, stoi_toString hlo hhi]
  dsimp only
  rw [if_neg hne, hbytes, isHexNumber_hexStr hheader', parseHex_hexStr, hrest]
  simp [hheader, htitle]

theorem accepted_of_check {c : Prop} [Decidable c] {t : NewsType} {r : Bool × NewsType}
    {P : NewsType → Prop} (h : ¬c → r.1 = true → P r.2) :
    (if c then (false, t) else r).1 = true → P (if c then (false, t) else r).2 := by
  split
  · intro h'; cases h'
  · exact h ‹_›

theorem setURL_wellFormed {s : NewsType} {strURL : List Char} (h : (s.setURL strURL).1 = true) :
    (s.setURL strURL).2.WellFormed := by
  revert h
  simp only [NewsType.setURL]
  refine accepted_of_check fun _ => ?_
  rcases find openBrace strURL with _ | nFirst
  · intro h; cases h
  rcases find closeBrace strURL with _ | nSecond
  · intro h; cases h
  refine accepted_of_check fun _ => accepted_of_check fun _ => accepted_of_check fun _ => ?_
  rcases hstoi : stoi (strURL.take nFirst) with _ | nDays
  · intro h; cases h
  exact accepted_of_check fun hne => accepted_of_check fun _ => accepted_of_check fun hlen =>
    accepted_of_check fun htitle _ => ⟨stoi_range hstoi, hne, not_not.1 hlen, by simpa using htitle⟩

def bracedNews : NewsType := ⟨-7, [0x0a, 0x7b, 0x7d, 0xff], [closeBrace, 'x', openBrace]⟩

theorem setURL_getShareURL_bracedNews :
    bracedNews.WellFormed ∧
      NewsType.setURL ⟨0, [], []⟩ bracedNews.getShareURL = (true, bracedNews) :=
  have hwf : bracedNews.WellFormed := ⟨by norm_num [bracedNews], by decide, rfl, by decide⟩
  ⟨hwf, setURL_getShareURL _ _ hwf⟩

end TxDb
