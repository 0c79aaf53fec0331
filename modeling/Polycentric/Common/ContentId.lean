import Polycentric.Common.Primitives

/-! The text form of a content digest, `content_digest.rs`: its type, an underscore and
its value in hexadecimal. The id of a digest names its blob, so that every digest can be
read back from its id. Reading is more lenient than writing. -/
namespace Polycentric

open Proto

/-- The value of a hexadecimal digit, of either case. -/
def hexValue (c : Char) : Option Nat :=
  if '0'.toNat ≤ c.toNat ∧ c.toNat ≤ '9'.toNat then some (c.toNat - '0'.toNat)
  else if 'a'.toNat ≤ c.toNat ∧ c.toNat ≤ 'f'.toNat then some (c.toNat - 'a'.toNat + 10)
  else if 'A'.toNat ≤ c.toNat ∧ c.toNat ≤ 'F'.toNat then some (c.toNat - 'A'.toNat + 10)
  else none

def hexDecodeChars : List Char → Option Bytes
  | [] => some []
  | [_] => none
  | high :: low :: rest => do
      let high ← hexValue high
      let low ← hexValue low
      let bytes ← hexDecodeChars rest
      return UInt8.ofNat (16 * high + low) :: bytes

/-- `hex::decode`. -/
def hexDecode (text : String) : Option Bytes := hexDecodeChars text.toList

/-- The digits of a number that is not empty. -/
def parseDigits (digits : List Char) : Option Nat :=
  if digits ≠ [] ∧ digits.all Char.isDigit then some (Nat.ofDigitChars 10 digits 0) else none

/-- `str::parse::<i32>`: a sign may stand before the digits, and the value must fit. -/
def parseI32 : List Char → Option Int32
  | '-' :: digits => (parseDigits digits).bind fun n =>
      if n ≤ 2 ^ 31 then some (Int32.ofInt (-n)) else none
  | '+' :: digits => (parseDigits digits).bind fun n => if n < 2 ^ 31 then some (Int32.ofNat n) else none
  | digits => (parseDigits digits).bind fun n => if n < 2 ^ 31 then some (Int32.ofNat n) else none

/-- `split_once`: the text before the first separator, and the text after it. -/
def splitOnce (separator : Char) (text : List Char) : Option (List Char × List Char) :=
  match text.dropWhile fun c => c ≠ separator with
  | [] => none
  | _ :: after => some (text.takeWhile fun c => c ≠ separator, after)

/-- Encode this content digest as a single string. -/
def Proto.ContentDigest.toId (digest : ContentDigest) : String :=
  s!"{digest.type.toInt}_{hexEncode digest.value}"

/-- Decode a content digest from a content digest id string. -/
def Proto.ContentDigest.fromId (id : String) : Option ContentDigest := do
  let (typeText, hexText) ← splitOnce '_' id.toList
  let type ← parseI32 typeText
  let value ← hexDecodeChars hexText
  return ⟨type, value⟩

theorem hexValue_digitChar {n : Nat} (h : n < 16) : hexValue (Nat.digitChar n) = some n := by
  interval_cases n <;> rfl

theorem hexDecodeChars_flatMap (bytes : Bytes) :
    hexDecodeChars (bytes.flatMap fun b =>
      [Nat.digitChar (b.toNat / 16), Nat.digitChar (b.toNat % 16)]) = some bytes := by
  induction bytes with
  | nil => rfl
  | cons b bytes ih =>
      have hHigh : b.toNat / 16 < 16 := by have := b.toNat_lt; omega
      have hLow : b.toNat % 16 < 16 := Nat.mod_lt _ (by decide)
      have hByte : UInt8.ofNat (16 * (b.toNat / 16) + b.toNat % 16) = b := by
        rw [Nat.div_add_mod]
        exact UInt8.ofNat_toNat
      simp only [List.flatMap_cons, List.cons_append, List.nil_append, hexDecodeChars,
        hexValue_digitChar hHigh, hexValue_digitChar hLow, ih, Option.bind_eq_bind, Option.bind_some, hByte]
      rfl

theorem hexDecode_hexEncode (bytes : Bytes) : hexDecode (hexEncode bytes) = some bytes := by
  rw [hexDecode, hexEncode, String.toList_ofList]
  exact hexDecodeChars_flatMap bytes

/-- Only the characters up to `f` need to be looked at. -/
theorem hexValue_digits : ∀ code < 103, (hexValue (Char.ofNat code)).all (fun n =>
    n < 16 ∧ Nat.digitChar n = (Char.ofNat code).toLower) = true := by decide

theorem digitChar_of_hexValue {c : Char} {n : Nat} (h : hexValue c = some n) :
    n < 16 ∧ Nat.digitChar n = c.toLower := by
  have hRange : c.toNat < 103 := by
    simp only [hexValue, Char.reduceToNat] at h
    split at h
    · omega
    · split at h
      · omega
      · split at h
        · omega
        · cases h
  have hDigit := hexValue_digits c.toNat hRange
  rw [Char.ofNat_toNat, h] at hDigit
  simpa using hDigit

/-- What decodes is the encoding of its value, up to the case of its digits. -/
theorem flatMap_of_hexDecodeChars {text : List Char} {bytes : Bytes}
    (h : hexDecodeChars text = some bytes) :
    (bytes.flatMap fun b => [Nat.digitChar (b.toNat / 16), Nat.digitChar (b.toNat % 16)]) =
      text.map Char.toLower := by
  induction text using hexDecodeChars.induct generalizing bytes with
  | case1 =>
      obtain rfl := Option.some.inj h
      rfl
  | case2 c => cases h
  | case3 high low rest ih =>
      simp only [hexDecodeChars, Option.bind_eq_bind, Option.bind_eq_some_iff] at h
      obtain ⟨hi, hHigh, lo, hLow, tail, hTail, hBytes⟩ := h
      obtain rfl := Option.some.inj hBytes
      obtain ⟨hHiLt, hHiChar⟩ := digitChar_of_hexValue hHigh
      obtain ⟨hLoLt, hLoChar⟩ := digitChar_of_hexValue hLow
      have hByte : (UInt8.ofNat (16 * hi + lo)).toNat = 16 * hi + lo :=
        UInt8.toNat_ofNat_of_lt' (by unfold UInt8.size; omega)
      have hDiv : (16 * hi + lo) / 16 = hi := by omega
      have hMod : (16 * hi + lo) % 16 = lo := by omega
      simp only [List.flatMap_cons, hByte, hDiv, hMod, hHiChar, hLoChar, ih hTail, List.map_cons,
        List.cons_append, List.nil_append]

theorem parseDigits_toDigits (n : Nat) : parseDigits (Nat.toDigits 10 n) = some n := by
  have hDigits : (Nat.toDigits 10 n).all Char.isDigit = true :=
    List.all_eq_true.mpr fun c hMem => Nat.isDigit_of_mem_toDigits (by decide) (by decide) hMem
  simp [parseDigits, Nat.toDigits_ne_nil, hDigits, Nat.ofDigitChars_ten_toDigits]

/-- A number that does not begin with a sign is read as its digits. -/
theorem parseI32_digits {digits : List Char} (h : ∀ c ∈ digits, c.isDigit = true) :
    parseI32 digits =
      (parseDigits digits).bind fun n => if n < 2 ^ 31 then some (Int32.ofNat n) else none := by
  cases digits with
  | nil => rfl
  | cons c rest =>
      have hDigit := h c List.mem_cons_self
      unfold parseI32
      split
      · next hEq => simp [(List.cons.inj hEq).1, Char.isDigit] at hDigit
      · next hEq => simp [(List.cons.inj hEq).1, Char.isDigit] at hDigit
      · rfl

theorem toList_repr_ofNat (n : Nat) : (Int.repr (Int.ofNat n)).toList = Nat.toDigits 10 n := by
  rw [Int.repr, Nat.toList_repr]

/-- The decimal text of a type is read back. -/
theorem parseI32_repr (type : Int32) : parseI32 (Int.repr type.toInt).toList = some type := by
  have hLow : -2 ^ 31 ≤ type.toInt := Int32.le_toInt type
  have hHigh : type.toInt < 2 ^ 31 := Int32.toInt_lt type
  cases hInt : type.toInt with
  | ofNat n =>
      have hType : Int32.ofNat n = type := by
        rw [← Int32.ofInt_toInt type, hInt]
        rfl
      have hLt : n < 2 ^ 31 := by
        rw [hInt] at hHigh
        exact Int.ofNat_lt.mp hHigh
      rw [toList_repr_ofNat, parseI32_digits fun c hMem =>
        Nat.isDigit_of_mem_toDigits (by decide) (by decide) hMem, parseDigits_toDigits, Option.bind_some,
        if_pos hLt, hType]
  | negSucc n =>
      have hType : Int32.ofInt (-(n + 1 : Nat)) = type := by
        rw [← Int32.ofInt_toInt type, hInt]
        rfl
      have hLe : n + 1 ≤ 2 ^ 31 := by omega
      have hText : (Int.repr (Int.negSucc n)).toList = '-' :: Nat.toDigits 10 (n + 1) := by
        simp [Int.repr, Nat.toList_repr]
      rw [hText, parseI32, parseDigits_toDigits, Option.bind_some, if_pos hLe, hType]

theorem splitOnce_append {separator : Char} {before : List Char} (h : separator ∉ before)
    (after : List Char) : splitOnce separator (before ++ separator :: after) = some (before, after) := by
  have hBefore : ∀ c ∈ before, decide (c ≠ separator) = true := by
    intro c hMem
    exact decide_eq_true fun hEq => h (hEq ▸ hMem)
  rw [splitOnce, List.dropWhile_append_of_pos hBefore, List.takeWhile_append_of_pos hBefore]
  simp

theorem append_of_splitOnce {separator : Char} {text before after : List Char}
    (h : splitOnce separator text = some (before, after)) : text = before ++ separator :: after := by
  unfold splitOnce at h
  split at h
  · cases h
  · next c rest hDrop =>
      obtain ⟨rfl, rfl⟩ := Prod.mk.inj (Option.some.inj h)
      have hSeparator : c = separator := by
        have hHead := List.head?_dropWhile_not (fun c => decide (c ≠ separator)) text
        rw [hDrop] at hHead
        simpa using hHead
      subst hSeparator
      rw [← hDrop]
      exact List.takeWhile_append_dropWhile.symm

theorem underscore_not_mem_repr (n : Int) : '_' ∉ (Int.repr n).toList := by
  cases n with
  | ofNat n =>
      rw [toList_repr_ofNat]
      exact Nat.underscore_not_in_toDigits
  | negSucc n =>
      simp [Int.repr, Nat.toList_repr, Nat.underscore_not_in_toDigits]

/-- Every digest is read back from its id, and what reads as a digest is its id up to the
spelling of the type and the case of the hexadecimal digits. -/
theorem digest_id_round_trip :
    (∀ digest : ContentDigest, ContentDigest.fromId digest.toId = some digest) ∧
      ∀ id digest, ContentDigest.fromId id = some digest →
        ∃ typeText, parseI32 typeText = some digest.type ∧
          id.toList.map Char.toLower = typeText.map Char.toLower ++ '_' :: (hexEncode digest.value).toList := by
  refine ⟨?_, ?_⟩
  · intro digest
    have hText : digest.toId.toList =
        (Int.repr digest.type.toInt).toList ++ '_' :: (hexEncode digest.value).toList := by
      simp [ContentDigest.toId, toString]
    rw [ContentDigest.fromId, hText, splitOnce_append (underscore_not_mem_repr _)]
    have hValue : hexDecodeChars (hexEncode digest.value).toList = some digest.value :=
      hexDecode_hexEncode digest.value
    simp [parseI32_repr, hValue]
  · intro id digest h
    simp only [ContentDigest.fromId, Option.bind_eq_bind, Option.bind_eq_some_iff] at h
    obtain ⟨⟨typeText, hexText⟩, hSplit, type, hType, value, hValue, hDigest⟩ := h
    obtain rfl := Option.some.inj hDigest
    refine ⟨typeText, hType, ?_⟩
    rw [append_of_splitOnce hSplit, List.map_append, List.map_cons, ← flatMap_of_hexDecodeChars hValue,
      hexEncode, String.toList_ofList]
    rfl

end Polycentric
