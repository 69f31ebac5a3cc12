import Mathlib.Data.List.Basic
import RubyTree.Json.Draft
import RubyTree.Json.Text

/-! The compact text of a value is read back. Floats are left out: their text depends on the
shortest digits. Every character of a string comes through, escaped or not, and every integer of
sixty-four bits. -/

namespace RubyTree

namespace Json

/-! The bytes of a text. -/

theorem toList_loop_eq (bytes : ByteArray) (i : Nat) (front : List UInt8) :
    ByteArray.toList.loop bytes i front = front.reverse ++ bytes.data.toList.drop i := by
  induction hsize : bytes.size - i generalizing i front with
  | zero =>
    have hle : bytes.data.toList.length ≤ i := by
      rw [Array.length_toList]
      exact Nat.sub_eq_zero_iff_le.mp hsize
    rw [ByteArray.toList.loop, if_neg (by omega), List.drop_eq_nil_of_le hle, List.append_nil]
  | succ k ih =>
    have hlt : i < bytes.size := by omega
    have hget : bytes.get! i = bytes.data.toList[i] := getElem!_pos bytes.data i hlt
    rw [ByteArray.toList.loop, if_pos hlt, ih (i + 1) _ (by omega), List.drop_eq_getElem_cons hlt,
      List.reverse_cons, List.append_assoc, hget]
    rfl

def encode (chars : List Char) : List UInt8 := chars.flatMap String.utf8EncodeChar

theorem encode_append (front back : List Char) :
    encode (front ++ back) = encode front ++ encode back :=
  List.flatMap_append

theorem toByteArray_eq (s : String) : s.toByteArray = s.toList.utf8Encode := by
  rw [← String.toByteArray_ofList, String.ofList_toList]

theorem bytes_eq_encode (s : String) : s.toUTF8.toList = encode s.toList := by
  rw [ByteArray.toList, toList_loop_eq, String.toUTF8, toByteArray_eq, List.utf8Encode,
    List.toList_data_toByteArray]
  rfl

/-! Strings. -/

namespace Draft

/-- A byte that stands for itself between quotes. -/
def isPlain (b : UInt8) : Bool := decide (0x20 ≤ b) && b != 0x22 && b != 0x5c

theorem pieces?_plain {bytes rest tail : List UInt8} {ps : List Piece}
    (h : ∀ b ∈ bytes, isPlain b = true) (htail : pieces? tail = some (ps, rest)) :
    pieces? (bytes ++ tail) = some (bytes.map .byte ++ ps, rest) := by
  induction bytes with
  | nil => exact htail
  | cons b bytes ih =>
    rw [List.forall_mem_cons] at h
    have hb := h.1
    simp only [isPlain, Bool.and_eq_true, decide_eq_true_eq, bne_iff_ne] at hb
    rw [List.cons_append, pieces?, if_neg (by simpa using hb.1.1), ih h.2]
    · rfl
    · simp_all
    · simp_all
    · simp_all

theorem isPlain_ofNat {n : Nat} (hlow : 0x20 ≤ n) (hhigh : n < 0x100) (hquote : n ≠ 0x22)
    (hslash : n ≠ 0x5c) : isPlain (UInt8.ofNat n) = true := by
  have hn : (UInt8.ofNat n).toNat = n := UInt8.toNat_ofNat_of_lt hhigh
  simp only [isPlain, Bool.and_eq_true, decide_eq_true_eq, bne_iff_ne, UInt8.le_iff_toNat_le, hn,
    ne_eq, ← UInt8.toNat_inj]
  exact ⟨⟨hlow, hquote⟩, hslash⟩

theorem isPlain_of_mem_utf8EncodeChar {c : Char} {b : UInt8} (hlow : 0x20 ≤ c.toNat)
    (hquote : c ≠ '"') (hslash : c ≠ '\\') (hb : b ∈ String.utf8EncodeChar c) :
    isPlain b = true := by
  have hquote : c.val.toNat ≠ 0x22 := fun h => hquote (Char.toNat_inj.mp h)
  have hslash : c.val.toNat ≠ 0x5c := fun h => hslash (Char.toNat_inj.mp h)
  have hlow : 0x20 ≤ c.val.toNat := hlow
  unfold String.utf8EncodeChar at hb
  dsimp only at hb
  split_ifs at hb
  all_goals
    simp only [List.mem_cons, List.not_mem_nil, or_false] at hb
    first
    | obtain rfl := hb
    | obtain rfl | rfl := hb
    | obtain rfl | rfl | rfl := hb
    | obtain rfl | rfl | rfl | rfl := hb
  all_goals exact isPlain_ofNat (by omega) (by omega) (by omega) (by omega)

/-- The pieces stand for these bytes, whatever pieces follow. -/
def Stand (front : List Piece) (bytes : List UInt8) : Prop :=
  ∀ ps bs, bytes? ps = some bs → bytes? (front ++ ps) = some (bytes ++ bs)

theorem stand_bytes (bytes : List UInt8) : Stand (bytes.map .byte) bytes := by
  intro ps bs h
  induction bytes with
  | nil => exact h
  | cons b bytes ih => simp [bytes?, ih]

theorem stand_unit {c : Char} (h : c.toNat < 0x20) :
    Stand [.unit c.toNat] (String.utf8EncodeChar c) := by
  intro ps bs hps
  have hlow : isLowSurrogate c.toNat = false := decide_eq_false (by omega)
  have hhigh : isHighSurrogate c.toNat = false := decide_eq_false (by omega)
  rw [List.singleton_append, bytes?.eq_def]
  simp [hlow, hhigh, hps, Char.ofNat_toNat]

def hexByte (n : Nat) : UInt8 := UInt8.ofNat (hexDigit n).toNat

theorem utf8EncodeChar_hexDigit : ∀ n < 0x10, String.utf8EncodeChar (hexDigit n) = [hexByte n] := by
  decide

theorem unit?_hexByte :
    ∀ n < 0x20, unit? 0x30 0x30 (hexByte (n / 16)) (hexByte (n % 16)) = some n := by
  decide

/-- What is written between quotes stands for these bytes, whatever is written behind it. -/
def Spells (written bytes : List UInt8) : Prop :=
  ∃ front, Stand front bytes ∧ ∀ tail ps rest, pieces? tail = some (ps, rest) →
    pieces? (written ++ tail) = some (front ++ ps, rest)

theorem spells_plain {bytes : List UInt8} (h : ∀ b ∈ bytes, isPlain b = true) :
    Spells bytes bytes :=
  ⟨_, stand_bytes bytes, fun _ _ _ htail => pieces?_plain h htail⟩

theorem spells_short {b code : UInt8} (hb : b ≠ 0x75) (hcode : shortEscape? b = some code) :
    Spells [0x5c, b] [code] := by
  refine ⟨_, stand_bytes [code], fun tail ps rest h => ?_⟩
  rw [List.cons_append, List.singleton_append, pieces?, hcode, h]
  · rfl
  · exact fun _ _ _ _ _ heq => absurd heq hb

theorem spells_unit {c : Char} (h : c.toNat < 0x20) :
    Spells (encode ['\\', 'u', '0', '0', hexDigit (c.toNat / 16), hexDigit (c.toNat % 16)])
      (String.utf8EncodeChar c) := by
  refine ⟨_, stand_unit h, fun tail ps rest htail => ?_⟩
  have hhigh := utf8EncodeChar_hexDigit (c.toNat / 16) (by omega)
  have hlow := utf8EncodeChar_hexDigit (c.toNat % 16) (by omega)
  have hencode : encode ['\\', 'u', '0', '0', hexDigit (c.toNat / 16), hexDigit (c.toNat % 16)] =
      [0x5c, 0x75, 0x30, 0x30, hexByte (c.toNat / 16), hexByte (c.toNat % 16)] := by
    simp only [encode, List.flatMap_cons, hhigh, hlow]
    rfl
  rw [hencode]
  simp only [List.cons_append, List.nil_append]
  rw [pieces?, unit?_hexByte _ h, htail]
  rfl

theorem spells_escapeChar (c : Char) :
    Spells (encode (escapeChar c)) (String.utf8EncodeChar c) := by
  -- one case for each branch of `escapeChar`
  by_cases h₁ : c = '"'
  · subst h₁
    exact spells_short (b := 0x22) (by decide) (by decide)
  by_cases h₂ : c = '\\'
  · subst h₂
    exact spells_short (b := 0x5c) (by decide) (by decide)
  by_cases h₃ : c = '\n'
  · subst h₃
    exact spells_short (b := 0x6e) (by decide) (by decide)
  by_cases h₄ : c = '\r'
  · subst h₄
    exact spells_short (b := 0x72) (by decide) (by decide)
  by_cases h₅ : c = '\t'
  · subst h₅
    exact spells_short (b := 0x74) (by decide) (by decide)
  by_cases h₆ : c.toNat = 0x08
  · obtain rfl : c = Char.ofNat 0x08 := by rw [← h₆, Char.ofNat_toNat]
    exact spells_short (b := 0x62) (by decide) (by decide)
  by_cases h₇ : c.toNat = 0x0c
  · obtain rfl : c = Char.ofNat 0x0c := by rw [← h₇, Char.ofNat_toNat]
    exact spells_short (b := 0x66) (by decide) (by decide)
  rw [escapeChar, if_neg h₁, if_neg h₂, if_neg h₃, if_neg h₄, if_neg h₅, if_neg h₆, if_neg h₇]
  split
  · next h₈ => exact spells_unit h₈
  · next h₈ =>
    have hplain : ∀ b ∈ String.utf8EncodeChar c, isPlain b = true := fun b hb =>
      isPlain_of_mem_utf8EncodeChar (by omega) h₁ h₂ hb
    have hencode : encode [c] = String.utf8EncodeChar c := List.append_nil _
    rw [hencode]
    exact spells_plain hplain

theorem pieces?_escaped (chars : List Char) (rest : List UInt8) : ∃ ps,
    pieces? (encode (chars.flatMap escapeChar) ++ 0x22 :: rest) = some (ps, rest) ∧
      bytes? ps = some (encode chars) := by
  induction chars with
  | nil => exact ⟨[], by rw [List.flatMap_nil]; exact pieces?.eq_1 rest, rfl⟩
  | cons c chars ih =>
    obtain ⟨ps, hps, hbytes⟩ := ih
    obtain ⟨front, hstand, hfront⟩ := spells_escapeChar c
    refine ⟨front ++ ps, ?_, hstand ps _ hbytes⟩
    rw [List.flatMap_cons, encode_append, List.append_assoc]
    exact hfront _ _ _ hps

theorem text?_of_bytes? {s : String} {ps : List Piece} (h : bytes? ps = some (encode s.toList)) :
    text? ps = some s := by
  have hbytes : ByteArray.mk (encode s.toList).toArray = s.toByteArray := by
    rw [toByteArray_eq, List.utf8Encode, encode]
    exact ByteArray.ext (Array.toList_inj.mp List.toList_data_toByteArray.symm)
  rw [text?, h]
  change String.fromUTF8? (ByteArray.mk (encode s.toList).toArray) = some s
  rw [hbytes, String.fromUTF8?, dif_pos s.isValidUTF8]
  rfl

def escaped (s : String) : List UInt8 := encode (s.toList.flatMap escapeChar)

theorem encode_quote_append (s : String) (rest : List UInt8) :
    encode (quote s).toList ++ rest = 0x22 :: (escaped s ++ 0x22 :: rest) := by
  have hchars : (String.ofList (s.toList.flatMap escapeChar)).toList =
      s.toList.flatMap escapeChar := String.toList_ofList
  rw [quote, String.toList_append, String.toList_append, encode_append, encode_append,
    List.append_assoc, List.append_assoc, hchars]
  rfl

theorem pieces?_escaped_append (s : String) (rest : List UInt8) :
    ∃ ps, pieces? (escaped s ++ 0x22 :: rest) = some (ps, rest) ∧ text? ps = some s := by
  obtain ⟨ps, hps, hbytes⟩ := pieces?_escaped s.toList rest
  exact ⟨ps, hps, text?_of_bytes? hbytes⟩

end Draft

/-! Integers. -/

/-- The text behind a value does not go on with a number. -/
def Stops : List UInt8 → Bool
  | [] => true
  | b :: _ => !(Draft.isDigit b || b == 0x2e || b == 0x65 || b == 0x45)

namespace Draft

theorem encode_ascii {chars : List Char} (h : ∀ c ∈ chars, c.toNat < 0x80) :
    encode chars = chars.map fun c => UInt8.ofNat c.toNat := by
  induction chars with
  | nil => rfl
  | cons c chars ih =>
    rw [List.forall_mem_cons] at h
    have hc : String.utf8EncodeChar c = [UInt8.ofNat c.toNat] := if_pos (Nat.le_of_lt_succ h.1)
    rw [encode, List.flatMap_cons, hc, ← encode, ih h.2]
    rfl

/-- The digits of a number, as they are written and as they are read. -/
def digitBytes (n : Nat) : List UInt8 := (Nat.toDigits 10 n).map fun c => UInt8.ofNat c.toNat

def digitsOf (n : Nat) : List Nat := (Nat.toDigits 10 n).map fun c => c.toNat - 0x30

theorem bounds_of_mem_toDigits {n : Nat} {c : Char} (h : c ∈ Nat.toDigits 10 n) :
    0x30 ≤ c.toNat ∧ c.toNat ≤ 0x39 := by
  have hdigit := Nat.isDigit_of_mem_toDigits (by decide) (by decide) h
  simpa [Char.isDigit, UInt32.le_iff_toNat_le] using hdigit

theorem toNat_digit {n : Nat} {c : Char} (h : c ∈ Nat.toDigits 10 n) :
    (UInt8.ofNat c.toNat).toNat = c.toNat :=
  UInt8.toNat_ofNat_of_lt (Nat.lt_of_le_of_lt (bounds_of_mem_toDigits h).2 (by decide))

theorem encode_repr (n : Nat) : encode (Nat.repr n).toList = digitBytes n := by
  rw [Nat.repr_eq_ofList_toDigits, String.toList_ofList]
  refine encode_ascii fun c hc => ?_
  have := bounds_of_mem_toDigits hc
  omega

theorem isDigit_of_mem_digitBytes {n : Nat} {b : UInt8} (h : b ∈ digitBytes n) :
    isDigit b = true := by
  obtain ⟨c, hc, rfl⟩ := List.mem_map.mp h
  simp only [isDigit, Bool.and_eq_true, decide_eq_true_eq, UInt8.le_iff_toNat_le, toNat_digit hc]
  exact bounds_of_mem_toDigits hc

theorem map_digitValue (n : Nat) : (digitBytes n).map digitValue = digitsOf n := by
  rw [digitBytes, digitsOf, List.map_map]
  refine List.map_congr_left fun c hc => ?_
  simp only [Function.comp_apply, digitValue, toNat_digit hc]

theorem digitBytes_eq_cons (n : Nat) : ∃ b bs, digitBytes n = b :: bs ∧ isDigit b = true := by
  cases hbytes : digitBytes n with
  | nil => simp [digitBytes, Nat.toDigits_ne_nil] at hbytes
  | cons b bs => exact ⟨b, bs, rfl, isDigit_of_mem_digitBytes (n := n) (by simp [hbytes])⟩

theorem digits?_digitBytes (n : Nat) {rest : List UInt8} (h : Stops rest = true) :
    digits? (digitBytes n ++ rest) = some (digitsOf n, rest) := by
  have hdigits : ∀ b ∈ digitBytes n, isDigit b = true := fun b hb => isDigit_of_mem_digitBytes hb
  have hstop : rest.takeWhile isDigit = [] ∧ rest.dropWhile isDigit = rest := by
    cases rest with
    | nil => exact ⟨rfl, rfl⟩
    | cons b rest =>
      have hb : isDigit b = false := by
        simp only [Stops, Bool.not_eq_true', Bool.or_eq_false_iff] at h
        exact h.1.1.1
      simp [hb]
  have hnil : digitBytes n ≠ [] := by simp [digitBytes, Nat.toDigits_ne_nil]
  rw [digits?, List.takeWhile_append_of_pos hdigits, List.dropWhile_append_of_pos hdigits, hstop.1,
    hstop.2, List.append_nil]
  split
  · next heq => exact absurd heq hnil
  · rw [map_digitValue]

theorem le_foldl_digits (word : Nat) (digits : List Nat) :
    word ≤ digits.foldl (fun n d => n * 10 + d) word := by
  induction digits generalizing word with
  | nil => exact Nat.le_refl _
  | cons d digits ih => exact Nat.le_trans (by omega) (ih (word * 10 + d))

theorem takeWord_eq {word : Nat} {digits : List Nat}
    (h : digits.foldl (fun n d => n * 10 + d) word < UInt64.size) :
    Numeral.takeWord word digits = (digits.foldl (fun n d => n * 10 + d) word, 0) := by
  induction digits generalizing word with
  | nil => rfl
  | cons d digits ih =>
    have hle := le_foldl_digits (word * 10 + d) digits
    rw [List.foldl_cons] at h ⊢
    rw [Numeral.takeWord, if_pos (by omega), ih h]

theorem foldl_digitsOf (n : Nat) : (digitsOf n).foldl (fun n d => n * 10 + d) 0 = n := by
  rw [digitsOf, List.foldl_map]
  refine Eq.trans ?_ (Nat.ofDigitChars_ten_toDigits (n := n))
  rw [Nat.ofDigitChars]
  congr 1
  funext sofar c
  rw [Nat.mul_comm]
  rfl

theorem takeWord_digitsOf {n : Nat} (h : n < UInt64.size) :
    Numeral.takeWord 0 (digitsOf n) = (n, 0) := by
  have hfold := foldl_digitsOf n
  rw [takeWord_eq (by rwa [hfold]), hfold]

theorem digitChar_ne_zero : ∀ d < 10, d ≠ 0 → d.digitChar.toNat - 0x30 ≠ 0 := by
  decide

theorem head?_digitsOf {n : Nat} (h : n ≠ 0) : (digitsOf n).head? ≠ some 0 := by
  induction n using Nat.strongRecOn with
  | ind n ih =>
    rw [digitsOf, Nat.toDigits_eq_if (by decide)]
    split
    · next hlt =>
      rw [List.map_singleton, List.head?_cons]
      exact fun hzero => digitChar_ne_zero n hlt h (Option.some.inj hzero)
    · next hge =>
      have hfront := ih (n / 10) (by omega) (by omega)
      rw [List.map_append, ← digitsOf]
      cases hdigits : digitsOf (n / 10) with
      | nil => simp [digitsOf, Nat.toDigits_ne_nil] at hdigits
      | cons d rest =>
        rw [hdigits] at hfront
        exact hfront

theorem whole?_digitBytes (n : Nat) {rest : List UInt8} (h : Stops rest = true) :
    whole? (digitBytes n ++ rest) = some (digitsOf n, rest) := by
  rw [whole?, digits?_digitBytes n h]
  refine if_neg fun hzero => ?_
  simp only [Bool.and_eq_true, beq_iff_eq, bne_iff_ne] at hzero
  by_cases hn : n = 0
  · subst hn
    exact hzero.2 rfl
  · exact head?_digitsOf hn hzero.1

theorem fraction?_of_stops {rest : List UInt8} (h : Stops rest = true) :
    fraction? rest = some ([], rest) := by
  unfold fraction?
  split
  · cases h
  · rfl

theorem exponent?_of_stops {rest : List UInt8} (h : Stops rest = true) :
    exponent? rest = some (none, rest) := by
  cases rest with
  | nil => rfl
  | cons b rest =>
    simp only [Stops, Bool.not_eq_true', Bool.or_eq_false_iff] at h
    simp [exponent?, h.1.2, h.2]

def intBytes : Int → List UInt8
  | .ofNat n => digitBytes n
  | .negSucc n => 0x2d :: digitBytes (n + 1)

theorem encode_intText (i : Int) : encode (intText i).toList = intBytes i := by
  cases i with
  | ofNat n => exact encode_repr n
  | negSucc n =>
    rw [intText, String.toList_append, encode_append, encode_repr]
    rfl

def isWord (i : Int) : Bool := decide (-0x8000000000000000 ≤ i ∧ i < 0x10000000000000000)

theorem numeral?_intBytes {i : Int} (hword : isWord i = true) {rest : List UInt8}
    (h : Stops rest = true) :
    ∃ n, numeral? (intBytes i ++ rest) = some (n, rest) ∧ n.value? = some (.int i) := by
  have hword := of_decide_eq_true hword
  cases i with
  | ofNat n =>
    obtain ⟨b, bs, hbytes, hdigit⟩ := digitBytes_eq_cons n
    have hwhole := whole?_digitBytes n h
    have hminus : b ≠ 0x2d := by
      rintro rfl
      cases hdigit
    refine ⟨⟨false, digitsOf n, [], none⟩, ?_, ?_⟩
    · rw [hbytes] at hwhole
      rw [intBytes, hbytes]
      simp_all [numeral?, fraction?_of_stops h, exponent?_of_stops h]
    · have hn : n < UInt64.size := Int.ofNat_lt.mp hword.2
      simp [Numeral.value?, takeWord_digitsOf hn]
  | negSucc n =>
    have hwhole := whole?_digitBytes (n + 1) h
    refine ⟨⟨true, digitsOf (n + 1), [], none⟩, ?_, ?_⟩
    · simp [intBytes, numeral?, hwhole, fraction?_of_stops h, exponent?_of_stops h]
    · have hn : n + 1 ≤ 0x8000000000000000 := by omega
      have hsize : n + 1 < UInt64.size := Nat.lt_of_le_of_lt hn (by decide)
      simp only [Numeral.value?, takeWord_digitsOf hsize]
      exact if_pos (And.intro (Nat.succ_pos n) hn)

end Draft

/-! Values. -/

mutual

/-- Every number is an integer that is read as one. -/
def integral : Json → Bool
  | .number (.int i) => Draft.isWord i
  | .number (.float _) => false
  | .array items => integralItems items
  | .object members => integralMembers members
  | _ => true

def integralItems : List Json → Bool
  | [] => true
  | item :: rest => integral item && integralItems rest

def integralMembers : List (String × Json) → Bool
  | [] => true
  | (_, value) :: rest => integral value && integralMembers rest

end

mutual

def draft : Json → Draft
  | .null => .null
  | .bool b => .bool b
  | .number n => .number (some n)
  | .string s => .string (some s)
  | .array items => .array (draftItems items)
  | .object members => .object (draftMembers members)

def draftItems : List Json → List Draft
  | [] => []
  | item :: rest => draft item :: draftItems rest

def draftMembers : List (String × Json) → List (Option String × Draft)
  | [] => []
  | (key, value) :: rest => (some key, draft value) :: draftMembers rest

end

mutual

def bytes : Json → List UInt8
  | .null => encode "null".toList
  | .bool b => encode (if b then "true" else "false").toList
  | .number n => encode n.text.toList
  | .string s => encode (quote s).toList
  | .array items => 0x5b :: itemBytes items ++ [0x5d]
  | .object members => 0x7b :: memberBytes members ++ [0x7d]

def itemBytes : List Json → List UInt8
  | [] => []
  | item :: rest => bytes item ++ moreItems rest

/-- The items behind the first, each with a comma. -/
def moreItems : List Json → List UInt8
  | [] => []
  | item :: rest => 0x2c :: (bytes item ++ moreItems rest)

def memberBytes : List (String × Json) → List UInt8
  | [] => []
  | (key, value) :: rest => encode (quote key).toList ++ 0x3a :: (bytes value ++ moreMembers rest)

def moreMembers : List (String × Json) → List UInt8
  | [] => []
  | (key, value) :: rest =>
    0x2c :: (encode (quote key).toList ++ 0x3a :: (bytes value ++ moreMembers rest))

end

mutual

theorem value?_draft (value : Json) : value.draft.value? = some value := by
  match value with
  | .null | .bool _ | .number _ | .string _ => rfl
  | .array items => rw [draft, Draft.value?, valueList?_draftItems items]; rfl
  | .object members => rw [draft, Draft.value?, valueMembers?_draftMembers members]; rfl

theorem valueList?_draftItems (items : List Json) :
    Draft.valueList? (draftItems items) = some items := by
  match items with
  | [] => rfl
  | item :: rest =>
    rw [draftItems, Draft.valueList?, value?_draft item, valueList?_draftItems rest]
    rfl

theorem valueMembers?_draftMembers (members : List (String × Json)) :
    Draft.valueMembers? (draftMembers members) = some members := by
  match members with
  | [] => rfl
  | (key, value) :: rest =>
    rw [draftMembers, Draft.valueMembers?, value?_draft value, valueMembers?_draftMembers rest]
    rfl

end

theorem encode_join_cons (s : String) (tail : List String) :
    encode (String.join (s :: tail)).toList =
      encode s.toList ++ encode (String.join tail).toList := by
  rw [String.join_cons, String.toList_append, encode_append]

theorem encode_comma : encode ",".toList = [0x2c] := rfl

theorem encode_colon : encode ":".toList = [0x3a] := rfl

mutual

theorem encode_pieces (tail : List String) (value : Json) :
    encode (String.join (pieces tail value)).toList =
      value.bytes ++ encode (String.join tail).toList := by
  match value with
  | .null | .bool _ | .number _ | .string _ => rw [pieces, encode_join_cons, bytes]
  | .array items =>
    rw [pieces, encode_join_cons, encode_piecesList, encode_join_cons, bytes, List.cons_append,
      List.cons_append, List.append_assoc]
    rfl
  | .object members =>
    rw [pieces, encode_join_cons, encode_piecesMembers, encode_join_cons, bytes, List.cons_append,
      List.cons_append, List.append_assoc]
    rfl

theorem encode_piecesList (tail : List String) (items : List Json) :
    encode (String.join (piecesList tail items)).toList =
      itemBytes items ++ encode (String.join tail).toList := by
  match items with
  | [] => rw [piecesList, itemBytes, List.nil_append]
  | [item] => rw [piecesList, itemBytes, moreItems, List.append_nil, encode_pieces]
  | item :: next :: rest =>
    rw [piecesList, itemBytes, moreItems, encode_pieces, encode_join_cons,
      encode_piecesList tail (next :: rest), itemBytes, encode_comma]
    · simp only [List.append_assoc, List.cons_append, List.nil_append]
    · simp

theorem encode_piecesMembers (tail : List String) (members : List (String × Json)) :
    encode (String.join (piecesMembers tail members)).toList =
      memberBytes members ++ encode (String.join tail).toList := by
  match members with
  | [] => rw [piecesMembers, memberBytes, List.nil_append]
  | [(key, value)] =>
    rw [piecesMembers, memberBytes, moreMembers, List.append_nil, encode_join_cons,
      encode_join_cons, encode_pieces, encode_colon]
    simp only [List.append_assoc, List.cons_append, List.nil_append]
  | (key, value) :: (nextKey, next) :: rest =>
    rw [piecesMembers, memberBytes, moreMembers, encode_join_cons, encode_join_cons, encode_pieces,
      encode_join_cons, encode_piecesMembers tail ((nextKey, next) :: rest), memberBytes,
      encode_comma, encode_colon]
    · simp only [List.append_assoc, List.cons_append, List.nil_append]
    · simp

end

theorem encode_text (value : Json) : encode value.text.toList = value.bytes := by
  rw [text, encode_pieces]
  exact List.append_nil _

namespace Draft

/-- The draft of the value is read, if there is fuel enough: two units for each byte, where an opening
bracket takes two and each item one. -/
def ReadsBack (value : Json) : Prop :=
  ∀ rest fuel, Stops rest = true → 2 * value.bytes.length ≤ fuel →
    read? (fuel + 1) (value.bytes ++ rest) = some (value.draft, rest)

def ReadsBackItems (items : List Json) : Prop :=
  ∀ rest fuel, 2 * (itemBytes items).length + 2 ≤ fuel →
    readItems? (fuel + 1) (itemBytes items ++ 0x5d :: rest) = some (draftItems items, rest)

def ReadsBackMembers (members : List (String × Json)) : Prop :=
  ∀ rest fuel, 2 * (memberBytes members).length + 2 ≤ fuel →
    readMembers? (fuel + 1) (memberBytes members ++ 0x7d :: rest) =
      some (draftMembers members, rest)

theorem skipBlanks_cons {b : UInt8} (h : isBlank b = false) (rest : List UInt8) :
    skipBlanks (b :: rest) = b :: rest := by
  rw [skipBlanks, List.dropWhile_cons, h]
  rfl

theorem keyword?_append (word : String) (rest : List UInt8) :
    keyword? word (encode word.toList ++ rest) = some rest := by
  simp only [keyword?, bytes_eq_encode]
  rw [if_pos (List.isPrefixOf_iff_prefix.mpr (List.prefix_append _ _)), List.drop_left]

theorem readsBack_null : ReadsBack .null := by
  intro rest fuel _ _
  change (keyword? "ull" (encode "ull".toList ++ rest)).bind (fun r => some (Draft.null, r)) = _
  rw [keyword?_append]
  rfl

theorem readsBack_bool (b : Bool) : ReadsBack (.bool b) := by
  intro rest fuel _ _
  cases b with
  | true =>
    change (keyword? "rue" (encode "rue".toList ++ rest)).bind
      (fun r => some (Draft.bool true, r)) = _
    rw [keyword?_append]
    rfl
  | false =>
    change (keyword? "alse" (encode "alse".toList ++ rest)).bind
      (fun r => some (Draft.bool false, r)) = _
    rw [keyword?_append]
    rfl

theorem intBytes_eq_cons (i : Int) :
    ∃ b rest, intBytes i = b :: rest ∧ (isDigit b = true ∨ b = 0x2d) := by
  cases i with
  | ofNat n =>
    obtain ⟨b, rest, hbytes, hb⟩ := digitBytes_eq_cons n
    exact ⟨b, rest, hbytes, .inl hb⟩
  | negSucc n => exact ⟨0x2d, _, rfl, .inr rfl⟩

theorem ne_of_numeral {b c : UInt8} (hb : isDigit b = true ∨ b = 0x2d) (hdigit : isDigit c = false)
    (hminus : c ≠ 0x2d) : b ≠ c := by
  rintro rfl
  obtain hb | hb := hb
  · rw [hdigit] at hb
    cases hb
  · exact hminus hb

theorem isBlank_of_numeral {b : UInt8} (hb : isDigit b = true ∨ b = 0x2d) : isBlank b = false := by
  simp only [isBlank, Bool.or_eq_false_iff, beq_eq_false_iff_ne]
  exact ⟨⟨⟨ne_of_numeral hb (by decide) (by decide), ne_of_numeral hb (by decide) (by decide)⟩,
    ne_of_numeral hb (by decide) (by decide)⟩, ne_of_numeral hb (by decide) (by decide)⟩

theorem read?_numeral {b : UInt8} {tail rest : List UInt8} {n : Numeral} {fuel : Nat}
    (hb : isDigit b = true ∨ b = 0x2d) (h : numeral? (b :: tail) = some (n, rest)) :
    read? (fuel + 1) (b :: tail) = some (.number n.value?, rest) := by
  rw [read?, skipBlanks_cons (isBlank_of_numeral hb)]
  split
  case h_7 => rw [h]; rfl
  all_goals
    next heq => exact absurd (List.cons.inj heq).1 (ne_of_numeral hb (by decide) (by decide))

theorem readsBack_int {i : Int} (h : isWord i = true) : ReadsBack (.number (.int i)) := by
  intro rest fuel hrest _
  obtain ⟨n, hn, hvalue⟩ := numeral?_intBytes h hrest
  obtain ⟨b, tail, hbytes, hb⟩ := intBytes_eq_cons i
  rw [bytes, Number.text, encode_intText, draft, ← hvalue]
  rw [hbytes] at hn ⊢
  exact read?_numeral hb hn

theorem readsBack_string (s : String) : ReadsBack (.string s) := by
  intro rest fuel _ _
  obtain ⟨ps, hps, htext⟩ := pieces?_escaped_append s rest
  rw [bytes, encode_quote_append, read?, skipBlanks_cons rfl]
  simp [hps, htext, draft]

theorem readsBack_emptyArray : ReadsBack (.array []) := by
  intro rest fuel _ _
  rfl

theorem readsBack_emptyObject : ReadsBack (.object []) := by
  intro rest fuel _ _
  rfl

theorem bytes_eq_cons {value : Json} (h : value.integral = true) :
    ∃ b tail, value.bytes = b :: tail ∧ isBlank b = false ∧ b ≠ 0x5d := by
  match value with
  | .null => exact ⟨_, _, rfl, rfl, by decide⟩
  | .bool true => exact ⟨_, _, rfl, rfl, by decide⟩
  | .bool false => exact ⟨_, _, rfl, rfl, by decide⟩
  | .number (.int i) =>
    obtain ⟨b, tail, hbytes, hb⟩ := intBytes_eq_cons i
    rw [bytes, Number.text, encode_intText]
    exact ⟨b, tail, hbytes, isBlank_of_numeral hb, ne_of_numeral hb (by decide) (by decide)⟩
  | .number (.float _) =>
    rw [integral] at h
    cases h
  | .string s =>
    rw [bytes, ← List.append_nil (encode _), encode_quote_append]
    exact ⟨_, _, rfl, rfl, by decide⟩
  | .array items => exact ⟨_, _, rfl, rfl, by decide⟩
  | .object members => exact ⟨_, _, rfl, rfl, by decide⟩

theorem readsBack_array {item : Json} {others : List Json} (hitem : item.integral = true)
    (h : ReadsBackItems (item :: others)) : ReadsBack (.array (item :: others)) := by
  intro rest fuel _ hfuel
  rw [bytes] at hfuel ⊢
  simp only [List.length_cons, List.length_append, List.length_nil] at hfuel
  obtain ⟨fuel, rfl⟩ : ∃ k, fuel = k + 1 := ⟨fuel - 1, by omega⟩
  have hitems := h rest fuel (by omega)
  obtain ⟨b, tail, hbytes, hblank, hend⟩ := bytes_eq_cons hitem
  rw [List.cons_append, List.cons_append, List.append_assoc, read?, skipBlanks_cons rfl]
  rw [itemBytes, hbytes] at hitems ⊢
  simp only [List.cons_append, List.append_assoc, List.nil_append] at hitems ⊢
  rw [skipBlanks_cons hblank]
  split
  · next heq => exact absurd (List.cons.inj heq).1 hend
  · rw [hitems]
    rfl

theorem readsBack_object {key : String} {value : Json} {others : List (String × Json)}
    (h : ReadsBackMembers ((key, value) :: others)) :
    ReadsBack (.object ((key, value) :: others)) := by
  intro rest fuel _ hfuel
  rw [bytes] at hfuel ⊢
  simp only [List.length_cons, List.length_append, List.length_nil] at hfuel
  obtain ⟨fuel, rfl⟩ : ∃ k, fuel = k + 1 := ⟨fuel - 1, by omega⟩
  have hmembers := h rest fuel (by omega)
  rw [List.cons_append, List.cons_append, List.append_assoc]
  rw [memberBytes, List.append_assoc, encode_quote_append] at hmembers ⊢
  exact congrArg (Option.bind · fun r => some (object r.1, r.2)) hmembers

theorem readsBackItems_last {item : Json} (h : ReadsBack item) : ReadsBackItems [item] := by
  intro rest fuel hfuel
  rw [itemBytes, moreItems, List.append_nil] at hfuel ⊢
  obtain ⟨fuel, rfl⟩ : ∃ k, fuel = k + 1 := ⟨fuel - 1, by omega⟩
  rw [readItems?, h (0x5d :: rest) fuel rfl (by omega)]
  rfl

theorem readsBackItems_cons {item next : Json} {others : List Json} (h : ReadsBack item)
    (hnext : ReadsBackItems (next :: others)) : ReadsBackItems (item :: next :: others) := by
  intro rest fuel hfuel
  have heq : itemBytes (item :: next :: others) =
      item.bytes ++ 0x2c :: itemBytes (next :: others) := by
    rw [itemBytes, moreItems, itemBytes]
  rw [heq] at hfuel ⊢
  simp only [List.length_append, List.length_cons] at hfuel
  obtain ⟨fuel, rfl⟩ : ∃ k, fuel = k + 1 := ⟨fuel - 1, by omega⟩
  rw [List.append_assoc, List.cons_append, readItems?, h _ fuel rfl (by omega)]
  have hmore := hnext rest fuel (by omega)
  exact congrArg (Option.bind · fun r => some (item.draft :: r.1, r.2)) hmore

theorem readMembers?_last {key : String} {fuel : Nat} {tail rest : List UInt8} {item : Draft}
    (h : read? fuel tail = some (item, 0x7d :: rest)) :
    readMembers? (fuel + 1) (encode (quote key).toList ++ 0x3a :: tail) =
      some ([(some key, item)], rest) := by
  obtain ⟨ps, hps, htext⟩ := pieces?_escaped_append key (0x3a :: tail)
  rw [encode_quote_append, readMembers?, skipBlanks_cons rfl]
  simp only [hps, Option.bind_eq_bind, Option.bind_some, htext, skipBlanks_cons (b := 0x3a) rfl, h,
    skipBlanks_cons (b := 0x7d) rfl]

theorem readMembers?_cons {key : String} {fuel : Nat} {tail more rest : List UInt8} {item : Draft}
    {members : List (Option String × Draft)} (h : read? fuel tail = some (item, 0x2c :: more))
    (hmore : readMembers? fuel more = some (members, rest)) :
    readMembers? (fuel + 1) (encode (quote key).toList ++ 0x3a :: tail) =
      some ((some key, item) :: members, rest) := by
  obtain ⟨ps, hps, htext⟩ := pieces?_escaped_append key (0x3a :: tail)
  rw [encode_quote_append, readMembers?, skipBlanks_cons rfl]
  simp only [hps, Option.bind_eq_bind, Option.bind_some, htext, skipBlanks_cons (b := 0x3a) rfl, h,
    skipBlanks_cons (b := 0x2c) rfl, hmore]

theorem readsBackMembers_last {key : String} {value : Json} (h : ReadsBack value) :
    ReadsBackMembers [(key, value)] := by
  intro rest fuel hfuel
  rw [memberBytes, moreMembers, List.append_nil] at hfuel ⊢
  simp only [List.length_append, List.length_cons] at hfuel
  obtain ⟨fuel, rfl⟩ : ∃ k, fuel = k + 1 := ⟨fuel - 1, by omega⟩
  rw [List.append_assoc, List.cons_append, draftMembers, draftMembers]
  exact readMembers?_last (h _ fuel rfl (by omega))

theorem readsBackMembers_cons {key nextKey : String} {value next : Json}
    {others : List (String × Json)} (h : ReadsBack value)
    (hnext : ReadsBackMembers ((nextKey, next) :: others)) :
    ReadsBackMembers ((key, value) :: (nextKey, next) :: others) := by
  intro rest fuel hfuel
  have heq : memberBytes ((key, value) :: (nextKey, next) :: others) =
      encode (quote key).toList ++
        0x3a :: (value.bytes ++ 0x2c :: memberBytes ((nextKey, next) :: others)) := by
    rw [memberBytes, moreMembers, memberBytes]
  rw [heq] at hfuel ⊢
  simp only [List.length_append, List.length_cons] at hfuel
  obtain ⟨fuel, rfl⟩ : ∃ k, fuel = k + 1 := ⟨fuel - 1, by omega⟩
  rw [List.append_assoc, List.cons_append, List.append_assoc, List.cons_append, draftMembers]
  exact readMembers?_cons (h _ fuel rfl (by omega)) (hnext rest fuel (by omega))

mutual

theorem readsBack (value : Json) (h : value.integral = true) : ReadsBack value := by
  match value with
  | .null => exact readsBack_null
  | .bool b => exact readsBack_bool b
  | .number (.int i) =>
    rw [integral] at h
    exact readsBack_int h
  | .number (.float x) =>
    rw [integral] at h
    cases h
  | .string s => exact readsBack_string s
  | .array items =>
    rw [integral] at h
    have hitems := readsBackItems items h
    cases items with
    | nil => exact readsBack_emptyArray
    | cons item others =>
      rw [integralItems, Bool.and_eq_true] at h
      exact readsBack_array h.1 (hitems (by simp))
  | .object members =>
    rw [integral] at h
    have hmembers := readsBackMembers members h
    cases members with
    | nil => exact readsBack_emptyObject
    | cons m others => exact readsBack_object (hmembers (by simp))

-- The list must not be empty, but the statement is about every list: so the recursion is on
-- the whole list and not on its first item.
theorem readsBackItems (items : List Json) (h : integralItems items = true) :
    items ≠ [] → ReadsBackItems items := by
  match items with
  | [] => exact fun hnil => absurd rfl hnil
  | item :: others =>
    rw [integralItems, Bool.and_eq_true] at h
    have hitem := readsBack item h.1
    have hothers := readsBackItems others h.2
    intro _
    cases others with
    | nil => exact readsBackItems_last hitem
    | cons next others => exact readsBackItems_cons hitem (hothers (by simp))

theorem readsBackMembers (members : List (String × Json)) (h : integralMembers members = true) :
    members ≠ [] → ReadsBackMembers members := by
  match members with
  | [] => exact fun hnil => absurd rfl hnil
  | (key, value) :: others =>
    rw [integralMembers, Bool.and_eq_true] at h
    have hvalue := readsBack value h.1
    have hothers := readsBackMembers others h.2
    intro _
    cases others with
    | nil => exact readsBackMembers_last hvalue
    | cons next others => exact readsBackMembers_cons hvalue (hothers (by simp))

end

theorem ofText?_text {value : Json} (h : value.integral = true) :
    ofText? value.text = some value.draft := by
  have hread := readsBack value h [] (2 * value.bytes.length + 1) rfl (by omega)
  rw [List.append_nil] at hread
  rw [ofText?, bytes_eq_encode, encode_text, ofBytes?, hread]
  rfl

theorem boundedValue?_eq_some_iff {draft : Draft} {value : Json} :
    draft.boundedValue? = some value ↔ draft.depth ≤ nestingLimit ∧ draft.value? = some value := by
  unfold boundedValue?
  split <;> simp [*]

end Draft

def ofText? (text : String) : Option Json := do (← Draft.ofText? text).boundedValue?

/-- The text of a value without floats is read as that value, if it is not nested too deeply. -/
theorem ofText?_text {value : Json} (h : value.integral = true)
    (hdepth : value.draft.depth ≤ nestingLimit) : ofText? value.text = some value := by
  rw [ofText?, Draft.ofText?_text h]
  exact Draft.boundedValue?_eq_some_iff.mpr ⟨hdepth, value?_draft value⟩

end Json

end RubyTree
