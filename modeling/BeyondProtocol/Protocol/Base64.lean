import BeyondProtocol.Framework.Fallible
import BeyondProtocol.Protocol.Packet

/-!
# Base64 (`base64.cpp`, `quic/src/openssl_util.cpp`)

Three bytes are four characters of six bits. There are two encoders: one walks over the input
three bytes at a time and pads with the character of its alphabet, the other collects single
bytes in an array and fills it with zeros at the end. The position of the first one has 32 bits,
so that its loop comes to an end for fewer than 2^32 bytes only. The decoder takes both alphabets
and both paddings, and line breaks if it is told so.
-/

namespace BeyondProtocol.Base64

open Framework

/-! ## §1  The source functions -/

/-- `base64_chars` -/
def base64Chars (url : Bool) : List Char :=
  "ABCDEFGHIJKLMNOPQRSTUVWXYZabcdefghijklmnopqrstuvwxyz0123456789".toList ++
    if url then ['-', '_'] else ['+', '/']

def charAt (url : Bool) (n : ℕ) : Char := (base64Chars url).getD n '\x00'

/-- `pos_of_char` -/
def posOfChar (chr : Char) : Except Fault ℕ :=
  if 'A' ≤ chr ∧ chr ≤ 'Z' then .ok (chr.toNat - 'A'.toNat)
  else if 'a' ≤ chr ∧ chr ≤ 'z' then
    .ok (chr.toNat - 'a'.toNat + ('Z'.toNat - 'A'.toNat) + 1)
  else if '0' ≤ chr ∧ chr ≤ '9' then
    .ok (chr.toNat - '0'.toNat + ('Z'.toNat - 'A'.toNat) + ('z'.toNat - 'a'.toNat) + 2)
  else if chr = '+' ∨ chr = '-' then .ok 62
  else if chr = '/' ∨ chr = '_' then .ok 63
  else .error .thrown

/-! The six bits of each character. -/

def sextet0 (a : UInt8) : ℕ := (a.toNat &&& 0xfc) >>> 2

def sextet1 (a b : UInt8) : ℕ := ((a.toNat &&& 0x03) <<< 4) + ((b.toNat &&& 0xf0) >>> 4)

def sextet2 (b c : UInt8) : ℕ := ((b.toNat &&& 0x0f) <<< 2) + ((c.toNat &&& 0xc0) >>> 6)

def sextet3 (c : UInt8) : ℕ := c.toNat &&& 0x3f

def trailingChar (url : Bool) : Char := if url then '.' else '='

/-- A sum with `pos`, which is an `unsigned int`. -/
def advance (pos n : ℕ) : ℕ := (pos + n) % 2 ^ 32

/-- The four characters that `base64_encode` of `base64.cpp` makes at `pos`. -/
def encodeAt (url : Bool) (bytes : List UInt8) (pos : ℕ) : List Char :=
  let a := bytes.getD pos 0
  let b := bytes.getD (advance pos 1) 0
  let c := bytes.getD (advance pos 2) 0
  charAt url (sextet0 a) ::
    if advance pos 1 < bytes.length then
      charAt url (sextet1 a b) ::
        if advance pos 2 < bytes.length then [charAt url (sextet2 b c), charAt url (sextet3 c)]
        else [charAt url ((b.toNat &&& 0x0f) <<< 2), trailingChar url]
    else [charAt url ((a.toNat &&& 0x03) <<< 4), trailingChar url, trailingChar url]

/-- Its loop, with a bound on the number of passes. -/
def encodeLoop (url : Bool) (bytes : List UInt8) : ℕ → ℕ → Except Fault (List Char)
  | 0, _ => .error .outOfFuel
  | fuel + 1, pos =>
      if pos < bytes.length then do
        let ret ← encodeLoop url bytes fuel (advance pos 3)
        .ok (encodeAt url bytes pos ++ ret)
      else .ok []

def base64Encode (url : Bool) (bytes : List UInt8) : Except Fault (List Char) :=
  encodeLoop url bytes (bytes.length + 1) 0

/-- `while (pos < str.size())` of `insert_linebreaks`, with a bound on the number of lines. -/
def insertLoop (distance : ℕ) : ℕ → ℕ → List Char → Except Fault (List Char)
  | 0, _, _ => .error .outOfFuel
  | fuel + 1, pos, str =>
      if pos < str.length then
        insertLoop distance fuel (pos + (distance + 1)) (str.take pos ++ '\n' :: str.drop pos)
      else .ok str

def insertLinebreaks (str : List Char) (distance : ℕ) : Except Fault (List Char) :=
  if str.length = 0 then .ok [] else insertLoop distance (str.length + 1) distance str

def encodePem (bytes : List UInt8) : Except Fault (List Char) := do
  let text ← base64Encode false bytes
  insertLinebreaks text 64

def encodeMime (bytes : List UInt8) : Except Fault (List Char) := do
  let text ← base64Encode false bytes
  insertLinebreaks text 76

/-- The bytes of four characters. -/
def decodeQuad (c0 c1 c2 c3 : Char) : Except Fault (List UInt8) := do
  let pos1 ← posOfChar c1
  let pos0 ← posOfChar c0
  let first := UInt8.ofNat ((pos0 <<< 2) + ((pos1 &&& 0x30) >>> 4))
  if c2 ≠ '=' ∧ c2 ≠ '.' then do
    let pos2 ← posOfChar c2
    let second := UInt8.ofNat (((pos1 &&& 0x0f) <<< 4) + ((pos2 &&& 0x3c) >>> 2))
    if c3 ≠ '=' ∧ c3 ≠ '.' then do
      let pos3 ← posOfChar c3
      .ok [first, second, UInt8.ofNat (((pos2 &&& 0x03) <<< 6) + pos3)]
    else .ok [first, second]
  else .ok [first]

/-- The loop of `decode`; behind the end of a `std::string` there is a null character. -/
def decodeLoop : List Char → Except Fault (List UInt8)
  | [] => .ok []
  | [c0] => decodeQuad c0 '\x00' '\x00' '\x00'
  | [c0, c1] => decodeQuad c0 c1 '\x00' '\x00'
  | [c0, c1, c2] => decodeQuad c0 c1 c2 '\x00'
  | c0 :: c1 :: c2 :: c3 :: rest => do
      let bytes ← decodeQuad c0 c1 c2 c3
      let more ← decodeLoop rest
      .ok (bytes ++ more)

/-- `base64_decode` -/
def base64Decode (text : List Char) (removeLinebreaks : Bool) : Except Fault (List UInt8) :=
  decodeLoop (if removeLinebreaks then text.filter (· ≠ '\n') else text)

/-- `char_array_3`, as far as it is filled, and `ret`. -/
structure OpensslState where
  charArray3 : List UInt8 := []
  ret : List Char := []

/-- `char_array_4` -/
def charArray4 (charArray3 : List UInt8) : List ℕ :=
  [sextet0 (charArray3.getD 0 0), sextet1 (charArray3.getD 0 0) (charArray3.getD 1 0),
    sextet2 (charArray3.getD 1 0) (charArray3.getD 2 0), sextet3 (charArray3.getD 2 0)]

def OpensslState.push (s : OpensslState) (b : UInt8) : OpensslState :=
  let charArray3 := s.charArray3 ++ [b]
  if charArray3.length = 3 then
    { charArray3 := [], ret := s.ret ++ (charArray4 charArray3).map (charAt false) }
  else { s with charArray3 := charArray3 }

def OpensslState.finish (s : OpensslState) : List Char :=
  let i := s.charArray3.length
  if i ≠ 0 then
    s.ret ++ ((charArray4 s.charArray3).take (i + 1)).map (charAt false) ++
      List.replicate (3 - i) '='
  else s.ret

/-- `base64_encode` of `openssl_util.cpp` -/
def opensslEncode (bytes : List UInt8) : List Char :=
  (bytes.foldl OpensslState.push {}).finish

/-! ## §2  The text of the bytes -/

/-- What the bytes are encoded to, three at a time. -/
def encoded (url : Bool) : List UInt8 → List Char
  | [] => []
  | [a] =>
      [charAt url (sextet0 a), charAt url ((a.toNat &&& 0x03) <<< 4), trailingChar url,
        trailingChar url]
  | [a, b] =>
      [charAt url (sextet0 a), charAt url (sextet1 a b), charAt url ((b.toNat &&& 0x0f) <<< 2),
        trailingChar url]
  | a :: b :: c :: rest =>
      charAt url (sextet0 a) :: charAt url (sextet1 a b) :: charAt url (sextet2 b c) ::
        charAt url (sextet3 c) :: encoded url rest

/-- A multiple of three below 2^32 stays below when three are added, as 2^32 - 1 is one. -/
theorem advance_eq {pos n : ℕ} (hthree : pos % 3 = 0) (hpos : pos < 2 ^ 32 - 1) (hn : n ≤ 3) :
    advance pos n = pos + n := by
  apply Nat.mod_eq_of_lt
  omega

theorem encodeLoop_pass (url : Bool) {bytes : List UInt8} {fuel pos : ℕ} (hfuel : 0 < fuel)
    (hthree : pos % 3 = 0) (hpos : pos < bytes.length) (hsize : bytes.length < 2 ^ 32) :
    encodeLoop url bytes fuel pos =
      encodeLoop url bytes (fuel - 1) (pos + 3) >>= fun ret =>
        .ok (encodeAt url bytes pos ++ ret) := by
  obtain ⟨fuel, rfl⟩ := Nat.exists_eq_succ_of_ne_zero hfuel.ne'
  rw [encodeLoop, if_pos hpos, advance_eq hthree (by omega) le_rfl]
  rfl

theorem encodeLoop_end (url : Bool) {bytes : List UInt8} {fuel pos : ℕ} (hfuel : 0 < fuel)
    (hpos : bytes.length ≤ pos) : encodeLoop url bytes fuel pos = .ok [] := by
  obtain ⟨fuel, rfl⟩ := Nat.exists_eq_succ_of_ne_zero hfuel.ne'
  rw [encodeLoop, if_neg (Nat.not_lt.mpr hpos)]

/-- From a multiple of three on the loop encodes the rest. -/
theorem encodeLoop_rest (url : Bool) (front rest : List UInt8) (fuel : ℕ)
    (hthree : front.length % 3 = 0) (hsize : (front ++ rest).length < 2 ^ 32)
    (hfuel : rest.length + 3 ≤ 3 * fuel) :
    encodeLoop url (front ++ rest) fuel front.length = .ok (encoded url rest) := by
  induction rest using encoded.induct generalizing front fuel with
  | case1 => exact encodeLoop_end url (by omega) (by simp)
  | case2 a =>
      have hpos : front.length < (front ++ [a]).length := by simp
      rw [List.length_singleton] at hfuel
      have hend : encodeLoop url (front ++ [a]) (fuel - 1) (front.length + 3) = .ok [] :=
        encodeLoop_end url (by omega) (by simp)
      rw [encodeLoop_pass url (by omega) hthree hpos hsize, hend, ok_bind]
      simp [encodeAt, advance_eq hthree (show front.length < 2 ^ 32 - 1 by omega), encoded]
  | case3 a b =>
      have hpos : front.length < (front ++ [a, b]).length := by simp
      simp only [List.length_cons] at hfuel
      have hend : encodeLoop url (front ++ [a, b]) (fuel - 1) (front.length + 3) = .ok [] :=
        encodeLoop_end url (by omega) (by simp)
      rw [encodeLoop_pass url (by omega) hthree hpos hsize, hend, ok_bind]
      simp [encodeAt, advance_eq hthree (show front.length < 2 ^ 32 - 1 by omega), encoded]
  | case4 a b c rest ih =>
      have hpos : front.length < (front ++ a :: b :: c :: rest).length := by simp
      have hnext : encodeLoop url (front ++ a :: b :: c :: rest) (fuel - 1) (front.length + 3) =
          .ok (encoded url rest) := by
        have happend : front ++ a :: b :: c :: rest = (front ++ [a, b, c]) ++ rest := by simp
        have hlength : front.length + 3 = (front ++ [a, b, c]).length := by simp
        rw [happend] at hsize ⊢
        rw [hlength]
        simp only [List.length_cons] at hfuel
        refine ih (front ++ [a, b, c]) (fuel - 1) ?_ hsize (by omega)
        rw [← hlength]
        omega
      rw [encodeLoop_pass url (by omega) hthree hpos hsize, hnext, ok_bind]
      simp [encodeAt, advance_eq hthree (show front.length < 2 ^ 32 - 1 by omega), encoded]

theorem base64Encode_eq (url : Bool) {bytes : List UInt8} (hsize : bytes.length < 2 ^ 32) :
    base64Encode url bytes = .ok (encoded url bytes) :=
  encodeLoop_rest url [] bytes (bytes.length + 1) rfl hsize (by omega)

/-- No number of passes is enough for more bytes than `pos` can count. -/
theorem encodeLoop_endless (url : Bool) {bytes : List UInt8} (hsize : 2 ^ 32 ≤ bytes.length)
    (fuel : ℕ) {pos : ℕ} (hpos : pos < 2 ^ 32) :
    encodeLoop url bytes fuel pos = .error .outOfFuel := by
  induction fuel generalizing pos with
  | zero => rfl
  | succ fuel ih =>
      have hnext : advance pos 3 < 2 ^ 32 := Nat.mod_lt _ (Nat.two_pow_pos 32)
      rw [encodeLoop, if_pos (hpos.trans_le hsize), ih hnext]
      rfl

/-! ## §3  Six bits -/

theorem and_shift_byte : ∀ n < 256, (n &&& 0xfc) >>> 2 = n / 4 ∧ (n &&& 0x03) <<< 4 = n % 4 * 16 ∧
    (n &&& 0xf0) >>> 4 = n / 16 ∧ (n &&& 0x0f) <<< 2 = n % 16 * 4 ∧ (n &&& 0xc0) >>> 6 = n / 64 ∧
    n &&& 0x3f = n % 64 := by
  decide +kernel

theorem and_shift_sextet : ∀ n < 64, (n &&& 0x30) >>> 4 = n / 16 ∧
    (n &&& 0x0f) <<< 4 = n % 16 * 16 ∧ (n &&& 0x3c) >>> 2 = n / 4 ∧
    (n &&& 0x03) <<< 6 = n % 4 * 64 := by
  decide +kernel

/-- What the alphabets have in common: a character stands for its place, and is none of those
that have a meaning of their own. -/
theorem charAt_facts : ∀ url : Bool, ∀ n < 64, posOfChar (charAt url n) = .ok n ∧
    charAt url n ≠ '=' ∧ charAt url n ≠ '.' ∧ charAt url n ≠ '\n' := by
  decide +kernel

section

variable (a b c : UInt8)

theorem sextet0_eq : sextet0 a = a.toNat / 4 := (and_shift_byte _ a.toNat_lt).1

theorem sextet1_eq : sextet1 a b = a.toNat % 4 * 16 + b.toNat / 16 := by
  rw [sextet1, (and_shift_byte _ a.toNat_lt).2.1, (and_shift_byte _ b.toNat_lt).2.2.1]

theorem sextet2_eq : sextet2 b c = b.toNat % 16 * 4 + c.toNat / 64 := by
  rw [sextet2, (and_shift_byte _ b.toNat_lt).2.2.2.1, (and_shift_byte _ c.toNat_lt).2.2.2.2.1]

theorem sextet3_eq : sextet3 c = c.toNat % 64 := (and_shift_byte _ c.toNat_lt).2.2.2.2.2

/-- The last character of one byte, or of two, is the one that zeros behind them would give. -/
theorem sextet1_zero : (a.toNat &&& 0x03) <<< 4 = sextet1 a 0 := by
  simp [sextet1]

theorem sextet2_zero : (b.toNat &&& 0x0f) <<< 2 = sextet2 b 0 := by
  simp [sextet2]

theorem sextet_lt : sextet0 a < 64 ∧ sextet1 a b < 64 ∧ sextet2 b c < 64 ∧ sextet3 c < 64 := by
  have ha := a.toNat_lt
  have hb := b.toNat_lt
  have hc := c.toNat_lt
  rw [sextet0_eq, sextet1_eq, sextet2_eq, sextet3_eq]
  omega

end

/-! ## §4  Decoding -/

section

variable (url : Bool) (a b c : UInt8)

/-- The first two characters give the first byte. -/
theorem first_byte : UInt8.ofNat ((sextet0 a <<< 2) + ((sextet1 a b &&& 0x30) >>> 4)) = a := by
  have hb := b.toNat_lt
  rw [(and_shift_sextet _ (sextet_lt a b 0).2.1).1, Nat.shiftLeft_eq, sextet0_eq, sextet1_eq]
  have hsum : a.toNat / 4 * 2 ^ 2 + (a.toNat % 4 * 16 + b.toNat / 16) / 16 = a.toNat := by omega
  rw [hsum, UInt8.ofNat_toNat]

theorem second_byte : UInt8.ofNat
    (((sextet1 a b &&& 0x0f) <<< 4) + ((sextet2 b c &&& 0x3c) >>> 2)) = b := by
  have hb := b.toNat_lt
  have hc := c.toNat_lt
  rw [(and_shift_sextet _ (sextet_lt a b c).2.1).2.1,
    (and_shift_sextet _ (sextet_lt a b c).2.2.1).2.2.1, sextet1_eq, sextet2_eq]
  have hsum : (a.toNat % 4 * 16 + b.toNat / 16) % 16 * 16 +
      (b.toNat % 16 * 4 + c.toNat / 64) / 4 = b.toNat := by omega
  rw [hsum, UInt8.ofNat_toNat]

theorem third_byte : UInt8.ofNat (((sextet2 b c &&& 0x03) <<< 6) + sextet3 c) = c := by
  have hc := c.toNat_lt
  rw [(and_shift_sextet _ (sextet_lt 0 b c).2.2.1).2.2.2, sextet2_eq, sextet3_eq]
  have hsum : (b.toNat % 16 * 4 + c.toNat / 64) % 4 * 64 + c.toNat % 64 = c.toNat := by omega
  rw [hsum, UInt8.ofNat_toNat]

theorem decodeQuad_three : decodeQuad (charAt url (sextet0 a)) (charAt url (sextet1 a b))
    (charAt url (sextet2 b c)) (charAt url (sextet3 c)) = .ok [a, b, c] := by
  obtain ⟨h0, h1, h2, h3⟩ := sextet_lt a b c
  unfold decodeQuad
  simp only [(charAt_facts url _ h0).1, (charAt_facts url _ h1).1, (charAt_facts url _ h2).1,
    (charAt_facts url _ h3).1, (charAt_facts url _ h2).2, (charAt_facts url _ h3).2, ok_bind,
    ne_eq, not_false_eq_true, and_self, if_true, first_byte, second_byte, third_byte]

theorem trailingChar_end : trailingChar url = '=' ∨ trailingChar url = '.' := by
  cases url with
  | false => exact .inl rfl
  | true => exact .inr rfl

theorem not_goes_on : ¬ (trailingChar url ≠ '=' ∧ trailingChar url ≠ '.') := by
  rcases trailingChar_end url with h | h <;> simp [h]

theorem decodeQuad_two : decodeQuad (charAt url (sextet0 a)) (charAt url (sextet1 a b))
    (charAt url (sextet2 b 0)) (trailingChar url) = .ok [a, b] := by
  obtain ⟨h0, h1, h2, -⟩ := sextet_lt a b 0
  unfold decodeQuad
  simp only [(charAt_facts url _ h0).1, (charAt_facts url _ h1).1, (charAt_facts url _ h2).1,
    (charAt_facts url _ h2).2, ok_bind, ne_eq, not_false_eq_true, and_self, if_true,
    if_neg (not_goes_on url), first_byte, second_byte]

theorem decodeQuad_one : decodeQuad (charAt url (sextet0 a)) (charAt url (sextet1 a 0))
    (trailingChar url) (trailingChar url) = .ok [a] := by
  obtain ⟨h0, h1, -⟩ := sextet_lt a 0 0
  unfold decodeQuad
  simp only [(charAt_facts url _ h0).1, (charAt_facts url _ h1).1, ok_bind,
    if_neg (not_goes_on url), first_byte]

end

theorem decodeLoop_encoded (url : Bool) (bytes : List UInt8) :
    decodeLoop (encoded url bytes) = .ok bytes := by
  induction bytes using encoded.induct with
  | case1 => rfl
  | case2 a =>
      rw [encoded, sextet1_zero, decodeLoop, decodeQuad_one]
      rfl
  | case3 a b =>
      rw [encoded, sextet2_zero, decodeLoop, decodeQuad_two]
      rfl
  | case4 a b c rest ih =>
      rw [encoded, decodeLoop, decodeQuad_three, ok_bind, ih]
      rfl

/-! ## §5  Lines -/

theorem charAt_ne_newline {url : Bool} {n : ℕ} (hn : n < 64) : charAt url n ≠ '\n' :=
  (charAt_facts url n hn).2.2.2

theorem newline_not_mem (url : Bool) (bytes : List UInt8) : '\n' ∉ encoded url bytes := by
  have htrailing : '\n' ≠ trailingChar url := by
    rcases trailingChar_end url with h | h <;> rw [h] <;> decide
  induction bytes using encoded.induct with
  | case1 => simp [encoded]
  | case2 a =>
      obtain ⟨h0, h1, -⟩ := sextet_lt a 0 0
      simp [encoded, sextet1_zero, htrailing, (charAt_ne_newline h0).symm,
        (charAt_ne_newline h1).symm]
  | case3 a b =>
      obtain ⟨h0, h1, h2, -⟩ := sextet_lt a b 0
      simp [encoded, sextet2_zero, htrailing, (charAt_ne_newline h0).symm,
        (charAt_ne_newline h1).symm, (charAt_ne_newline h2).symm]
  | case4 a b c rest ih =>
      obtain ⟨h0, h1, h2, h3⟩ := sextet_lt a b c
      simp [encoded, ih, (charAt_ne_newline h0).symm, (charAt_ne_newline h1).symm,
        (charAt_ne_newline h2).symm, (charAt_ne_newline h3).symm]

/-- The loop at the end of a line: what is behind it is cut up. -/
theorem insertLoop_lines {distance : ℕ} (hpos : 0 < distance) (fuel : ℕ) (front rest : List Char)
    (hfuel : rest.length < fuel + distance) (hsome : 0 < fuel) :
    ∃ lines : List (List Char), lines ≠ [] ∧
      insertLoop distance fuel (front.length + distance) (front ++ rest) =
        .ok (front ++ ['\n'].intercalate lines) ∧
      lines.flatten = rest ∧ ∀ line ∈ lines, line.length ≤ distance := by
  induction fuel generalizing front rest with
  | zero => exact absurd hsome (Nat.lt_irrefl 0)
  | succ fuel ih =>
      unfold insertLoop
      by_cases hlong : distance < rest.length
      · rw [if_pos (by rw [List.length_append]; omega)]
        -- one line more, and the break behind it
        have hcut : (front ++ rest).take (front.length + distance) ++
            '\n' :: (front ++ rest).drop (front.length + distance) =
            (front ++ rest.take distance ++ ['\n']) ++ rest.drop distance := by
          rw [List.take_length_add_append, List.drop_length_add_append]
          simp
        have hat : front.length + distance + (distance + 1) =
            (front ++ rest.take distance ++ ['\n']).length + distance := by
          simp only [List.length_append, List.length_take, List.length_singleton]
          omega
        obtain ⟨lines, hne, hloop, hflat, hlines⟩ :=
          ih (front ++ rest.take distance ++ ['\n']) (rest.drop distance)
            (by rw [List.length_drop]; omega) (by omega)
        refine ⟨rest.take distance :: lines, List.cons_ne_nil _ _, ?_, ?_, ?_⟩
        · rw [hcut, hat, hloop, List.intercalate_cons_of_ne_nil hne]
          simp
        · rw [List.flatten_cons, hflat, List.take_append_drop]
        · refine List.forall_mem_cons.mpr ⟨?_, hlines⟩
          rw [List.length_take]
          exact Nat.min_le_left _ _
      · rw [if_neg (by rw [List.length_append]; omega)]
        refine ⟨[rest], List.cons_ne_nil _ _, ?_, ?_, ?_⟩
        · simp
        · simp
        · rw [List.forall_mem_singleton]
          omega

/-- Taking the breaks out again gives the text. -/
theorem filter_intercalate {lines : List (List Char)} (h : '\n' ∉ lines.flatten) :
    (['\n'].intercalate lines).filter (· ≠ '\n') = lines.flatten := by
  induction lines with
  | nil => rfl
  | cons line lines ih =>
      rw [List.flatten_cons, List.mem_append, not_or] at h
      have hline : line.filter (· ≠ '\n') = line := by
        rw [List.filter_eq_self]
        intro c hc
        have hne : c ≠ '\n' := fun heq => h.1 (heq ▸ hc)
        simpa using hne
      cases lines with
      | nil => simpa using hline
      | cons next lines =>
          rw [List.intercalate_cons_of_ne_nil (List.cons_ne_nil _ _), List.filter_append,
            List.filter_append, ih h.2, hline]
          simp

theorem insertLinebreaks_lines {distance : ℕ} (hpos : 0 < distance) {text : List Char}
    (htext : '\n' ∉ text) : ∃ lines : List (List Char),
      insertLinebreaks text distance = .ok (['\n'].intercalate lines) ∧
      (['\n'].intercalate lines).filter (· ≠ '\n') = text ∧
      ∀ line ∈ lines, line.length ≤ distance := by
  unfold insertLinebreaks
  by_cases hempty : text.length = 0
  · rw [if_pos hempty, List.length_eq_zero_iff.mp hempty]
    exact ⟨[], rfl, rfl, by simp⟩
  · rw [if_neg hempty]
    obtain ⟨lines, -, hloop, hflat, hlines⟩ :=
      insertLoop_lines hpos (text.length + 1) [] text (by omega) (Nat.succ_pos _)
    refine ⟨lines, ?_, ?_, hlines⟩
    · simpa using hloop
    · rw [filter_intercalate (by rwa [hflat]), hflat]

theorem base64Decode_lines {distance : ℕ} (hpos : 0 < distance) (bytes : List UInt8) :
    ∃ lines : List (List Char),
      insertLinebreaks (encoded false bytes) distance = .ok (['\n'].intercalate lines) ∧
      (∀ line ∈ lines, line.length ≤ distance) ∧
      base64Decode (['\n'].intercalate lines) true = .ok bytes := by
  obtain ⟨lines, heq, hfilter, hlines⟩ := insertLinebreaks_lines hpos (newline_not_mem false bytes)
  refine ⟨lines, heq, hlines, ?_⟩
  rw [base64Decode, if_pos rfl, hfilter]
  exact decodeLoop_encoded false bytes

/-! ## §6  The other encoder -/

theorem foldl_push_three (a b c : UInt8) (rest : List UInt8) (ret : List Char) :
    (a :: b :: c :: rest).foldl OpensslState.push ⟨[], ret⟩ =
      rest.foldl OpensslState.push ⟨[], ret ++ [charAt false (sextet0 a),
        charAt false (sextet1 a b), charAt false (sextet2 b c), charAt false (sextet3 c)]⟩ := rfl

theorem foldl_push_encoded (bytes : List UInt8) (ret : List Char) :
    (bytes.foldl OpensslState.push ⟨[], ret⟩).finish = ret ++ encoded false bytes := by
  induction bytes using encoded.induct generalizing ret with
  | case1 => simp [OpensslState.finish, encoded]
  | case2 a =>
      rw [encoded, sextet1_zero]
      simp [OpensslState.push, OpensslState.finish, charArray4, trailingChar]
  | case3 a b =>
      rw [encoded, sextet2_zero]
      simp [OpensslState.push, OpensslState.finish, charArray4, trailingChar]
  | case4 a b c rest ih =>
      rw [foldl_push_three, ih, encoded]
      simp

theorem length_encoded (url : Bool) (bytes : List UInt8) :
    (encoded url bytes).length = (bytes.length + 2) / 3 * 4 := by
  induction bytes using encoded.induct with
  | case1 => rfl
  | case2 a => simp [encoded]
  | case3 a b => simp [encoded]
  | case4 a b c rest ih =>
      rw [encoded]
      simp only [List.length_cons, ih]
      omega

/-- **Base64 loses nothing.** Whatever the bytes that can be counted and the alphabet: the encoded
text is decoded to the bytes, and so is the text of the PEM and the MIME format, whose lines are
not longer than 64 and 76 characters; the encoder for certificates gives the same text; and the
text is as long as is reserved for it. -/
theorem base64_round_trip (bytes : List UInt8) (hsize : bytes.length < 2 ^ 32) :
    (∀ url, ∃ text, base64Encode url bytes = .ok text ∧ base64Decode text false = .ok bytes ∧
      text.length = (bytes.length + 2) / 3 * 4) ∧
    base64Encode false bytes = .ok (opensslEncode bytes) ∧
    (∃ lines : List (List Char), encodePem bytes = .ok (['\n'].intercalate lines) ∧
      (∀ line ∈ lines, line.length ≤ 64) ∧
      base64Decode (['\n'].intercalate lines) true = .ok bytes) ∧
    ∃ lines : List (List Char), encodeMime bytes = .ok (['\n'].intercalate lines) ∧
      (∀ line ∈ lines, line.length ≤ 76) ∧
      base64Decode (['\n'].intercalate lines) true = .ok bytes := by
  refine ⟨?_, ?_, ?_, ?_⟩
  · intro url
    exact ⟨encoded url bytes, base64Encode_eq url hsize, decodeLoop_encoded url bytes,
      length_encoded url bytes⟩
  · rw [base64Encode_eq false hsize, opensslEncode, foldl_push_encoded, List.nil_append]
  · rw [encodePem, base64Encode_eq false hsize, ok_bind]
    exact base64Decode_lines (by decide) bytes
  · rw [encodeMime, base64Encode_eq false hsize, ok_bind]
    exact base64Decode_lines (by decide) bytes

/-- Two bytes in the alphabet of an URL. -/
theorem base64_round_trip_two : base64Encode true [0xfb, 0xf0] = .ok "-_A.".toList ∧
    base64Decode "-_A.".toList false = .ok [0xfb, 0xf0] := by
  have htext : base64Encode true [0xfb, 0xf0] = .ok "-_A.".toList := by rfl
  obtain ⟨text, hencode, hdecode, -⟩ := (base64_round_trip [0xfb, 0xf0] (by decide)).1 true
  cases htext.symm.trans hencode
  exact ⟨htext, hdecode⟩

end BeyondProtocol.Base64
