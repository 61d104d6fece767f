import EZChain.BigEndian
import EZChain.Library.Checks
import EZChain.Library.PrefixCodes

/-!
# DER signatures

`parse_ecdsa_der` reads the two integers of a DER signature and `encode_ecdsa_der` writes them.
The parser follows the lengths it finds without asking whether a length or an integer is written
in its shortest form, and indexes the signature behind a length before it knows that a byte is
there.  The module describes the byte strings on which that makes a difference.
-/

namespace EZChain

open Checks PrefixCodes

/-! ## Encoder and parser -/

/-- Exceptions raised while signatures are read or written. -/
inductive DerError where
  | valueError (message : String)
  | indexError
  | overflowError
  deriving DecidableEq, Repr

/-- `data[start:stop]`. -/
def slice (data : Bytes) (start stop : ℕ) : Bytes :=
  (data.drop start).take (stop - start)

/-- `_der_read_length`: a length and the offset behind it. -/
def derReadLength (data : Bytes) (offset : ℕ) : Except DerError (ℕ × ℕ) :=
  match data[offset]? with
  | none => .error (.valueError "invalid DER length offset")
  | some first =>
      if first < 0x80 then .ok (first.toNat, offset + 1)
      else
        let octets := (first &&& 0x7F).toNat
        if octets = 0 ∨ data.length < offset + 1 + octets then
          .error (.valueError "invalid DER length")
        else
          .ok (keyInt (slice data (offset + 1) (offset + 1 + octets)), offset + 1 + octets)

/-- The lines of `parse_ecdsa_der` that read one integer.  A slice that ends behind the signature
is cut off, but the tag is read by its index. -/
def parseDerInteger (signature : Bytes) (offset : ℕ) : Except DerError (ℕ × ℕ) :=
  match signature[offset]? with
  | none => .error .indexError
  | some tag =>
      if tag ≠ 0x02 then .error (.valueError "invalid DER integer tag")
      else do
        let (length, offset) ← derReadLength signature (offset + 1)
        .ok (keyInt (slice signature offset (offset + length)), offset + length)

/-- `parse_ecdsa_der`. -/
def parseEcdsaDer (signature : Bytes) : Except DerError (ℕ × ℕ) :=
  if signature.length < 8 ∨ signature[0]? ≠ some 0x30 then
    .error (.valueError "invalid DER sequence")
  else do
    let (seqLength, offset) ← derReadLength signature 1
    if offset + seqLength ≠ signature.length then
      .error (.valueError "invalid DER sequence length")
    else do
      let (r, offset) ← parseDerInteger signature offset
      let (s, offset) ← parseDerInteger signature offset
      if offset ≠ signature.length then .error (.valueError "unexpected trailing DER bytes")
      else .ok (r, s)

/-- `_der_encode_length`; `bytes` refuses an element above 255. -/
def derEncodeLength (length : ℕ) : Except DerError Bytes :=
  if length < 0x80 then .ok [UInt8.ofNat length]
  else
    let raw := intToBytes (byteWidth length) length
    if 255 < 0x80 ||| raw.length then .error (.valueError "bytes must be in range(0, 256)")
    else .ok (UInt8.ofNat (0x80 ||| raw.length) :: raw)

/-- The bytes that `_encode_der_integer` writes behind the length. -/
def derIntegerBytes (value : ℕ) : Bytes :=
  let raw := intToBytes (max 1 (byteWidth value)) value
  if raw.headD 0 &&& 0x80 ≠ 0 then 0 :: raw else raw

/-- `_encode_der_integer`. -/
def encodeDerInteger (value : ℕ) : Except DerError Bytes := do
  let raw := derIntegerBytes value
  let length ← derEncodeLength raw.length
  .ok (0x02 :: (length ++ raw))

/-- `encode_ecdsa_der`. -/
def encodeEcdsaDer (r s : ℕ) : Except DerError Bytes := do
  let first ← encodeDerInteger r
  let second ← encodeDerInteger s
  let body := first ++ second
  let length ← derEncodeLength body.length
  .ok (0x30 :: (length ++ body))

/-- `SECP256K1_ORDER`. -/
def secp256k1Order : ℕ := 0xFFFFFFFFFFFFFFFFFFFFFFFFFFFFFFFEBAAEDCE6AF48A03BBFD25E8CD0364141

/-- `LOW_S_MAX`. -/
def lowSMax : ℕ := secp256k1Order / 2

/-- `normalize_low_s`; `to_bytes` refuses the negative difference of a value above the order. -/
def normalizeLowS (signature : Bytes) : Except DerError Bytes := do
  let (r, s) ← parseEcdsaDer signature
  if lowSMax < s then
    if secp256k1Order < s then .error .overflowError else encodeEcdsaDer r (secp256k1Order - s)
  else encodeEcdsaDer r s

/-- `is_low_s_signature`. -/
def isLowSSignature (signature : Bytes) : Except DerError Bool := do
  let (_, s) ← parseEcdsaDer signature
  .ok (0 < s ∧ s ≤ lowSMax)

/-- `verify_digest_secp256k1`, up to the call of `openssl`. -/
def verifyDigestSecp256k1 (openssl : Bytes → Bytes → Bytes → Bool)
    (publicKeyPem digest signature : Bytes) : Except DerError Bool :=
  if digest.length ≠ 32 then .ok false
  else
    match isLowSSignature signature with
    | .ok true => .ok (openssl publicKeyPem digest signature)
    | .ok false => .ok false
    | .error (.valueError _) => .ok false
    | .error error => .error error

/-! ## Length fields -/

/-- A DER length in the short or in a long form, not necessarily the shortest. -/
inductive LengthField : ℕ → Bytes → Prop
  | short (first : UInt8) (small : first < 0x80) : LengthField first.toNat [first]
  | long (first : UInt8) (octets : Bytes) (nonempty : octets ≠ [])
      (count : first.toNat = 0x80 + octets.length) : LengthField (keyInt octets) (first :: octets)

/-- The short form, or as few octets as a length above it needs. -/
def ShortestLength : Bytes → Prop
  | [_] => True
  | [_, octet] => 0x80 ≤ octet
  | _ :: octet :: _ :: _ => octet ≠ 0
  | [] => False

/-- Contents of an integer that is not negative and not padded. -/
def ShortestInteger : Bytes → Prop
  | [byte] => byte < 0x80
  | byte :: next :: _ => byte < 0x80 ∧ (byte = 0 → 0x80 ≤ next)
  | [] => False

theorem LengthField.length_pos {length : ℕ} {field : Bytes} (codes : LengthField length field) :
    0 < field.length := by
  cases codes <;> exact Nat.succ_pos _

/-- Where a length field ends is seen from its first byte. -/
theorem readable_lengthField : Readable LengthField := by
  intro length field other field' rest rest' codes codes' equality
  cases codes with
  | short first small =>
      cases codes' with
      | short first' small' =>
          obtain ⟨rfl, rfl⟩ := List.cons.inj equality
          exact ⟨rfl, rfl, rfl⟩
      | long first' octets' nonempty' count' =>
          obtain ⟨rfl, -⟩ := List.cons.inj equality
          have below : first.toNat < 0x80 := small
          omega
  | long first octets nonempty count =>
      cases codes' with
      | short first' small' =>
          obtain ⟨rfl, -⟩ := List.cons.inj equality
          have below : first.toNat < 0x80 := small'
          omega
      | long first' octets' nonempty' count' =>
          obtain ⟨rfl, tail_eq⟩ := List.cons.inj equality
          obtain ⟨rfl, rfl⟩ := List.append_inj tail_eq (by omega)
          exact ⟨rfl, rfl, rfl⟩

theorem toNat_and_0x7F {first : UInt8} (large : ¬ first < 0x80) :
    (first &&& 0x7F).toNat + 0x80 = first.toNat := by
  have above : 0x80 ≤ first.toNat := Nat.not_lt.mp large
  have below : first.toNat < 256 := first.toNat_lt
  have low_bits : (first &&& 0x7F).toNat = first.toNat % 2 ^ 7 := by
    rw [UInt8.toNat_and]
    exact Nat.and_two_pow_sub_one_eq_mod first.toNat 7
  omega

/-- What is read as a length is a length field, and every length field is read. -/
theorem derReadLength_eq_ok_iff {data : Bytes} {offset length next : ℕ} :
    derReadLength data offset = .ok (length, next) ↔
      ∃ field tail, data.drop offset = field ++ tail ∧ LengthField length field ∧
        next = offset + field.length := by
  have head_eq : data[offset]? = (data.drop offset).head? := List.head?_drop.symm
  have rest_eq : data.drop (offset + 1) = (data.drop offset).tail := List.tail_drop.symm
  have size_eq : (data.drop offset).length = data.length - offset := List.length_drop
  unfold derReadLength slice
  rw [head_eq, rest_eq]
  simp only [Nat.add_sub_cancel_left]
  cases unread : data.drop offset with
  | nil =>
      simp only [List.head?_nil, reduceCtorEq, false_iff]
      rintro ⟨field, tail, append_eq, codes, -⟩
      have positive := codes.length_pos
      rw [(List.append_eq_nil_iff.mp append_eq.symm).1] at positive
      exact Nat.lt_irrefl 0 positive
  | cons first rest =>
      rw [unread, List.length_cons] at size_eq
      simp only [List.head?_cons, List.tail_cons]
      split
      · next small =>
          constructor
          · intro equality
            obtain ⟨rfl, rfl⟩ := Prod.mk.inj (Except.ok.inj equality)
            exact ⟨[first], rest, rfl, .short first small, rfl⟩
          · rintro ⟨field, tail, append_eq, codes, rfl⟩
            obtain ⟨rfl, rfl, -⟩ :=
              readable_lengthField _ (.short first small) codes append_eq
            rfl
      · next large =>
          have octets_eq := toNat_and_0x7F large
          split
          · next refused =>
              simp only [reduceCtorEq, false_iff]
              rintro ⟨field, tail, append_eq, codes, -⟩
              cases codes with
              | short byte small =>
                  obtain ⟨rfl, -⟩ := List.cons.inj append_eq
                  exact large small
              | long byte octets nonempty count =>
                  rw [List.cons_append] at append_eq
                  obtain ⟨rfl, rfl⟩ := List.cons.inj append_eq
                  have positive := List.length_pos_iff.mpr nonempty
                  rw [List.length_append] at size_eq
                  omega
          · next accepted =>
              have taken : (rest.take (first &&& 0x7F).toNat).length =
                  (first &&& 0x7F).toNat := by
                rw [List.length_take]
                omega
              have codes : LengthField (keyInt (rest.take (first &&& 0x7F).toNat))
                  (first :: rest.take (first &&& 0x7F).toNat) := by
                apply LengthField.long
                · rw [← List.length_pos_iff, taken]
                  omega
                · omega
              constructor
              · intro equality
                obtain ⟨rfl, rfl⟩ := Prod.mk.inj (Except.ok.inj equality)
                refine ⟨_, rest.drop (first &&& 0x7F).toNat, ?_, codes, ?_⟩
                · rw [List.cons_append, List.take_append_drop]
                · rw [List.length_cons, taken]
                  omega
              · rintro ⟨field, tail, append_eq, codes', rfl⟩
                have split_eq : first :: rest.take (first &&& 0x7F).toNat ++
                    rest.drop (first &&& 0x7F).toNat = field ++ tail := by
                  rw [List.cons_append, List.take_append_drop, append_eq]
                obtain ⟨rfl, rfl, -⟩ := readable_lengthField _ codes codes' split_eq
                rw [List.length_cons, taken, Nat.add_assoc, Nat.add_comm 1]

theorem derReadLength_error {data : Bytes} {offset : ℕ} {error : DerError}
    (raises : derReadLength data offset = .error error) :
    ∃ message, error = .valueError message := by
  rw [derReadLength] at raises
  split at raises
  · exact ⟨_, (Except.error.inj raises).symm⟩
  · split at raises
    · cases raises
    · dsimp only at raises
      split at raises
      · exact ⟨_, (Except.error.inj raises).symm⟩
      · cases raises

/-! ## Written lengths and integers -/

theorem and_0x80_ne_zero_iff (byte : UInt8) : byte &&& 0x80 ≠ 0 ↔ 0x80 ≤ byte := by
  have table : ∀ value < 256, value &&& 0x80 ≠ 0 ↔ 0x80 ≤ value := by decide +kernel
  have low_bits := table byte.toNat byte.toNat_lt
  rw [UInt8.le_iff_toNat_le, ne_eq, ← UInt8.toNat_inj, UInt8.toNat_and]
  exact low_bits

theorem toNat_ofNat_0x80_or {octets : ℕ} (short : octets < 0x80) :
    0x80 ||| octets = 0x80 + octets ∧ (UInt8.ofNat (0x80 ||| octets)).toNat = 0x80 + octets := by
  have sum_eq : 0x80 ||| octets = 0x80 + octets := by
    have disjoint := Nat.two_pow_add_eq_or_of_lt (i := 7) short 1
    exact disjoint.symm
  refine ⟨sum_eq, ?_⟩
  rw [sum_eq, UInt8.toNat_ofNat']
  omega

theorem ShortestLength.octets {first octet : UInt8} {rest : Bytes}
    (shortest : ShortestLength (first :: octet :: rest)) :
    octet ≠ 0 ∧ 0x80 ≤ keyInt (octet :: rest) := by
  cases rest with
  | nil =>
      have large : 0x80 ≤ octet.toNat := shortest
      constructor
      · rintro rfl
        exact absurd large (by decide)
      · simpa [keyInt] using large
  | cons next rest =>
      have nonzero : octet ≠ 0 := shortest
      have lower := pow_le_keyInt_cons nonzero (next :: rest)
      have one_more : 256 ^ 1 ≤ 256 ^ (next :: rest).length :=
        Nat.pow_le_pow_right (by decide) (Nat.succ_pos _)
      exact ⟨nonzero, by omega⟩

/-- The encoder writes the one length field without superfluous octets. -/
theorem derEncodeLength_eq_ok_iff {length : ℕ} (bound : length < 256 ^ 127) {field : Bytes} :
    derEncodeLength length = .ok field ↔ LengthField length field ∧ ShortestLength field := by
  have octets_le : byteWidth length ≤ 127 := (byteWidth_le_iff length 127).mpr bound
  obtain ⟨sum_eq, first_eq⟩ := toNat_ofNat_0x80_or (Nat.lt_succ_of_le octets_le)
  have not_refused : ¬ 255 < 0x80 ||| byteWidth length := by omega
  rw [derEncodeLength]
  simp only [length_intToBytes, not_refused, if_false]
  split
  · next small =>
      have toNat_eq : (UInt8.ofNat length).toNat = length := by
        rw [UInt8.toNat_ofNat']
        omega
      constructor
      · intro equality
        obtain rfl := Except.ok.inj equality
        have codes : LengthField (UInt8.ofNat length).toNat [UInt8.ofNat length] := by
          apply LengthField.short
          rw [UInt8.lt_iff_toNat_lt, toNat_eq]
          exact small
        rw [toNat_eq] at codes
        exact ⟨codes, trivial⟩
      · rintro ⟨codes, shortest⟩
        cases codes with
        | short first below => rw [UInt8.ofNat_toNat]
        | long first octets nonempty count =>
            cases octets with
            | nil => exact absurd rfl nonempty
            | cons octet rest =>
                have large := shortest.octets.2
                omega
  · next large =>
      constructor
      · intro equality
        obtain rfl := Except.ok.inj equality
        have value_eq := keyInt_intToBytes (lt_pow_byteWidth length)
        have octets_length := length_intToBytes (byteWidth length) length
        cases octets : intToBytes (byteWidth length) length with
        | nil =>
            rw [octets] at value_eq
            exact absurd value_eq.symm.le (by simpa [keyInt] using Nat.ne_of_gt (by omega))
        | cons octet rest =>
            have nonzero := head_ne_zero octets
            rw [octets] at value_eq octets_length
            have codes := LengthField.long (UInt8.ofNat (0x80 ||| byteWidth length))
              (octet :: rest) (List.cons_ne_nil _ _) (by rw [first_eq, octets_length])
            rw [value_eq] at codes
            refine ⟨codes, ?_⟩
            cases rest with
            | nil =>
                have octet_eq : octet.toNat = length := by simpa [keyInt] using value_eq
                rw [ShortestLength, UInt8.le_iff_toNat_le, octet_eq]
                exact Nat.not_lt.mp large
            | cons next rest => exact nonzero
      · rintro ⟨codes, shortest⟩
        cases codes with
        | short first below => exact absurd below large
        | long first octets nonempty count =>
            cases octets with
            | nil => exact absurd rfl nonempty
            | cons octet rest =>
                have octets_eq := intToBytes_byteWidth_keyInt shortest.octets.1 rest
                have width_eq := congrArg List.length octets_eq
                rw [length_intToBytes] at width_eq
                have first_ofNat : UInt8.ofNat (0x80 ||| byteWidth (keyInt (octet :: rest))) =
                    first := by
                  apply UInt8.toNat_inj.mp
                  omega
                rw [octets_eq, first_ofNat]

theorem derIntegerBytes_of_ne_zero {first : UInt8} (nonzero : first ≠ 0) (rest : Bytes) :
    derIntegerBytes (keyInt (first :: rest)) =
      if 0x80 ≤ first then 0 :: first :: rest else first :: rest := by
  have octets_eq := intToBytes_byteWidth_keyInt nonzero rest
  have width_eq := congrArg List.length octets_eq
  rw [length_intToBytes, List.length_cons] at width_eq
  have one_le : max 1 (byteWidth (keyInt (first :: rest))) = byteWidth (keyInt (first :: rest)) :=
    Nat.max_eq_right (by omega)
  rw [derIntegerBytes]
  rw [one_le, octets_eq]
  simp only [List.headD_cons, and_0x80_ne_zero_iff]

theorem exists_bytes_of_pos {value : ℕ} (positive : 0 < value) :
    ∃ first rest, first ≠ 0 ∧ keyInt (first :: rest) = value := by
  have value_eq := keyInt_intToBytes (lt_pow_byteWidth value)
  cases octets : intToBytes (byteWidth value) value with
  | nil =>
      rw [octets] at value_eq
      exact absurd value_eq (Nat.ne_of_lt positive)
  | cons first rest =>
      rw [octets] at value_eq
      exact ⟨first, rest, head_ne_zero octets, value_eq⟩

/-- The encoder writes the shortest contents of a number. -/
theorem derIntegerBytes_eq_iff {value : ℕ} {contents : Bytes} :
    derIntegerBytes value = contents ↔ ShortestInteger contents ∧ keyInt contents = value := by
  constructor
  · rintro rfl
    rcases Nat.eq_zero_or_pos value with rfl | positive
    · have zero_eq : derIntegerBytes 0 = [0] := by decide
      have small : (0 : UInt8) < 0x80 := by decide
      rw [zero_eq]
      exact ⟨small, rfl⟩
    · obtain ⟨first, rest, nonzero, rfl⟩ := exists_bytes_of_pos positive
      rw [derIntegerBytes_of_ne_zero nonzero]
      split
      · next large => exact ⟨⟨by decide, fun _ => large⟩, keyInt_zero_cons _⟩
      · next small =>
          have below : first < 0x80 := UInt8.not_le.mp small
          cases rest with
          | nil => exact ⟨below, rfl⟩
          | cons next rest => exact ⟨⟨below, fun zero => absurd zero nonzero⟩, rfl⟩
  · rintro ⟨shortest, rfl⟩
    match contents, shortest with
    | [byte], below =>
        by_cases zero : byte = 0
        · rw [zero]
          decide
        · rw [derIntegerBytes_of_ne_zero zero, if_neg (UInt8.not_le.mpr below)]
    | byte :: next :: rest, ⟨below, padded⟩ =>
        by_cases zero : byte = 0
        · have large := padded zero
          have nonzero : next ≠ 0 := by
            rintro rfl
            exact absurd large (by decide)
          rw [zero, keyInt_zero_cons, derIntegerBytes_of_ne_zero nonzero, if_pos large]
        · rw [derIntegerBytes_of_ne_zero zero, if_neg (UInt8.not_le.mpr below)]

/-! ## The framing of a signature -/

/-- The parts of a byte string that is framed as a sequence of two integers. -/
structure SignatureFraming (signature header first r second s : Bytes) : Prop where
  /-- The parts in their order. -/
  text : signature = 0x30 :: (header ++ 0x02 :: (first ++ (r ++ 0x02 :: (second ++ s))))
  /-- The header gives the length of what stands behind it. -/
  sequence : LengthField (0x02 :: (first ++ (r ++ 0x02 :: (second ++ s)))).length header
  /-- The field before the first integer gives its length. -/
  first_length : LengthField r.length first
  /-- The field before the second integer gives its length. -/
  second_length : LengthField s.length second

theorem SignatureFraming.unique
    {signature header first r second s header' first' r' second' s' : Bytes}
    (framing : SignatureFraming signature header first r second s)
    (framing' : SignatureFraming signature header' first' r' second' s') :
    header = header' ∧ first = first' ∧ r = r' ∧ second = second' ∧ s = s' := by
  obtain ⟨text, sequence, first_length, second_length⟩ := framing
  obtain ⟨text', sequence', first_length', second_length'⟩ := framing'
  have sequence_eq := (List.cons.inj (text.symm.trans text')).2
  obtain ⟨-, rfl, body_eq⟩ := readable_lengthField _ sequence sequence' sequence_eq
  obtain ⟨r_length, rfl, tail_eq⟩ :=
    readable_lengthField _ first_length first_length' (List.cons.inj body_eq).2
  obtain ⟨rfl, second_eq⟩ := List.append_inj tail_eq r_length
  obtain ⟨-, rfl, rfl⟩ :=
    readable_lengthField _ second_length second_length' (List.cons.inj second_eq).2
  exact ⟨rfl, rfl, rfl, rfl, rfl⟩

theorem eq_cons_of_drop_one {data rest : Bytes} {byte : UInt8} (head : data[0]? = some byte)
    (unread : data.drop 1 = rest) : data = byte :: rest := by
  cases data with
  | nil => cases head
  | cons first others =>
      obtain rfl := Option.some.inj head
      exact congrArg (List.cons first) unread

theorem drop_after {data tail : Bytes} {offset : ℕ} (front : Bytes)
    (unread : data.drop offset = front ++ tail) (more : ℕ) :
    data.drop (offset + front.length + more) = tail.drop more := by
  rw [← List.drop_drop, ← List.drop_drop, unread, List.drop_left]

theorem parseDerInteger_eq_ok_iff {signature : Bytes} {offset value next : ℕ} :
    parseDerInteger signature offset = .ok (value, next) ↔
      ∃ length field tail, signature.drop offset = 0x02 :: (field ++ tail) ∧
        LengthField length field ∧ value = keyInt (tail.take length) ∧
        next = offset + 1 + field.length + length := by
  have head_eq : signature[offset]? = (signature.drop offset).head? := List.head?_drop.symm
  have rest_eq : signature.drop (offset + 1) = (signature.drop offset).tail := List.tail_drop.symm
  unfold parseDerInteger slice
  rw [head_eq]
  cases unread : signature.drop offset with
  | nil => simp
  | cons tag rest =>
      rw [unread, List.tail_cons] at rest_eq
      simp only [List.head?_cons]
      split
      · next wrong_tag => simp [wrong_tag]
      · next tag_eq =>
          simp only [bind_eq_ok, Prod.exists, derReadLength_eq_ok_iff, rest_eq,
            Except.ok.injEq, Prod.mk.injEq, List.cons.injEq, not_not.mp tag_eq, true_and,
            Nat.add_sub_cancel_left]
          constructor
          · rintro ⟨length, _, ⟨field, tail, append_eq, codes, rfl⟩, rfl, rfl⟩
            have tail_eq : signature.drop (offset + 1 + field.length) = tail := by
              rw [← List.drop_drop, rest_eq, append_eq, List.drop_left]
            rw [tail_eq]
            exact ⟨length, field, tail, append_eq, codes, rfl, rfl⟩
          · rintro ⟨length, field, tail, append_eq, codes, rfl, rfl⟩
            have tail_eq : signature.drop (offset + 1 + field.length) = tail := by
              rw [← List.drop_drop, rest_eq, append_eq, List.drop_left]
            refine ⟨length, _, ⟨field, tail, append_eq, codes, rfl⟩, ?_, rfl⟩
            rw [tail_eq]

theorem parseDerInteger_eq_indexError_iff {signature : Bytes} {offset : ℕ} :
    parseDerInteger signature offset = .error .indexError ↔ signature.drop offset = [] := by
  have head_eq : signature[offset]? = (signature.drop offset).head? := List.head?_drop.symm
  rw [parseDerInteger]
  rw [head_eq]
  cases unread : signature.drop offset with
  | nil => simp
  | cons tag rest =>
      simp only [List.head?_cons, reduceCtorEq, iff_false]
      split
      · simp
      · cases read : derReadLength signature (offset + 1) with
        | error error =>
            obtain ⟨message, rfl⟩ := derReadLength_error read
            simp [bind, Except.bind]
        | ok found => simp [bind, Except.bind]

theorem parseDerInteger_error {signature : Bytes} {offset : ℕ} {error : DerError}
    (raises : parseDerInteger signature offset = .error error) :
    error = .indexError ∨ ∃ message, error = .valueError message := by
  rw [parseDerInteger] at raises
  split at raises
  · exact .inl (Except.error.inj raises).symm
  · split at raises
    · exact .inr ⟨_, (Except.error.inj raises).symm⟩
    · cases read : derReadLength signature (offset + 1) with
      | error error =>
          rw [read] at raises
          obtain rfl := Except.error.inj raises
          exact .inr (derReadLength_error read)
      | ok found =>
          rw [read] at raises
          cases raises

/-- The parser accepts what is framed as a sequence of two integers, and nothing else. -/
theorem parseEcdsaDer_eq_ok_iff {signature : Bytes} {r s : ℕ} :
    parseEcdsaDer signature = .ok (r, s) ↔
      8 ≤ signature.length ∧ ∃ header first rBytes second sBytes,
        SignatureFraming signature header first rBytes second sBytes ∧
          r = keyInt rBytes ∧ s = keyInt sBytes := by
  rw [parseEcdsaDer]
  constructor
  · intro accepted
    split at accepted
    · cases accepted
    · next sequence =>
        obtain ⟨long, tag⟩ := not_or.mp sequence
        obtain ⟨⟨seqLength, afterHeader⟩, header_read, accepted⟩ :=
          bind_eq_ok.mp accepted
        dsimp only at accepted
        split at accepted
        · cases accepted
        · next total =>
            obtain ⟨⟨rValue, afterR⟩, r_read, accepted⟩ := bind_eq_ok.mp accepted
            obtain ⟨⟨sValue, afterS⟩, s_read, accepted⟩ := bind_eq_ok.mp accepted
            dsimp only at s_read accepted
            split at accepted
            · cases accepted
            · next ends =>
                obtain ⟨rfl, rfl⟩ := Prod.mk.inj (Except.ok.inj accepted)
                obtain ⟨header, body, header_eq, codes, rfl⟩ :=
                  derReadLength_eq_ok_iff.mp header_read
                obtain ⟨rLength, first, tail, body_eq, first_codes, rfl, rfl⟩ :=
                  parseDerInteger_eq_ok_iff.mp r_read
                obtain ⟨sLength, second, rest, tail_eq, second_codes, rfl, rfl⟩ :=
                  parseDerInteger_eq_ok_iff.mp s_read
                have signature_eq := eq_cons_of_drop_one (not_not.mp tag) header_eq
                have body_unread := drop_after header header_eq 0
                rw [Nat.add_zero, body_eq, List.drop_zero] at body_unread
                subst body_unread
                have tail_unread := drop_after (0x02 :: first) body_eq rLength
                rw [List.length_cons, Nat.add_comm first.length 1, ← Nat.add_assoc, tail_eq]
                  at tail_unread
                have tail_split := List.take_append_drop rLength tail
                rw [← tail_unread] at tail_split
                have signature_length := congrArg List.length signature_eq
                have tail_length := congrArg List.length tail_split
                have rest_length := congrArg List.length tail_unread
                simp only [List.length_cons, List.length_append, List.length_drop]
                  at signature_length tail_length rest_length
                have r_length : (tail.take rLength).length = rLength := by omega
                have s_eq : rest.take sLength = rest := List.take_of_length_le (by omega)
                refine ⟨Nat.not_lt.mp long, header, first, tail.take rLength, second, rest,
                  ⟨?_, ?_, ?_, ?_⟩, rfl, by rw [s_eq]⟩
                · rw [tail_split]
                  exact signature_eq
                · rw [tail_split]
                  have seq_length : seqLength = (0x02 :: (first ++ tail)).length := by
                    simp only [List.length_cons, List.length_append]
                    omega
                  rwa [← seq_length]
                · rwa [r_length]
                · have s_length : rest.length = sLength := by omega
                  rwa [s_length]
  · rintro ⟨long, header, first, rBytes, second, sBytes, framing, rfl, rfl⟩
    obtain ⟨signature_eq, sequence, first_codes, second_codes⟩ := framing
    have header_eq : signature.drop 1 =
        header ++ 0x02 :: (first ++ (rBytes ++ 0x02 :: (second ++ sBytes))) := by
      rw [signature_eq]
      rfl
    have body_eq := drop_after header header_eq 0
    rw [Nat.add_zero, List.drop_zero] at body_eq
    have tail_eq := drop_after (0x02 :: first) body_eq rBytes.length
    rw [List.length_cons, Nat.add_comm first.length 1, ← Nat.add_assoc, List.drop_left]
      at tail_eq
    have header_read := derReadLength_eq_ok_iff.mpr ⟨header, _, header_eq, sequence, rfl⟩
    have r_read := parseDerInteger_eq_ok_iff.mpr
      ⟨rBytes.length, first, _, body_eq, first_codes, rfl, rfl⟩
    have s_read := parseDerInteger_eq_ok_iff.mpr
      ⟨sBytes.length, second, _, tail_eq, second_codes, rfl, rfl⟩
    rw [List.take_left] at r_read
    rw [List.take_length] at s_read
    have signature_length := congrArg List.length signature_eq
    simp only [List.length_cons, List.length_append] at signature_length
    rw [if_neg (not_or.mpr ⟨Nat.not_lt.mpr long, by rw [signature_eq]; simp⟩)]
    apply bind_eq_ok.mpr
    refine ⟨_, header_read, ?_⟩
    dsimp only
    rw [if_neg (by simp only [List.length_cons, List.length_append]; omega)]
    apply bind_eq_ok.mpr
    refine ⟨_, r_read, ?_⟩
    apply bind_eq_ok.mpr
    refine ⟨_, s_read, ?_⟩
    dsimp only
    rw [if_neg (by omega)]

/-- A signature that consists of a sequence header, or whose first integer is not followed by a
byte. -/
inductive EndsTooSoon : Bytes → Prop
  | sequence {header : Bytes} (empty : LengthField 0 header) : EndsTooSoon (0x30 :: header)
  | integer {header first tail : Bytes} {length : ℕ}
      (sequence : LengthField (0x02 :: (first ++ tail)).length header)
      (first_length : LengthField length first) (overruns : tail.length ≤ length) :
      EndsTooSoon (0x30 :: (header ++ 0x02 :: (first ++ tail)))

theorem parseEcdsaDer_error {signature : Bytes} {error : DerError}
    (raises : parseEcdsaDer signature = .error error) :
    error = .indexError ∨ ∃ message, error = .valueError message := by
  rw [parseEcdsaDer] at raises
  split at raises
  · exact .inr ⟨_, (Except.error.inj raises).symm⟩
  · rcases bind_eq_error.mp raises with header_raises | ⟨⟨seqLength, offset⟩, header_read, raises⟩
    · exact .inr (derReadLength_error header_raises)
    · dsimp only at raises
      split at raises
      · exact .inr ⟨_, (Except.error.inj raises).symm⟩
      · rcases bind_eq_error.mp raises with r_raises | ⟨⟨r, offset⟩, r_read, raises⟩
        · exact parseDerInteger_error r_raises
        · rcases bind_eq_error.mp raises with s_raises | ⟨⟨s, offset⟩, s_read, raises⟩
          · exact parseDerInteger_error s_raises
          · dsimp only at raises
            split at raises
            · exact .inr ⟨_, (Except.error.inj raises).symm⟩
            · cases raises

/-- The exception that is no `ValueError` is raised where a tag is missing. -/
theorem parseEcdsaDer_eq_indexError_iff {signature : Bytes} :
    parseEcdsaDer signature = .error .indexError ↔
      8 ≤ signature.length ∧ EndsTooSoon signature := by
  rw [parseEcdsaDer]
  constructor
  · intro raises
    split at raises
    · cases raises
    · next sequence =>
        obtain ⟨long, tag⟩ := not_or.mp sequence
        refine ⟨Nat.not_lt.mp long, ?_⟩
        rcases bind_eq_error.mp raises with
          header_raises | ⟨⟨seqLength, afterHeader⟩, header_read, raises⟩
        · obtain ⟨message, message_eq⟩ := derReadLength_error header_raises
          cases message_eq
        · dsimp only at raises
          split at raises
          · cases raises
          · next total =>
              obtain ⟨header, body, header_eq, codes, rfl⟩ :=
                derReadLength_eq_ok_iff.mp header_read
              obtain rfl := eq_cons_of_drop_one (not_not.mp tag) header_eq
              have body_unread := drop_after header header_eq 0
              rw [Nat.add_zero, List.drop_zero] at body_unread
              have body_length : seqLength = body.length := by
                simp only [List.length_cons, List.length_append] at total
                omega
              subst body_length
              rcases bind_eq_error.mp raises with r_raises | ⟨⟨r, afterR⟩, r_read, raises⟩
              · rw [parseDerInteger_eq_indexError_iff, body_unread] at r_raises
                subst r_raises
                rw [List.append_nil]
                exact .sequence codes
              · obtain ⟨rLength, first, tail, body_eq, first_codes, rfl, rfl⟩ :=
                  parseDerInteger_eq_ok_iff.mp r_read
                obtain rfl := body_unread.symm.trans body_eq
                rcases bind_eq_error.mp raises with s_raises | ⟨⟨s, afterS⟩, s_read, raises⟩
                · have tail_unread := drop_after (0x02 :: first) body_eq rLength
                  rw [List.length_cons, Nat.add_comm first.length 1, ← Nat.add_assoc,
                    parseDerInteger_eq_indexError_iff.mp s_raises] at tail_unread
                  exact .integer codes first_codes
                    (List.drop_eq_nil_iff.mp tail_unread.symm)
                · dsimp only at raises
                  split at raises <;> cases raises
  · rintro ⟨long, ends⟩
    rw [if_neg (not_or.mpr ⟨Nat.not_lt.mpr long, by cases ends <;> simp⟩)]
    apply bind_eq_error.mpr
    cases ends with
    | @sequence header empty =>
        have header_eq : (0x30 :: header).drop 1 = header ++ [] := (List.append_nil header).symm
        have header_read := derReadLength_eq_ok_iff.mpr ⟨header, [], header_eq, empty, rfl⟩
        have unread := drop_after header header_eq 0
        refine .inr ⟨_, header_read, ?_⟩
        dsimp only
        rw [if_neg (by simp only [List.length_cons]; omega)]
        apply bind_eq_error.mpr
        exact .inl (parseDerInteger_eq_indexError_iff.mpr unread)
    | @integer header first tail length sequence first_length overruns =>
        have header_eq : (0x30 :: (header ++ 0x02 :: (first ++ tail))).drop 1 =
          header ++ 0x02 :: (first ++ tail) := rfl
        have body_eq := drop_after header header_eq 0
        have header_read := derReadLength_eq_ok_iff.mpr ⟨header, _, header_eq, sequence, rfl⟩
        have r_read := parseDerInteger_eq_ok_iff.mpr
          ⟨length, first, tail, body_eq, first_length, rfl, rfl⟩
        have unread := drop_after (0x02 :: first) body_eq length
        rw [List.length_cons, Nat.add_comm first.length 1, ← Nat.add_assoc,
          List.drop_eq_nil_of_le overruns] at unread
        refine .inr ⟨_, header_read, ?_⟩
        dsimp only
        rw [if_neg (by simp only [List.length_cons, List.length_append]; omega)]
        apply bind_eq_error.mpr
        refine .inr ⟨_, r_read, ?_⟩
        apply bind_eq_error.mpr
        exact .inl (parseDerInteger_eq_indexError_iff.mpr unread)

/-! ## Where the parser accepts the encoder's image only -/

/-- The encoder's output is the framing with the shortest lengths and integers. -/
theorem encodeEcdsaDer_eq_ok_iff {signature : Bytes} (bound : signature.length < 256 ^ 127)
    {r s : ℕ} :
    encodeEcdsaDer r s = .ok signature ↔
      ∃ header first rBytes second sBytes,
        SignatureFraming signature header first rBytes second sBytes ∧
          (ShortestLength header ∧ ShortestLength first ∧ ShortestLength second) ∧
          (ShortestInteger rBytes ∧ ShortestInteger sBytes) ∧
          r = keyInt rBytes ∧ s = keyInt sBytes := by
  unfold encodeEcdsaDer encodeDerInteger
  simp only [bind_eq_ok, Except.ok.injEq]
  constructor
  · rintro ⟨_, ⟨first, first_codes, rfl⟩, _, ⟨second, second_codes, rfl⟩, header, codes, rfl⟩
    obtain ⟨r_shortest, r_eq⟩ := derIntegerBytes_eq_iff.mp (rfl : derIntegerBytes r = _)
    obtain ⟨s_shortest, s_eq⟩ := derIntegerBytes_eq_iff.mp (rfl : derIntegerBytes s = _)
    simp only [List.cons_append, List.append_assoc] at bound codes ⊢
    have size := bound
    simp only [List.length_cons, List.length_append] at size
    obtain ⟨first_field, first_shortest⟩ := (derEncodeLength_eq_ok_iff (by omega)).mp first_codes
    obtain ⟨second_field, second_shortest⟩ :=
      (derEncodeLength_eq_ok_iff (by omega)).mp second_codes
    obtain ⟨field, shortest⟩ := (derEncodeLength_eq_ok_iff
      (by simp only [List.length_cons, List.length_append]; omega)).mp codes
    exact ⟨header, first, derIntegerBytes r, second, derIntegerBytes s,
      ⟨rfl, field, first_field, second_field⟩, ⟨shortest, first_shortest, second_shortest⟩,
      ⟨r_shortest, s_shortest⟩, r_eq.symm, s_eq.symm⟩
  · rintro ⟨header, first, rBytes, second, sBytes, ⟨text, sequence, first_field, second_field⟩,
      ⟨shortest, first_shortest, second_shortest⟩, ⟨r_shortest, s_shortest⟩, rfl, rfl⟩
    have size := congrArg List.length text
    simp only [List.length_cons, List.length_append] at size
    have first_codes := (derEncodeLength_eq_ok_iff (by omega)).mpr ⟨first_field, first_shortest⟩
    have second_codes :=
      (derEncodeLength_eq_ok_iff (by omega)).mpr ⟨second_field, second_shortest⟩
    have codes := (derEncodeLength_eq_ok_iff
      (by simp only [List.length_cons, List.length_append]; omega)).mpr ⟨sequence, shortest⟩
    rw [derIntegerBytes_eq_iff.mpr ⟨r_shortest, rfl⟩, derIntegerBytes_eq_iff.mpr ⟨s_shortest, rfl⟩]
    refine ⟨_, ⟨first, first_codes, rfl⟩, _, ⟨second, second_codes, rfl⟩, header, ?_, ?_⟩
    · simpa only [List.cons_append, List.append_assoc] using codes
    · simpa only [List.cons_append, List.append_assoc] using text.symm

/-- Whatever is framed as a signature is not cut off behind its first integer, and uses the
shortest lengths and integers. -/
structure WellWritten (signature : Bytes) : Prop where
  /-- A byte follows the sequence header, and a byte follows the first integer. -/
  goes_on : ¬ EndsTooSoon signature
  /-- Lengths and integers are written in their shortest form. -/
  shortest : ∀ {header first r second s}, SignatureFraming signature header first r second s →
    (ShortestLength header ∧ ShortestLength first ∧ ShortestLength second) ∧
      ShortestInteger r ∧ ShortestInteger s

/-- The parser reads a byte string back into the arguments of the encoder, or refuses it with a
`ValueError`, and the verifier answers a byte string that the encoder does not write. -/
structure ParsesTheImage (signature : Bytes) : Prop where
  /-- The parser inverts the encoder. -/
  accepts_iff : ∀ r s, parseEcdsaDer signature = .ok (r, s) ↔ encodeEcdsaDer r s = .ok signature
  /-- No exception but `ValueError` is raised. -/
  raises : ∀ error, parseEcdsaDer signature = .error error → ∃ message, error = .valueError message
  /-- A malformed signature is refused before the external call. -/
  refuses : (∀ r s, encodeEcdsaDer r s ≠ .ok signature) →
    ∀ openssl publicKeyPem digest,
      verifyDigestSecp256k1 openssl publicKeyPem digest signature = .ok false

/-- A `bytes` object, whose length is a `Py_ssize_t`. -/
structure ByteString where
  /-- The bytes in their order. -/
  bytes : Bytes
  /-- The largest length of a Python object. -/
  length_lt : bytes.length < 2 ^ 63

theorem ByteString.length_lt_pow (signature : ByteString) :
    signature.bytes.length < 256 ^ 127 := by
  calc
    signature.bytes.length < 2 ^ 63 := signature.length_lt
    _ ≤ 256 ^ 8 := by decide
    _ ≤ 256 ^ 127 := Nat.pow_le_pow_right (by decide) (by decide)

theorem verifyDigestSecp256k1_of_valueError {signature : Bytes} {message : String}
    (refused : parseEcdsaDer signature = .error (.valueError message))
    (openssl : Bytes → Bytes → Bytes → Bool) (publicKeyPem digest : Bytes) :
    verifyDigestSecp256k1 openssl publicKeyPem digest signature = .ok false := by
  unfold verifyDigestSecp256k1 isLowSSignature
  rw [refused]
  split <;> rfl

theorem ShortestInteger.length_pos {contents : Bytes} (shortest : ShortestInteger contents) :
    0 < contents.length := by
  cases contents with
  | nil => exact shortest.elim
  | cons => exact Nat.succ_pos _

theorem eight_le_length {signature : Bytes} (bound : signature.length < 256 ^ 127) {r s : ℕ}
    (encodes : encodeEcdsaDer r s = .ok signature) : 8 ≤ signature.length := by
  obtain ⟨header, first, rBytes, second, sBytes, framing, -, ⟨r_shortest, s_shortest⟩, -⟩ :=
    (encodeEcdsaDer_eq_ok_iff bound).mp encodes
  have size := congrArg List.length framing.text
  have header_length := framing.sequence.length_pos
  have first_length := framing.first_length.length_pos
  have second_length := framing.second_length.length_pos
  have r_length := r_shortest.length_pos
  have s_length := s_shortest.length_pos
  simp only [List.length_cons, List.length_append] at size
  omega

theorem parseEcdsaDer_encodeEcdsaDer {signature : Bytes} (bound : signature.length < 256 ^ 127)
    {r s : ℕ} (encodes : encodeEcdsaDer r s = .ok signature) :
    parseEcdsaDer signature = .ok (r, s) := by
  obtain ⟨header, first, rBytes, second, sBytes, framing, -, -, values⟩ :=
    (encodeEcdsaDer_eq_ok_iff bound).mp encodes
  exact parseEcdsaDer_eq_ok_iff.mpr
    ⟨eight_le_length bound encodes, _, _, _, _, _, framing, values⟩

theorem WellWritten.encodeEcdsaDer_eq {signature : Bytes} (written : WellWritten signature)
    (bound : signature.length < 256 ^ 127) {r s : ℕ}
    (accepted : parseEcdsaDer signature = .ok (r, s)) : encodeEcdsaDer r s = .ok signature := by
  obtain ⟨-, header, first, rBytes, second, sBytes, framing, values⟩ :=
    parseEcdsaDer_eq_ok_iff.mp accepted
  obtain ⟨lengths, integers⟩ := written.shortest framing
  exact (encodeEcdsaDer_eq_ok_iff bound).mpr
    ⟨_, _, _, _, _, framing, lengths, integers, values⟩

theorem wellWritten_of_encodeEcdsaDer {signature : Bytes} (bound : signature.length < 256 ^ 127)
    {r s : ℕ} (encodes : encodeEcdsaDer r s = .ok signature) : WellWritten signature := by
  have accepted := parseEcdsaDer_encodeEcdsaDer bound encodes
  constructor
  · intro ends
    have long := eight_le_length bound encodes
    rw [parseEcdsaDer_eq_indexError_iff.mpr ⟨long, ends⟩] at accepted
    cases accepted
  · intro header first r second s framing
    obtain ⟨header', first', r', second', s', framing', lengths, integers, -⟩ :=
      (encodeEcdsaDer_eq_ok_iff bound).mp encodes
    obtain ⟨rfl, rfl, rfl, rfl, rfl⟩ := framing.unique framing'
    exact ⟨lengths, integers⟩

theorem wellWritten_of_normalizeLowS {signature normalized : Bytes}
    (bound : normalized.length < 256 ^ 127)
    (normalizes : normalizeLowS signature = .ok normalized) :
    WellWritten normalized := by
  obtain ⟨⟨r, s⟩, -, normalizes⟩ := bind_eq_ok.mp normalizes
  dsimp only at normalizes
  split at normalizes
  · split at normalizes
    · cases normalizes
    · exact wellWritten_of_encodeEcdsaDer bound normalizes
  · exact wellWritten_of_encodeEcdsaDer bound normalizes

/-- The byte strings on which the parser and the encoder agree: those below eight bytes, which are
refused at once, and the well written ones. -/
def ShortOrWellWritten (signature : Bytes) : Prop :=
  8 ≤ signature.length → WellWritten signature

theorem parsesTheImage_iff (signature : ByteString) :
    ParsesTheImage signature.bytes ↔ ShortOrWellWritten signature.bytes := by
  have bound := signature.length_lt_pow
  constructor
  · rintro ⟨accepts_iff, raises, -⟩ long
    constructor
    · intro ends
      obtain ⟨message, message_eq⟩ :=
        raises _ (parseEcdsaDer_eq_indexError_iff.mpr ⟨long, ends⟩)
      cases message_eq
    · intro header first r second s framing
      have accepted := parseEcdsaDer_eq_ok_iff.mpr ⟨long, _, _, _, _, _, framing, rfl, rfl⟩
      obtain ⟨header', first', r', second', s', framing', lengths, integers, -⟩ :=
        (encodeEcdsaDer_eq_ok_iff bound).mp ((accepts_iff _ _).mp accepted)
      obtain ⟨rfl, rfl, rfl, rfl, rfl⟩ := framing.unique framing'
      exact ⟨lengths, integers⟩
  · intro written
    have accepts_iff : ∀ r s,
        parseEcdsaDer signature.bytes = .ok (r, s) ↔ encodeEcdsaDer r s = .ok signature.bytes := by
      intro r s
      constructor
      · intro accepted
        have long := (parseEcdsaDer_eq_ok_iff.mp accepted).1
        exact (written long).encodeEcdsaDer_eq bound accepted
      · exact parseEcdsaDer_encodeEcdsaDer bound
    have raises : ∀ error, parseEcdsaDer signature.bytes = .error error →
        ∃ message, error = .valueError message := by
      intro error raised
      rcases parseEcdsaDer_error raised with rfl | value_error
      · obtain ⟨long, ends⟩ := parseEcdsaDer_eq_indexError_iff.mp raised
        exact absurd ends (written long).goes_on
      · exact value_error
    refine ⟨accepts_iff, raises, ?_⟩
    intro malformed openssl publicKeyPem digest
    cases parsed : parseEcdsaDer signature.bytes with
    | ok value => exact absurd ((accepts_iff value.1 value.2).mp parsed) (malformed _ _)
    | error error =>
        obtain ⟨message, rfl⟩ := raises error parsed
        exact verifyDigestSecp256k1_of_valueError parsed openssl publicKeyPem digest

/-- The parser accepts exactly what the encoder writes where the byte string is well written, and
among such byte strings a signature has one form only. -/
theorem parser_inverts_encoder_iff (signature : ByteString) :
    (ParsesTheImage signature.bytes ↔ ShortOrWellWritten signature.bytes) ∧
      ∀ (other : ByteString) (r s : ℕ),
        ShortOrWellWritten signature.bytes → ShortOrWellWritten other.bytes →
        parseEcdsaDer signature.bytes = .ok (r, s) → parseEcdsaDer other.bytes = .ok (r, s) →
          signature.bytes = other.bytes := by
  refine ⟨parsesTheImage_iff signature, ?_⟩
  intro other r s written written' accepted accepted'
  have encodes := (((parsesTheImage_iff signature).mpr written).accepts_iff r s).mp accepted
  have encodes' := (((parsesTheImage_iff other).mpr written').accepts_iff r s).mp accepted'
  exact Except.ok.inj (encodes.symm.trans encodes')

/-- An empty sequence with a long length stops the verifier with an `IndexError`, and a length
that is not the shortest is accepted. -/
theorem parser_leaves_image :
    ¬ ParsesTheImage [0x30, 0x86, 0, 0, 0, 0, 0, 0] ∧
      (∀ openssl publicKeyPem, verifyDigestSecp256k1 openssl publicKeyPem (List.replicate 32 0)
        [0x30, 0x86, 0, 0, 0, 0, 0, 0] = .error .indexError) ∧
      ¬ ParsesTheImage [0x30, 0x81, 0x06, 0x02, 0x01, 0x01, 0x02, 0x01, 0x01] := by
  refine ⟨?_, fun openssl publicKeyPem => rfl, ?_⟩
  · intro image
    have raised : parseEcdsaDer [0x30, 0x86, 0, 0, 0, 0, 0, 0] = .error .indexError := rfl
    obtain ⟨message, message_eq⟩ := image.raises _ raised
    cases message_eq
  · intro image
    have accepted : parseEcdsaDer [0x30, 0x81, 0x06, 0x02, 0x01, 0x01, 0x02, 0x01, 0x01] =
        .ok (1, 1) := rfl
    exact absurd ((image.accepts_iff 1 1).mp accepted) (by decide)

end EZChain
