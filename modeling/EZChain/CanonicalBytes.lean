import EZChain.BigEndian
import EZChain.Encoding
import EZChain.Library.Checks
import EZChain.Library.PrefixCodes

/-!
# Canonical byte strings

`canonical_encode` normalises a Python object and writes the result as bytes: a type byte, then a
length where the type has one, then the contents.  The byte string shows the whole normalised
object, so a hash of it commits to the object up to the order of dictionary entries.
-/

namespace EZChain

open Checks PrefixCodes

/-! ## Objects and their normal forms -/

/-- Python objects, as far as `canonicalize` looks at them. -/
inductive PyObject where
  | none
  | bool (value : Bool)
  | int (value : ℤ)
  | bytes (value : Bytes)
  | str (value : String)
  /-- A member of an `Enum` class with texts as values. -/
  | enumMember (value : String)
  /-- An object with a method `to_canonical`, and what the method returns. -/
  | convertible (canonical : PyObject)
  /-- A dataclass instance with the names and values of its fields. -/
  | dataclass (fields : List (String × PyObject))
  | list (items : List PyObject)
  | tuple (items : List PyObject)
  /-- A dictionary with `str(key)` in the place of each key, in insertion order. -/
  | dict (entries : List (String × PyObject))
  /-- Any other object, such as a float or a set. -/
  | unsupported

/-- What `canonicalize` returns. -/
inductive Normal where
  | none
  | bool (value : Bool)
  | int (value : ℤ)
  | bytes (value : Bytes)
  | str (value : String)
  | list (items : List Normal)
  | dict (entries : List (String × Normal))

/-- Exceptions of the encoder. -/
inductive EncodingError where
  | typeError
  | overflowError
  deriving DecidableEq, Repr

/-- `normalized[key] = value` for each entry in turn. -/
def normalizedDict (entries : List (String × Normal)) : Normal :=
  .dict (entries.foldl (fun normalized entry => OrderedDict.setEntry entry.1 entry.2 normalized) [])

/-- `sorted(entries, key=...)` by the text of the key, keeping the order of equal texts. -/
def sortByKey {α : Type} (entries : List (String × α)) : List (String × α) :=
  entries.insertionSort fun left right => left.1 ≤ right.1

mutual

/-- `canonicalize`. -/
def canonicalize : PyObject → Except EncodingError Normal
  | .none => .ok .none
  | .enumMember value => .ok (.str value)
  | .bool value => .ok (.bool value)
  | .int value => .ok (.int value)
  | .str value => .ok (.str value)
  | .bytes value => .ok (.bytes value)
  | .convertible canonical => canonicalize canonical
  | .dataclass fields => do
      let fields ← canonicalizeEntries fields
      .ok (normalizedDict fields)
  | .list items => do
      let items ← canonicalizeItems items
      .ok (.list items)
  | .tuple items => do
      let items ← canonicalizeItems items
      .ok (.list items)
  | .dict entries => do
      let entries ← canonicalizeEntries entries
      .ok (normalizedDict (sortByKey entries))
  | .unsupported => .error .typeError

/-- Items of a list or a tuple. -/
def canonicalizeItems : List PyObject → Except EncodingError (List Normal)
  | [] => .ok []
  | item :: items => do
      let item ← canonicalize item
      let items ← canonicalizeItems items
      .ok (item :: items)

/-- Values of a dictionary or of the fields of a dataclass. -/
def canonicalizeEntries :
    List (String × PyObject) → Except EncodingError (List (String × Normal))
  | [] => .ok []
  | (key, value) :: entries => do
      let value ← canonicalize value
      let entries ← canonicalizeEntries entries
      .ok ((key, value) :: entries)

end

/-! ## Bytes -/

/-- `value.encode("utf-8")`. -/
def utf8Bytes (value : String) : Bytes :=
  value.toByteArray.data.toList

/-- `_encode_length`. -/
def encodeLength (length : ℕ) : Except EncodingError Bytes :=
  if length < 2 ^ 32 then .ok (intToBytes 4 length) else .error .overflowError

/-- A type byte, the length of the contents and the contents. -/
def encodeFramed (tag : Bytes) (contents : Bytes) : Except EncodingError Bytes := do
  let length ← encodeLength contents.length
  .ok (tag ++ length ++ contents)

/-- `_encode_int`. -/
def encodeInt (value : ℤ) : Except EncodingError Bytes :=
  let sign : UInt8 := if value < 0 then 1 else 0
  let magnitude := value.natAbs
  let raw := if magnitude = 0 then [0] else intToBytes (byteWidth magnitude) magnitude
  encodeFramed ['I'.toUInt8, sign] raw

/-- The branch of `_encode_value` for texts. -/
def encodeText (value : String) : Except EncodingError Bytes :=
  encodeFramed ['S'.toUInt8] (utf8Bytes value)

mutual

/-- `_encode_value`. -/
def encodeValue : Normal → Except EncodingError Bytes
  | .none => .ok ['N'.toUInt8]
  | .bool value => .ok [if value then 'T'.toUInt8 else 'F'.toUInt8]
  | .int value => encodeInt value
  | .bytes value => encodeFramed ['Y'.toUInt8] value
  | .str value => encodeText value
  | .list items => do
      let words ← encodeItems items
      let length ← encodeLength words.length
      .ok ('L'.toUInt8 :: (length ++ words.flatten))
  | .dict entries => do
      let words ← encodeEntries entries
      let length ← encodeLength entries.length
      .ok ('D'.toUInt8 :: (length ++ ((sortByKey words).map Prod.snd).flatten))

/-- The encodings of the items of a list. -/
def encodeItems : List Normal → Except EncodingError (List Bytes)
  | [] => .ok []
  | item :: items => do
      let word ← encodeValue item
      let words ← encodeItems items
      .ok (word :: words)

/-- For each entry the encodings of its key and of its value, to be written in the order of the
keys. -/
def encodeEntries : List (String × Normal) → Except EncodingError (List (String × Bytes))
  | [] => .ok []
  | (key, value) :: entries => do
      let keyWord ← encodeText key
      let word ← encodeValue value
      let words ← encodeEntries entries
      .ok ((key, keyWord ++ word) :: words)

end

/-- `canonical_encode`. -/
def canonicalEncode (object : PyObject) : Except EncodingError Bytes := do
  let normalized ← canonicalize object
  encodeValue normalized

/-! ## Equality of normal forms -/

mutual

/-- `==` of normalised objects, which compares dictionaries without regard to the order of their
entries, except that a truth value is never equal to a number. -/
def Normal.same : Normal → Normal → Bool
  | .none, .none => true
  | .bool value, .bool other => value = other
  | .int value, .int other => value = other
  | .bytes value, .bytes other => value = other
  | .str value, .str other => value = other
  | .list items, .list others => sameItems items others
  | .dict entries, .dict others => entries.length = others.length ∧ sameEntries entries others
  | _, _ => false

/-- Items are compared one by one. -/
def sameItems : List Normal → List Normal → Bool
  | [], [] => true
  | item :: items, other :: others => item.same other && sameItems items others
  | _, _ => false

/-- Every entry has the value that the other dictionary stores under its key. -/
def sameEntries : List (String × Normal) → List (String × Normal) → Bool
  | [], _ => true
  | (key, value) :: entries, others =>
      (match OrderedDict.findValue key others with
        | none => false
        | some other => value.same other) && sameEntries entries others

end

/-- Equality of normal forms as a relation. -/
def Normal.Same (value other : Normal) : Prop :=
  value.same other = true

theorem sameItems_of_forall₂ {items others : List Normal}
    (all_same : List.Forall₂ Normal.Same items others) : sameItems items others = true := by
  induction all_same with
  | nil => rfl
  | cons head tail induction =>
      rw [sameItems, Bool.and_eq_true]
      exact ⟨head, induction⟩

theorem sameEntries_of_forall {entries others : List (String × Normal)}
    (all_same : ∀ entry ∈ entries, ∃ other, OrderedDict.findValue entry.1 others = some other ∧
      entry.2.Same other) : sameEntries entries others = true := by
  induction entries with
  | nil => rfl
  | cons entry entries induction =>
      obtain ⟨other, found, same⟩ := all_same entry List.mem_cons_self
      rw [sameEntries, found, Bool.and_eq_true]
      exact ⟨same, induction fun later member => all_same later (List.mem_cons_of_mem _ member)⟩

mutual

/-- The keys of every dictionary in a normal form are distinct. -/
def Normal.KeysUnique : Normal → Prop
  | .list items => ItemsUnique items
  | .dict entries => (entries.map Prod.fst).Nodup ∧ EntriesUnique entries
  | _ => True

/-- The keys are distinct in every item. -/
def ItemsUnique : List Normal → Prop
  | [] => True
  | item :: items => item.KeysUnique ∧ ItemsUnique items

/-- The keys are distinct in every value. -/
def EntriesUnique : List (String × Normal) → Prop
  | [] => True
  | (_, value) :: entries => value.KeysUnique ∧ EntriesUnique entries

end

theorem itemsUnique_iff (items : List Normal) :
    ItemsUnique items ↔ ∀ item ∈ items, item.KeysUnique := by
  induction items with
  | nil => simp [ItemsUnique]
  | cons item items induction => simp [ItemsUnique, induction]

theorem entriesUnique_iff (entries : List (String × Normal)) :
    EntriesUnique entries ↔ ∀ entry ∈ entries, entry.2.KeysUnique := by
  induction entries with
  | nil => simp [EntriesUnique]
  | cons entry entries induction => simp [EntriesUnique, induction]

/-- Entries that are stored one after the other make a dictionary with distinct keys. -/
theorem normalizedDict_keysUnique {entries : List (String × Normal)}
    (unique : ∀ entry ∈ entries, entry.2.KeysUnique) : (normalizedDict entries).KeysUnique := by
  have stored : ∀ normalized : List (String × Normal),
      (normalized.map Prod.fst).Nodup → (∀ entry ∈ normalized, entry.2.KeysUnique) →
      ((entries.foldl (fun stored entry => OrderedDict.setEntry entry.1 entry.2 stored)
        normalized).map Prod.fst).Nodup ∧
      ∀ entry ∈ entries.foldl (fun stored entry => OrderedDict.setEntry entry.1 entry.2 stored)
        normalized, entry.2.KeysUnique := by
    induction entries with
    | nil => exact fun normalized nodup values => ⟨nodup, values⟩
    | cons entry entries induction =>
        intro normalized nodup values
        apply induction (fun later member => unique later (List.mem_cons_of_mem _ member))
        · exact OrderedDict.nodup_setEntry nodup entry.1 entry.2
        · intro other member
          rcases OrderedDict.mem_setEntry member with rfl | member
          · exact unique entry List.mem_cons_self
          · exact values other member
  have all := stored [] List.nodup_nil (by simp)
  exact ⟨all.1, (entriesUnique_iff _).mpr all.2⟩

theorem mem_sortByKey {α : Type} {entries : List (String × α)} {entry : String × α} :
    entry ∈ sortByKey entries ↔ entry ∈ entries :=
  List.mem_insertionSort _

mutual

/-- Normal forms have distinct keys. -/
theorem canonicalize_keysUnique (object : PyObject) {normal : Normal}
    (normalizes : canonicalize object = .ok normal) : normal.KeysUnique := by
  match object with
  | .none | .bool _ | .int _ | .bytes _ | .str _ | .enumMember _ =>
      obtain rfl := Except.ok.inj normalizes
      trivial
  | .convertible canonical => exact canonicalize_keysUnique canonical normalizes
  | .dataclass fields =>
      obtain ⟨normalized, fields_eq, done⟩ := bind_eq_ok.mp normalizes
      obtain rfl := Except.ok.inj done
      exact normalizedDict_keysUnique (canonicalizeEntries_keysUnique fields fields_eq)
  | .list items | .tuple items =>
      obtain ⟨normalized, items_eq, done⟩ := bind_eq_ok.mp normalizes
      obtain rfl := Except.ok.inj done
      exact (itemsUnique_iff _).mpr (canonicalizeItems_keysUnique items items_eq)
  | .dict entries =>
      obtain ⟨normalized, entries_eq, done⟩ := bind_eq_ok.mp normalizes
      obtain rfl := Except.ok.inj done
      have unique := canonicalizeEntries_keysUnique entries entries_eq
      apply normalizedDict_keysUnique
      exact fun entry member => unique entry (mem_sortByKey.mp member)
  | .unsupported => cases normalizes

theorem canonicalizeItems_keysUnique (items : List PyObject) {normals : List Normal}
    (normalizes : canonicalizeItems items = .ok normals) :
    ∀ normal ∈ normals, normal.KeysUnique := by
  match items with
  | [] =>
      obtain rfl := Except.ok.inj normalizes
      exact List.forall_mem_nil _
  | item :: items =>
      obtain ⟨normal, item_eq, normalizes⟩ := bind_eq_ok.mp normalizes
      obtain ⟨rest, items_eq, done⟩ := bind_eq_ok.mp normalizes
      obtain rfl := Except.ok.inj done
      exact List.forall_mem_cons.mpr
        ⟨canonicalize_keysUnique item item_eq, canonicalizeItems_keysUnique items items_eq⟩

theorem canonicalizeEntries_keysUnique (entries : List (String × PyObject))
    {normals : List (String × Normal)}
    (normalizes : canonicalizeEntries entries = .ok normals) :
    ∀ entry ∈ normals, entry.2.KeysUnique := by
  match entries with
  | [] =>
      obtain rfl := Except.ok.inj normalizes
      exact List.forall_mem_nil _
  | (key, value) :: entries =>
      obtain ⟨normal, value_eq, normalizes⟩ := bind_eq_ok.mp normalizes
      obtain ⟨rest, entries_eq, done⟩ := bind_eq_ok.mp normalizes
      obtain rfl := Except.ok.inj done
      exact List.forall_mem_cons.mpr
        ⟨canonicalize_keysUnique value value_eq, canonicalizeEntries_keysUnique entries entries_eq⟩

end

/-! ## Reading the bytes -/

/-- The four bytes of a length. -/
def LengthWord (length : ℕ) (word : Bytes) : Prop :=
  encodeLength length = .ok word

theorem lengthWord_iff {length : ℕ} {word : Bytes} :
    LengthWord length word ↔ length < 2 ^ 32 ∧ intToBytes 4 length = word := by
  unfold LengthWord encodeLength
  split <;> simp_all

theorem readable_lengthWord : Readable LengthWord := by
  intro length word other word' rest rest' codes codes' equality
  obtain ⟨bound, rfl⟩ := lengthWord_iff.mp codes
  obtain ⟨bound', rfl⟩ := lengthWord_iff.mp codes'
  obtain ⟨word_eq, rest_eq⟩ :=
    List.append_inj equality (by rw [length_intToBytes, length_intToBytes])
  have value_eq := congrArg keyInt word_eq
  rw [keyInt_intToBytes (by omega), keyInt_intToBytes (by omega)] at value_eq
  exact ⟨value_eq, word_eq, rest_eq⟩

theorem encodeFramed_eq_ok_iff {tag contents word : Bytes} :
    encodeFramed tag contents = .ok word ↔
      ∃ framed, Framed LengthWord contents framed ∧ word = tag ++ framed := by
  simp only [encodeFramed, bind_eq_ok, Except.ok.injEq, Framed, LengthWord]
  constructor
  · rintro ⟨length, length_eq, rfl⟩
    exact ⟨_, ⟨length, length_eq, rfl⟩, List.append_assoc _ _ _⟩
  · rintro ⟨framed, ⟨length, length_eq, rfl⟩, rfl⟩
    exact ⟨length, length_eq, List.append_assoc _ _ _⟩

theorem encodeFramed_unique {tag tag' contents contents' word word' rest rest' : Bytes}
    (encodes : encodeFramed tag contents = .ok word)
    (encodes' : encodeFramed tag' contents' = .ok word') (tag_length : tag.length = tag'.length)
    (equality : word ++ rest = word' ++ rest') :
    tag = tag' ∧ contents = contents' ∧ word = word' ∧ rest = rest' := by
  obtain ⟨framed, codes, rfl⟩ := encodeFramed_eq_ok_iff.mp encodes
  obtain ⟨framed', codes', rfl⟩ := encodeFramed_eq_ok_iff.mp encodes'
  simp only [List.append_assoc] at equality
  obtain ⟨rfl, framed_eq⟩ := List.append_inj equality tag_length
  obtain ⟨rfl, rfl, rfl⟩ := readable_lengthWord.framed _ codes codes' framed_eq
  exact ⟨rfl, rfl, rfl, rfl⟩

theorem utf8Bytes_injective : Function.Injective utf8Bytes := by
  intro left right equality
  apply String.toByteArray_inj.mp
  apply ByteArray.ext
  exact Array.toList_inj.mp equality

theorem readable_text :
    Readable fun value word => encodeText value = .ok word := by
  intro value word other word' rest rest' codes codes' equality
  obtain ⟨-, contents_eq, word_eq, rest_eq⟩ := encodeFramed_unique codes codes' rfl equality
  exact ⟨utf8Bytes_injective contents_eq, word_eq, rest_eq⟩

theorem keyInt_magnitude (magnitude : ℕ) :
    keyInt (if magnitude = 0 then [0] else intToBytes (byteWidth magnitude) magnitude) =
      magnitude := by
  split
  · next zero =>
      rw [zero]
      rfl
  · exact keyInt_intToBytes (lt_pow_byteWidth magnitude)

theorem readable_int : Readable fun value word => encodeInt value = .ok word := by
  intro value word other word' rest rest' codes codes' equality
  obtain ⟨tag_eq, contents_eq, word_eq, rest_eq⟩ := encodeFramed_unique codes codes' rfl equality
  have magnitude_eq := congrArg keyInt contents_eq
  rw [keyInt_magnitude, keyInt_magnitude] at magnitude_eq
  have sign_eq : (value < 0) ↔ (other < 0) := by
    have signs := (List.cons.inj (List.cons.inj tag_eq).2).1
    by_cases negative : value < 0 <;> by_cases negative' : other < 0 <;>
      simp_all only [if_true, if_false, iff_true, iff_false, not_true_eq_false] <;>
      exact absurd signs (by decide)
  exact ⟨by omega, word_eq, rest_eq⟩

/-- A normal form with distinct keys and its bytes. -/
def Encodes (value : Normal) (word : Bytes) : Prop :=
  value.KeysUnique ∧ encodeValue value = .ok word

/-- A dictionary entry and its bytes. -/
def EncodesEntry (entry : String × Normal) (word : Bytes) : Prop :=
  ∃ keyWord valueWord, encodeText entry.1 = .ok keyWord ∧ Encodes entry.2 valueWord ∧
    word = keyWord ++ valueWord

/-- Entries with one key and equal values. -/
def SameEntry (entry other : String × Normal) : Prop :=
  entry.1 = other.1 ∧ entry.2.Same other.2

theorem readable_entry {entry : String × Normal}
    (readable : ReadableUpTo Normal.Same Encodes entry.2) :
    ReadableUpTo SameEntry EncodesEntry entry := by
  rintro word other word' rest rest' ⟨keyWord, valueWord, key_codes, codes, rfl⟩
    ⟨keyWord', valueWord', key_codes', codes', rfl⟩ equality
  simp only [List.append_assoc] at equality
  obtain ⟨key_eq, rfl, value_eq⟩ := readable_text _ key_codes key_codes' equality
  obtain ⟨same, rfl, rfl⟩ := readable codes codes' value_eq
  exact ⟨⟨key_eq, same⟩, rfl, rfl⟩

theorem encodeItems_sequence {items : List Normal} (unique : ∀ item ∈ items, item.KeysUnique)
    {words : List Bytes} (encodes : encodeItems items = .ok words) :
    Sequence Encodes items words.flatten ∧ words.length = items.length := by
  induction items generalizing words with
  | nil =>
      obtain rfl := Except.ok.inj encodes
      exact ⟨.nil, rfl⟩
  | cons item items induction =>
      obtain ⟨word, item_eq, encodes⟩ := bind_eq_ok.mp encodes
      obtain ⟨rest, items_eq, done⟩ := bind_eq_ok.mp encodes
      obtain rfl := Except.ok.inj done
      obtain ⟨sequence, length_eq⟩ :=
        induction (fun later member => unique later (List.mem_cons_of_mem _ member)) items_eq
      refine ⟨.cons ⟨unique item List.mem_cons_self, item_eq⟩ sequence, ?_⟩
      rw [List.length_cons, List.length_cons, length_eq]

/-- An entry and the bytes that are written for it under the same key. -/
def WrittenEntry (entry : String × Normal) (written : String × Bytes) : Prop :=
  entry.1 = written.1 ∧ EncodesEntry entry written.2

theorem encodeEntries_written {entries : List (String × Normal)}
    (unique : ∀ entry ∈ entries, entry.2.KeysUnique) {words : List (String × Bytes)}
    (encodes : encodeEntries entries = .ok words) :
    List.Forall₂ WrittenEntry entries words := by
  induction entries generalizing words with
  | nil =>
      obtain rfl := Except.ok.inj encodes
      exact .nil
  | cons entry entries induction =>
      obtain ⟨keyWord, key_eq, encodes⟩ := bind_eq_ok.mp encodes
      obtain ⟨word, value_eq, encodes⟩ := bind_eq_ok.mp encodes
      obtain ⟨rest, entries_eq, done⟩ := bind_eq_ok.mp encodes
      obtain rfl := Except.ok.inj done
      have value_unique := unique entry List.mem_cons_self
      apply List.Forall₂.cons
      · exact ⟨rfl, keyWord, word, key_eq, ⟨value_unique, value_eq⟩, rfl⟩
      · exact induction (fun later member => unique later (List.mem_cons_of_mem _ member))
          entries_eq

theorem sortByKey_written {entries : List (String × Normal)} {words : List (String × Bytes)}
    (written : List.Forall₂ WrittenEntry entries words) :
    List.Forall₂ WrittenEntry (sortByKey entries) (sortByKey words) := by
  have insert : ∀ {entry : String × Normal} {word : String × Bytes}
      {entries : List (String × Normal)} {words : List (String × Bytes)},
      WrittenEntry entry word → List.Forall₂ WrittenEntry entries words →
      List.Forall₂ WrittenEntry (entries.orderedInsert (fun left right => left.1 ≤ right.1) entry)
        (words.orderedInsert (fun left right => left.1 ≤ right.1) word) := by
    intro entry word entries words head tail
    induction tail with
    | nil => exact .cons head .nil
    | cons first rest induction =>
        rw [List.orderedInsert_cons, List.orderedInsert_cons, head.1, first.1]
        split
        · exact .cons head (.cons first rest)
        · exact .cons first induction
  induction written with
  | nil => exact .nil
  | cons head tail induction => exact insert head induction

theorem sequence_of_written {entries : List (String × Normal)} {words : List (String × Bytes)}
    (written : List.Forall₂ WrittenEntry entries words) :
    Sequence EncodesEntry entries (words.map Prod.snd).flatten := by
  induction written with
  | nil => exact .nil
  | cons head tail induction => exact .cons head.2 induction

theorem sameEntries_of_sorted {entries others : List (String × Normal)}
    (nodup : (others.map Prod.fst).Nodup)
    (all_same : List.Forall₂ SameEntry (sortByKey entries) (sortByKey others)) :
    entries.length = others.length ∧ sameEntries entries others = true := by
  constructor
  · have length_eq := all_same.length_eq
    rwa [sortByKey, sortByKey, List.length_insertionSort, List.length_insertionSort] at length_eq
  · apply sameEntries_of_forall
    intro entry member
    obtain ⟨other, other_mem, key_eq, same⟩ :=
      exists_related all_same (mem_sortByKey.mpr member)
    refine ⟨other.2, ?_, same⟩
    rw [key_eq]
    exact (OrderedDict.findValue_eq_some_iff nodup _ _).mpr (mem_sortByKey.mp other_mem)

/-- What the first byte of an encoding shows. -/
inductive Shape where
  | none | yes | no | int | bytes | str | list | dict

/-- The type byte. -/
def Shape.tag : Shape → UInt8
  | .none => 'N'.toUInt8
  | .yes => 'T'.toUInt8
  | .no => 'F'.toUInt8
  | .int => 'I'.toUInt8
  | .bytes => 'Y'.toUInt8
  | .str => 'S'.toUInt8
  | .list => 'L'.toUInt8
  | .dict => 'D'.toUInt8

theorem Shape.tag_injective : Function.Injective Shape.tag := by
  intro left right tags
  cases left <;> cases right <;> first | rfl | exact absurd tags (by decide)

/-- The shape of a normal form. -/
def Normal.shape : Normal → Shape
  | .none => .none
  | .bool true => .yes
  | .bool false => .no
  | .int _ => .int
  | .bytes _ => .bytes
  | .str _ => .str
  | .list _ => .list
  | .dict _ => .dict

theorem encodeFramed_head {tag : UInt8} {more contents word : Bytes}
    (encodes : encodeFramed (tag :: more) contents = .ok word) : ∃ rest, word = tag :: rest := by
  obtain ⟨framed, -, rfl⟩ := encodeFramed_eq_ok_iff.mp encodes
  exact ⟨more ++ framed, rfl⟩

theorem encodeValue_head {value : Normal} {word : Bytes} (encodes : encodeValue value = .ok word) :
    ∃ rest, word = value.shape.tag :: rest := by
  cases value with
  | none =>
      obtain rfl := Except.ok.inj encodes
      exact ⟨[], rfl⟩
  | bool value =>
      obtain rfl := Except.ok.inj encodes
      cases value <;> exact ⟨[], rfl⟩
  | int | bytes | str => exact encodeFramed_head encodes
  | list | dict =>
      obtain ⟨words, -, encodes⟩ := bind_eq_ok.mp encodes
      obtain ⟨length, -, done⟩ := bind_eq_ok.mp encodes
      obtain rfl := Except.ok.inj done
      exact ⟨_, rfl⟩

theorem shape_eq {value other : Normal} {word word' rest rest' : Bytes}
    (codes : Encodes value word) (codes' : Encodes other word')
    (equality : word ++ rest = word' ++ rest') : value.shape = other.shape := by
  obtain ⟨tail, rfl⟩ := encodeValue_head codes.2
  obtain ⟨tail', rfl⟩ := encodeValue_head codes'.2
  exact Shape.tag_injective (List.cons.inj equality).1

theorem encodes_list {items : List Normal} {word : Bytes} (codes : Encodes (.list items) word) :
    ∃ counted, Counted LengthWord Encodes items counted ∧ word = 'L'.toUInt8 :: counted := by
  obtain ⟨unique, encodes⟩ := codes
  obtain ⟨words, items_eq, encodes⟩ := bind_eq_ok.mp encodes
  obtain ⟨length, length_eq, done⟩ := bind_eq_ok.mp encodes
  obtain ⟨sequence, count_eq⟩ := encodeItems_sequence ((itemsUnique_iff items).mp unique) items_eq
  rw [count_eq] at length_eq
  exact ⟨_, ⟨length, _, length_eq, sequence, rfl⟩, (Except.ok.inj done).symm⟩

theorem encodes_dict {entries : List (String × Normal)} {word : Bytes}
    (codes : Encodes (.dict entries) word) :
    ∃ counted, Counted LengthWord EncodesEntry (sortByKey entries) counted ∧
      word = 'D'.toUInt8 :: counted := by
  obtain ⟨⟨-, unique⟩, encodes⟩ := codes
  obtain ⟨words, entries_eq, encodes⟩ := bind_eq_ok.mp encodes
  obtain ⟨length, length_eq, done⟩ := bind_eq_ok.mp encodes
  have written := encodeEntries_written ((entriesUnique_iff entries).mp unique) entries_eq
  have sequence := sequence_of_written (sortByKey_written written)
  have count_eq : (sortByKey entries).length = entries.length := List.length_insertionSort _ _
  rw [← count_eq] at length_eq
  exact ⟨_, ⟨length, _, length_eq, sequence, rfl⟩, (Except.ok.inj done).symm⟩

mutual

/-- A text that starts with the encoding of a normal form shows the normal form.  The cases follow
the type byte, and nested items and entries are read by induction. -/
theorem readable_normal (value : Normal) : ReadableUpTo Normal.Same Encodes value := by
  intro word other word' rest rest' codes codes' equality
  have shapes := shape_eq codes codes' equality
  match value, other with
  | .none, .none | .bool true, .bool true | .bool false, .bool false =>
      obtain rfl := Except.ok.inj (codes.2.symm.trans codes'.2)
      exact ⟨rfl, rfl, List.append_cancel_left equality⟩
  | .int number, .int number' =>
      obtain ⟨rfl, rest_eq⟩ := readable_int _ codes.2 codes'.2 equality
      exact ⟨decide_eq_true rfl, rest_eq⟩
  | .bytes contents, .bytes contents' =>
      obtain ⟨-, rfl, rest_eq⟩ := encodeFramed_unique codes.2 codes'.2 rfl equality
      exact ⟨decide_eq_true rfl, rest_eq⟩
  | .str text, .str text' =>
      obtain ⟨rfl, rest_eq⟩ := readable_text _ codes.2 codes'.2 equality
      exact ⟨decide_eq_true rfl, rest_eq⟩
  | .list items, .list items' =>
      obtain ⟨counted, counts, rfl⟩ := encodes_list codes
      obtain ⟨counted', counts', rfl⟩ := encodes_list codes'
      obtain ⟨all_same, rfl, rest_eq⟩ := readable_lengthWord.counted
        (readable_items items) counts counts' (List.cons.inj equality).2
      exact ⟨sameItems_of_forall₂ all_same, rfl, rest_eq⟩
  | .dict entries, .dict entries' =>
      obtain ⟨counted, counts, rfl⟩ := encodes_dict codes
      obtain ⟨counted', counts', rfl⟩ := encodes_dict codes'
      have readable : ∀ entry ∈ sortByKey entries, ReadableUpTo SameEntry EncodesEntry entry :=
        fun entry member => readable_entry (readable_values entries entry (mem_sortByKey.mp member))
      obtain ⟨all_same, rfl, rest_eq⟩ := readable_lengthWord.counted readable counts counts'
        (List.cons.inj equality).2
      exact ⟨decide_eq_true (sameEntries_of_sorted codes'.1.1 all_same), rfl, rest_eq⟩

theorem readable_items (items : List Normal) :
    ∀ item ∈ items, ReadableUpTo Normal.Same Encodes item := by
  match items with
  | [] => exact List.forall_mem_nil _
  | item :: items => exact List.forall_mem_cons.mpr ⟨readable_normal item, readable_items items⟩

theorem readable_values (entries : List (String × Normal)) :
    ∀ entry ∈ entries, ReadableUpTo Normal.Same Encodes entry.2 := by
  match entries with
  | [] => exact List.forall_mem_nil _
  | (key, value) :: entries =>
      exact List.forall_mem_cons.mpr ⟨readable_normal value, readable_values entries⟩

end

/-- Two objects have equal normal forms. -/
def SameNormalForm (object other : PyObject) : Prop :=
  ∃ normal normal', canonicalize object = .ok normal ∧ canonicalize other = .ok normal' ∧
    normal.Same normal'

/-- The byte string of an accepted object shows its normal form, it is no proper prefix of another
one, and a hash of it behind a domain tag is a commitment to the normal form as long as nobody
finds a collision. -/
theorem canonicalEncode_injective {object other : PyObject} {word word' : Bytes}
    (encodes : canonicalEncode object = .ok word) (encodes' : canonicalEncode other = .ok word') :
    (word = word' → SameNormalForm object other) ∧
      (word <+: word' → word = word') ∧
      ∀ (D : Type) (hash : Bytes → D) (domain : Bytes),
        hash (domain ++ word) = hash (domain ++ word') →
          SameNormalForm object other ∨ ∃ left right, left ≠ right ∧ hash left = hash right := by
  obtain ⟨normal, normal_eq, value_encodes⟩ := bind_eq_ok.mp encodes
  obtain ⟨normal', normal_eq', value_encodes'⟩ := bind_eq_ok.mp encodes'
  have codes : Encodes normal word := ⟨canonicalize_keysUnique object normal_eq, value_encodes⟩
  have codes' : Encodes normal' word' := ⟨canonicalize_keysUnique other normal_eq', value_encodes'⟩
  have readable := readable_normal normal
  have injective : word = word' → SameNormalForm object other := by
    intro equality
    exact ⟨normal, normal', normal_eq, normal_eq', readable.same_of_eq codes codes' equality⟩
  refine ⟨injective, readable.eq_of_prefix codes codes', ?_⟩
  intro D hash domain hash_eq
  by_cases equality : word = word'
  · exact .inl (injective equality)
  · exact .inr ⟨_, _, fun inputs_eq => equality (List.append_cancel_left inputs_eq), hash_eq⟩

/-- A dataclass instance and a dictionary with its fields in another order have one encoding. -/
theorem canonicalEncode_injective_reordered :
    let object : PyObject :=
      .dataclass [("size", .int (-300)), ("items", .tuple [.none, .bool true])]
    let other : PyObject := .dict [("items", .list [.none, .bool true]), ("size", .int (-300))]
    SameNormalForm object other := by
  intro object other
  have encodes : canonicalEncode object = canonicalEncode other := by decide +kernel
  cases word : canonicalEncode object with
  | error error => exact absurd word (by cases error <;> decide +kernel)
  | ok bytes =>
      exact (canonicalEncode_injective word (encodes.symm.trans word)).1 rfl

/-! ## Sizes of canonical values -/

section Canon

variable {H : Type} (digestBytes : H → Bytes)

mutual

/-- The normal form that a canonical value stands for, with the bytes of its digests. -/
def Canon.normal : Canon H → Normal
  | .none => .none
  | .bool value => .bool value
  | .int value => .int value
  | .bytes value => .bytes value
  | .digest value => .bytes (digestBytes value)
  | .str value => .str value
  | .list items => .list (Canon.normals items)
  | .dict fields => .dict (Canon.normalFields fields)

/-- Normal forms of the items of a list. -/
def Canon.normals : List (Canon H) → List Normal
  | [] => []
  | item :: items => item.normal :: Canon.normals items

/-- Normal forms of the values of a dictionary. -/
def Canon.normalFields : List (String × Canon H) → List (String × Normal)
  | [] => []
  | (key, value) :: fields => (key, value.normal) :: Canon.normalFields fields

end

theorem length_encodeFramed {tag contents word : Bytes}
    (encodes : encodeFramed tag contents = .ok word) :
    word.length = tag.length + 4 + contents.length := by
  obtain ⟨framed, ⟨length, codes, rfl⟩, rfl⟩ := encodeFramed_eq_ok_iff.mp encodes
  obtain ⟨-, rfl⟩ := lengthWord_iff.mp codes
  rw [List.length_append, List.length_append, length_intToBytes, Nat.add_assoc]

theorem length_utf8Bytes (value : String) : (utf8Bytes value).length = value.utf8ByteSize := by
  rw [utf8Bytes, Array.length_toList]
  rfl

theorem length_flatten_sortByKey (words : List (String × Bytes)) :
    ((sortByKey words).map Prod.snd).flatten.length = (words.map Prod.snd).flatten.length := by
  have permuted := (List.perm_insertionSort (fun left right => left.1 ≤ right.1) words).map Prod.snd
  exact permuted.flatten.length_eq

variable {digestBytes}

mutual

/-- The number of bytes that the pool compares with its limit is the length of the encoding. -/
theorem length_encodeValue_normal (digest_length : ∀ value, (digestBytes value).length = 32)
    (value : Canon H) {word : Bytes} (encodes : encodeValue (value.normal digestBytes) = .ok word) :
    word.length = value.encodedLength := by
  match value with
  | .none | .bool _ =>
      obtain rfl := Except.ok.inj encodes
      rfl
  | .int number =>
      have length_eq := length_encodeFramed encodes
      rw [length_eq, Canon.encodedLength, Canon.encodedIntLength]
      by_cases zero : number.natAbs = 0
      · simp [zero]
      · simp only [zero, if_false, length_intToBytes, byteWidth, bitLength]
        rfl
  | .bytes contents =>
      have length_eq := length_encodeFramed encodes
      rw [length_eq, Canon.encodedLength]
      rfl
  | .digest digest =>
      have length_eq := length_encodeFramed encodes
      rw [length_eq, Canon.encodedLength, digest_length]
      rfl
  | .str text =>
      have length_eq := length_encodeFramed encodes
      rw [length_eq, Canon.encodedLength, length_utf8Bytes]
      rfl
  | .list items =>
      obtain ⟨words, items_eq, encodes⟩ := bind_eq_ok.mp encodes
      obtain ⟨length, codes, done⟩ := bind_eq_ok.mp encodes
      obtain ⟨-, rfl⟩ := lengthWord_iff.mp codes
      obtain rfl := Except.ok.inj done
      rw [List.length_cons, List.length_append, length_intToBytes,
        length_encodeItems_normals digest_length items items_eq, Canon.encodedLength]
      omega
  | .dict fields =>
      obtain ⟨words, fields_eq, encodes⟩ := bind_eq_ok.mp encodes
      obtain ⟨length, codes, done⟩ := bind_eq_ok.mp encodes
      obtain ⟨-, rfl⟩ := lengthWord_iff.mp codes
      obtain rfl := Except.ok.inj done
      rw [List.length_cons, List.length_append, length_intToBytes, length_flatten_sortByKey,
        length_encodeEntries_normalFields digest_length fields fields_eq, Canon.encodedLength]
      omega

theorem length_encodeItems_normals (digest_length : ∀ value, (digestBytes value).length = 32)
    (items : List (Canon H)) {words : List Bytes}
    (encodes : encodeItems (Canon.normals digestBytes items) = .ok words) :
    words.flatten.length = Canon.encodedListLength items := by
  match items with
  | [] =>
      obtain rfl := Except.ok.inj encodes
      rfl
  | item :: items =>
      obtain ⟨word, item_eq, encodes⟩ := bind_eq_ok.mp encodes
      obtain ⟨rest, items_eq, done⟩ := bind_eq_ok.mp encodes
      obtain rfl := Except.ok.inj done
      rw [List.flatten_cons, List.length_append,
        length_encodeValue_normal digest_length item item_eq,
        length_encodeItems_normals digest_length items items_eq, Canon.encodedListLength]

theorem length_encodeEntries_normalFields
    (digest_length : ∀ value, (digestBytes value).length = 32)
    (fields : List (String × Canon H)) {words : List (String × Bytes)}
    (encodes : encodeEntries (Canon.normalFields digestBytes fields) = .ok words) :
    (words.map Prod.snd).flatten.length = Canon.encodedFieldsLength fields := by
  match fields with
  | [] =>
      obtain rfl := Except.ok.inj encodes
      rfl
  | (key, value) :: fields =>
      obtain ⟨keyWord, key_eq, encodes⟩ := bind_eq_ok.mp encodes
      obtain ⟨word, value_eq, encodes⟩ := bind_eq_ok.mp encodes
      obtain ⟨rest, fields_eq, done⟩ := bind_eq_ok.mp encodes
      obtain rfl := Except.ok.inj done
      have key_length := length_encodeFramed key_eq
      rw [length_utf8Bytes] at key_length
      rw [List.map_cons, List.flatten_cons, List.length_append, List.length_append, key_length,
        length_encodeValue_normal digest_length value value_eq,
        length_encodeEntries_normalFields digest_length fields fields_eq,
        Canon.encodedFieldsLength]
      rfl

end

end Canon

end EZChain
