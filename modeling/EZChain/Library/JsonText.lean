import EZChain.Library.OrderedDict
import Mathlib.Data.List.Sort
import Mathlib.Data.String.Basic
import Mathlib.Tactic.IntervalCases

/-!
# JSON texts

Objects of JSON without fractions, the compact texts that a writer makes of them, with every
character outside printable ASCII escaped, and the reader of such texts.  The reader takes back what
the writer wrote, with the entries of every object in the order of their keys.
-/

namespace JsonText

/-- JSON values, with the entries of an object in their order. -/
inductive Value where
  | null
  | bool (value : Bool)
  | int (value : ℤ)
  | str (value : String)
  | list (items : List Value)
  | dict (entries : List (String × Value))

/-! ## Writing -/

/-- Entries in the order of their keys. -/
def sortByKey {α : Type} (entries : List (String × α)) : List (String × α) :=
  entries.insertionSort fun left right => left.1 ≤ right.1

mutual

/-- The same value with the entries of every object in the order of their keys. -/
def Value.sortKeys : Value → Value
  | .null => .null
  | .bool value => .bool value
  | .int value => .int value
  | .str value => .str value
  | .list items => .list (sortItems items)
  | .dict entries => .dict (sortByKey (sortEntries entries))

def sortItems : List Value → List Value
  | [] => []
  | item :: items => item.sortKeys :: sortItems items

/-- The values are sorted; the entries stay where they are. -/
def sortEntries : List (String × Value) → List (String × Value)
  | [] => []
  | (key, value) :: entries => (key, value.sortKeys) :: sortEntries entries

end

/-- The UTF-16 code units of a character. -/
def codeUnits (char : Char) : List ℕ :=
  if char.toNat < 0x10000 then [char.toNat]
  else [0xd800 + (char.toNat - 0x10000) / 0x400, 0xdc00 + (char.toNat - 0x10000) % 0x400]

/-- A code unit as four hexadecimal digits. -/
def hexUnit (unit : ℕ) : List Char :=
  [Nat.digitChar (unit / 0x1000 % 16), Nat.digitChar (unit / 0x100 % 16),
    Nat.digitChar (unit / 0x10 % 16), Nat.digitChar (unit % 16)]

/-- The letters of the short escapes, with the code units that they stand for. -/
def shortEscapes : List (Char × ℕ) :=
  [('"', 0x22), ('\\', 0x5c), ('n', 0x0a), ('r', 0x0d), ('t', 0x09), ('f', 0x0c), ('b', 0x08)]

/-- How a code unit is written inside a string. -/
def escapeUnit (unit : ℕ) : List Char :=
  match shortEscapes.find? fun escape => escape.2 = unit with
  | some escape => ['\\', escape.1]
  | none => if 0x20 ≤ unit ∧ unit ≤ 0x7e then [Char.ofNat unit] else '\\' :: 'u' :: hexUnit unit

/-- A string without its first quotation mark. -/
def printString (value : String) : List Char :=
  (value.toList.flatMap codeUnits).flatMap escapeUnit ++ ['"']

def printInt (value : ℤ) : List Char :=
  if value < 0 then '-' :: Nat.toDigits 10 value.natAbs else Nat.toDigits 10 value.natAbs

mutual

/-- The compact text of a value. -/
def Value.print : Value → List Char
  | .null => ['n', 'u', 'l', 'l']
  | .bool true => ['t', 'r', 'u', 'e']
  | .bool false => ['f', 'a', 'l', 's', 'e']
  | .int value => printInt value
  | .str value => '"' :: printString value
  | .list [] => ['[', ']']
  | .list (item :: items) => '[' :: (item.print ++ printItems items)
  | .dict [] => ['{', '}']
  | .dict ((key, value) :: entries) =>
      '{' :: '"' :: (printString key ++ ':' :: (value.print ++ printEntries entries))

/-- The rest of a list after an item. -/
def printItems : List Value → List Char
  | [] => [']']
  | item :: items => ',' :: (item.print ++ printItems items)

/-- The rest of an object after an entry. -/
def printEntries : List (String × Value) → List Char
  | [] => ['}']
  | (key, value) :: entries =>
      ',' :: '"' :: (printString key ++ ':' :: (value.print ++ printEntries entries))

end

/-- The text of a value with sorted keys. -/
def dumps (value : Value) : List Char := value.sortKeys.print

/-! ## Reading -/

/-- The value of a hexadecimal digit. -/
def hexDigit? (char : Char) : Option ℕ :=
  (List.range 16).find? fun digit => Nat.digitChar digit = char.toLower

/-- The number that some hexadecimal digits stand for. -/
def hexNumber? (digits : List Char) : Option ℕ :=
  digits.foldlM (fun number char => (hexDigit? char).map fun digit => number * 16 + digit) 0

/-- The letters that may follow a backslash; a slash may be escaped but need not. -/
def readEscapes : List (Char × ℕ) := shortEscapes ++ [('/', 0x2f)]

/-- The code units of a string up to its closing quotation mark. -/
def scanUnits : List Char → Option (List ℕ × List Char)
  | [] => none
  | '"' :: rest => some ([], rest)
  | '\\' :: 'u' :: first :: second :: third :: fourth :: rest => do
      let unit ← hexNumber? [first, second, third, fourth]
      let (units, rest) ← scanUnits rest
      some (unit :: units, rest)
  | '\\' :: letter :: rest => do
      let escape ← readEscapes.find? fun escape => escape.1 = letter
      let (units, rest) ← scanUnits rest
      some (escape.2 :: units, rest)
  | char :: rest => do
      let (units, rest) ← scanUnits rest
      if char.toNat < 0x20 then none else some (char.toNat :: units, rest)

/-- Code units that form a surrogate pair. -/
def IsPair (high low : ℕ) : Prop :=
  (0xd800 ≤ high ∧ high < 0xdc00) ∧ 0xdc00 ≤ low ∧ low < 0xe000

instance (high low : ℕ) : Decidable (IsPair high low) := inferInstanceAs (Decidable (_ ∧ _))

/-- The character with a code point, unless it is a surrogate. -/
def char? (unit : ℕ) : Option Char :=
  if unit.isValidChar then some (Char.ofNat unit) else none

/-- The characters of some code units; a surrogate outside a pair has none. -/
def joinUnits : List ℕ → Option (List Char)
  | [] => some []
  | [unit] => do
      let char ← char? unit
      some [char]
  | high :: low :: units =>
      if IsPair high low then do
        let char ← char? (0x10000 + (high - 0xd800) * 0x400 + (low - 0xdc00))
        let chars ← joinUnits units
        some (char :: chars)
      else do
        let char ← char? high
        let chars ← joinUnits (low :: units)
        some (char :: chars)

/-- A string whose first quotation mark was read. -/
def parseString (text : List Char) : Option (String × List Char) := do
  let (units, rest) ← scanUnits text
  let chars ← joinUnits units
  some (String.ofList chars, rest)

/-- The number at the start of a text: a zero, or digits that do not start with one. -/
def parseNat (text : List Char) : Option (ℕ × List Char) :=
  match text.takeWhile Char.isDigit with
  | [] => none
  | '0' :: _ => some (0, text.tail)
  | digits => some (Nat.ofDigitChars 10 digits 0, text.dropWhile Char.isDigit)

/-- What follows an expected prefix. -/
def expect (expected text : List Char) : Option (List Char) :=
  if expected <+: text then some (text.drop expected.length) else none

/-- `dict(pairs)`: a later value replaces an earlier one in its place. -/
def ofPairs (pairs : List (String × Value)) : List (String × Value) :=
  pairs.foldl (fun entries pair => OrderedDict.setEntry pair.1 pair.2 entries) []

mutual

/-- Read one value; the fuel bounds the nesting and the number of items. -/
def parse : ℕ → List Char → Option (Value × List Char)
  | 0, _ => none
  | _ + 1, [] => none
  | fuel + 1, first :: rest =>
      if first = 'n' then (expect ['u', 'l', 'l'] rest).map fun rest => (.null, rest)
      else if first = 't' then (expect ['r', 'u', 'e'] rest).map fun rest => (.bool true, rest)
      else if first = 'f' then
        (expect ['a', 'l', 's', 'e'] rest).map fun rest => (.bool false, rest)
      else if first = '"' then (parseString rest).map fun read => (.str read.1, read.2)
      else if first = '[' then
        match expect [']'] rest with
        | some rest => some (.list [], rest)
        | none => do
            let (item, rest) ← parse fuel rest
            let (items, rest) ← parseItems fuel rest
            some (.list (item :: items), rest)
      else if first = '{' then
        match expect ['}'] rest with
        | some rest => some (.dict [], rest)
        | none => do
            let (pair, rest) ← parsePair fuel rest
            let (pairs, rest) ← parsePairs fuel rest
            some (.dict (ofPairs (pair :: pairs)), rest)
      else if first = '-' then (parseNat rest).map fun read => (.int (-read.1), read.2)
      else (parseNat (first :: rest)).map fun read => (.int read.1, read.2)

/-- Read the rest of a list after an item. -/
def parseItems : ℕ → List Char → Option (List Value × List Char)
  | 0, _ => none
  | _ + 1, [] => none
  | fuel + 1, first :: rest =>
      if first = ']' then some ([], rest)
      else if first = ',' then do
        let (item, rest) ← parse fuel rest
        let (items, rest) ← parseItems fuel rest
        some (item :: items, rest)
      else none

/-- Read a key and its value. -/
def parsePair : ℕ → List Char → Option ((String × Value) × List Char)
  | 0, _ => none
  | fuel + 1, text => do
      let rest ← expect ['"'] text
      let (key, rest) ← parseString rest
      let rest ← expect [':'] rest
      let (value, rest) ← parse fuel rest
      some ((key, value), rest)

/-- Read the rest of an object after an entry. -/
def parsePairs : ℕ → List Char → Option (List (String × Value) × List Char)
  | 0, _ => none
  | _ + 1, [] => none
  | fuel + 1, first :: rest =>
      if first = '}' then some ([], rest)
      else if first = ',' then do
        let (pair, rest) ← parsePair fuel rest
        let (pairs, rest) ← parsePairs fuel rest
        some (pair :: pairs, rest)
      else none

end

/-- Read a text that consists of one value in the form that `dumps` writes, without blanks and
fractions. -/
def loads (text : List Char) : Option Value :=
  match parse (text.length + 1) text with
  | some (value, []) => some value
  | _ => none

/-! ## Reading what was written -/

theorem hexDigit?_digitChar : ∀ digit < 16, hexDigit? (Nat.digitChar digit) = some digit := by
  decide

theorem hexNumber?_hexUnit {unit : ℕ} (small : unit < 0x10000) :
    hexNumber? (hexUnit unit) = some unit := by
  have digit (number : ℕ) : hexDigit? (Nat.digitChar (number % 16)) = some (number % 16) :=
    hexDigit?_digitChar _ (Nat.mod_lt _ (by omega))
  simp only [hexNumber?, hexUnit, List.foldlM_cons, List.foldlM_nil, digit, Option.map_some,
    Option.bind_eq_bind, Option.bind_some, Option.pure_def, Option.some.injEq]
  omega

theorem scanUnits_hexUnit {unit : ℕ} (small : unit < 0x10000) (text : List Char) :
    scanUnits ('\\' :: 'u' :: (hexUnit unit ++ text)) =
      (scanUnits text).map fun read => (unit :: read.1, read.2) := by
  have number := hexNumber?_hexUnit small
  simp only [hexUnit] at number
  simp only [hexUnit, List.cons_append, List.nil_append, scanUnits, number]
  cases scanUnits text <;> rfl

/-- The short escapes are read back. -/
theorem scanUnits_shortEscape {escape : Char × ℕ} (member : escape ∈ shortEscapes)
    (text : List Char) :
    scanUnits ('\\' :: escape.1 :: text) =
      (scanUnits text).map fun read => (escape.2 :: read.1, read.2) := by
  have found : readEscapes.find? (fun other => other.1 = escape.1) = some escape := by
    revert escape
    decide
  have not_hex : escape.1 ≠ 'u' := by
    revert escape
    decide
  rw [scanUnits.eq_def]
  split
  · next equality => cases equality
  · next equality => cases equality
  · next equality =>
      simp only [List.cons.injEq] at equality
      exact absurd equality.2.1 not_hex
  · next equality =>
      simp only [List.cons.injEq, true_and] at equality
      obtain ⟨rfl, rfl⟩ := equality
      rw [found]
      cases scanUnits text <;> rfl
  · next no_escape equality =>
      simp only [List.cons.injEq] at equality
      exact (no_escape _ _ equality.1.symm equality.2.symm).elim

theorem scanUnits_plain {char : Char} (no_quote : char ≠ '"') (no_escape : char ≠ '\\')
    (visible : 0x20 ≤ char.toNat) (text : List Char) :
    scanUnits (char :: text) =
      (scanUnits text).map fun read => (char.toNat :: read.1, read.2) := by
  rw [scanUnits]
  · cases scanUnits text with
    | none => rfl
    | some read => exact if_neg (not_lt.mpr visible)
  all_goals simp_all

theorem scanUnits_escapeUnit {unit : ℕ} (small : unit < 0x10000) (text : List Char) :
    scanUnits (escapeUnit unit ++ text) =
      (scanUnits text).map fun read => (unit :: read.1, read.2) := by
  rw [escapeUnit]
  split
  · next escape found =>
      have stands_for : escape.2 = unit := by simpa using List.find?_some found
      rw [← stands_for]
      exact scanUnits_shortEscape (List.mem_of_find?_eq_some found) text
  · next absent =>
      split_ifs with visible
      · have not_escaped : ∀ escape ∈ shortEscapes, escape.2 ≠ unit := by
          simpa using absent
        have unit_eq : (Char.ofNat unit).toNat = unit := by
          have valid : unit.isValidChar := .inl (by omega)
          rw [Char.ofNat, dif_pos valid]
          rfl
        have plain := @scanUnits_plain (Char.ofNat unit) ?_ ?_ ?_ text
        · rwa [unit_eq] at plain
        · intro equality
          refine not_escaped ('"', 0x22) (by decide) (unit_eq.symm.trans ?_).symm
          rw [equality]
          rfl
        · intro equality
          refine not_escaped ('\\', 0x5c) (by decide) (unit_eq.symm.trans ?_).symm
          rw [equality]
          rfl
        · omega
      · exact scanUnits_hexUnit small text

theorem scanUnits_units {units : List ℕ} (small : ∀ unit ∈ units, unit < 0x10000)
    (rest : List Char) :
    scanUnits (units.flatMap escapeUnit ++ '"' :: rest) = some (units, rest) := by
  induction units with
  | nil => rfl
  | cons unit units induction =>
      obtain ⟨first, later⟩ := List.forall_mem_cons.mp small
      rw [List.flatMap_cons, List.append_assoc, scanUnits_escapeUnit first, induction later]
      rfl

theorem char?_toNat (char : Char) : char? char.toNat = some char := by
  have valid : char.toNat.isValidChar := char.valid
  rw [char?, if_pos valid, Char.ofNat_toNat]

theorem joinUnits_cons {unit : ℕ} (alone : ¬ (0xd800 ≤ unit ∧ unit < 0xdc00)) (units : List ℕ) :
    joinUnits (unit :: units) =
      (char? unit).bind fun char => (joinUnits units).map fun chars => char :: chars := by
  cases units with
  | nil =>
      simp only [joinUnits]
      cases char? unit <;> rfl
  | cons next units =>
      have no_pair : ¬ IsPair unit next := fun pair => alone pair.1
      rw [joinUnits, if_neg no_pair]
      cases char? unit <;> cases joinUnits (next :: units) <;> rfl

theorem joinUnits_codeUnits (chars : List Char) :
    joinUnits (chars.flatMap codeUnits) = some chars := by
  induction chars with
  | nil => rfl
  | cons char chars induction =>
      have valid : char.toNat < 0xd800 ∨ 0xdfff < char.toNat ∧ char.toNat < 0x110000 := char.valid
      rw [List.flatMap_cons, codeUnits]
      split_ifs with small
      · rw [List.singleton_append, joinUnits_cons (by omega), char?_toNat, induction]
        rfl
      · have pair : IsPair (0xd800 + (char.toNat - 0x10000) / 0x400)
            (0xdc00 + (char.toNat - 0x10000) % 0x400) := by
          rw [IsPair]
          omega
        have number : 0x10000 + (0xd800 + (char.toNat - 0x10000) / 0x400 - 0xd800) * 0x400 +
            (0xdc00 + (char.toNat - 0x10000) % 0x400 - 0xdc00) = char.toNat := by
          omega
        rw [List.cons_append, List.singleton_append, joinUnits, if_pos pair, number, char?_toNat,
          induction]
        rfl

theorem codeUnits_small (char : Char) : ∀ unit ∈ codeUnits char, unit < 0x10000 := by
  have valid : char.toNat < 0xd800 ∨ 0xdfff < char.toNat ∧ char.toNat < 0x110000 := char.valid
  rw [codeUnits]
  split_ifs with small
  · simpa using small
  · simp only [List.mem_cons, List.not_mem_nil, or_false, forall_eq_or_imp, forall_eq]
    omega

theorem parseString_printString (value : String) (rest : List Char) :
    parseString (printString value ++ rest) = some (value, rest) := by
  have small : ∀ unit ∈ value.toList.flatMap codeUnits, unit < 0x10000 := by
    intro unit member
    obtain ⟨char, _, of_char⟩ := List.mem_flatMap.mp member
    exact codeUnits_small char unit of_char
  rw [parseString, printString, List.append_assoc, List.singleton_append, scanUnits_units small]
  simp only [Option.bind_eq_bind, Option.bind_some, joinUnits_codeUnits, String.ofList_toList]

/-! ### Numbers -/

/-- The next character is no digit. -/
def NumberEnds (rest : List Char) : Prop := ∀ char ∈ rest.head?, ¬ char.isDigit

theorem NumberEnds.takeWhile {rest : List Char} (ends : NumberEnds rest) :
    rest.takeWhile Char.isDigit = [] := by
  cases rest with
  | nil => rfl
  | cons char rest => exact List.takeWhile_cons_of_neg (ends char rfl)

theorem NumberEnds.dropWhile {rest : List Char} (ends : NumberEnds rest) :
    rest.dropWhile Char.isDigit = rest := by
  cases rest with
  | nil => rfl
  | cons char rest => exact List.dropWhile_cons_of_neg (ends char rfl)

theorem head_toDigits {number : ℕ} (positive : 0 < number) :
    ∃ first others, Nat.toDigits 10 number = first :: others ∧ first ≠ '0' := by
  induction number using Nat.strong_induction_on with
  | _ number induction =>
      by_cases small : number < 10
      · refine ⟨number.digitChar, [], Nat.toDigits_of_lt_base small, ?_⟩
        clear induction
        interval_cases number <;> decide
      · obtain ⟨first, others, digits, nonzero⟩ := induction (number / 10) (by omega) (by omega)
        refine ⟨first, others ++ [(number % 10).digitChar], ?_, nonzero⟩
        rw [Nat.toDigits_of_base_le (by omega) (by omega), digits, List.cons_append]

theorem parseNat_toDigits (number : ℕ) {rest : List Char} (ends : NumberEnds rest) :
    parseNat (Nat.toDigits 10 number ++ rest) = some (number, rest) := by
  have all_digits : ∀ char ∈ Nat.toDigits 10 number, char.isDigit = true :=
    fun _ member => Nat.isDigit_of_mem_toDigits (by omega) (by omega) member
  rw [parseNat, List.takeWhile_append_of_pos all_digits, List.dropWhile_append_of_pos all_digits,
    ends.takeWhile, ends.dropWhile, List.append_nil]
  rcases Nat.eq_zero_or_pos number with rfl | positive
  · rfl
  · obtain ⟨first, others, digits, nonzero⟩ := head_toDigits positive
    rw [digits]
    split
    · next equality => cases equality
    · next equality => exact absurd (List.cons.inj equality).1 nonzero
    · rw [← digits, Nat.ofDigitChars_ten_toDigits]

/-! ### Values -/

mutual

/-- The keys of every object in a value are distinct. -/
def Value.KeysDistinct : Value → Prop
  | .list items => ItemsDistinct items
  | .dict entries => (entries.map Prod.fst).Nodup ∧ EntriesDistinct entries
  | _ => True

def ItemsDistinct : List Value → Prop
  | [] => True
  | item :: items => item.KeysDistinct ∧ ItemsDistinct items

def EntriesDistinct : List (String × Value) → Prop
  | [] => True
  | (_, value) :: entries => value.KeysDistinct ∧ EntriesDistinct entries

end

theorem ofPairs_of_nodup {pairs : List (String × Value)} (nodup : (pairs.map Prod.fst).Nodup) :
    ofPairs pairs = pairs := by
  have appended : ∀ front : List (String × Value), ((front ++ pairs).map Prod.fst).Nodup →
      pairs.foldl (fun entries pair => OrderedDict.setEntry pair.1 pair.2 entries) front =
        front ++ pairs := by
    clear nodup
    induction pairs with
    | nil => exact fun front _ => (List.append_nil front).symm
    | cons pair pairs induction =>
        intro front nodup
        have absent : pair.1 ∉ front.map Prod.fst := by
          rw [List.map_append, List.map_cons] at nodup
          intro member
          exact (List.nodup_append.mp nodup).2.2 _ member _ List.mem_cons_self rfl
        rw [List.append_cons] at nodup
        rw [List.foldl_cons, OrderedDict.setEntry_of_notMem absent, induction _ nodup,
          ← List.append_cons]
  exact appended [] nodup

theorem exists_digit_toDigits (number : ℕ) :
    ∃ first others, Nat.toDigits 10 number = first :: others ∧ first.isDigit = true := by
  cases digits : Nat.toDigits 10 number with
  | nil => exact absurd digits Nat.toDigits_ne_nil
  | cons first others =>
      have member : first ∈ Nat.toDigits 10 number := digits ▸ List.mem_cons_self
      exact ⟨first, others, rfl, Nat.isDigit_of_mem_toDigits (by omega) (by omega) member⟩

theorem ne_of_isDigit {char other : Char} (is_digit : char.isDigit = true)
    (not_digit : other.isDigit = false) : char ≠ other := by
  rintro rfl
  exact absurd is_digit (not_digit ▸ Bool.false_ne_true)

theorem parse_printInt (value : ℤ) {fuel : ℕ} {rest : List Char} (ends : NumberEnds rest) :
    parse (fuel + 1) (printInt value ++ rest) = some (.int value, rest) := by
  have number := parseNat_toDigits value.natAbs ends
  rw [printInt]
  split_ifs with negative
  · have value_eq : -(value.natAbs : ℤ) = value := by omega
    rw [List.cons_append, parse]
    simp only [Char.reduceEq, if_false, if_true, number, Option.map_some, value_eq]
  · have value_eq : (value.natAbs : ℤ) = value := by omega
    obtain ⟨first, others, digits, is_digit⟩ := exists_digit_toDigits value.natAbs
    rw [digits, List.cons_append] at number ⊢
    rw [parse, if_neg (ne_of_isDigit is_digit rfl), if_neg (ne_of_isDigit is_digit rfl),
      if_neg (ne_of_isDigit is_digit rfl), if_neg (ne_of_isDigit is_digit rfl),
      if_neg (ne_of_isDigit is_digit rfl), if_neg (ne_of_isDigit is_digit rfl),
      if_neg (ne_of_isDigit is_digit rfl), number, Option.map_some, value_eq]

theorem exists_head_print (value : Value) :
    ∃ first others, value.print = first :: others ∧ first ≠ ']' ∧ first ≠ '}' := by
  match value with
  | .null | .bool true | .bool false | .str _ | .list [] | .list (_ :: _) | .dict []
  | .dict ((_, _) :: _) =>
      rw [Value.print]
      exact ⟨_, _, rfl, by decide, by decide⟩
  | .int value =>
      rw [Value.print, printInt]
      split_ifs with negative
      · exact ⟨_, _, rfl, by decide, by decide⟩
      · obtain ⟨first, others, digits, is_digit⟩ := exists_digit_toDigits value.natAbs
        exact ⟨first, others, digits, ne_of_isDigit is_digit rfl, ne_of_isDigit is_digit rfl⟩

theorem expect_cons_of_ne {expected first : Char} (differs : first ≠ expected)
    (others : List Char) : expect [expected] (first :: others) = none := by
  rw [expect, if_neg]
  intro isPrefix
  exact differs (List.cons_prefix_cons.mp isPrefix).1.symm

theorem numberEnds_printItems (items : List Value) (rest : List Char) :
    NumberEnds (printItems items ++ rest) := by
  cases items <;> simp [NumberEnds, printItems]

theorem numberEnds_printEntries (entries : List (String × Value)) (rest : List Char) :
    NumberEnds (printEntries entries ++ rest) := by
  cases entries <;> simp [NumberEnds, printEntries]

theorem parsePair_of_parse {fuel : ℕ} {value : Value} {rest : List Char} (key : String)
    (read : parse fuel (value.print ++ rest) = some (value, rest)) :
    parsePair (fuel + 1) ('"' :: (printString key ++ ':' :: (value.print ++ rest))) =
      some ((key, value), rest) := by
  have quote : expect ['"'] ('"' :: (printString key ++ ':' :: (value.print ++ rest))) =
      some (printString key ++ ':' :: (value.print ++ rest)) := by
    simp [expect]
  have colon : expect [':'] (':' :: (value.print ++ rest)) = some (value.print ++ rest) := by
    simp [expect]
  rw [parsePair]
  simp only [quote, colon, parseString_printString, read, Option.bind_eq_bind, Option.bind_some]

mutual

/-- A printed value is read back, whatever follows it. -/
theorem parse_print (value : Value) (distinct : value.KeysDistinct) {fuel : ℕ}
    (enough : value.print.length ≤ fuel) {rest : List Char} (ends : NumberEnds rest) :
    parse fuel (value.print ++ rest) = some (value, rest) := by
  match value, fuel with
  | .null, fuel + 1 => rfl
  | .bool true, fuel + 1 => rfl
  | .bool false, fuel + 1 => rfl
  | .int value, fuel + 1 => exact parse_printInt value ends
  | .str value, fuel + 1 =>
      rw [Value.print, List.cons_append, parse]
      simp only [Char.reduceEq, if_false, if_true, parseString_printString, Option.map_some]
  | .list [], fuel + 1 => rfl
  | .list (item :: items), fuel + 1 =>
      simp only [Value.print, List.length_cons, List.length_append] at enough
      have item_read : parse fuel (item.print ++ (printItems items ++ rest)) = _ :=
        parse_print item distinct.1 (by omega) (numberEnds_printItems items rest)
      have items_read : parseItems fuel (printItems items ++ rest) = _ :=
        parseItems_printItems items distinct.2 (by omega) rest
      have not_empty : expect [']'] (item.print ++ (printItems items ++ rest)) = none := by
        obtain ⟨first, others, starts, opens, _⟩ := exists_head_print item
        rw [starts, List.cons_append, expect_cons_of_ne opens]
      rw [Value.print, List.cons_append, List.append_assoc, parse]
      simp only [Char.reduceEq, if_false, if_true, not_empty, item_read, items_read,
        Option.bind_eq_bind, Option.bind_some]
  | .dict [], fuel + 1 => rfl
  | .dict ((key, value) :: entries), fuel + 2 =>
      simp only [Value.print, List.length_cons, List.length_append] at enough
      have value_read : parse fuel (value.print ++ (printEntries entries ++ rest)) = _ :=
        parse_print value distinct.2.1 (by omega) (numberEnds_printEntries entries rest)
      have pair_read := parsePair_of_parse key value_read
      have pairs_read : parsePairs (fuel + 1) (printEntries entries ++ rest) = _ :=
        parsePairs_printEntries entries distinct.2.2 (by omega) rest
      have pairs_eq := ofPairs_of_nodup distinct.1
      have not_empty := expect_cons_of_ne (by decide : '"' ≠ '}')
        (printString key ++ ':' :: (value.print ++ (printEntries entries ++ rest)))
      simp only [Value.print, List.cons_append, List.append_assoc, parse, Char.reduceEq, if_false,
        if_true, not_empty, pair_read, pairs_read, pairs_eq, Option.bind_eq_bind, Option.bind_some]
  | .dict (_ :: _), 1 => simp [Value.print] at enough
  | value, 0 =>
      obtain ⟨first, others, starts, _⟩ := exists_head_print value
      rw [starts] at enough
      cases enough

theorem parseItems_printItems (items : List Value) (distinct : ItemsDistinct items) {fuel : ℕ}
    (enough : (printItems items).length ≤ fuel) (rest : List Char) :
    parseItems fuel (printItems items ++ rest) = some (items, rest) := by
  match items, fuel with
  | [], 0 | _ :: _, 0 => simp [printItems] at enough
  | [], fuel + 1 => rfl
  | item :: items, fuel + 1 =>
      simp only [printItems, List.length_cons, List.length_append] at enough
      have item_read : parse fuel (item.print ++ (printItems items ++ rest)) = _ :=
        parse_print item distinct.1 (by omega) (numberEnds_printItems items rest)
      have items_read : parseItems fuel (printItems items ++ rest) = _ :=
        parseItems_printItems items distinct.2 (by omega) rest
      rw [printItems, List.cons_append, List.append_assoc, parseItems]
      simp only [Char.reduceEq, if_false, if_true, item_read, items_read, Option.bind_eq_bind,
        Option.bind_some]

theorem parsePairs_printEntries (entries : List (String × Value))
    (distinct : EntriesDistinct entries) {fuel : ℕ}
    (enough : (printEntries entries).length ≤ fuel) (rest : List Char) :
    parsePairs fuel (printEntries entries ++ rest) = some (entries, rest) := by
  match entries, fuel with
  | [], 0 | (_, _) :: _, 0 => simp [printEntries] at enough
  | [], fuel + 1 => rfl
  | (key, value) :: entries, 1 => simp [printEntries] at enough
  | (key, value) :: entries, fuel + 2 =>
      simp only [printEntries, List.length_cons, List.length_append] at enough
      have value_read : parse fuel (value.print ++ (printEntries entries ++ rest)) = _ :=
        parse_print value distinct.1 (by omega) (numberEnds_printEntries entries rest)
      have pair_read := parsePair_of_parse key value_read
      have pairs_read : parsePairs (fuel + 1) (printEntries entries ++ rest) = _ :=
        parsePairs_printEntries entries distinct.2 (by omega) rest
      simp only [printEntries, List.cons_append, List.append_assoc, parsePairs, Char.reduceEq,
        if_false, if_true, pair_read, pairs_read, Option.bind_eq_bind, Option.bind_some]

end

/-! ### Whole texts -/

theorem perm_sortByKey {α : Type} (entries : List (String × α)) :
    (sortByKey entries).Perm entries :=
  List.perm_insertionSort _ entries

theorem sortItems_eq_map (items : List Value) : sortItems items = items.map Value.sortKeys := by
  induction items with
  | nil => rfl
  | cons item items induction => rw [sortItems, List.map_cons, induction]

theorem sortEntries_eq_map (entries : List (String × Value)) :
    sortEntries entries = entries.map fun entry => (entry.1, entry.2.sortKeys) := by
  induction entries with
  | nil => rfl
  | cons entry entries induction => rw [sortEntries, List.map_cons, induction]

theorem itemsDistinct_iff (items : List Value) :
    ItemsDistinct items ↔ ∀ item ∈ items, item.KeysDistinct := by
  induction items with
  | nil => simp [ItemsDistinct]
  | cons item items induction => simp [ItemsDistinct, induction]

theorem entriesDistinct_iff (entries : List (String × Value)) :
    EntriesDistinct entries ↔ ∀ entry ∈ entries, entry.2.KeysDistinct := by
  induction entries with
  | nil => simp [EntriesDistinct]
  | cons entry entries induction => simp [EntriesDistinct, induction]

mutual

theorem Value.KeysDistinct.sortKeys {value : Value} (distinct : value.KeysDistinct) :
    value.sortKeys.KeysDistinct := by
  match value with
  | .null | .bool _ | .int _ | .str _ => trivial
  | .list items => exact ItemsDistinct.sortItems distinct
  | .dict entries =>
      have same := perm_sortByKey (sortEntries entries)
      refine ⟨?_, ?_⟩
      · rw [(same.map Prod.fst).nodup_iff, sortEntries_eq_map, List.map_map]
        exact distinct.1
      · rw [entriesDistinct_iff]
        intro entry member
        exact (entriesDistinct_iff _).mp (EntriesDistinct.sortEntries distinct.2) entry
          (same.mem_iff.mp member)

theorem ItemsDistinct.sortItems {items : List Value} (distinct : ItemsDistinct items) :
    ItemsDistinct (sortItems items) := by
  match items with
  | [] => trivial
  | _ :: _ => exact ⟨distinct.1.sortKeys, ItemsDistinct.sortItems distinct.2⟩

theorem EntriesDistinct.sortEntries {entries : List (String × Value)}
    (distinct : EntriesDistinct entries) : EntriesDistinct (sortEntries entries) := by
  match entries with
  | [] => trivial
  | (_, _) :: _ => exact ⟨distinct.1.sortKeys, EntriesDistinct.sortEntries distinct.2⟩

end

/-- The reader takes back what the writer wrote, with sorted keys. -/
theorem loads_dumps {value : Value} (distinct : value.KeysDistinct) :
    loads (dumps value) = some value.sortKeys := by
  have read := parse_print value.sortKeys distinct.sortKeys (Nat.le_add_right _ 1)
    (fun _ => nofun : NumberEnds [])
  rw [List.append_nil] at read
  rw [loads, dumps, read]

end JsonText
