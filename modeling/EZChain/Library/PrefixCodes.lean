import Mathlib.Data.List.Forall2

/-!
# Prefix codes

A code writes values as words over an alphabet; one value may have several words.  A value is
readable when every text that starts with one of its words shows the value and where the word ends.
Where several representations stand for one value, a relation says which of them a text need not
tell apart.  The module says how readable codes are put together: words behind a header with their
length, and counted sequences of values.
-/

namespace PrefixCodes

variable {α σ : Type*}

/-- A text that starts with a word of `value` shows where the word ends, and shows the value up to
a relation. -/
def ReadableUpTo (same : α → α → Prop) (Codes : α → List σ → Prop) (value : α) : Prop :=
  ∀ ⦃word other word' rest rest'⦄, Codes value word → Codes other word' →
    word ++ rest = word' ++ rest' → same value other ∧ word = word' ∧ rest = rest'

/-- Every value of the code is readable. -/
def Readable (Codes : α → List σ → Prop) : Prop :=
  ∀ value, ReadableUpTo Eq Codes value

section ReadableUpTo

variable {same : α → α → Prop} {Codes : α → List σ → Prop} {value other : α}
  {word word' : List σ}

/-- One word shows one value only. -/
theorem ReadableUpTo.same_of_eq (readable : ReadableUpTo same Codes value)
    (codes : Codes value word) (codes' : Codes other word') (equality : word = word') :
    same value other := by
  have same_text : word ++ [] = word' ++ [] := by rw [equality]
  exact (readable codes codes' same_text).1

/-- No word is a proper prefix of a word. -/
theorem ReadableUpTo.eq_of_prefix (readable : ReadableUpTo same Codes value)
    (codes : Codes value word) (codes' : Codes other word') (starts : word <+: word') :
    word = word' := by
  obtain ⟨rest, append_eq⟩ := starts
  rw [← List.append_nil word'] at append_eq
  exact (readable codes codes' append_eq).2.1

end ReadableUpTo

/-! ## Words behind their length -/

/-- A payload behind a header that gives its length. -/
def Framed (Header : ℕ → List σ → Prop) (payload word : List σ) : Prop :=
  ∃ header, Header payload.length header ∧ word = header ++ payload

theorem Readable.framed {Header : ℕ → List σ → Prop} (readable : Readable Header) :
    Readable (Framed Header) := by
  rintro payload word other word' rest rest' ⟨header, codes, rfl⟩ ⟨header', codes', rfl⟩ equality
  simp only [List.append_assoc] at equality
  obtain ⟨length_eq, rfl, tail_eq⟩ := readable _ codes codes' equality
  obtain ⟨rfl, rfl⟩ := List.append_inj tail_eq length_eq
  exact ⟨rfl, rfl, rfl⟩

/-! ## Sequences of words -/

/-- The words of a sequence of values, one after the other. -/
inductive Sequence (Item : α → List σ → Prop) : List α → List σ → Prop
  | nil : Sequence Item [] []
  | cons {item items word words} (head : Item item word) (tail : Sequence Item items words) :
      Sequence Item (item :: items) (word ++ words)

/-- Sequences of one length are told apart by a text that starts with them. -/
theorem Sequence.unique {same : α → α → Prop} {Item : α → List σ → Prop} {items others : List α}
    {words words' rest rest' : List σ} (sequence : Sequence Item items words)
    (readable : ∀ item ∈ items, ReadableUpTo same Item item)
    (sequence' : Sequence Item others words') (length_eq : items.length = others.length)
    (equality : words ++ rest = words' ++ rest') :
    List.Forall₂ same items others ∧ words = words' ∧ rest = rest' := by
  induction sequence generalizing others words' with
  | nil =>
      cases sequence' with
      | nil => exact ⟨.nil, rfl, equality⟩
      | cons => cases length_eq
  | @cons item items word words head tail induction =>
      cases sequence' with
      | nil => cases length_eq
      | @cons other others word' words' head' tail' =>
          simp only [List.append_assoc] at equality
          obtain ⟨head_same, rfl, tail_eq⟩ :=
            readable item List.mem_cons_self head head' equality
          obtain ⟨tail_same, rfl, rfl⟩ := induction
            (fun later member => readable later (List.mem_cons_of_mem item member)) tail'
            (Nat.succ.inj length_eq) tail_eq
          exact ⟨.cons head_same tail_same, rfl, rfl⟩

/-- A sequence of values behind a header that gives their number. -/
def Counted (Header : ℕ → List σ → Prop) (Item : α → List σ → Prop) (items : List α)
    (word : List σ) : Prop :=
  ∃ header words, Header items.length header ∧ Sequence Item items words ∧ word = header ++ words

theorem Readable.counted {Header : ℕ → List σ → Prop} (header : Readable Header)
    {same : α → α → Prop} {Item : α → List σ → Prop} {items : List α}
    (readable : ∀ item ∈ items, ReadableUpTo same Item item) :
    ReadableUpTo (List.Forall₂ same) (Counted Header Item) items := by
  rintro word others word' rest rest' ⟨count, words, codes, sequence, rfl⟩
    ⟨count', words', codes', sequence', rfl⟩ equality
  simp only [List.append_assoc] at equality
  obtain ⟨length_eq, rfl, tail_eq⟩ := header _ codes codes' equality
  obtain ⟨all_same, rfl, rfl⟩ := sequence.unique readable sequence' length_eq tail_eq
  exact ⟨all_same, rfl, rfl⟩

end PrefixCodes
