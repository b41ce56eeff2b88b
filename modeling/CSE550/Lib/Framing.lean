import Mathlib.Data.List.Infix
import Mathlib.Logic.Nontrivial.Basic

/-!
Owns what a receiver without framing makes of a stream of encoded items: it
takes one item off the front of each chunk and drops what follows it. It
receives the items exactly when every chunk is one encoded item.

Does not own any encoding.
-/

namespace CSE550.Lib

variable {Item Byte : Type}

/-- What a decoder promises: it finds an encoded item at the front and finds none
in a proper part of one. -/
structure Decodes (encode : Item → List Byte) (decode : List Byte → Option Item) : Prop where
  complete : ∀ item rest, decode (encode item ++ rest) = some item
  incomplete : ∀ item part, part <+: encode item → part ≠ encode item → decode part = none

/-- The items a receiver takes, one off each chunk, up to the first failure. -/
def firstItems (decode : List Byte → Option Item) : List (List Byte) → List Item
  | [] => []
  | chunk :: rest =>
      match decode chunk with
      | none => []
      | some item => item :: firstItems decode rest

variable {encode : Item → List Byte}

theorem Decodes.decode_encode {decode : List Byte → Option Item} (decodes : Decodes encode decode)
    (item : Item) : decode (encode item) = some item := by
  have found := decodes.complete item []
  rwa [List.append_nil] at found

/-- Chunks of one encoded item each are all received. -/
theorem Decodes.firstItems_map {decode : List Byte → Option Item} (decodes : Decodes encode decode)
    (items : List Item) : firstItems decode (items.map encode) = items := by
  induction items with
  | nil => rfl
  | cons item items inductionHypothesis =>
      rw [List.map_cons, firstItems, decodes.decode_encode item]
      exact congrArg (item :: ·) inductionHypothesis

/-! ### The decoder that knows complete items only -/

/-- No encoded item starts with another one. -/
def PrefixFree (encode : Item → List Byte) : Prop :=
  ∀ left right, encode left <+: encode right → left = right

/-- The end of an encoded item can be told from the encoding alone. -/
def Delimited (encode : Item → List Byte) : Prop :=
  ∀ left right restLeft restRight, encode left ++ restLeft = encode right ++ restRight →
    left = right ∧ restLeft = restRight

theorem Delimited.prefixFree (delimited : Delimited encode) : PrefixFree encode := by
  rintro left right ⟨rest, whole⟩
  exact (delimited left right rest [] (by rw [whole, List.append_nil])).1

/-- A terminator that no item contains delimits the items. -/
theorem delimited_of_terminator {terminator : Byte} (injective : Function.Injective encode)
    (absent : ∀ item, terminator ∉ encode item) :
    Delimited fun item => encode item ++ [terminator] := by
  have cut : ∀ left right restLeft restRight : List Byte, terminator ∉ left → terminator ∉ right →
      left ++ terminator :: restLeft = right ++ terminator :: restRight →
        left = right ∧ restLeft = restRight := by
    intro left
    induction left with
    | nil =>
        rintro (_ | ⟨byte, right⟩) restLeft restRight _ outside same
        · exact ⟨rfl, (List.cons.inj same).2⟩
        · exact absurd (List.cons.inj same).1 fun equal => outside (by simp [equal])
    | cons byte left inductionHypothesis =>
        rintro (_ | ⟨other, right⟩) restLeft restRight inside outside same
        · exact absurd (List.cons.inj same).1 fun equal => inside (by simp [equal])
        · rw [List.mem_cons, not_or] at inside outside
          rcases List.cons.inj same with ⟨rfl, tails⟩
          rcases inductionHypothesis right restLeft restRight inside.2 outside.2 tails with
            ⟨rfl, rests⟩
          exact ⟨rfl, rests⟩
  intro left right restLeft restRight same
  simp only [List.append_assoc, List.singleton_append] at same
  rcases cut _ _ _ _ (absent left) (absent right) same with ⟨encoded, rests⟩
  exact ⟨injective encoded, rests⟩

/-- The item whose encoding starts the bytes. -/
noncomputable def decodeFirst (encode : Item → List Byte) (bytes : List Byte) : Option Item :=
  open Classical in if found : ∃ item, encode item <+: bytes then some found.choose else none

theorem encode_prefix_of_decodeFirst {bytes : List Byte} {item : Item}
    (decoded : decodeFirst encode bytes = some item) : encode item <+: bytes := by
  unfold decodeFirst at decoded
  split at decoded
  · rename_i found
    rw [← Option.some.inj decoded]
    exact found.choose_spec
  · cases decoded

/-- A decoder that keeps its promise makes the encoding prefix free. -/
theorem Decodes.prefixFree {decode : List Byte → Option Item} (decodes : Decodes encode decode) :
    PrefixFree encode := by
  rintro left right starts
  by_cases same : encode left = encode right
  · have decoded := decodes.decode_encode left
    rw [same, decodes.decode_encode right] at decoded
    exact (Option.some.inj decoded).symm
  · have decoded := decodes.incomplete right (encode left) starts same
    rw [decodes.decode_encode left] at decoded
    cases decoded

theorem PrefixFree.decodes (prefixFree : PrefixFree encode) :
    Decodes encode (decodeFirst encode) := by
  constructor
  · intro item rest
    have found : ∃ other, encode other <+: encode item ++ rest := ⟨item, List.prefix_append _ _⟩
    cases decoded : decodeFirst encode (encode item ++ rest) with
    | none => simp [decodeFirst, found] at decoded
    | some other =>
        have starts := encode_prefix_of_decodeFirst decoded
        -- both encodings start the same bytes, so one starts the other
        rcases List.prefix_or_prefix_of_prefix starts (List.prefix_append (encode item) rest) with
          shorter | longer
        · rw [prefixFree _ _ shorter]
        · rw [prefixFree _ _ longer]
  · intro item part starts different
    cases decoded : decodeFirst encode part with
    | none => rfl
    | some other =>
        have inside := encode_prefix_of_decodeFirst decoded
        obtain rfl := prefixFree _ _ (inside.trans starts)
        exact absurd (starts.eq_of_length_le inside.length_le) different

/-! ### Streams of encoded items -/

theorem PrefixFree.ne_nil [Nontrivial Item] (prefixFree : PrefixFree encode) (item : Item) :
    encode item ≠ [] := by
  intro empty
  rcases exists_ne item with ⟨other, different⟩
  exact different (prefixFree item other (empty ▸ List.nil_prefix)).symm

/-- A stream of encoded items can be read in one way only. -/
theorem PrefixFree.flatMap_injective [Nontrivial Item] (prefixFree : PrefixFree encode) :
    Function.Injective fun items : List Item => items.flatMap encode := by
  intro left
  induction left with
  | nil =>
      rintro (_ | ⟨item, right⟩) same
      · rfl
      · exact absurd (List.append_eq_nil_iff.mp same.symm).1 (prefixFree.ne_nil item)
  | cons item left inductionHypothesis =>
      rintro (_ | ⟨other, right⟩) same
      · exact absurd (List.append_eq_nil_iff.mp same).1 (prefixFree.ne_nil item)
      · have whole : encode item ++ left.flatMap encode = encode other ++ right.flatMap encode :=
          same
        have sameItem : item = other := by
          have starts : encode item <+: encode other ++ right.flatMap encode :=
            whole ▸ List.prefix_append _ _
          rcases List.prefix_or_prefix_of_prefix starts (List.prefix_append _ _) with
            shorter | longer
          · exact prefixFree _ _ shorter
          · exact (prefixFree _ _ longer).symm
        subst sameItem
        rw [inductionHypothesis (List.append_cancel_left whole)]

/-- Each item received took at least its encoding off the stream. -/
theorem length_firstItems_le (chunks : List (List Byte)) :
    ((firstItems (decodeFirst encode) chunks).flatMap encode).length ≤ chunks.flatten.length := by
  induction chunks with
  | nil => exact le_rfl
  | cons chunk rest inductionHypothesis =>
      cases decoded : decodeFirst encode chunk with
      | none => simp [firstItems, decoded]
      | some item =>
          have starts := (encode_prefix_of_decodeFirst decoded).length_le
          simp only [firstItems, decoded, List.flatMap_cons, List.flatten_cons, List.length_append]
          omega

/-- Nothing is dropped only when every chunk is one encoded item. -/
theorem chunks_eq_of_length {chunks : List (List Byte)} (nonempty : ∀ chunk ∈ chunks, chunk ≠ [])
    (all : ((firstItems (decodeFirst encode) chunks).flatMap encode).length =
      chunks.flatten.length) :
    chunks = (firstItems (decodeFirst encode) chunks).map encode := by
  induction chunks with
  | nil => rfl
  | cons chunk rest inductionHypothesis =>
      cases decoded : decodeFirst encode chunk with
      | none =>
          have positive := List.length_pos_iff.mpr (nonempty chunk (by simp))
          simp only [firstItems, decoded, List.flatMap_nil, List.length_nil, List.flatten_cons,
            List.length_append] at all
          omega
      | some item =>
          have starts := encode_prefix_of_decodeFirst decoded
          have later := @length_firstItems_le _ _ encode rest
          have short := starts.length_le
          simp only [firstItems, decoded, List.flatMap_cons, List.flatten_cons,
            List.length_append] at all
          have whole : encode item = chunk := starts.eq_of_length (by omega)
          have others := inductionHypothesis (fun other member => nonempty other (by simp [member]))
            (by omega)
          simp only [firstItems, decoded, List.map_cons, whole]
          exact congrArg (chunk :: ·) others

end CSE550.Lib
