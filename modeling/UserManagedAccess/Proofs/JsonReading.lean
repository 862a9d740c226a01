import UserManagedAccess.Proofs.JsonNumerals
import UserManagedAccess.Proofs.JsonScalars

/-! What the text that is written for a JSON value is read as, whatever follows it: the value, as
long as its numbers are read as they are written and its arrays and objects do not stand too deep.
-/
namespace UserManagedAccess.Json

open Text.Utf8 (bytes bytes_append bytes_cons_ascii)

/-! ## Values -/

mutual

/-- All numbers in the value are read as they are written. -/
def IsReadable : Json → Prop
  | .number n => Numeral.ReadsBack n
  | .array items => AreReadable items
  | .object members => AreReadableMembers members
  | _ => True

def AreReadable : List Json → Prop
  | [] => True
  | item :: rest => IsReadable item ∧ AreReadable rest

def AreReadableMembers : List (String × Json) → Prop
  | [] => True
  | (_, value) :: rest => IsReadable value ∧ AreReadableMembers rest

end

mutual

/-- How many arrays and objects stand within one another. -/
def height : Json → Nat
  | .array items => itemsHeight items + 1
  | .object members => membersHeight members + 1
  | _ => 0

def itemsHeight : List Json → Nat
  | [] => 0
  | item :: rest => max (height item) (itemsHeight rest)

def membersHeight : List (String × Json) → Nat
  | [] => 0
  | (_, value) :: rest => max (height value) (membersHeight rest)

end

mutual

/-- The value with its numbers as they are read, if all of them can be. -/
def reread? : Json → Option Json
  | .number n =>
    match Numeral.written n with
    | .value found => some (.number found)
    | .tooLarge => none
  | .array items => (rereadItems? items).map .array
  | .object members => (rereadMembers? members).map .object
  | v => some v

def rereadItems? : List Json → Option (List Json)
  | [] => some []
  | item :: rest =>
    match reread? item, rereadItems? rest with
    | some found, some others => some (found :: others)
    | _, _ => none

def rereadMembers? : List (String × Json) → Option (List (String × Json))
  | [] => some []
  | (name, value) :: rest =>
    match reread? value, rereadMembers? rest with
    | some found, some others => some ((name, found) :: others)
    | _, _ => none

end

namespace Document

mutual

/-- The tree that the text of a value is read as, within `depth` containers. -/
def seen : (depth : Nat) → Json → Document
  | _, .null => .null
  | _, .bool b => .bool b
  | _, .number n =>
    match Numeral.written n with
    | .value found => .number found
    | .tooLarge => .unreadable
  | _, .string s => .string s
  | depth, .array items => limited depth (.array (seenItems (depth + 1) items) true)
  | depth, .object members => limited depth (.object (seenMembers (depth + 1) members) true)

def seenItems : (depth : Nat) → List Json → List Document
  | _, [] => []
  | depth, item :: rest => seen depth item :: seenItems depth rest

def seenMembers : (depth : Nat) → List (String × Json) → List (Option String × Document)
  | _, [] => []
  | depth, (name, value) :: rest => (some name, seen depth value) :: seenMembers depth rest

end

/-- A value may start with the byte, and an array neither goes on nor ends with it. -/
private structure StartsValue (b : UInt8) : Prop where
  notSpace : isSpace b = false
  notClose : b ≠ 0x5D
  notComma : b ≠ 0x2C

private theorem skipSpace_cons {b : UInt8} (h : isSpace b = false) (tail : List UInt8) :
    skipSpace (b :: tail) = b :: tail := by
  simp [skipSpace, h]

private theorem startsNumeral_of_read? {input : List UInt8} {found : Numeral × List UInt8}
    (h : Numeral.read? input = some found) :
    ∃ b tail, input = b :: tail ∧ (b == 0x2D || Numeral.isDigit b) = true := by
  cases input with
  | nil => cases h
  | cons b tail =>
    refine ⟨b, tail, rfl, ?_⟩
    by_cases hb : b = 0x2D
    · simp [hb]
    · cases hdigit : Numeral.isDigit b with
      | true => simp
      | false =>
        rw [Numeral.read?] at h
        · simp [Numeral.span, hdigit] at h
        · rintro _ ⟨⟩
          exact hb rfl

private theorem startsValue_of_numeral {b : UInt8} (h : (b == 0x2D || Numeral.isDigit b) = true) :
    StartsValue b ∧ b ≠ 0x5B ∧ b ≠ 0x7B ∧ b ≠ 0x22 := by
  have hrange : b.toNat = 0x2D ∨ 0x30 ≤ b.toNat ∧ b.toNat ≤ 0x39 := by
    simpa [Numeral.isDigit, UInt8.le_iff_toNat_le, ← UInt8.toNat_inj] using h
  refine ⟨⟨?_, ?_, ?_⟩, ?_, ?_, ?_⟩
  · simp only [isSpace, Bool.or_eq_false_iff, beq_eq_false_iff_ne, ne_eq, ← UInt8.toNat_inj,
      UInt8.reduceToNat]
    omega
  all_goals
    rintro rfl
    simp at hrange

/-! ### Steps of the reader -/

private theorem readValue_scalar {b : UInt8} (hb : StartsValue b) (harray : b ≠ 0x5B)
    (hobject : b ≠ 0x7B) (fuel depth : Nat) (tail : List UInt8) :
    readValue (fuel + 1) depth (b :: tail) = scalar (b :: tail) := by
  rw [readValue, skipSpace_cons hb.notSpace]
  split
  · next heq =>
    cases heq
    exact absurd rfl harray
  · next heq =>
    cases heq
    exact absurd rfl hobject
  · rfl

private theorem scalar_numeral {b : UInt8} {tail rest : List UInt8} {n : JsonNumber}
    (hb : (b == 0x2D || Numeral.isDigit b) = true)
    (hread : Numeral.read? (b :: tail) = some (Numeral.written n, rest)) (depth : Nat) :
    scalar (b :: tail) = (seen depth (.number n), rest) := by
  obtain ⟨-, -, -, hquote⟩ := startsValue_of_numeral hb
  rw [scalar]
  · rw [if_pos hb, hread, seen]
    cases Numeral.written n <;> rfl
  · exact hquote

private theorem readValue_array {fuel depth : Nat} {input rest : List UInt8}
    {items : List Document} (h : readItems fuel (depth + 1) true input = (items, true, rest)) :
    readValue (fuel + 1) depth (0x5B :: input) = (limited depth (.array items true), rest) := by
  rw [readValue, skipSpace_cons rfl]
  simp only [h]

private theorem readValue_object {fuel depth : Nat} {input rest : List UInt8}
    {members : List (Option String × Document)}
    (h : readMembers fuel (depth + 1) true input = (members, true, rest)) :
    readValue (fuel + 1) depth (0x7B :: input) = (limited depth (.object members true), rest) := by
  rw [readValue, skipSpace_cons rfl]
  simp only [h]

private theorem readItems_close (fuel depth : Nat) (first : Bool) (rest : List UInt8) :
    readItems (fuel + 1) depth first (0x5D :: rest) = ([], true, rest) := by
  rw [readItems, skipSpace_cons rfl]
  rfl

private theorem readMembers_close (fuel depth : Nat) (first : Bool) (rest : List UInt8) :
    readMembers (fuel + 1) depth first (0x7D :: rest) = ([], true, rest) := by
  rw [readMembers, skipSpace_cons rfl]
  rfl

section
variable {fuel depth : Nat} {b : UInt8} {tail rest rest' : List UInt8} {value : Document}
  {values : List Document} (hb : StartsValue b)
  (hvalue : readValue fuel depth (b :: tail) = (value, rest))
  (hmore : readItems fuel depth false rest = (values, true, rest'))
include hb hvalue hmore

private theorem readItems_first :
    readItems (fuel + 1) depth true (b :: tail) = (value :: values, true, rest') := by
  rw [readItems, skipSpace_cons hb.notSpace]
  split
  · next heq =>
    cases heq
    exact absurd rfl hb.notClose
  · next heq =>
    cases heq
    exact absurd rfl hb.notComma
  · next heq => cases heq
  · simp only [↓reduceIte, skipSpace_cons hb.notSpace, hvalue, hmore]

private theorem readItems_next :
    readItems (fuel + 1) depth false (0x2C :: b :: tail) = (value :: values, true, rest') := by
  rw [readItems, skipSpace_cons rfl]
  simp only [Bool.false_eq_true, ↓reduceIte, skipSpace_cons hb.notSpace]
  split
  · next heq =>
    cases heq
    exact absurd rfl hb.notClose
  · simp only [hvalue, hmore]

end

section
variable {fuel depth : Nat} {input after rest rest' : List UInt8} {name : Option String}
  {value : Document} {members : List (Option String × Document)}
  (hname : string? input = some (name, 0x3A :: after))
  (hvalue : readValue fuel depth after = (value, rest))
  (hmore : readMembers fuel depth false rest = (members, true, rest'))
include hname hvalue hmore

private theorem readMembers_first :
    readMembers (fuel + 1) depth true (0x22 :: input) =
      ((name, value) :: members, true, rest') := by
  rw [readMembers, skipSpace_cons rfl]
  split
  · next heq => simp at heq
  · next heq => simp at heq
  · simp only [↓reduceIte, skipSpace_cons (rfl : isSpace 0x22 = false), hname,
      skipSpace_cons (rfl : isSpace 0x3A = false), hvalue, hmore]

private theorem readMembers_next :
    readMembers (fuel + 1) depth false (0x2C :: 0x22 :: input) =
      ((name, value) :: members, true, rest') := by
  rw [readMembers, skipSpace_cons rfl]
  simp only [Bool.false_eq_true, ↓reduceIte, skipSpace_cons (rfl : isSpace 0x22 = false), hname,
    skipSpace_cons (rfl : isSpace 0x3A = false), hvalue, hmore]

end

/-! ### Whole values -/

private theorem endsNumeral_cons {b : UInt8}
    (hb : Numeral.isDigit b = false ∧ b ≠ 0x2E ∧ b ≠ 0x65 ∧ b ≠ 0x45) (rest : List UInt8) :
    EndsNumeral (b :: rest) := by
  rintro _ _ ⟨⟩
  exact hb

private theorem moreItemChars_cons (item : Json) (items : List Json) :
    moreItemChars (item :: items) = ',' :: (chars item ++ moreItemChars items) := by
  rw [← itemChars_cons]
  rfl

private theorem moreMemberChars_cons (name : String) (value : Json)
    (members : List (String × Json)) :
    moreMemberChars ((name, value) :: members) =
      ',' :: (stringChars name ++ ':' :: (chars value ++ moreMemberChars members)) := by
  rw [← memberChars_cons]
  rfl

private theorem endsNumeral_moreItems (items : List Json) (rest : List UInt8) :
    EndsNumeral (bytes (moreItemChars items) ++ 0x5D :: rest) := by
  cases items with
  | nil => exact endsNumeral_cons (by decide) rest
  | cons item items =>
    rw [moreItemChars_cons, bytes_cons_ascii (by decide)]
    exact endsNumeral_cons (by decide) _

private theorem endsNumeral_moreMembers (members : List (String × Json)) (rest : List UInt8) :
    EndsNumeral (bytes (moreMemberChars members) ++ 0x7D :: rest) := by
  cases members with
  | nil => exact endsNumeral_cons (by decide) rest
  | cons member members =>
    rw [moreMemberChars_cons, bytes_cons_ascii (by decide)]
    exact endsNumeral_cons (by decide) _

/-- The text of a value starts with a byte that a value may start with. -/
private theorem startsValue_chars (v : Json) :
    ∃ b tail, bytes (chars v) = b :: tail ∧ StartsValue b := by
  cases v with
  | null => exact ⟨0x6E, _, rfl, by decide, by decide, by decide⟩
  | bool b =>
    cases b
    · exact ⟨0x66, _, rfl, by decide, by decide, by decide⟩
    · exact ⟨0x74, _, rfl, by decide, by decide, by decide⟩
  | number n =>
    obtain ⟨b, tail, hinput, hb⟩ :=
      startsNumeral_of_read? (Numeral.read?_numberChars n [] nofun)
    rw [List.append_nil] at hinput
    exact ⟨b, tail, hinput, (startsValue_of_numeral hb).1⟩
  | string s => exact ⟨0x22, _, rfl, by decide, by decide, by decide⟩
  | array items => exact ⟨0x5B, _, rfl, by decide, by decide, by decide⟩
  | object members => exact ⟨0x7B, _, rfl, by decide, by decide, by decide⟩

private theorem length_chars_pos (v : Json) : 0 < (chars v).length := by
  obtain ⟨b, tail, hbytes, -⟩ := startsValue_chars v
  refine List.length_pos_iff.mpr fun hnil => ?_
  rw [hnil] at hbytes
  cases hbytes

private theorem bytes_enclosed (front back : Char) (hfront : front.toNat < 0x80)
    (hback : back.toNat < 0x80) (cs : List Char) (rest : List UInt8) :
    bytes (front :: cs ++ [back]) ++ rest =
      UInt8.ofNat front.toNat :: (bytes cs ++ UInt8.ofNat back.toNat :: rest) := by
  have hlast := bytes_cons_ascii hback []
  rw [List.cons_append, bytes_cons_ascii hfront, bytes_append, hlast, List.cons_append,
    List.append_assoc]
  rfl

private theorem bytes_member (name : String) (cs more : List Char) (rest : List UInt8) :
    bytes (stringChars name ++ ':' :: (cs ++ more)) ++ rest =
      0x22 :: (bytes (name.toList.flatMap escapedChar) ++
        0x22 :: 0x3A :: (bytes cs ++ (bytes more ++ rest))) := by
  rw [bytes_append, List.append_assoc, bytes_stringChars, bytes_cons_ascii (by decide),
    bytes_append, List.cons_append, List.append_assoc]
  rfl

mutual

/-- A value is read off the front of a text, as long as no number runs on into what follows. -/
theorem readValue_chars : ∀ (v : Json) (fuel depth : Nat) (rest : List UInt8),
    2 * (chars v).length ≤ fuel → EndsNumeral rest →
      readValue fuel depth (bytes (chars v) ++ rest) = (seen depth v, rest)
  | v, 0, _, _, hfuel, _ => by
    have hlength := length_chars_pos v
    omega
  | .null, fuel + 1, depth, rest, _, _ => rfl
  | .bool true, fuel + 1, depth, rest, _, _ => rfl
  | .bool false, fuel + 1, depth, rest, _, _ => rfl
  | .number n, fuel + 1, depth, rest, _, hrest => by
    have hread := Numeral.read?_numberChars n rest hrest
    obtain ⟨b, tail, hinput, hb⟩ := startsNumeral_of_read? hread
    obtain ⟨hstarts, harray, hobject, -⟩ := startsValue_of_numeral hb
    rw [hinput] at hread
    rw [chars, hinput, readValue_scalar hstarts harray hobject, scalar_numeral hb hread]
  | .string s, fuel + 1, depth, rest, _, _ => by
    have hscalar := scalar_stringChars s rest
    rw [bytes_stringChars] at hscalar
    rw [chars, bytes_stringChars,
      readValue_scalar ⟨rfl, by decide, by decide⟩ (by decide) (by decide), hscalar]
    rfl
  | .array items, fuel + 1, depth, rest, hfuel, _ => by
    simp only [chars, List.cons_append, List.length_cons, List.length_append, List.length_nil]
      at hfuel
    have hread := readItems_itemChars items fuel (depth + 1) rest (by omega)
    rw [chars, bytes_enclosed '[' ']' (by decide) (by decide)]
    exact readValue_array hread
  | .object members, fuel + 1, depth, rest, hfuel, _ => by
    simp only [chars, List.cons_append, List.length_cons, List.length_append, List.length_nil]
      at hfuel
    have hread := readMembers_memberChars members fuel (depth + 1) rest (by omega)
    rw [chars, bytes_enclosed '\x7b' '\x7d' (by decide) (by decide)]
    exact readValue_object hread

theorem readItems_itemChars : ∀ (items : List Json) (fuel depth : Nat) (rest : List UInt8),
    2 * (itemChars items).length + 1 ≤ fuel →
      readItems fuel depth true (bytes (itemChars items) ++ 0x5D :: rest) =
        (seenItems depth items, true, rest)
  | _, 0, _, _, hfuel => by omega
  | [], fuel + 1, depth, rest, _ => readItems_close fuel depth true rest
  | item :: items, fuel + 1, depth, rest, hfuel => by
    have hlength := length_chars_pos item
    rw [itemChars_cons, List.length_append] at hfuel
    obtain ⟨b, tail, hbytes, hstarts⟩ := startsValue_chars item
    have hvalue := readValue_chars item fuel depth _ (by omega) (endsNumeral_moreItems items rest)
    have hmore := readItems_moreItemChars items fuel depth rest (by omega)
    rw [itemChars_cons, bytes_append, List.append_assoc]
    rw [hbytes, List.cons_append] at hvalue ⊢
    exact readItems_first hstarts hvalue hmore

theorem readItems_moreItemChars : ∀ (items : List Json) (fuel depth : Nat) (rest : List UInt8),
    2 * (moreItemChars items).length + 1 ≤ fuel →
      readItems fuel depth false (bytes (moreItemChars items) ++ 0x5D :: rest) =
        (seenItems depth items, true, rest)
  | _, 0, _, _, hfuel => by omega
  | [], fuel + 1, depth, rest, _ => readItems_close fuel depth false rest
  | item :: items, fuel + 1, depth, rest, hfuel => by
    have hlength := length_chars_pos item
    rw [moreItemChars_cons, List.length_cons, List.length_append] at hfuel
    obtain ⟨b, tail, hbytes, hstarts⟩ := startsValue_chars item
    have hvalue := readValue_chars item fuel depth _ (by omega) (endsNumeral_moreItems items rest)
    have hmore := readItems_moreItemChars items fuel depth rest (by omega)
    rw [moreItemChars_cons, bytes_cons_ascii (by decide), bytes_append, List.cons_append,
      List.append_assoc]
    rw [hbytes, List.cons_append] at hvalue ⊢
    exact readItems_next hstarts hvalue hmore

theorem readMembers_memberChars : ∀ (members : List (String × Json)) (fuel depth : Nat)
    (rest : List UInt8), 2 * (memberChars members).length + 1 ≤ fuel →
      readMembers fuel depth true (bytes (memberChars members) ++ 0x7D :: rest) =
        (seenMembers depth members, true, rest)
  | _, 0, _, _, hfuel => by omega
  | [], fuel + 1, depth, rest, _ => readMembers_close fuel depth true rest
  | (name, value) :: members, fuel + 1, depth, rest, hfuel => by
    rw [memberChars_cons, List.length_append, List.length_cons, List.length_append] at hfuel
    have hread := readValue_chars value fuel depth _ (by omega)
      (endsNumeral_moreMembers members rest)
    have hmore := readMembers_moreMemberChars members fuel depth rest (by omega)
    rw [memberChars_cons, bytes_member]
    exact readMembers_first (string?_escaped name _) hread hmore

theorem readMembers_moreMemberChars : ∀ (members : List (String × Json)) (fuel depth : Nat)
    (rest : List UInt8), 2 * (moreMemberChars members).length + 1 ≤ fuel →
      readMembers fuel depth false (bytes (moreMemberChars members) ++ 0x7D :: rest) =
        (seenMembers depth members, true, rest)
  | _, 0, _, _, hfuel => by omega
  | [], fuel + 1, depth, rest, _ => readMembers_close fuel depth false rest
  | (name, value) :: members, fuel + 1, depth, rest, hfuel => by
    rw [moreMemberChars_cons, List.length_cons, List.length_append, List.length_cons,
      List.length_append] at hfuel
    have hread := readValue_chars value fuel depth _ (by omega)
      (endsNumeral_moreMembers members rest)
    have hmore := readMembers_moreMemberChars members fuel depth rest (by omega)
    rw [moreMemberChars_cons, bytes_cons_ascii (by decide), List.cons_append, bytes_member]
    exact readMembers_next (string?_escaped name _) hread hmore

end

theorem ofBytes_toText_eq_seen (v : Json) :
    ofBytes (Text.Utf8.encode v.toText) = seen 0 v := by
  have hlength := Text.Utf8.length_le_length_bytes (chars v)
  have hread := readValue_chars v (2 * (bytes (chars v)).length + 2) 0 [] (by omega) nofun
  rw [List.append_nil] at hread
  rw [toText, Text.Utf8.encode_ofList, ofBytes, hread]
  rfl

/-! ### Values within the limit -/

mutual

/-- A value that does not stand too deep is seen with its numbers as they are read. -/
theorem seen_of_reread? : ∀ {v w : Json} {depth : Nat}, reread? v = some w →
    depth + v.height ≤ maxDepth → seen depth v = ofJson w
  | .null, _, _, h, _ => by
    cases h
    rfl
  | .bool _, _, _, h, _ => by
    cases h
    rfl
  | .string _, _, _, h, _ => by
    cases h
    rfl
  | .number n, w, depth, h, _ => by
    rw [reread?] at h
    rw [seen]
    cases hwritten : Numeral.written n with
    | value found =>
      rw [hwritten] at h
      cases h
      rfl
    | tooLarge =>
      rw [hwritten] at h
      cases h
  | .array items, w, depth, h, hheight => by
    obtain ⟨found, hfound, rfl⟩ := Option.map_eq_some_iff.mp h
    simp only [height] at hheight
    rw [seen, limited, if_pos (by omega), seenItems_of_reread? hfound (by omega)]
    rfl
  | .object members, w, depth, h, hheight => by
    obtain ⟨found, hfound, rfl⟩ := Option.map_eq_some_iff.mp h
    simp only [height] at hheight
    rw [seen, limited, if_pos (by omega), seenMembers_of_reread? hfound (by omega)]
    rfl

theorem seenItems_of_reread? : ∀ {items found : List Json} {depth : Nat},
    rereadItems? items = some found → depth + itemsHeight items ≤ maxDepth →
      seenItems depth items = ofItems found
  | [], _, _, h, _ => by
    cases h
    rfl
  | item :: rest, found, depth, h, hheight => by
    simp only [itemsHeight] at hheight
    rw [rereadItems?] at h
    split at h
    · next hitem hrest =>
      cases h
      rw [seenItems, seen_of_reread? hitem (by omega), seenItems_of_reread? hrest (by omega)]
      rfl
    · cases h

theorem seenMembers_of_reread? : ∀ {members found : List (String × Json)} {depth : Nat},
    rereadMembers? members = some found → depth + membersHeight members ≤ maxDepth →
      seenMembers depth members = ofMembers found
  | [], _, _, h, _ => by
    cases h
    rfl
  | (name, value) :: rest, found, depth, h, hheight => by
    simp only [membersHeight] at hheight
    rw [rereadMembers?] at h
    split at h
    · next hvalue hrest =>
      cases h
      rw [seenMembers, seen_of_reread? hvalue (by omega), seenMembers_of_reread? hrest (by omega)]
      rfl
    · cases h

end

end Document

/-! ### Values whose numbers are read as they are written -/

mutual

theorem reread?_eq_self_iff : ∀ {v : Json}, reread? v = some v ↔ v.IsReadable
  | .null => by simp [reread?, IsReadable]
  | .bool _ => by simp [reread?, IsReadable]
  | .string _ => by simp [reread?, IsReadable]
  | .number n => by
    rw [reread?, IsReadable, Numeral.readsBack_iff]
    cases Numeral.written n <;> simp
  | .array items => by
    rw [reread?, IsReadable, ← rereadItems?_eq_self_iff]
    simp
  | .object members => by
    rw [reread?, IsReadable, ← rereadMembers?_eq_self_iff]
    simp

theorem rereadItems?_eq_self_iff : ∀ {items : List Json},
    rereadItems? items = some items ↔ AreReadable items
  | [] => by simp [rereadItems?, AreReadable]
  | item :: rest => by
    rw [rereadItems?, AreReadable, ← reread?_eq_self_iff, ← rereadItems?_eq_self_iff]
    cases reread? item <;> cases rereadItems? rest <;> simp

theorem rereadMembers?_eq_self_iff : ∀ {members : List (String × Json)},
    rereadMembers? members = some members ↔ AreReadableMembers members
  | [] => by simp [rereadMembers?, AreReadableMembers]
  | (name, value) :: rest => by
    rw [rereadMembers?, AreReadableMembers, ← reread?_eq_self_iff, ← rereadMembers?_eq_self_iff]
    cases reread? value <;> cases rereadMembers? rest <;> simp

end

/-- The text of a value is read as the value. -/
theorem Document.ofBytes_toText {v : Json} (hreadable : v.IsReadable)
    (hheight : v.height ≤ maxDepth) : ofBytes (Text.Utf8.encode v.toText) = ofJson v := by
  rw [ofBytes_toText_eq_seen,
    seen_of_reread? (reread?_eq_self_iff.mpr hreadable) (by omega)]

end UserManagedAccess.Json
