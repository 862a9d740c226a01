import UserManagedAccess.Json.Writer

/-! The text of a value without numbers can be told from whatever follows it, so different values
have different texts. Numbers are left out: `1` begins `12`. -/
namespace UserManagedAccess.Json

/-- A text that can be split off the front of any longer one. -/
def PrefixFree {α : Type} (write : α → List Char) : Prop :=
  ∀ a b rest rest', write a ++ rest = write b ++ rest' → a = b ∧ rest = rest'

/-! ## Strings -/

private def hexValue (c : Char) : Nat := if c.toNat < 0x61 then c.toNat - 0x30 else c.toNat - 0x57

/-- The first character of an escaped text, unless the text is at its end. -/
private def unescape? : List Char → Option (Char × List Char)
  | '\x5C' :: 'u' :: _ :: _ :: a :: b :: rest =>
    some (Char.ofNat (hexValue a * 16 + hexValue b), rest)
  | '\x5C' :: c :: rest =>
    some (if c = 'n' then '\n' else if c = 'r' then '\r' else if c = 't' then '\t'
      else if c = 'b' then Char.ofNat 0x08 else if c = 'f' then Char.ofNat 0x0C else c, rest)
  | c :: rest => if c = '\x22' then none else some (c, rest)
  | [] => none

private theorem unescape?_control (n : Fin 0x20) (rest : List Char) :
    unescape? (['\x5C', 'u', '0', '0', hexDigit (n / 16), hexDigit (n % 16)] ++ rest) =
      some (Char.ofNat n, rest) := by
  have hvalue : ∀ n : Fin 0x20,
      hexValue (hexDigit (n / 16)) * 16 + hexValue (hexDigit (n % 16)) = n := by decide
  simp only [List.cons_append, List.nil_append, unescape?, hvalue n]

private theorem unescape?_escapedChar (c : Char) (rest : List Char) :
    unescape? (escapedChar c ++ rest) = some (c, rest) := by
  have hnumber (n : Nat) (h : c.toNat = n) : Char.ofNat n = c := by
    rw [← h, Char.ofNat_toNat]
  rw [escapedChar]
  split
  · next h => subst h; rfl
  split
  · next h => subst h; rfl
  split
  · next h => subst h; rfl
  split
  · next h => subst h; rfl
  split
  · next h => subst h; rfl
  split
  · next h => rw [← hnumber _ h]; rfl
  split
  · next h => rw [← hnumber _ h]; rfl
  split
  · next h => rw [unescape?_control ⟨c.toNat, h⟩ rest, Char.ofNat_toNat]
  · next hquote hbackslash _ _ _ _ _ _ => simp [unescape?, hquote, hbackslash]

private theorem escaped_prefixFree (cs ds rest rest' : List Char)
    (h : cs.flatMap escapedChar ++ '\x22' :: rest = ds.flatMap escapedChar ++ '\x22' :: rest') :
    cs = ds ∧ rest = rest' := by
  have hend (rest : List Char) : unescape? ('\x22' :: rest) = none := rfl
  induction cs generalizing ds with
  | nil =>
    cases ds with
    | nil => simpa using h
    | cons d ds =>
      have hd := congrArg unescape? h
      simp [hend, unescape?_escapedChar] at hd
  | cons c cs ih =>
    have hc := congrArg unescape? h
    cases ds with
    | nil => simp [hend, unescape?_escapedChar] at hc
    | cons d ds =>
      simp only [List.flatMap_cons, List.append_assoc, unescape?_escapedChar, Option.some.injEq,
        Prod.mk.injEq] at hc
      obtain ⟨rfl, hrest⟩ := hc
      obtain ⟨rfl, rfl⟩ := ih ds hrest
      exact ⟨rfl, rfl⟩

theorem stringChars_prefixFree : PrefixFree stringChars := by
  intro s t rest rest' h
  simp only [stringChars, List.cons_append, List.append_assoc, List.nil_append,
    List.cons.injEq, true_and] at h
  obtain ⟨hlist, hrest⟩ := escaped_prefixFree _ _ _ _ h
  exact ⟨String.toList_inj.mp hlist, hrest⟩

/-! ## Values -/

mutual

/-- No number stands anywhere in the value. -/
def IsNumberFree : Json → Prop
  | .number _ => False
  | .array items => AreNumberFree items
  | .object members => AreNumberFreeMembers members
  | _ => True

def AreNumberFree : List Json → Prop
  | [] => True
  | item :: rest => IsNumberFree item ∧ AreNumberFree rest

def AreNumberFreeMembers : List (String × Json) → Prop
  | [] => True
  | (_, value) :: rest => IsNumberFree value ∧ AreNumberFreeMembers rest

end

/-- What stands after an item: a comma and the other items. -/
def moreItemChars : List Json → List Char
  | [] => []
  | items => ',' :: itemChars items

def moreMemberChars : List (String × Json) → List Char
  | [] => []
  | members => ',' :: memberChars members

theorem itemChars_cons (item : Json) (rest : List Json) :
    itemChars (item :: rest) = chars item ++ moreItemChars rest := by
  cases rest <;> simp [itemChars, moreItemChars]

theorem memberChars_cons (name : String) (value : Json) (rest : List (String × Json)) :
    memberChars ((name, value) :: rest) =
      stringChars name ++ ':' :: (chars value ++ moreMemberChars rest) := by
  cases rest <;> simp [memberChars, moreMemberChars]

private theorem chars_ne_close {v : Json} (hv : v.IsNumberFree) (rest rest' : List Char) :
    chars v ++ rest ≠ ']' :: rest' := by
  intro h
  cases v with
  | number n => exact hv
  | bool b => cases b <;> simp [chars] at h
  | _ => simp [chars, stringChars] at h

mutual

private theorem chars_split : ∀ (v w : Json) (rest rest' : List Char),
    v.IsNumberFree → w.IsNumberFree → chars v ++ rest = chars w ++ rest' → v = w ∧ rest = rest'
  | .null, w, rest, rest', _, hw, h => by
    cases w with
    | null => simpa [chars] using h
    | number n => exact hw.elim
    | bool b => cases b <;> simp [chars] at h
    | _ => simp [chars, stringChars] at h
  | .bool b, w, rest, rest', _, hw, h => by
    cases w with
    | bool c => cases b <;> cases c <;> simp [chars] at h <;> exact ⟨rfl, h⟩
    | number n => exact hw.elim
    | _ => cases b <;> simp [chars, stringChars] at h
  | .number n, _, _, _, hv, _, _ => hv.elim
  | .string s, w, rest, rest', _, hw, h => by
    cases w with
    | string t =>
      obtain ⟨rfl, hrest⟩ := stringChars_prefixFree s t rest rest' (by simpa [chars] using h)
      exact ⟨rfl, hrest⟩
    | number n => exact hw.elim
    | bool b => cases b <;> simp [chars, stringChars] at h
    | _ => simp [chars, stringChars] at h
  | .array items, w, rest, rest', hv, hw, h => by
    cases w with
    | array items' =>
      obtain ⟨rfl, hrest⟩ := itemChars_split items items' rest rest' hv hw
        (by simpa [chars] using h)
      exact ⟨rfl, hrest⟩
    | number n => exact hw.elim
    | bool b => cases b <;> simp [chars] at h
    | _ => simp [chars, stringChars] at h
  | .object members, w, rest, rest', hv, hw, h => by
    cases w with
    | object members' =>
      obtain ⟨rfl, hrest⟩ := memberChars_split members members' rest rest' hv hw
        (by simpa [chars] using h)
      exact ⟨rfl, hrest⟩
    | number n => exact hw.elim
    | bool b => cases b <;> simp [chars] at h
    | _ => simp [chars, stringChars] at h

private theorem itemChars_split : ∀ (vs ws : List Json) (rest rest' : List Char),
    AreNumberFree vs → AreNumberFree ws →
      itemChars vs ++ ']' :: rest = itemChars ws ++ ']' :: rest' → vs = ws ∧ rest = rest'
  | [], ws, rest, rest', _, hws, h => by
    cases ws with
    | nil => simpa [itemChars] using h
    | cons w ws =>
      rw [itemChars_cons, List.append_assoc] at h
      exact absurd h.symm (chars_ne_close hws.1 _ _)
  | v :: vs, ws, rest, rest', hvs, hws, h => by
    rw [itemChars_cons, List.append_assoc] at h
    cases ws with
    | nil => exact absurd h (chars_ne_close hvs.1 _ _)
    | cons w ws =>
      rw [itemChars_cons, List.append_assoc] at h
      obtain ⟨rfl, hmore⟩ := chars_split v w _ _ hvs.1 hws.1 h
      have hmore' : itemChars vs ++ ']' :: rest = itemChars ws ++ ']' :: rest' := by
        cases vs <;> cases ws <;> simp_all [moreItemChars, itemChars]
      obtain ⟨rfl, hrest⟩ := itemChars_split vs ws rest rest' hvs.2 hws.2 hmore'
      exact ⟨rfl, hrest⟩

private theorem memberChars_split : ∀ (ms ns : List (String × Json)) (rest rest' : List Char),
    AreNumberFreeMembers ms → AreNumberFreeMembers ns →
      memberChars ms ++ '\x7d' :: rest = memberChars ns ++ '\x7d' :: rest' → ms = ns ∧ rest = rest'
  | [], ns, rest, rest', _, _, h => by
    cases ns with
    | nil => simpa [memberChars] using h
    | cons n ns =>
      rw [memberChars_cons] at h
      simp [memberChars, stringChars] at h
  | (name, value) :: ms, ns, rest, rest', hms, hns, h => by
    rw [memberChars_cons] at h
    cases ns with
    | nil => simp [memberChars, stringChars] at h
    | cons n ns =>
      obtain ⟨name', value'⟩ := n
      rw [memberChars_cons, List.append_assoc, List.append_assoc] at h
      obtain ⟨rfl, hvalue⟩ := stringChars_prefixFree _ _ _ _ h
      simp only [List.cons_append, List.append_assoc, List.cons.injEq, true_and] at hvalue
      obtain ⟨rfl, hmore⟩ := chars_split value value' _ _ hms.1 hns.1 hvalue
      have hmore' : memberChars ms ++ '\x7d' :: rest = memberChars ns ++ '\x7d' :: rest' := by
        cases ms <;> cases ns <;> simp_all [moreMemberChars, memberChars]
      obtain ⟨rfl, hrest⟩ := memberChars_split ms ns rest rest' hms.2 hns.2 hmore'
      exact ⟨rfl, hrest⟩

end

/-- Values without numbers are written so that they can be split off whatever follows. -/
theorem chars_prefixFree :
    PrefixFree fun v : { v : Json // v.IsNumberFree } => chars v.val := by
  rintro ⟨v, hv⟩ ⟨w, hw⟩ rest rest' h
  obtain ⟨rfl, hrest⟩ := chars_split v w rest rest' hv hw h
  exact ⟨rfl, hrest⟩

end UserManagedAccess.Json
