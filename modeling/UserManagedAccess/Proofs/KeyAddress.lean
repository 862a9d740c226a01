import Mathlib.Data.List.TakeWhile
import UserManagedAccess.Discovery
import UserManagedAccess.Proofs.HostBlanks

/-! Where the keys of an authorization server are found: every issuer that is a plain web address has
a place for them. -/
namespace UserManagedAccess

namespace Url

/-- The spaces and control characters at the end of a text that are cut off when it is read as a URL,
and that would be kept if anything followed them. -/
def cutBlanks (text : List Char) : List Char :=
  (text.reverse.takeWhile (decide <| ·.toNat ≤ 0x20)).reverse.filter
    fun c => !(['\t', '\n', '\r'].contains c)

/-- Blanks stand right behind the host or the port of a web address. They are cut off when it is
read, but belong to its authority as soon as a path is put behind them. -/
structure HidesBlanks (text : String) : Prop where
  blanks : cutBlanks text.toList ≠ []
  bare : ∀ scheme rest, scheme? (strip text.toList) = some (scheme, rest) →
    ∀ c ∈ rest.dropWhile (isSlash .special), isSlash .special c = false

section
variable {p : Char → Bool} {cs : List Char} {c : Char}

private theorem takeWhile_append_stop (h : p c = false) (ds : List Char) :
    (cs ++ c :: ds).takeWhile p = cs.takeWhile p := by
  rw [List.takeWhile_append]
  split
  · next hall =>
    have hcs : cs.takeWhile p = cs :=
      (List.takeWhile_prefix p).eq_of_length hall
    simp [h, hcs]
  · rfl

private theorem dropWhile_append_stop (h : p c = false) (ds : List Char) :
    (cs ++ c :: ds).dropWhile p = cs.dropWhile p ++ c :: ds := by
  rw [List.dropWhile_append]
  split
  · next hnil => simp [h, List.isEmpty_iff.mp hnil]
  · rfl

private theorem dropWhile_append_of_ne_nil (h : cs.dropWhile p ≠ []) (ds : List Char) :
    (cs ++ ds).dropWhile p = cs.dropWhile p ++ ds := by
  rw [List.dropWhile_append, if_neg (by simpa using h)]

end

theorem le_of_mem_cutBlanks {cs : List Char} : ∀ c ∈ cutBlanks cs, c.toNat ≤ 0x20 := by
  intro c hc
  have hrun := (List.mem_filter.mp hc).1
  rw [List.mem_reverse] at hrun
  simpa using List.mem_takeWhile_imp hrun

private theorem cutBlanks_of_visible {cs : List Char}
    (h : ∀ c, cs.getLast? = some c → 0x20 < c.toNat) : cutBlanks cs = [] := by
  rw [cutBlanks]
  cases hlast : cs.getLast? with
  | none =>
    rw [List.getLast?_eq_none_iff.mp hlast]
    rfl
  | some c =>
    have hvisible := h c hlast
    rw [← List.head?_reverse, List.head?_eq_some_iff] at hlast
    obtain ⟨rest, hrest⟩ := hlast
    rw [hrest, List.takeWhile_cons_of_neg (by simpa using hvisible)]
    rfl

private theorem exists_visible_of_strip_ne_nil {cs : List Char} (h : strip cs ≠ []) :
    ∃ c ∈ cs, 0x20 < c.toNat := by
  refine Classical.byContradiction fun hnone => h ?_
  have hall : ∀ c ∈ cs, c.toNat ≤ 0x20 := by simpa using hnone
  have hnil : cs.dropWhile (decide <| ·.toNat ≤ 0x20) = [] :=
    List.dropWhile_eq_nil_iff.mpr fun c hc => decide_eq_true (hall c hc)
  simp [strip, hnil]

/-- What remains of a text is what is cut off in front of its end, and the blanks there. -/
private theorem filter_dropWhile_eq {cs : List Char} (h : ∃ c ∈ cs, 0x20 < c.toNat) :
    (cs.dropWhile (decide <| ·.toNat ≤ 0x20)).filter
      (fun c => !(['\t', '\n', '\r'].contains c)) = strip cs ++ cutBlanks cs := by
  have hrun : cs.reverse.takeWhile (decide <| ·.toNat ≤ 0x20) =
      (cs.dropWhile (decide <| ·.toNat ≤ 0x20)).reverse.takeWhile (decide <| ·.toNat ≤ 0x20) := by
    have hjoin := List.takeWhile_append_dropWhile (p := (decide <| ·.toNat ≤ 0x20)) (l := cs)
    have hhead := List.head?_dropWhile_not (decide <| ·.toNat ≤ 0x20) cs
    cases hdrop : cs.dropWhile (decide <| ·.toNat ≤ 0x20) with
    | nil =>
      obtain ⟨c, hc, hvisible⟩ := h
      have hblank := List.dropWhile_eq_nil_iff.mp hdrop c hc
      simp at hblank
      omega
    | cons c rest =>
      rw [hdrop] at hjoin hhead
      have hvisible : decide (c.toNat ≤ 0x20) = false := by simpa using hhead
      have hreverse := congrArg List.reverse hjoin
      rw [List.reverse_append, List.reverse_cons, List.append_assoc, List.singleton_append]
        at hreverse
      rw [← hreverse, List.reverse_cons, takeWhile_append_stop hvisible,
        takeWhile_append_stop hvisible]
  rw [strip, cutBlanks, hrun, ← List.filter_append, ← List.reverse_append,
    List.takeWhile_append_dropWhile, List.reverse_reverse]

/-- What is put behind a slash stays there, and so do the blanks before the slash. -/
private theorem strip_append_slash {cs name : List Char} (hne : strip cs ≠ [])
    (hname : ∀ c ∈ name, 0x20 < c.toNat) :
    strip (cs ++ '/' :: name) = strip cs ++ cutBlanks cs ++ '/' :: name := by
  have hvisible : ∀ c ∈ '/' :: name, 0x20 < c.toNat :=
    List.forall_mem_cons.mpr ⟨by decide, hname⟩
  have hkept : ('/' :: name).filter (fun c => !(['\t', '\n', '\r'].contains c)) =
      '/' :: name := by
    refine List.filter_eq_self.mpr fun c hc => ?_
    simp only [List.contains_cons, List.contains_nil, Bool.or_false, Bool.not_or,
      Bool.and_eq_true, Bool.not_eq_true', beq_eq_false_iff_ne]
    refine ⟨?_, ?_, ?_⟩ <;> rintro rfl <;> exact absurd (hvisible _ hc) (by decide)
  have hcut : cutBlanks (cs ++ '/' :: name) = [] := by
    refine cutBlanks_of_visible fun c hc => ?_
    rw [List.getLast?_append, List.getLast?_cons, Option.some_or, ← List.getLast?_cons] at hc
    exact hvisible c (List.mem_of_getLast? hc)
  have hvisibleSlash : ∃ c ∈ cs ++ '/' :: name, 0x20 < c.toNat :=
    ⟨'/', List.mem_append_right cs List.mem_cons_self, by decide⟩
  have hbelow := filter_dropWhile_eq hvisibleSlash
  rw [hcut, List.append_nil] at hbelow
  rw [← hbelow, dropWhile_append_stop rfl, List.filter_append, hkept,
    filter_dropWhile_eq (exists_visible_of_strip_ne_nil hne)]

private theorem scheme?_append {cs ds scheme rest : List Char}
    (h : scheme? cs = some (scheme, rest)) : scheme? (cs ++ ds) = some (scheme, rest ++ ds) := by
  rw [scheme?] at h
  split at h
  · next found hdrop =>
    have hne : cs.dropWhile isSchemeChar ≠ [] := by simp [hdrop]
    have htake : (cs ++ ds).takeWhile isSchemeChar = cs.takeWhile isSchemeChar := by
      rw [List.takeWhile_append, if_neg]
      intro hlength
      exact hne (List.dropWhile_eq_nil_iff.mpr
        (List.takeWhile_eq_self_iff.mp ((List.takeWhile_prefix _).eq_of_length hlength)))
    rw [scheme?, dropWhile_append_of_ne_nil hne, hdrop, htake]
    simp only [List.cons_append]
    split at h
    · next c front hscheme =>
      rw [hscheme]
      split at h
      · next hletter =>
        cases h
        simp [hletter, hscheme]
      · cases h
    · cases h
  · cases h

private theorem splitTail_of_plain {kind : SchemeKind} {cs : List Char}
    (h : ∀ c ∈ cs, c ≠ '?' ∧ c ≠ '#') : splitTail kind cs = (cs, none, none) := by
  have hall : ∀ c ∈ cs, (c != '?' && c != '#') = true := by
    intro c hc
    obtain ⟨hquery, hfragment⟩ := h c hc
    simp [hquery, hfragment]
  rw [splitTail, List.takeWhile_eq_self_iff.mpr hall, List.dropWhile_eq_nil_iff.mpr hall]

private theorem plain_of_splitTail {kind : SchemeKind} {cs front : List Char}
    (h : splitTail kind cs = (front, none, none)) : ∀ c ∈ cs, c ≠ '?' ∧ c ≠ '#' := by
  have hnil : cs.dropWhile (fun c => c != '?' && c != '#') = [] := by
    rw [splitTail] at h
    split at h
    · split at h <;> cases h
    · cases h
    · assumption
  intro c hc
  simpa using List.dropWhile_eq_nil_iff.mp hnil c hc

private theorem exists_segments_pathAfter (kind : SchemeKind) (cs : List Char) :
    ∃ list, pathAfter kind cs = .segments list := by
  cases cs with
  | nil => cases kind <;> exact ⟨_, rfl⟩
  | cons c rest => exact ⟨_, rfl⟩

/-- The segments behind a slash come after those before it. -/
private theorem exists_pathAfter_append_slash (kind : SchemeKind) (cs : List Char) :
    ∃ before : List (List Char), ∀ name : List Char,
      pathAfter kind (cs ++ '/' :: name) =
        .segments (resolve [] (before ++ segmentsOf kind name)) := by
  have hcut (front name : List Char) :
      segmentsOf kind (front ++ '/' :: name) = segmentsOf kind front ++ segmentsOf kind name := by
    rw [segmentsOf, List.splitOnP_append_cons _ _ (by simp [isSlash]), List.map_append]
    rfl
  cases cs with
  | nil =>
    refine ⟨[], fun name => ?_⟩
    simp [pathAfter, isSlash]
  | cons c rest =>
    refine ⟨segmentsOf kind (if isSlash kind c then rest else c :: rest), fun name => ?_⟩
    rw [← hcut, List.cons_append, pathAfter]
    split <;> rfl

/-- A last segment that is no dots stays last, and what stands before it does not depend on it. -/
private theorem exists_resolve_append (path before : List (List Char)) :
    ∃ front : List (List Char), ∀ last : List Char, isDoubleDot last = false →
      isSingleDot last = false → resolve path (before ++ [last]) = front ++ [last] := by
  induction before generalizing path with
  | nil =>
    refine ⟨path, fun last hdouble hsingle => ?_⟩
    simp [resolve, hdouble, hsingle]
  | cons segment before ih =>
    have hstep (last : List Char) : resolve path (segment :: before ++ [last]) =
        resolve (if isDoubleDot segment then path.dropLast
          else if isSingleDot segment then path else path ++ [segment]) (before ++ [last]) := by
      rw [List.cons_append, resolve]
      · split
        · rfl
        · split <;> rfl
      · simp
    obtain ⟨front, hfront⟩ := ih (if isDoubleDot segment then path.dropLast
      else if isSingleDot segment then path else path ++ [segment])
    exact ⟨front, fun last hdouble hsingle => (hstep last).trans (hfront last hdouble hsingle)⟩

/-- A path segment that means nothing but itself, with no character that would be escaped. -/
structure IsName (name : List Char) : Prop where
  visible : ∀ c ∈ name, 0x20 < c.toNat ∧ c ≠ '?' ∧ c ≠ '#'
  segment : segmentsOf .special name = [name]
  double : isDoubleDot name = false
  single : isSingleDot name = false

theorem isName_nil : IsName [] := ⟨nofun, rfl, rfl, rfl⟩

private theorem kind_eq_special {url : Url}
    (h : url.scheme = "http".toList ∨ url.scheme = "https".toList) :
    SchemeKind.of (String.ofList url.scheme) = .special := by
  rcases h with h | h <;> rw [h, String.ofList_toList] <;> rfl

variable [DomainRules]

private theorem endsAuthority_of_blank {c : Char} (h : c.toNat ≤ 0x20) :
    (!endsAuthority .special c) = true := by
  rw [Bool.not_eq_true']
  simp only [endsAuthority, isSlash, Bool.or_eq_false_iff, Bool.and_eq_false_iff,
    beq_eq_false_iff_ne]
  refine ⟨⟨⟨?_, .inr ?_⟩, ?_⟩, ?_⟩ <;> rintro rfl <;> exact absurd h (by decide)

/-- Blanks are part of the authority if no slash stands before them, and then there is none. -/
private theorem exists_parseAuthority_error_iff {scheme : String} {cs blanks : List Char}
    {authority : Authority} (hplain : ∀ c ∈ cs, c ≠ '?' ∧ c ≠ '#')
    (hblanks : ∀ c ∈ blanks, c.toNat ≤ 0x20)
    (h : parseAuthority scheme .special (cs.takeWhile (!endsAuthority .special ·)) =
      .ok authority) :
    (∃ e, parseAuthority scheme .special ((cs ++ blanks).takeWhile (!endsAuthority .special ·)) =
        .error e) ↔
      blanks ≠ [] ∧ ∀ c ∈ cs, isSlash .special c = false := by
  by_cases hbare : ∀ c ∈ cs, isSlash .special c = false
  · cases hlast : blanks.getLast? with
    | none =>
      rw [List.getLast?_eq_none_iff.mp hlast, List.append_nil, h]
      simp
    | some c =>
      have hopen : ∀ c ∈ cs, (!endsAuthority .special c) = true := by
        intro c hc
        obtain ⟨hquery, hfragment⟩ := hplain c hc
        simp [endsAuthority, hbare c hc, hquery, hfragment]
      have hall : (cs ++ blanks).takeWhile (!endsAuthority .special ·) = cs ++ blanks :=
        List.takeWhile_eq_self_iff.mpr (List.forall_mem_append.mpr
          ⟨hopen, fun c hc => endsAuthority_of_blank (hblanks c hc)⟩)
      have hends : EndsInBlank (cs ++ blanks) :=
        ⟨c, by rw [List.getLast?_append, hlast, Option.some_or],
          hblanks c (List.mem_of_getLast? hlast)⟩
      have hsome : blanks ≠ [] := by
        rintro rfl
        cases hlast
      rw [hall]
      exact iff_of_true (exists_parseAuthority_error scheme hends) ⟨hsome, hbare⟩
  · obtain ⟨c, hc, hslash⟩ : ∃ c ∈ cs, isSlash .special c = true := by simpa using hbare
    have hstops : (!endsAuthority .special c) = false := by simp [endsAuthority, hslash]
    have hstop : (cs ++ blanks).takeWhile (!endsAuthority .special ·) =
        cs.takeWhile (!endsAuthority .special ·) := by
      obtain ⟨front, back, rfl⟩ := List.append_of_mem hc
      rw [List.append_assoc, List.cons_append, takeWhile_append_stop hstops,
        takeWhile_append_stop hstops]
    rw [hstop, h]
    simp [hbare]

section
variable {scheme : String} {cs : List Char} {found : Option Authority × Path}
  (h : afterScheme scheme .special cs = .ok found)
include h

private theorem exists_segments_of_afterScheme : ∃ list, found.2 = .segments list := by
  obtain ⟨authority, -, hrest⟩ := exists_of_bind_eq_ok h
  cases hrest
  exact exists_segments_pathAfter _ _

/-- The authority of a special scheme ends before a slash, so what follows the slash changes the
path alone. -/
private theorem exists_afterScheme_append_slash (hplain : ∀ c ∈ cs, c ≠ '?' ∧ c ≠ '#')
    {blanks : List Char} (hblanks : ∀ c ∈ blanks, c.toNat ≤ 0x20) :
    ∃ (authority : Except UrlError Authority) (before : List (List Char)),
      ((∃ e, authority = .error e) ↔ blanks ≠ [] ∧
        ∀ c ∈ cs.dropWhile (isSlash .special), isSlash .special c = false) ∧
      ∀ name : List Char, afterScheme scheme .special (cs ++ blanks ++ '/' :: name) =
        authority.map fun a =>
          (some a, .segments (resolve [] (before ++ segmentsOf .special name))) := by
  have hstop : (!endsAuthority .special '/') = false := rfl
  have hne : cs.dropWhile (isSlash .special) ≠ [] := by
    intro hnil
    simp only [afterScheme, afterSlashes, hnil] at h
    cases h
  obtain ⟨a, ha, -⟩ := exists_of_bind_eq_ok h
  have hbody : ∀ c ∈ cs.dropWhile (isSlash .special), c ≠ '?' ∧ c ≠ '#' :=
    fun c hc => hplain c ((List.dropWhile_sublist _).subset hc)
  have hkept : (cs ++ blanks).dropWhile (isSlash .special) =
      cs.dropWhile (isSlash .special) ++ blanks := dropWhile_append_of_ne_nil hne blanks
  obtain ⟨before, hbefore⟩ := exists_pathAfter_append_slash .special
    ((cs.dropWhile (isSlash .special) ++ blanks).dropWhile (!endsAuthority .special ·))
  refine ⟨_, before, exists_parseAuthority_error_iff hbody hblanks ha, fun name => ?_⟩
  rw [afterScheme, afterSlashes, dropWhile_append_of_ne_nil, hkept, takeWhile_append_stop hstop,
    dropWhile_append_stop hstop, hbefore]
  · rfl
  · rw [hkept]
    exact List.append_ne_nil_of_left_ne_nil hne _

end

/-- What a web address is read as. -/
private theorem exists_of_parse {text : String} {url : Url} (h : parse text = .ok url)
    (hscheme : url.scheme = "http".toList ∨ url.scheme = "https".toList) :
    ∃ rest front, scheme? (strip text.toList) = some (url.scheme, rest) ∧
      splitTail .special rest = (front, url.query, url.fragment) ∧
      afterScheme (String.ofList url.scheme) .special front = .ok (url.authority, url.path) := by
  rw [parse] at h
  split at h
  · cases h
  · next scheme rest hfound =>
    simp only at h
    split at h
    · cases h
    · next authority path hafter =>
      cases h
      have hkind := kind_eq_special hscheme
      simp only at hkind hscheme
      rw [hkind] at hafter
      exact ⟨rest, _, hfound, by rw [hkind], hafter⟩

/-- Below a web address without query and fragment all names lie in one directory. Names below it
have addresses unless it hides blanks. -/
theorem exists_parse_append_slash {text : String} {url : Url} (hparse : parse text = .ok url)
    (hscheme : url.scheme = "http".toList ∨ url.scheme = "https".toList)
    (hquery : url.query = none) (hfragment : url.fragment = none) :
    ∃ (authority : Except UrlError Authority) (front : List (List Char)),
      ((∃ e, authority = .error e) ↔ HidesBlanks text) ∧
      ∀ name, IsName name → parse (text ++ "/" ++ .ofList name) =
        authority.map fun a => ⟨url.scheme, some a, .segments (front ++ [name]), none, none⟩ := by
  obtain ⟨rest, front, hfound, htail, hafter⟩ := exists_of_parse hparse hscheme
  rw [hquery, hfragment] at htail
  have hplain := plain_of_splitTail htail
  have hfront : front = rest := by
    rw [splitTail_of_plain hplain] at htail
    exact (congrArg Prod.fst htail).symm
  rw [hfront] at hafter
  have hblanks : ∀ c ∈ cutBlanks text.toList, c.toNat ≤ 0x20 := le_of_mem_cutBlanks
  have hne : strip text.toList ≠ [] := by
    intro hnil
    rw [hnil] at hfound
    cases hfound
  obtain ⟨authority, before, hauthority, hbelow⟩ :=
    exists_afterScheme_append_slash hafter hplain hblanks
  obtain ⟨directory, hdirectory⟩ := exists_resolve_append [] before
  refine ⟨authority, directory, ?_, fun name hname => ?_⟩
  · rw [hauthority]
    constructor
    · rintro ⟨hcut, hbare⟩
      refine ⟨hcut, fun scheme rest' hfound' => ?_⟩
      cases hfound.symm.trans hfound'
      exact hbare
    · exact fun h => ⟨h.blanks, h.bare _ _ hfound⟩
  · have htext : strip (text ++ "/" ++ String.ofList name).toList =
        strip text.toList ++ (cutBlanks text.toList ++ '/' :: name) := by
      have hchars : (text ++ "/" ++ String.ofList name).toList = text.toList ++ '/' :: name := by
        simp
      rw [hchars, strip_append_slash hne fun c hc => (hname.visible c hc).1, List.append_assoc]
    have hplainBelow : ∀ c ∈ rest ++ (cutBlanks text.toList ++ '/' :: name), c ≠ '?' ∧ c ≠ '#' := by
      intro c hc
      rcases List.mem_append.mp hc with hc | hc
      · exact hplain c hc
      · rcases List.mem_append.mp hc with hc | hc
        · have hblank := hblanks c hc
          constructor <;> rintro rfl <;> exact absurd hblank (by decide)
        · rcases List.mem_cons.mp hc with rfl | hc
          · decide
          · exact (hname.visible c hc).2
    rw [parse, htext, scheme?_append hfound]
    simp only [kind_eq_special hscheme, splitTail_of_plain hplainBelow]
    rw [← List.append_assoc, hbelow name, hname.segment, hdirectory name hname.double hname.single]
    cases authority <;> rfl

/-- A web address without query and fragment, and without blanks hidden behind its authority. -/
structure IsPlainAddress (text : String) : Prop where
  parses : ∃ url, parse text = .ok url ∧ (url.scheme = "http".toList ∨ url.scheme = "https".toList) ∧
    url.query = none ∧ url.fragment = none
  shown : ¬ HidesBlanks text

end Url

namespace Discovery

/-- The keys of a plain web address have an address of their own. -/
theorem exists_umaKeysUrl [Url.DomainRules] {issuer : String} (h : Url.IsPlainAddress issuer) :
    ∃ url, umaKeysUrl issuer = .ok url := by
  obtain ⟨⟨url, hparse, hscheme, hquery, hfragment⟩, hshown⟩ := h
  have hbase : ∃ base list,
      Url.parse (if issuer.toList.getLast? = some '/' then issuer else issuer ++ "/") = .ok base ∧
        base.path = .segments list := by
    split
    · obtain ⟨rest, front, -, -, hafter⟩ := Url.exists_of_parse hparse hscheme
      obtain ⟨list, hlist⟩ := Url.exists_segments_of_afterScheme hafter
      exact ⟨url, list, hparse, hlist⟩
    · obtain ⟨authority, front, herror, hbelow⟩ :=
        Url.exists_parse_append_slash hparse hscheme hquery hfragment
      have hslash := hbelow [] Url.isName_nil
      rw [String.ofList_nil, String.append_empty] at hslash
      cases authority with
      | error e => exact absurd (herror.mp ⟨e, rfl⟩) hshown
      | ok a => exact ⟨_, _, hslash, rfl⟩
  obtain ⟨base, list, hparse, hlist⟩ := hbase
  rw [umaKeysUrl, readUrl, hparse]
  simp only [Except.mapError, bind, Except.bind, Url.sibling, hlist]
  exact ⟨_, rfl⟩

end Discovery

end UserManagedAccess
