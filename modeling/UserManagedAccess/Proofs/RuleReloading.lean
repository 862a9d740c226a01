import Mathlib.Data.List.Induction
import UserManagedAccess.Policy.RulesFile

/-! Rules from a file that comes, goes and changes between calls. A stamp counts as seen also when
what stands behind it could not be read; so a file that becomes readable later under the same stamp
is overlooked, and of every other file the rules come into force with the next call. -/
namespace UserManagedAccess

namespace FileState

/-- The stamp of a file; nothing else has one. -/
def stamp? : FileState → Option FileStamp
  | .file stamp _ => some stamp
  | _ => none

/-- The rules that stand in a file, if it can be read and holds rules. -/
def rules? : FileState → Option RuleTable
  | .file _ text => RulesCache.parse? text
  | _ => none

/-- Texts that were read under one stamp are one text. -/
def TextsAgree (states : List FileState) : Prop :=
  ∀ stamp a b, .file stamp (some a) ∈ states → .file stamp (some b) ∈ states → a = b

/-- The stamp of the last file among what was seen. -/
def lastStamp? (seen : List FileState) : Option FileStamp := (seen.filterMap stamp?).getLast?

/-- The file could not be read when its stamp was new, and no other stamp was seen since. -/
def Overlooked (seen : List FileState) (stamp : FileStamp) : Prop :=
  ∃ before after, seen = before ++ .file stamp none :: after ∧ lastStamp? before ≠ some stamp ∧
    ∀ state ∈ after, ∀ other, state.stamp? = some other → other = stamp

variable {seen : List FileState} {state : FileState} {stamp : FileStamp}

theorem lastStamp?_concat : lastStamp? (seen ++ [state]) = state.stamp?.or (lastStamp? seen) := by
  rw [lastStamp?, List.filterMap_append]
  cases hstamp : state.stamp? <;> simp [lastStamp?, hstamp]

theorem Overlooked.concat (h : Overlooked seen stamp)
    (hstate : ∀ other, state.stamp? = some other → other = stamp) :
    Overlooked (seen ++ [state]) stamp := by
  obtain ⟨before, after, rfl, hnew, hafter⟩ := h
  refine ⟨before, after ++ [state], by simp, hnew, fun later hlater => ?_⟩
  rcases List.mem_append.mp hlater with hlater | hlater
  · exact hafter later hlater
  · rw [List.mem_singleton.mp hlater]
    exact hstate

/-- The stamp of a file that is overlooked is the last one. -/
theorem Overlooked.lastStamp?_eq (h : Overlooked seen stamp) : lastStamp? seen = some stamp := by
  obtain ⟨before, after, rfl, -, hafter⟩ := h
  induction after using List.reverseRecOn with
  | nil => rw [lastStamp?_concat, stamp?, Option.some_or]
  | append_singleton after state ih =>
    have hrest := ih fun earlier hearlier => hafter earlier (List.mem_append_left _ hearlier)
    rw [← List.cons_append, ← List.append_assoc, lastStamp?_concat, hrest]
    cases hstate : state.stamp? with
    | none => rfl
    | some other =>
      rw [hafter state (List.mem_append_right _ List.mem_cons_self) other hstate, Option.some_or]

end FileState

namespace RulesCache
open FileState

variable {cache : RulesCache} {seen : List FileState}

/-- How a cache stands to all that was seen: its stamp is that of the last file, and if that file is
not overlooked, a text was read under the stamp, and its rules are in force if it holds any. -/
structure Follows (cache : RulesCache) (seen : List FileState) : Prop where
  stamp : lastStamp? seen = some cache.stamp
  text : Overlooked seen cache.stamp ∨
    ∃ text, .file cache.stamp (some text) ∈ seen ∧
      ∀ rules, parse? (some text) = some rules → cache.rules = rules

theorem follows_load {path : String} {first : FileState} (h : load path first = .ok cache) :
    cache.Follows [first] ∧ first.rules? = some cache.rules := by
  cases first with
  | file stamp text =>
    cases text with
    | none => cases h
    | some text =>
      rw [load] at h
      split at h
      · next rules hrules =>
        cases h
        refine ⟨⟨rfl, .inr ⟨text, List.mem_cons_self, fun other hother => ?_⟩⟩, hrules⟩
        exact Option.some.inj (hrules.symm.trans hother)
      · cases h
  | _ => cases h

theorem exists_text_of_rules? {state : FileState} {stamp : FileStamp} {rules : RuleTable}
    (hrules : state.rules? = some rules) (hstamp : state.stamp? = some stamp) :
    ∃ text, state = .file stamp (some text) ∧ parse? (some text) = some rules := by
  cases state with
  | file own text =>
    cases hstamp
    cases text with
    | none => cases hrules
    | some text => exact ⟨text, rfl, hrules⟩
  | _ => cases hstamp

theorem refresh_seen (text : Option String) :
    cache.refresh (.file cache.stamp text) = cache := by
  rw [refresh, if_pos rfl]

theorem refresh_of_stamp? {state : FileState}
    (h : ∀ stamp, state.stamp? = some stamp → stamp = cache.stamp) :
    cache.refresh state = cache := by
  cases state with
  | file stamp text => rw [h stamp rfl, refresh_seen]
  | _ => rfl

theorem refresh_file_of_ne {stamp : FileStamp} (text : Option String) (h : stamp ≠ cache.stamp) :
    (cache.refresh (.file stamp text)).stamp = stamp ∧
      (cache.refresh (.file stamp text)).rules = (parse? text).getD cache.rules := by
  rw [refresh, if_neg h]
  cases parse? text <;> exact ⟨rfl, rfl⟩

/-- Each call keeps what the cache says about the files. -/
theorem Follows.refresh (h : cache.Follows seen) (state : FileState) :
    (cache.refresh state).Follows (seen ++ [state]) := by
  by_cases hsame : ∀ stamp, state.stamp? = some stamp → stamp = cache.stamp
  · -- no file, or one with the stamp that was seen last
    rw [refresh_of_stamp? hsame]
    refine ⟨?_, ?_⟩
    · rw [lastStamp?_concat, h.stamp]
      cases hstamp : state.stamp? with
      | none => rfl
      | some stamp => rw [hsame stamp hstamp, Option.some_or]
    · rcases h.text with hmissed | ⟨text, hread, hrules⟩
      · exact .inl (hmissed.concat hsame)
      · exact .inr ⟨text, List.mem_append_left _ hread, hrules⟩
  · cases state with
    | file stamp text =>
      have hnew : stamp ≠ cache.stamp := by
        rintro rfl
        exact hsame fun other hother => (Option.some.inj hother).symm
      obtain ⟨hstamp, hrules⟩ := refresh_file_of_ne text hnew
      refine ⟨?_, ?_⟩
      · rw [lastStamp?_concat, hstamp]
        rfl
      · rw [hstamp, hrules]
        cases text with
        | none =>
          refine .inl ⟨seen, [], rfl, ?_, nofun⟩
          rw [h.stamp]
          exact fun heq => hnew (Option.some.inj heq).symm
        | some text =>
          refine .inr ⟨text, List.mem_append_right _ List.mem_cons_self, fun rules hread => ?_⟩
          rw [hread, Option.getD_some]
    | _ => exact absurd nofun hsame

/-- And so do calls one after another. -/
theorem Follows.foldl (h : cache.Follows seen) (states : List FileState) :
    (states.foldl RulesCache.refresh cache).Follows (seen ++ states) := by
  induction states generalizing cache seen with
  | nil => rwa [List.append_nil]
  | cons state rest ih =>
    have hrest := ih (h.refresh state)
    rwa [List.append_assoc] at hrest

/-- The file was loaded, and since then the calls have met what was `seen`. The next call gives the
rules of a file that can be read and holds rules, unless it is overlooked; in all other cases it
gives the rules of the call before it, and the first call those that were loaded. -/
theorem refresh_rules_eq_current {path : String} {first : FileState}
    (hload : load path first = .ok cache) (seen : List FileState) (state : FileState)
    (hagree : TextsAgree (first :: seen ++ [state])) :
    first.rules? = some cache.rules ∧
      let before := seen.foldl refresh cache
      (∀ stamp rules, state.stamp? = some stamp → state.rules? = some rules →
        ¬ Overlooked (first :: seen) stamp → (before.refresh state).rules = rules) ∧
      (state.rules? = none → (before.refresh state).rules = before.rules) ∧
      ∀ stamp, state.stamp? = some stamp → Overlooked (first :: seen) stamp →
        (before.refresh state).rules = before.rules := by
  obtain ⟨hfirst, hrules⟩ := follows_load hload
  refine ⟨hrules, ?_⟩
  intro before
  have hbefore : before.Follows (first :: seen) := hfirst.foldl seen
  refine ⟨?_, ?_, ?_⟩
  · intro stamp rules hstamp hread hnot
    obtain ⟨text, rfl, htext⟩ := exists_text_of_rules? hread hstamp
    by_cases hstamp : stamp = before.stamp
    · subst hstamp
      rw [refresh_seen]
      rcases hbefore.text with hmissed | ⟨seenText, hseen, hforce⟩
      · exact absurd hmissed hnot
      · have hsame : seenText = text := hagree before.stamp seenText text
          (List.mem_append_left _ hseen) (List.mem_append_right _ List.mem_cons_self)
        exact hforce rules (hsame ▸ htext)
    · rw [(refresh_file_of_ne (some text) hstamp).2, htext, Option.getD_some]
  · intro hnone
    cases state with
    | file stamp text =>
      by_cases hstamp : stamp = before.stamp
      · rw [hstamp, refresh_seen]
      · rw [(refresh_file_of_ne text hstamp).2]
        exact congrArg (Option.getD · before.rules) hnone
    | _ => rfl
  · intro stamp hstamp hmissed
    have hlast : stamp = before.stamp :=
      Option.some.inj (hmissed.lastStamp?_eq.symm.trans hbefore.stamp)
    rw [refresh_of_stamp? fun other hother => hlast ▸ Option.some.inj (hother.symm.trans hstamp)]

/-- A file of eight bytes with rules for one resource. -/
def sampleFile (modified : Int) (resource : String) : FileState :=
  .file ⟨modified, 8⟩ (some ("\x7b\"" ++ resource ++ "\":\x7b\x7d\x7d"))

private theorem load_sampleFile : ∃ cache, load "rules.json" (sampleFile 1 "a") = .ok cache ∧
    cache.stamp = ⟨1, 8⟩ ∧ cache.rules.resources.keys = ["a"] := by
  have hload : (load "rules.json" (sampleFile 1 "a")).toOption.any (fun cache =>
      cache.stamp == ⟨1, 8⟩ && cache.rules.resources.keys == ["a"]) = true := by
    decide +kernel
  cases h : load "rules.json" (sampleFile 1 "a") with
  | error e => simp [h, Except.toOption] at hload
  | ok cache =>
    rw [h] at hload
    simpa [Except.toOption] using hload

private theorem rules?_sampleFile (modified : Int) :
    ∃ rules, (sampleFile modified "b").rules? = some rules ∧ rules.resources.keys = ["b"] := by
  have hread : (parse? (some ("\x7b\"" ++ "b" ++ "\":\x7b\x7d\x7d"))).any
      (fun rules => rules.resources.keys == ["b"]) = true := by
    decide +kernel
  obtain ⟨rules, hrules, hkeys⟩ := (Option.any_eq_true _ _).mp hread
  exact ⟨rules, hrules, beq_iff_eq.mp hkeys⟩

/-- A file, then one that cannot be read, then a file with another stamp than the first. -/
private theorem textsAgree_sampleFile {modified : Int} (h : modified ≠ 1) :
    TextsAgree [sampleFile 1 "a", .file ⟨2, 8⟩ none, sampleFile modified "b"] := by
  intro stamp a b ha hb
  simp only [sampleFile, List.mem_cons, FileState.file.injEq, Option.some.injEq, reduceCtorEq,
    and_false, List.not_mem_nil, or_false, false_or] at ha hb
  rcases ha with ⟨rfl, rfl⟩ | ⟨rfl, rfl⟩ <;> rcases hb with ⟨hb, rfl⟩ | ⟨hb, rfl⟩
  · rfl
  · exact absurd (FileStamp.mk.inj hb).1.symm h
  · exact absurd (FileStamp.mk.inj hb).1 h
  · rfl

/-- A file is overlooked that could not be read when it was replaced and can be read later. -/
theorem unreadable_file_overlooked :
    let hidden : FileState := .file ⟨2, 8⟩ none
    let shown := sampleFile 2 "b"
    ∃ cache rules, load "rules.json" (sampleFile 1 "a") = .ok cache ∧
      TextsAgree [sampleFile 1 "a", hidden, shown] ∧ shown.rules? = some rules ∧
      ((cache.refresh hidden).refresh shown).rules ≠ rules := by
  intro hidden shown
  obtain ⟨cache, hcache, hstamp, hkeys⟩ := load_sampleFile
  obtain ⟨rules, hrules, hother⟩ := rules?_sampleFile 2
  refine ⟨cache, rules, hcache, textsAgree_sampleFile (by decide), hrules, fun heq => ?_⟩
  have hnew : (⟨2, 8⟩ : FileStamp) ≠ cache.stamp := by simp [hstamp]
  obtain ⟨hseen, hkept⟩ := refresh_file_of_ne none hnew
  have hoverlooked : (cache.refresh hidden).refresh shown = cache.refresh hidden :=
    refresh_of_stamp? fun stamp h => (Option.some.inj h).symm.trans hseen.symm
  rw [hoverlooked, hkept] at heq
  rw [← heq] at hother
  simp [parse?, hkeys] at hother

/-- Once the file has another stamp, its rules are in force. -/
theorem sample_rules_current :
    let hidden : FileState := .file ⟨2, 8⟩ none
    let shown := sampleFile 3 "b"
    ∃ cache rules, load "rules.json" (sampleFile 1 "a") = .ok cache ∧
      shown.rules? = some rules ∧ ((cache.refresh hidden).refresh shown).rules = rules := by
  intro hidden shown
  obtain ⟨cache, hcache, -⟩ := load_sampleFile
  obtain ⟨rules, hrules, -⟩ := rules?_sampleFile 3
  have hnot : ¬ Overlooked [sampleFile 1 "a", hidden] ⟨3, 8⟩ := fun hmissed =>
    absurd hmissed.lastStamp?_eq (by decide)
  have hcurrent :=
    (refresh_rules_eq_current hcache [hidden] shown (textsAgree_sampleFile (by decide))).2.1
  exact ⟨cache, rules, hcache, hrules, hcurrent ⟨3, 8⟩ rules rfl hrules hnot⟩

end RulesCache

end UserManagedAccess
