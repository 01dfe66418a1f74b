/-
  Transcode — the encoder options.

  The options are a row of words.  Each gives the arguments that it spells, a name with a
  dash in front and perhaps a value, so two texts with blanks between them give the
  arguments of the one and then those of the other.

  * `Flag.Spells`: how a word spells its arguments (`encoderOption_eq_ok_iff`);
  * `Flag.IsNameless`: a word that spells none (`encoderOption_eq_error_iff`);
  * `Flag.optionTokens`: the arguments of a text, whatever else is in the profile
    (`encoderOptions_eq`);
  * `encoderOptions_by_words`: what they are, word by word.
-/
import Mathlib.Data.List.TakeWhile
import Transcode.Proofs.Outcome
import Transcode.Proofs.TextPieces
import Transcode.Flag.Rule

namespace Transcode

namespace Flag

/-! ## One word -/

/-- The name of an option: something without `=` that no dash stands in front of. -/
structure IsKey (key : List Char) : Prop where
  ne_nil : key ≠ []
  no_dash : key.head? ≠ some '-'
  no_equals : '=' ∉ key

/-- The arguments that a word spells: dashes, which do not count, a name, and perhaps a
    value behind the first `=`. -/
inductive Spells : List Char → List String → Prop where
  | name {dashes key : List Char} (hdashes : ∀ c ∈ dashes, c = '-') (hkey : IsKey key) :
      Spells (dashes ++ key) [String.ofList ('-' :: key)]
  | valued {dashes key : List Char} (hdashes : ∀ c ∈ dashes, c = '-') (hkey : IsKey key)
      (value : List Char) :
      Spells (dashes ++ key ++ '=' :: value) [String.ofList ('-' :: key), String.ofList value]

/-- A word of which nothing but dashes stands in front of the first `=`. -/
def IsNameless (word : List Char) : Prop :=
  ∀ c ∈ word.takeWhile (· ≠ '='), c = '-'

instance (word : List Char) : Decidable (IsNameless word) :=
  inferInstanceAs (Decidable (∀ c ∈ word.takeWhile (· ≠ '='), c = '-'))

/-- Why a word is refused. -/
def nameless (word : List Char) : CompileError :=
  .setting .encoderOptions (.namelessOption (String.ofList word))

variable {word key dashes front : List Char} {tokens : List String} {e : CompileError}

theorem cutAt_equals_eq_none (h : '=' ∉ front) : Text.cutAt (· == '=') front = none :=
  Text.cutAt_eq_none_iff.2 fun _ hc => beq_false_of_ne (ne_of_mem_of_not_mem hc h)

theorem cutAt_equals_append (h : '=' ∉ front) (value : List Char) :
    Text.cutAt (· == '=') (front ++ '=' :: value) = some (front, value) :=
  Text.cutAt_append (fun _ hc => beq_false_of_ne (ne_of_mem_of_not_mem hc h)) rfl value

theorem dropWhile_dashes (hdashes : ∀ c ∈ dashes, c = '-') (hkey : IsKey key) :
    (dashes ++ key).dropWhile (· == '-') = key := by
  rw [List.dropWhile_append_of_pos fun c hc => by simpa using hdashes c hc]
  cases key with
  | nil => exact absurd rfl hkey.ne_nil
  | cons c cs =>
    have hc : c ≠ '-' := fun h => hkey.no_dash (congrArg some h)
    exact List.dropWhile_cons_of_neg (by simpa using hc)

theorem no_equals_of_isKey (hdashes : ∀ c ∈ dashes, c = '-') (hkey : IsKey key) :
    '=' ∉ dashes ++ key := by
  rw [List.mem_append, not_or]
  exact ⟨fun hc => absurd (hdashes '=' hc) (by decide), hkey.no_equals⟩

theorem encoderOption_of_spells (h : Spells word tokens) : encoderOption word = .ok tokens := by
  cases h with
  | @name dashes key hdashes hkey =>
    have hne : key.isEmpty = false := by simp [hkey.ne_nil]
    rw [encoderOption, cutAt_equals_eq_none (no_equals_of_isKey hdashes hkey)]
    simp only [dropWhile_dashes hdashes hkey, hne, Bool.false_eq_true, if_false]
  | @valued dashes key hdashes hkey value =>
    have hne : key.isEmpty = false := by simp [hkey.ne_nil]
    rw [encoderOption, cutAt_equals_append (no_equals_of_isKey hdashes hkey)]
    simp only [dropWhile_dashes hdashes hkey, hne, Bool.false_eq_true, if_false]

/-- A word is what stands in front of its first `=`, and that with the rest if there is
    one. -/
theorem front_cases (word : List Char) : ∃ front, word.takeWhile (· ≠ '=') = front ∧
    '=' ∉ front ∧ (word = front ∨ ∃ value, word = front ++ '=' :: value) := by
  have hsplit := List.takeWhile_append_dropWhile (p := (· ≠ '=')) (l := word)
  have hhead := List.head?_dropWhile_not (· ≠ '=') word
  refine ⟨_, rfl, fun hmem => by simpa using List.mem_takeWhile_imp hmem, ?_⟩
  cases hrest : word.dropWhile (· ≠ '=') with
  | nil =>
    rw [hrest, List.append_nil] at hsplit
    exact Or.inl hsplit.symm
  | cons c value =>
    rw [hrest] at hsplit hhead
    obtain rfl : c = '=' := by simpa using hhead
    exact Or.inr ⟨value, hsplit.symm⟩

theorem encoderOption_of_isNameless (h : IsNameless word) :
    encoderOption word = .error (nameless word) := by
  obtain ⟨front, hfront, hequals, hword⟩ := front_cases word
  have hdashes : front.dropWhile (· == '-') = [] := by
    rw [List.dropWhile_eq_nil_iff]
    rw [IsNameless, hfront] at h
    exact fun c hc => by simpa using h c hc
  rcases hword with rfl | ⟨value, rfl⟩
  · rw [encoderOption, cutAt_equals_eq_none hequals]
    simp only [hdashes, List.isEmpty_nil, if_true]
    rfl
  · rw [encoderOption, cutAt_equals_append hequals]
    simp only [hdashes, List.isEmpty_nil, if_true]
    rfl

theorem exists_spells (h : ¬ IsNameless word) : ∃ tokens, Spells word tokens := by
  obtain ⟨front, hfront, hequals, hword⟩ := front_cases word
  have hsplit := List.takeWhile_append_dropWhile (p := (· == '-')) (l := front)
  have hdashes : ∀ c ∈ front.takeWhile (· == '-'), c = '-' :=
    fun c hc => by simpa using List.mem_takeWhile_imp hc
  have hkey : IsKey (front.dropWhile (· == '-')) := by
    refine ⟨fun hnil => h ?_, fun hdash => ?_, fun hmem => ?_⟩
    · rw [IsNameless, hfront]
      exact fun c hc => by simpa using List.dropWhile_eq_nil_iff.1 hnil c hc
    · have hhead := List.head?_dropWhile_not (· == '-') front
      rw [hdash] at hhead
      cases hhead
    · exact hequals ((List.dropWhile_suffix _).subset hmem)
  rcases hword with rfl | ⟨value, rfl⟩
  · rw [← hsplit]
    exact ⟨_, .name hdashes hkey⟩
  · rw [← hsplit]
    exact ⟨_, .valued hdashes hkey value⟩

/-- **A word gives the arguments that it spells.** -/
theorem encoderOption_eq_ok_iff : encoderOption word = .ok tokens ↔ Spells word tokens := by
  refine ⟨fun h => ?_, encoderOption_of_spells⟩
  by_cases hn : IsNameless word
  · rw [encoderOption_of_isNameless hn] at h
    cases h
  · obtain ⟨tokens', hs⟩ := exists_spells hn
    rw [encoderOption_of_spells hs] at h
    cases h
    exact hs

/-- **A word without a name is refused**, and no other is. -/
theorem encoderOption_eq_error_iff :
    encoderOption word = .error e ↔ IsNameless word ∧ e = nameless word := by
  by_cases hn : IsNameless word
  · simp [encoderOption_of_isNameless hn, hn, eq_comm]
  · obtain ⟨tokens, hs⟩ := exists_spells hn
    simp [encoderOption_of_spells hs, hn]

theorem exists_encoderOption_iff : (∃ tokens, encoderOption word = .ok tokens) ↔
    ¬ IsNameless word := by
  by_cases hn : IsNameless word
  · simp [encoderOption_of_isNameless hn, hn]
  · obtain ⟨tokens, hs⟩ := exists_spells hn
    simp [encoderOption_of_spells hs, hn]

/-- The arguments are made of the characters of the word, and dashes. -/
theorem Spells.isBlank_eq_false (h : Spells word tokens)
    (hword : ∀ c ∈ word, Text.isBlank c = false) :
    ∀ t ∈ tokens, ∀ c ∈ t.toList, Text.isBlank c = false := by
  have hdash : Text.isBlank '-' = false := by decide
  cases h with
  | name _ _ =>
    have hkey := List.forall_mem_append.1 hword
    simpa [hdash] using hkey.2
  | valued _ _ value =>
    obtain ⟨hkey, hvalue⟩ := List.forall_mem_append.1 hword
    have hkey := (List.forall_mem_append.1 hkey).2
    have hvalue := (List.forall_mem_cons.1 hvalue).2
    simpa [hdash] using ⟨hkey, hvalue⟩

/-! ## A text of options -/

/-- The arguments of the options of a text. -/
def optionTokens (text : String) : Rendering := do
  return (← (Text.words text.toList).mapM encoderOption).flatten

/-- Unless the video stream is copied, nothing but the text of the options decides what
    their arguments are. -/
theorem encoderOptions_eq {s : Surroundings} (hs : s.profile.isPassThrough = false)
    (text : String) : encoderOptions (.text text) s = optionTokens text := by
  rw [encoderOptions, hs, if_neg Bool.false_ne_true]
  rfl

variable {text : String} {ws : List (List Char)}

theorem optionTokens_eq_ok_iff (hws : Text.HasWords text.toList ws) :
    optionTokens text = .ok tokens ↔
      ∃ parts, List.Forall₂ Spells ws parts ∧ tokens = parts.flatten := by
  rw [optionTokens, Text.hasWords_iff.1 hws, bind_eq_ok_iff]
  simp only [mapM_eq_ok_iff, encoderOption_eq_ok_iff]
  refine exists_congr fun parts => and_congr_right fun _ => ?_
  constructor
  · rintro ⟨⟩
    rfl
  · rintro rfl
    rfl

/-- **The first word without a name is what options are refused for.** -/
theorem optionTokens_eq_error_iff (hws : Text.HasWords text.toList ws) :
    optionTokens text = .error e ↔ ∃ before w after, ws = before ++ w :: after ∧
      (∀ v ∈ before, ¬ IsNameless v) ∧ IsNameless w ∧ e = nameless w := by
  rw [optionTokens, Text.hasWords_iff.1 hws, bind_eq_error_iff]
  simp only [pure_ne_error, and_false, exists_false, or_false, mapM_eq_error_iff,
    exists_encoderOption_iff, encoderOption_eq_error_iff]

theorem exists_optionTokens_iff (hws : Text.HasWords text.toList ws) :
    (∃ tokens, optionTokens text = .ok tokens) ↔ ∀ w ∈ ws, ¬ IsNameless w := by
  simp only [optionTokens_eq_ok_iff hws, ← exists_encoderOption_iff, encoderOption_eq_ok_iff,
    ← exists_forall₂_iff]
  constructor
  · rintro ⟨_, parts, hparts, -⟩
    exact ⟨parts, hparts⟩
  · rintro ⟨parts, hparts⟩
    exact ⟨_, parts, hparts, rfl⟩

/-- **Blanks join options**: what stands in front of them comes first, or is refused
    first. -/
theorem optionTokens_append {gap : String} (hne : gap ≠ "")
    (hgap : ∀ c ∈ gap.toList, Text.isBlank c = true) (a b : String) :
    optionTokens (a ++ gap ++ b) = do
      return (← optionTokens a) ++ (← optionTokens b) := by
  have hwords : Text.words (a ++ gap ++ b).toList =
      Text.words a.toList ++ Text.words b.toList := by
    rw [String.toList_append, String.toList_append]
    exact Text.words_append (by simpa using hne) hgap _ _
  rw [optionTokens, hwords, List.mapM_append]
  simp [optionTokens]

theorem exists_error_iff (hws : Text.HasWords text.toList ws) :
    (∃ e, optionTokens text = .error e) ↔ ∃ w ∈ ws, IsNameless w := by
  have hok := exists_optionTokens_iff hws
  cases h : optionTokens text with
  | ok tokens => simpa [h] using hok
  | error e => simpa [h] using hok

theorem isBlank_of_optionTokens (hws : Text.HasWords text.toList ws)
    (h : optionTokens text = .ok tokens) :
    ∀ t ∈ tokens, ∀ c ∈ t.toList, Text.isBlank c = false := by
  obtain ⟨parts, hparts, rfl⟩ := (optionTokens_eq_ok_iff hws).1 h
  intro t ht
  obtain ⟨part, hpart, ht⟩ := List.mem_flatten.1 ht
  obtain ⟨w, hw, hspells⟩ := exists_left_of_forall₂ hparts hpart
  exact hspells.isBlank_eq_false (hws.of_mem hw).2 t ht

end Flag

open Flag

/-- **Encoder options are read word by word.**  Unless the video stream is copied, the
    words of a text decide its arguments, whatever blanks there are around them: each
    gives what it spells, in which there are no blanks, and the first without a name is
    what the text is refused for.  So blanks between two texts join their arguments, or
    what is wrong with them. -/
theorem encoderOptions_by_words :
    (∀ r ∈ rules, r.setting = .encoderOptions → ∀ s : Surroundings,
      s.profile.isPassThrough = false → ∀ a, r.render (.text a) s = optionTokens a) ∧
    ∀ a : String, ∃ ws, Text.HasWords a.toList ws ∧
      (∀ b : String, Text.HasWords b.toList ws → optionTokens b = optionTokens a) ∧
      (∀ tokens, optionTokens a = .ok tokens ↔
        ∃ parts, List.Forall₂ Spells ws parts ∧ tokens = parts.flatten) ∧
      (∀ tokens, optionTokens a = .ok tokens →
        ∀ t ∈ tokens, ∀ c ∈ t.toList, Text.isBlank c = false) ∧
      ((∃ e, optionTokens a = .error e) ↔ ∃ w ∈ ws, IsNameless w) ∧
      (∀ e, optionTokens a = .error e ↔ ∃ before w after, ws = before ++ w :: after ∧
        (∀ v ∈ before, ¬ IsNameless v) ∧ IsNameless w ∧ e = nameless w) ∧
      ∀ gap b : String, gap ≠ "" → (∀ c ∈ gap.toList, Text.isBlank c = true) →
        optionTokens (a ++ gap ++ b) = do
          return (← optionTokens a) ++ (← optionTokens b) := by
  constructor
  · intro r hr hsetting s hs a
    have hmem : r ∈ rules.filter (·.setting = .encoderOptions) :=
      List.mem_filter.2 ⟨hr, decide_eq_true hsetting⟩
    obtain rfl : r = ⟨.encoderOptions, .video, .computed Flag.encoderOptions⟩ := by
      simpa [rules] using hmem
    exact encoderOptions_eq hs a
  · intro a
    obtain ⟨ws, hws⟩ := Text.exists_hasWords a.toList
    refine ⟨ws, hws, fun b hb => ?_, fun _ => optionTokens_eq_ok_iff hws,
      fun _ => isBlank_of_optionTokens hws, exists_error_iff hws,
      fun _ => optionTokens_eq_error_iff hws,
      fun _ b hne hgap => optionTokens_append hne hgap a b⟩
    rw [optionTokens, optionTokens, Text.hasWords_iff.1 hws, Text.hasWords_iff.1 hb]

/-- Dashes in front of a name do not count, and a value may have `=` in it. -/
theorem encoderOptions_by_words_joined :
    Rule.render ⟨.encoderOptions, .video, .computed Flag.encoderOptions⟩
        (.text ("coder=0" ++ " \t" ++ "--x=a=b")) ⟨Profile.resolve .empty .empty, .unknown⟩ =
      .ok ["-coder", "0", "-x", "a=b"] ∧
    optionTokens ("coder=0" ++ "\n" ++ "--=1 x") = .error (nameless "--=1".toList) := by
  obtain ⟨hrender, htext⟩ := encoderOptions_by_words
  obtain ⟨_, _, _, _, _, _, _, happend⟩ := htext "coder=0"
  constructor
  · rw [hrender _ (by simp [rules]) rfl _ (by decide +kernel),
      happend _ _ (by decide) (List.all_eq_true.1 (by decide))]
    rfl
  · rw [happend _ _ (by decide) (List.all_eq_true.1 (by decide))]
    rfl

end Transcode
