/-
  Transcode — values that are read back as they are shown.

  A value is shown without its kind, and the kind of its setting tells how it is read.
  What is read again is the same value (`Value.Same`): a number may come back as an
  integer where it was a float, and zero without its sign, but no number changes.

  * `Value.exists_numberOfText?_plain`: numbers are read back;
  * `Value.ratesOfText?_plain`: so are lists of them, as they were;
  * `Value.Means`: what a text means for a kind, which is what it is read as
    (`Value.ofKind?_eq_some_iff`), and what it is shown as means the same again
    (`Value.Means.exists_plain`);
  * `Assignment.ofText_append`: the first `=` of an assignment divides it;
  * `assignments_read_back`: so assignments are read back.
-/
import Transcode.Assignment
import Transcode.Proofs.Outcome
import Transcode.Proofs.ShortestDecimals

namespace Transcode

/-! ## The same value -/

namespace Binary64

/-- The same number: the zeros are, and NaN is the same as itself. -/
inductive Same : Binary64 → Binary64 → Prop
  | equal {x y : Binary64} (h : x.eq y = true) : Same x y
  | nan : Same nan nan

theorem same_iff {x y : Binary64} : x.Same y ↔ x.key = y.key := by
  constructor
  · rintro (h | _)
    · unfold eq at h
      cases hx : x.key with
      | none =>
        rw [hx] at h
        cases h
      | some a =>
        cases hy : y.key with
        | none =>
          rw [hx, hy] at h
          cases h
        | some b =>
          rw [hx, hy] at h
          rw [of_decide_eq_true h]
    · rfl
  · intro h
    cases hx : x.key with
    | none =>
      have hnan : ∀ z : Binary64, z.key = none → z = Binary64.nan := by
        intro z hz
        cases z with
        | nan => rfl
        | infinite s => cases hz
        | finite s n hn => cases hz
      rw [hnan x hx, hnan y (h ▸ hx)]
      exact .nan
    | some a =>
      refine .equal ?_
      unfold eq
      rw [← h, hx]
      exact decide_eq_true rfl

instance (x y : Binary64) : Decidable (x.Same y) :=
  decidable_of_iff _ same_iff.symm

theorem Same.refl (x : Binary64) : x.Same x :=
  same_iff.2 rfl

end Binary64

namespace Value

/-- The same value: the same flag or text, the same number, or numbers that are the same
    one by one. -/
inductive Same : Value → Value → Prop
  | flag (on : Bool) : Same (flag on) (flag on)
  | text (s : String) : Same (text s) (text s)
  | number {v w : Value} {x y : Binary64} (hv : v.asNumber = some x) (hw : w.asNumber = some y)
      (h : x.Same y) : Same v w
  | list {xs ys : List Binary64} (h : List.Forall₂ Binary64.Same xs ys) : Same (list xs) (list ys)

theorem Same.refl (v : Value) : v.Same v := by
  cases v with
  | flag on => exact .flag on
  | integer n => exact .number rfl rfl (.refl _)
  | float x => exact .number rfl rfl (.refl x)
  | text s => exact .text s
  | list xs => exact .list (List.forall₂_same.2 fun x _ => .refl x)

end Value

/-! ## Texts without blanks -/

theorem Text.isBlank_of_isDigit {c : Char} (h : c.isDigit = true) : isBlank c = false := by
  obtain ⟨hlow, hhigh⟩ := Bool.and_eq_true_iff.1 (show isDigit c = true from h)
  have hlow : 48 ≤ c.toNat := of_decide_eq_true hlow
  have hhigh : c.toNat ≤ 57 := of_decide_eq_true hhigh
  rw [Bool.eq_false_iff]
  intro hblank
  simp only [isBlank, inRanges, blankRanges, List.any_cons, List.any_nil, Bool.or_eq_true,
    Bool.and_eq_true, decide_eq_true_eq, Bool.false_eq_true, or_false] at hblank
  omega

namespace Value

theorem isBlank_of_isMark {c : Char} (h : isMark c = true) : Text.isBlank c = false := by
  rcases Bool.or_eq_true_iff.1 h with h | h
  · exact Text.isBlank_of_isDigit h
  · have hmarks : ("-.,NaNinftruefalse".toList).all (fun c => !Text.isBlank c) = true := by decide
    have hmark := List.all_eq_true.1 hmarks c (List.contains_iff_mem.1 h)
    rwa [Bool.not_eq_true'] at hmark

/-- There is nothing to trim from what is not a text. -/
theorem trimmed_plain {v : Value} (h : v.asText = none) :
    Text.trimmed v.plain.toList = v.plain.toList :=
  Text.trimmed_eq_self fun _ hc => isBlank_of_isMark (isMark_of_mem_plain h hc)

end Value

/-! ## Numbers -/

theorem Binary64.comma_not_mem_plain (x : Binary64) : ',' ∉ x.plain := by
  intro h
  exact absurd (isMark_of_mem_plain h) (by decide)

namespace Value

variable {cs : List Char} {v : Value}

theorem numberOfText?_eq_some_iff :
    numberOfText? cs = some v ↔
      (∃ n, integerOfText? cs = some n ∧ v = .integer n) ∨
      integerOfText? cs = none ∧
        ∃ x, Binary64.ofChars? cs = some x ∧ x.isFinite = true ∧ v = .float x := by
  unfold numberOfText?
  cases integerOfText? cs with
  | some n =>
    constructor
    · rintro ⟨⟩
      exact Or.inl ⟨n, rfl, rfl⟩
    · rintro (⟨_, ⟨⟩, rfl⟩ | ⟨⟨⟩, -⟩)
      rfl
  | none =>
    simp only [Option.map_eq_some_iff, Option.filter_eq_some_iff]
    constructor
    · rintro ⟨x, ⟨hread, hfinite⟩, rfl⟩
      exact Or.inr ⟨trivial, x, hread, hfinite, rfl⟩
    · rintro (⟨_, ⟨⟩, -⟩ | ⟨-, x, hread, hfinite, rfl⟩)
      exact ⟨x, ⟨hread, hfinite⟩, rfl⟩

/-- A whole number is read back. -/
theorem integerOfText?_integerText (n : Int64) :
    integerOfText? (integerText n.toInt) = some n := by
  have hlow : least ≤ n.toInt := n.le_toInt
  have hhigh : n.toInt ≤ greatest := Int.le_of_lt_add_one n.toInt_lt
  obtain ⟨c, r, hcons⟩ := List.exists_cons_of_ne_nil (digitsOf_ne_nil n.toInt.natAbs)
  have hdigits : ∀ c ∈ digitsOf n.toInt.natAbs, c.isDigit = true := fun c hc =>
    isDigit_of_mem_digitsOf hc
  have hhead : ∃ c ∈ (digitsOf n.toInt.natAbs).head?, c.isDigit = true :=
    ⟨c, by rw [hcons]; rfl, hdigits c (hcons ▸ List.mem_cons_self)⟩
  have hread : integerOf? least greatest (integerText n.toInt) = some n.toInt := by
    refine integerOf?_eq_some_iff.2
      ⟨_, _, takeSign_signText _ hhead, digitsOf_ne_nil _, hdigits, ?_, hlow, hhigh⟩
    rw [valueOfDigits_digitsOf, Binary64.signed_natAbs]
  rw [integerOfText?, hread, Option.map_some, Int64.ofInt_toInt]

/-- A text of a whole number is read as a float, too: the nearest to it. -/
theorem exists_ofChars?_of_integerOfText? {n : Int64} (h : integerOfText? cs = some n) :
    ∃ x, Binary64.ofChars? cs = some x ∧ x.Same (.ofInt n.toInt) := by
  obtain ⟨i, hi, rfl⟩ := Option.map_eq_some_iff.1 h
  obtain ⟨-, -, -, -, -, -, hlow, hhigh⟩ := integerOf?_eq_some_iff.1 hi
  unfold least at hlow
  unfold greatest at hhigh
  have hlimit : 9223372036854775808 < tenTo 310 := by decide +kernel
  obtain ⟨x, hread, hkey⟩ := Binary64.exists_ofChars?_of_integerOf? hi (by omega)
  rw [Int64.toInt_ofInt_of_le hlow (by omega)]
  exact ⟨x, hread, Binary64.same_iff.2 hkey⟩

/-- **A number is read back**, as an integer where it is a whole one of 64 bits. -/
theorem exists_numberOfText?_plain (h : numberOfText? cs = some v) :
    ∃ w, numberOfText? v.plain.toList = some w ∧ v.Same w := by
  rcases numberOfText?_eq_some_iff.1 h with ⟨n, -, rfl⟩ | ⟨-, x, -, hfinite, rfl⟩
  · refine ⟨.integer n, ?_, .refl _⟩
    rw [plain, String.toList_ofList]
    exact numberOfText?_eq_some_iff.2 (Or.inl ⟨n, integerOfText?_integerText n, rfl⟩)
  · rw [plain, String.toList_ofList]
    cases hint : integerOfText? x.plain with
    | some n =>
      obtain ⟨y, hread, hsame⟩ := exists_ofChars?_of_integerOfText? hint
      rw [Binary64.ofChars?_plain, Option.some.injEq] at hread
      subst hread
      have hwhole := numberOfText?_eq_some_iff.2 (Or.inl ⟨n, hint, rfl⟩)
      exact ⟨.integer n, hwhole, .number rfl rfl hsame⟩
    | none =>
      have hfloat := numberOfText?_eq_some_iff.2
        (Or.inr ⟨hint, x, x.ofChars?_plain, hfinite, rfl⟩)
      exact ⟨.float x, hfloat, .refl _⟩

/-! ## Lists of rates -/

theorem plain_list (xs : List Binary64) :
    (list xs).plain.toList = [','].intercalate (xs.map Binary64.plain) := by
  rw [plain, String.toList_intercalate, List.map_map]
  congr 2
  funext x
  exact String.toList_ofList

theorem ratesOfText?_eq_some_iff {xs : List Binary64} :
    ratesOfText? cs = some xs ↔
      List.Forall₂ (fun p x => Binary64.ofChars? (Text.trimmed p) = some x)
        (Text.pieces (· == ',') cs) xs :=
  mapM_eq_some_iff

/-- **A list of rates is read back** as it was. -/
theorem ratesOfText?_plain {xs : List Binary64} (hne : xs ≠ []) :
    ratesOfText? (list xs).plain.toList = some xs := by
  have hpieces : Text.pieces (· == ',') (list xs).plain.toList = xs.map Binary64.plain := by
    rw [plain_list]
    refine Text.pieces_intercalate (by rfl) (by simpa using hne) ?_
    intro p hp c hc
    obtain ⟨x, -, rfl⟩ := List.mem_map.1 hp
    exact beq_eq_false_iff_ne.2 fun h => x.comma_not_mem_plain (h ▸ hc)
  rw [ratesOfText?, hpieces]
  refine mapM_map_eq_some (fun x => ?_) xs
  rw [Text.trimmed_eq_self fun c hc => isBlank_of_isMark (isMark_of_mem_float hc)]
  exact x.ofChars?_plain

/-- A text with a comma has two rates at least. -/
theorem two_le_length_of_ratesOfText? {xs : List Binary64} (hcomma : ',' ∈ cs)
    (h : ratesOfText? cs = some xs) : 2 ≤ xs.length := by
  obtain ⟨before, after, rfl⟩ := List.append_of_mem hcomma
  have hlength := (ratesOfText?_eq_some_iff.1 h).length_eq
  rw [Text.pieces_append (by rfl), List.length_append] at hlength
  have hbefore := List.length_pos_iff.2 (Text.pieces_ne_nil (f := (· == ',')) before)
  have hafter := List.length_pos_iff.2 (Text.pieces_ne_nil (f := (· == ',')) after)
  omega

theorem comma_mem_plain_list {xs : List Binary64} (h : 2 ≤ xs.length) :
    ',' ∈ (list xs).plain.toList := by
  rw [plain_list]
  obtain ⟨x, y, ys, rfl⟩ : ∃ x y ys, xs = x :: y :: ys := by
    match xs, h with
    | x :: y :: ys, _ => exact ⟨x, y, ys, rfl⟩
  rw [List.map_cons, List.map_cons, List.intercalate_cons_cons]
  exact List.mem_append_left _ (List.mem_append_right _ (List.mem_singleton_self ','))

/-! ## Values of every kind -/

theorem flagOfText?_plain (on : Bool) : flagOfText? (flag on).plain.toList = some on := by
  cases on <;> decide

theorem ne_nil_of_numberOfText? (h : numberOfText? cs = some v) : cs ≠ [] := by
  have hnone : numberOfText? [] = none := by decide
  rintro rfl
  rw [hnone] at h
  cases h

theorem asText_of_numberOfText? (h : numberOfText? cs = some v) : v.asText = none := by
  rcases numberOfText?_eq_some_iff.1 h with ⟨n, -, rfl⟩ | ⟨-, x, -, -, rfl⟩ <;> rfl

/-- No number is shown with a comma. -/
theorem comma_not_mem_plain_of_numberOfText? (h : numberOfText? cs = some v) :
    ',' ∉ v.plain.toList := by
  rcases numberOfText?_eq_some_iff.1 h with ⟨n, -, rfl⟩ | ⟨-, x, -, -, rfl⟩
  · rw [plain, String.toList_ofList]
    intro hmem
    exact absurd (isMark_of_mem_integerText hmem) (by decide)
  · rw [plain, String.toList_ofList]
    exact x.comma_not_mem_plain

/-- What a text, without blanks around it, means for a kind: the value that it is read as. -/
inductive Means (cs : List Char) : ValueKind → Value → Prop
  | integer {n : Int64} (h : integerOfText? cs = some n) : Means cs .integer (.integer n)
  | flag {on : Bool} (h : flagOfText? cs = some on) : Means cs .flag (.flag on)
  | rates {xs : List Binary64} (hcomma : ',' ∈ cs) (h : ratesOfText? cs = some xs) :
      Means cs .rates (.list xs)
  | rate {v : Value} (hcomma : ',' ∉ cs) (h : numberOfText? cs = some v) : Means cs .rates v
  | seconds {v : Value} (h : numberOfText? cs = some v) : Means cs .time v
  | stamp (hne : cs ≠ []) (h : numberOfText? cs = none) :
      Means cs .time (.text (String.ofList cs))
  | text (hne : cs ≠ []) : Means cs .text (.text (String.ofList cs))

theorem Means.of_eq {kind : ValueKind} (h : ofKind? kind cs = some v) : Means cs kind v := by
  cases kind with
  | integer =>
    obtain ⟨n, hn, rfl⟩ := Option.map_eq_some_iff.1 h
    exact .integer hn
  | flag =>
    obtain ⟨on, hon, rfl⟩ := Option.map_eq_some_iff.1 h
    exact .flag hon
  | rates =>
    simp only [ofKind?] at h
    split at h
    · next hcomma =>
      obtain ⟨xs, hxs, rfl⟩ := Option.map_eq_some_iff.1 h
      exact .rates (List.contains_iff_mem.1 hcomma) hxs
    · next hcomma => exact .rate (fun hmem => hcomma (List.contains_iff_mem.2 hmem)) h
  | time =>
    simp only [ofKind?] at h
    split at h
    · cases h
    · next hempty =>
      rcases Option.or_eq_some_iff.1 h with h | ⟨hnone, h⟩
      · exact .seconds h
      · cases h
        exact .stamp (fun hnil => hempty (List.isEmpty_iff.2 hnil)) hnone
  | text =>
    simp only [ofKind?] at h
    split at h
    · cases h
    · next hempty =>
      cases h
      exact .text fun hnil => hempty (List.isEmpty_iff.2 hnil)

/-- A text is read as what it means. -/
theorem ofKind?_eq_some_iff {kind : ValueKind} : ofKind? kind cs = some v ↔ Means cs kind v := by
  refine ⟨Means.of_eq, fun h => ?_⟩
  cases h with
  | integer h => rw [ofKind?, h, Option.map_some]
  | flag h => rw [ofKind?, h, Option.map_some]
  | rates hcomma h =>
    simp only [ofKind?, if_pos (List.contains_iff_mem.2 hcomma), h, Option.map_some]
  | rate hcomma h => simp only [ofKind?, if_neg (mt List.contains_iff_mem.1 hcomma), h]
  | seconds h =>
    have hne := ne_nil_of_numberOfText? h
    simp only [ofKind?, if_neg (mt List.isEmpty_iff.1 hne), h, Option.some_or]
  | stamp hne h => simp only [ofKind?, if_neg (mt List.isEmpty_iff.1 hne), h, Option.none_or]
  | text hne => simp only [ofKind?, if_neg (mt List.isEmpty_iff.1 hne)]

/-- **Every value is read back from what it is shown as**, by the kind it was read by. -/
theorem Means.exists_plain {kind : ValueKind} (hcs : Text.trimmed cs = cs)
    (h : Means cs kind v) : ∃ w, Means (Text.trimmed v.plain.toList) kind w ∧ v.Same w := by
  have htext : Text.trimmed (Value.text (String.ofList cs)).plain.toList = cs := by
    rw [plain, String.toList_ofList, hcs]
  cases h with
  | @integer n =>
    refine ⟨.integer n, .integer ?_, .refl _⟩
    rw [trimmed_plain rfl, plain, String.toList_ofList]
    exact integerOfText?_integerText n
  | @flag on =>
    refine ⟨.flag on, .flag ?_, .refl _⟩
    rw [trimmed_plain rfl]
    exact flagOfText?_plain on
  | @rates xs hcomma h =>
    have hlength := two_le_length_of_ratesOfText? hcomma h
    refine ⟨.list xs, ?_, .refl _⟩
    rw [trimmed_plain rfl]
    exact .rates (comma_mem_plain_list hlength)
      (ratesOfText?_plain (List.length_pos_iff.1 (by omega)))
  | rate hcomma h =>
    obtain ⟨w, hw, hsame⟩ := exists_numberOfText?_plain h
    refine ⟨w, ?_, hsame⟩
    rw [trimmed_plain (asText_of_numberOfText? h)]
    exact .rate (comma_not_mem_plain_of_numberOfText? h) hw
  | seconds h =>
    obtain ⟨w, hw, hsame⟩ := exists_numberOfText?_plain h
    refine ⟨w, ?_, hsame⟩
    rw [trimmed_plain (asText_of_numberOfText? h)]
    exact .seconds hw
  | stamp hne h =>
    refine ⟨_, ?_, .refl _⟩
    rw [htext]
    exact .stamp hne h
  | text hne =>
    refine ⟨_, ?_, .refl _⟩
    rw [htext]
    exact .text hne

end Value

/-! ## Assignments -/

theorem Value.ofText_eq_ok_iff {s : Setting} {text : String} {v : Value} :
    ofText s text = .ok v ↔ Means (Text.trimmed text.toList) s.kind v := by
  rw [← ofKind?_eq_some_iff, ofText]
  cases ofKind? s.kind (Text.trimmed text.toList) <;> simp

/-- **The first `=` of an assignment divides it**: what is behind it is read as a value of
    the setting whose name is in front of it. -/
theorem Assignment.ofText_append {s : Setting} {name : String} (text : String)
    (hname : '=' ∉ name.toList) (htrim : Text.trim name = s.name) :
    Assignment.ofText (name ++ "=" ++ text) = (Value.ofText s text).map (Prod.mk s) := by
  have hcut : Text.cutAt (· == '=') (name ++ "=" ++ text).toList =
      some (name.toList, text.toList) := by
    rw [String.toList_append, String.toList_append, List.append_assoc]
    refine Text.cutAt_append ?_ (by rfl) text.toList
    intro c hc
    exact beq_eq_false_iff_ne.2 fun h => hname (h ▸ hc)
  have hsetting : Setting.ofText name = .ok s := by
    rw [Setting.ofText, htrim, Setting.named?_name]
  simp only [Assignment.ofText, hcut, String.ofList_toList, hsetting]
  cases Value.ofText s text <;> rfl

/-- The name of a setting has nothing to trim, and no `=`. -/
theorem Setting.trim_name (s : Setting) : Text.trim s.name = s.name := by
  cases s <;> decide +kernel

theorem Setting.not_mem_name (s : Setting) : '=' ∉ s.name.toList := by
  cases s <;> decide +kernel

/-- **Assignments are read back.**  The value of an assignment that is shown behind the
    name of its setting is read as the same value again.  And whatever the name of a
    setting stands between, short of a `=`, the text behind the first `=` is read as a
    value of that setting, or refused as one, other `=`s being part of it. -/
theorem assignments_read_back (s : Setting) (text : String) :
    (∀ v, Value.ofText s text = .ok v →
      ∃ w, Assignment.ofText (s.name ++ "=" ++ v.plain) = .ok (s, w) ∧ v.Same w) ∧
    ∀ name : String, '=' ∉ name.toList → Text.trim name = s.name →
      Assignment.ofText (name ++ "=" ++ text) = (Value.ofText s text).map (Prod.mk s) := by
  refine ⟨fun v h => ?_, fun name => Assignment.ofText_append text⟩
  obtain ⟨w, hw, hsame⟩ := (Value.ofText_eq_ok_iff.1 h).exists_plain
    (Text.trimmed_trimmed text.toList)
  refine ⟨w, ?_, hsame⟩
  rw [Assignment.ofText_append v.plain s.not_mem_name s.trim_name, Value.ofText_eq_ok_iff.2 hw]
  rfl

/-- The seconds `1e3` are shown as `1000`, and read as a whole number then; a filter holds
    a `=` of its own. -/
theorem assignments_read_back_seconds :
    (Value.ofText .duration "1e3" = .ok (.float (.ofNat 1000)) ∧
      ∃ w, Assignment.ofText
          (Setting.name .duration ++ "=" ++ (Value.float (.ofNat 1000)).plain) =
          .ok (.duration, w) ∧
        (Value.float (.ofNat 1000)).Same w) ∧
    ('=' ∉ " video_filter ".toList ∧ Text.trim " video_filter " = Setting.name .videoFilter ∧
      Assignment.ofText (" video_filter " ++ "=" ++ "scale=640:-2") =
        (Value.ofText .videoFilter "scale=640:-2").map (Prod.mk .videoFilter)) := by
  have hread : Value.ofText .duration "1e3" = .ok (.float (.ofNat 1000)) := by decide +kernel
  have hname : '=' ∉ " video_filter ".toList := by decide
  have htrim : Text.trim " video_filter " = Setting.name .videoFilter := by decide +kernel
  exact ⟨⟨hread, (assignments_read_back .duration "1e3").1 _ hread⟩, hname, htrim,
    (assignments_read_back .videoFilter "scale=640:-2").2 _ hname htrim⟩

end Transcode
