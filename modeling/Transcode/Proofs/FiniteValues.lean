/-
  Transcode — values that are not finite.

  A number that stands alone has to be finite, and a rate in a list only to be a number:
  `inf` is no frame rate, and `inf,25` are two.

  * `Value.exists_numberOfText?_iff`: a text is taken for a number iff it reads as a
    finite one;
  * `Value.exists_ratesOfText?_iff`: a list is taken iff all of it reads as numbers;
  * `Value.Means.exists_not_finite_iff`: where a value is not finite;
  * `ofText_finite_unless_listed`: so infinities and NaN are in lists of frame rates
    alone, whatever the setting and its text.
-/
import Transcode.Proofs.AssignmentText
import Transcode.Proofs.RoundingIntervals
import Transcode.Proofs.WrittenSettings

namespace Transcode

/-! ## Finite numbers -/

namespace Binary64

/-- Finite numbers have their place below the infinities. -/
theorem isFinite_iff_key {x : Binary64} :
    x.isFinite = true ↔ ∃ k, x.key = some k ∧ k.natAbs < twoTo 2098 := by
  cases x with
  | nan => simp [isFinite, key]
  | infinite s => simp [isFinite, key, natAbs_signed]
  | finite s n hn => simp [isFinite, key, natAbs_signed, hn.2]

theorem Same.isFinite_eq {x y : Binary64} (h : x.Same y) : x.isFinite = y.isFinite := by
  rw [Bool.eq_iff_iff, isFinite_iff_key, isFinite_iff_key, same_iff.1 h]

/-- A whole number of 64 bits is far below the infinities. -/
theorem isFinite_ofInt (n : Int64) : (ofInt n.toInt).isFinite = true := by
  have hlow : -9223372036854775808 ≤ n.toInt := n.le_toInt
  have hhigh : n.toInt < 9223372036854775808 := n.toInt_lt
  have hlimit : 9223372036854775808 * one < overflow * 1 := by decide +kernel
  rw [ofInt, isFinite_nearest_iff (by decide)]
  exact (Nat.mul_le_mul_right one (by omega)).trans_lt hlimit

end Binary64

namespace Value

variable {cs : List Char} {v : Value} {xs : List Binary64}

/-! ## Numbers that stand alone -/

/-- **A text is taken for a number** iff it reads as a finite one. -/
theorem exists_numberOfText?_iff :
    (∃ v, numberOfText? cs = some v) ↔ ∃ x, Binary64.ofChars? cs = some x ∧ x.isFinite = true := by
  simp only [numberOfText?_eq_some_iff]
  constructor
  · rintro ⟨v, ⟨n, hn, -⟩ | ⟨-, x, hread, hfinite, -⟩⟩
    · obtain ⟨x, hread, hsame⟩ := exists_ofChars?_of_integerOfText? hn
      exact ⟨x, hread, hsame.isFinite_eq.trans (Binary64.isFinite_ofInt n)⟩
    · exact ⟨x, hread, hfinite⟩
  · rintro ⟨x, hread, hfinite⟩
    cases hint : integerOfText? cs with
    | some n => exact ⟨.integer n, Or.inl ⟨n, rfl, rfl⟩⟩
    | none => exact ⟨.float x, Or.inr ⟨rfl, x, hread, hfinite, rfl⟩⟩

theorem isFinite_of_numberOfText? (h : numberOfText? cs = some v) :
    ∀ x ∈ v.floats, x.isFinite = true := by
  rcases numberOfText?_eq_some_iff.1 h with ⟨n, -, rfl⟩ | ⟨-, x, -, hfinite, rfl⟩
  · exact fun x hx => absurd hx List.not_mem_nil
  · exact List.forall_mem_singleton.2 hfinite

/-! ## Lists of rates -/

/-- The texts between the commas of a text, blanks aside. -/
def rateTexts (cs : List Char) : List (List Char) :=
  (Text.pieces (· == ',') cs).map Text.trimmed

theorem ratesOfText?_eq_mapM : ratesOfText? cs = (rateTexts cs).mapM Binary64.ofChars? := by
  rw [rateTexts, List.mapM_map]
  rfl

/-- **A list is taken** iff all of it reads as numbers. -/
theorem exists_ratesOfText?_iff :
    (∃ xs, ratesOfText? cs = some xs) ↔ ∀ p ∈ rateTexts cs, ∃ x, Binary64.ofChars? p = some x := by
  rw [ratesOfText?_eq_mapM, exists_mapM_eq_some_iff]

theorem mem_ratesOfText?_iff (h : ratesOfText? cs = some xs) {x : Binary64} :
    x ∈ xs ↔ ∃ p ∈ rateTexts cs, Binary64.ofChars? p = some x :=
  mem_iff_of_mapM_eq_some (ratesOfText?_eq_mapM.symm.trans h)

/-- Where there is no comma, there is one text. -/
theorem rateTexts_of_not_mem (hcs : Text.trimmed cs = cs) (hcomma : ',' ∉ cs) :
    rateTexts cs = [cs] := by
  have hnone : ∀ c ∈ cs, (c == ',') = false := by
    intro c hc
    exact beq_eq_false_iff_ne.2 fun h => hcomma (h ▸ hc)
  rw [rateTexts, Text.pieces_of_none hnone, List.map_singleton, hcs]

/-! ## Values of every kind -/

/-- **A text means rates** iff all its texts read as numbers, and where there is one alone it
    reads as a finite one. -/
theorem exists_means_rates_iff (hcs : Text.trimmed cs = cs) :
    (∃ v, Means cs .rates v) ↔ ∀ p ∈ rateTexts cs, ∃ x, Binary64.ofChars? p = some x ∧
      (x.isFinite = true ∨ ',' ∈ cs) := by
  by_cases hcomma : ',' ∈ cs
  · simp only [hcomma, or_true, and_true, ← exists_ratesOfText?_iff]
    constructor
    · rintro ⟨v, hv⟩
      cases hv with
      | rates _ h => exact ⟨_, h⟩
      | rate hnot _ => exact absurd hcomma hnot
    · rintro ⟨xs, hxs⟩
      exact ⟨.list xs, .rates hcomma hxs⟩
  · simp only [hcomma, or_false, rateTexts_of_not_mem hcs hcomma, List.forall_mem_singleton,
      ← exists_numberOfText?_iff]
    constructor
    · rintro ⟨v, hv⟩
      cases hv with
      | rates h _ => exact absurd h hcomma
      | rate _ h => exact ⟨v, h⟩
    · rintro ⟨v, h⟩
      exact ⟨v, .rate hcomma h⟩

/-- What is no list of rates holds finite numbers alone. -/
theorem Means.isFinite {kind : ValueKind} (h : Means cs kind v)
    (hlist : kind = .rates → ',' ∉ cs) : ∀ x ∈ v.floats, x.isFinite = true := by
  cases h with
  | rates hcomma _ => exact absurd hcomma (hlist rfl)
  | rate _ h | seconds h => exact isFinite_of_numberOfText? h
  | integer _ | flag _ | stamp _ _ | text _ => exact List.forall_mem_nil _

/-- **Where a value is not finite**: in a list of rates, if one of its texts is not. -/
theorem Means.exists_not_finite_iff {kind : ValueKind} (h : Means cs kind v) :
    (∃ x ∈ v.floats, x.isFinite = false) ↔ kind = .rates ∧ ',' ∈ cs ∧
      ∃ p ∈ rateTexts cs, ∃ x, Binary64.ofChars? p = some x ∧ x.isFinite = false := by
  constructor
  · rintro ⟨x, hx, hnot⟩
    by_cases hlist : kind = .rates → ',' ∉ cs
    · rw [h.isFinite hlist x hx] at hnot
      cases hnot
    · obtain ⟨rfl, hcomma⟩ := Classical.not_imp.1 hlist
      cases h with
      | rates hcomma h =>
        obtain ⟨p, hp, hread⟩ := (mem_ratesOfText?_iff h).1 hx
        exact ⟨rfl, hcomma, p, hp, x, hread, hnot⟩
      | rate hnone _ => exact absurd hnone hcomma
  · rintro ⟨rfl, hcomma, p, hp, x, hread, hnot⟩
    cases h with
    | rates _ h => exact ⟨x, (mem_ratesOfText?_iff h).2 ⟨p, hp, hread⟩, hnot⟩
    | rate hnone _ => exact absurd hcomma hnone

end Value

theorem Setting.kind_eq_rates_iff {s : Setting} : s.kind = .rates ↔ s = .frameRate := by
  cases s <;> decide

/-- **Which values are finite.**  An infinity or NaN is in a value that was read only if it
    is a list of frame rates, and then exactly if one of its texts reads as such.  For a text
    is taken for frame rates iff all that is between its commas reads as numbers, finite or
    not; where it has no comma, its number has to be finite. -/
theorem ofText_finite_unless_listed (s : Setting) (text : String) :
    (∀ v, Value.ofText s text = .ok v →
      ((∃ x ∈ v.floats, x.isFinite = false) ↔ s = .frameRate ∧ ',' ∈ text.toList ∧
        ∃ p ∈ Value.rateTexts (Text.trimmed text.toList),
          ∃ x, Binary64.ofChars? p = some x ∧ x.isFinite = false)) ∧
    ((∃ v, Value.ofText .frameRate text = .ok v) ↔
      ∀ p ∈ Value.rateTexts (Text.trimmed text.toList),
        ∃ x, Binary64.ofChars? p = some x ∧ (x.isFinite = true ∨ ',' ∈ text.toList)) := by
  have hcomma : ',' ∈ Text.trimmed text.toList ↔ ',' ∈ text.toList :=
    Text.mem_trimmed_iff (by decide)
  simp only [Value.ofText_eq_ok_iff, ← hcomma, ← Setting.kind_eq_rates_iff]
  exact ⟨fun v h => h.exists_not_finite_iff,
    Value.exists_means_rates_iff (Text.trimmed_trimmed text.toList)⟩

/-- The rates `50, 25` are finite. -/
theorem ofText_finite_unless_listed_twoRates :
    Value.ofText .frameRate "50, 25" = .ok (.list [.ofNat 50, .ofNat 25]) ∧
      ((∃ x ∈ (Value.list [.ofNat 50, .ofNat 25]).floats, x.isFinite = false) ↔
        Setting.frameRate = .frameRate ∧ ',' ∈ "50, 25".toList ∧
        ∃ p ∈ Value.rateTexts (Text.trimmed "50, 25".toList),
          ∃ x, Binary64.ofChars? p = some x ∧ x.isFinite = false) := by
  have hread : Value.ofText .frameRate "50, 25" = .ok (.list [.ofNat 50, .ofNat 25]) := by
    decide +kernel
  exact ⟨hread, (ofText_finite_unless_listed .frameRate "50, 25").1 _ hread⟩

/-- **Infinity is refused alone, and taken in a list.** -/
theorem ofText_takes_infinity_listed :
    Value.ofText .frameRate "inf" = .error (.invalidValue .frameRate "inf") ∧
    Value.ofText .frameRate "inf,25" = .ok (.list [.infinite false, .ofNat 25]) := by
  decide +kernel

end Transcode
