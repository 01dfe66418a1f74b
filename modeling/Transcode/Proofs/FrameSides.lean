/-
  Transcode — sides of a frame.

  The width, the height and the modulus of a frame are positive numbers of 32 bits.  A
  value is read as one in two steps, first held within 64 bits and then within 32; what
  comes out is the exact value, or nothing: a number that the first step holds back is
  refused by the second.

  * `Value.IsSide`: a value is exactly a positive number of 32 bits;
  * `sideOf_eq_ok_iff`: such values are read, as that number, and no others;
  * `positive?_eq_ok_iff`: so are those of a profile;
  * `dimensions_of_sides`: a frame is scaled from exactly these numbers, or refused with
    the first setting that gives another value.
-/
import Transcode.Proofs.Rendering
import Transcode.Proofs.Rounding

namespace Transcode

/-! ## Values that are numbers exactly -/

/-- A value that is exactly a natural number, as an integer or as a float. -/
inductive Value.IsNatural (n : Nat) : Value → Prop
  | integer {i : Int64} (h : i.toInt = n) : IsNatural n (.integer i)
  | float {s : Bool} {units : Nat} {fits : Binary64.Fits units}
      (h : Binary64.signed s units = (n * Binary64.one : Nat)) :
      IsNatural n (.float (.finite s units fits))

/-- A value that is exactly a positive number of 32 bits. -/
def Value.IsSide (v : Value) (n : UInt32) : Prop :=
  0 < n.toNat ∧ v.IsNatural n.toNat

/-- A setting has no value, or one that is exactly a positive number of 32 bits. -/
inductive Profile.HasSide (p : Profile) (t : Setting) : Option UInt32 → Prop
  | absent (h : p.get? t = none) : HasSide p t none
  | given {v : Value} {n : UInt32} (h : p.get? t = some v) (hn : v.IsSide n) : HasSide p t (some n)

namespace Flag

/-- The side that a value gives. -/
def sideOf (t : Setting) (v : Value) : Except CompileError UInt32 :=
  match v.asInteger with
  | some i => positive t i
  | none => .error (.wrongType t .integer v)

section
variable {t : Setting} {v : Value} {n : UInt32}

theorem positive_eq_ok_iff {i : Int64} :
    positive t i = .ok n ↔ 0 < n.toNat ∧ i.toInt = n.toNat := by
  have hlt : n.toNat < 4294967296 := n.toNat_lt
  unfold positive
  split
  · next h =>
    have hbound : i.toInt.toNat < 4294967296 := by omega
    have hword : (UInt32.ofNat i.toInt.toNat).toNat = i.toInt.toNat :=
      UInt32.toNat_ofNat_of_lt hbound
    rw [Except.ok.injEq, ← UInt32.toNat_inj, hword]
    omega
  · next h =>
    constructor
    · rintro ⟨⟩
    · omega

end

end Flag

namespace Binary64

/-- The exact value of a number is a positive integer iff the whole part is, and nothing
    is left. -/
theorem signed_eq_mul_one_iff {s : Bool} {units k : Nat} (hk : 0 < k) :
    signed s units = (k * one : Nat) ↔ units % one = 0 ∧ signed s (units / one) = k := by
  have hone := one_units_pos
  generalize one = unit at hone
  have hdiv := Nat.div_add_mod units unit
  have hpos : 0 < k * unit := Nat.mul_pos hk hone
  cases s with
  | true =>
    rw [signed_true, signed_true]
    generalize k * unit = exact at hpos
    generalize units / unit = quotient
    omega
  | false =>
    rw [signed_false, signed_false, Int.natCast_inj, Int.natCast_inj]
    constructor
    · rintro rfl
      exact ⟨Nat.mul_mod_left k unit, Nat.mul_div_cancel k hone⟩
    · rintro ⟨hmod, hquotient⟩
      rw [← hdiv, hmod, hquotient, Nat.mul_comm, Nat.add_zero]

end Binary64

namespace Value

variable {v : Value} {k : Nat}

/-- **Holding a number within 64 bits makes no number of 32 bits** that it was not: what
    is read as one is exactly that. -/
theorem asInteger_iff_isNatural (hk : 0 < k) (hlt : k < 4294967296) :
    (∃ i, v.asInteger = some i ∧ i.toInt = k) ↔ v.IsNatural k := by
  cases v with
  | flag | text | list =>
    constructor
    · rintro ⟨_, ⟨⟩, -⟩
    · rintro ⟨⟩
  | integer i =>
    constructor
    · rintro ⟨_, ⟨⟩, hi⟩
      exact .integer hi
    · rintro ⟨hi⟩
      exact ⟨i, rfl, hi⟩
  | float x =>
    cases x with
    | nan | infinite =>
      constructor
      · rintro ⟨_, ⟨⟩, -⟩
      · rintro ⟨⟩
    | finite s units fits =>
      have hfloat : (float (.finite s units fits)).asInteger =
          if units % Binary64.one = 0 then
            some (Int64.ofInt (max least (min greatest (Binary64.signed s (units / Binary64.one)))))
          else none := by
        simp [asInteger, Binary64.isWhole, Binary64.clamp]
      have hword : ∀ j : Int, (Int64.ofInt (max least (min greatest j))).toInt =
          max least (min greatest j) := by
        intro j
        refine Int64.toInt_ofInt_of_le ?_ ?_ <;> simp only [least, greatest] <;> omega
      have hheld : ∀ j : Int, max least (min greatest j) = k ↔ j = k := by
        intro j
        simp only [least, greatest]
        omega
      have hexact : (float (.finite s units fits)).IsNatural k ↔
          Binary64.signed s units = (k * Binary64.one : Nat) := by
        constructor
        · rintro ⟨h⟩
          assumption
        · exact .float
      rw [hexact, Binary64.signed_eq_mul_one_iff hk, hfloat]
      split
      · next hwhole => simp [hwhole, hword, hheld]
      · next hwhole => simp [hwhole]

end Value

/-! ## Sides that are read -/

namespace Flag

variable {t : Setting} {v : Value} {n : UInt32} {p : Profile} {source : Source}

/-- **The values that give a side** are exactly positive numbers of 32 bits. -/
theorem sideOf_eq_ok_iff : sideOf t v = .ok n ↔ v.IsSide n := by
  have hread : sideOf t v = .ok n ↔ ∃ i, v.asInteger = some i ∧ positive t i = .ok n := by
    unfold sideOf
    cases v.asInteger <;> simp [CompileError.wrongType]
  simp only [hread, positive_eq_ok_iff, Value.IsSide]
  constructor
  · rintro ⟨i, hi, hpos, hn⟩
    exact ⟨hpos, (Value.asInteger_iff_isNatural hpos n.toNat_lt).1 ⟨i, hi, hn⟩⟩
  · rintro ⟨hpos, hn⟩
    obtain ⟨i, hi, hn⟩ := (Value.asInteger_iff_isNatural hpos n.toNat_lt).2 hn
    exact ⟨i, hi, hpos, hn⟩

theorem error_of_sideOf (h : ∀ n, ¬ v.IsSide n) : ∃ o, sideOf t v = .error (.setting t o) := by
  cases hside : sideOf t v with
  | ok n => exact absurd (sideOf_eq_ok_iff.1 hside) (h n)
  | error e =>
    unfold sideOf positive at hside
    split at hside
    · split at hside
      · cases hside
      · cases hside
        exact ⟨_, rfl⟩
    · cases hside
      exact ⟨_, rfl⟩

theorem positive?_of_some (h : p.get? t = some v) : positive? p t = (sideOf t v).map some := by
  rw [positive?, Profile.integer, Profile.view, h, sideOf]
  dsimp only
  cases v.asInteger with
  | none => rfl
  | some i => cases positive t i <;> rfl

theorem positive?_eq_ok_iff {o : Option UInt32} : positive? p t = .ok o ↔ p.HasSide t o := by
  cases hv : p.get? t with
  | none =>
    have hnone : positive? p t = .ok none := by
      rw [positive?, Profile.integer, Profile.view, hv]
      rfl
    rw [hnone]
    constructor
    · rintro ⟨⟩
      exact .absent hv
    · rintro (_ | ⟨h, -⟩)
      · rfl
      · cases hv.symm.trans h
  | some v =>
    rw [positive?_of_some hv, map_eq_ok_iff]
    constructor
    · rintro ⟨n, hn, rfl⟩
      exact .given hv (sideOf_eq_ok_iff.1 hn)
    · rintro (h | ⟨h, hn⟩)
      · cases hv.symm.trans h
      · cases hv.symm.trans h
        exact ⟨_, sideOf_eq_ok_iff.2 hn, rfl⟩

theorem error_of_positive? (h : ∀ o, ¬ p.HasSide t o) :
    ∃ o, positive? p t = .error (.setting t o) := by
  cases hv : p.get? t with
  | none => exact absurd (.absent hv) (h none)
  | some v =>
    obtain ⟨o, ho⟩ := error_of_sideOf fun n hn => h _ (.given hv hn)
    rw [positive?_of_some hv, ho]
    exact ⟨o, rfl⟩

/-! ## The rule of the width -/

/-- What the rule does with a frame that has its sides. -/
def scaled (p : Profile) (source : Source) (width : UInt32) (height modulus : Option UInt32) :
    Rendering := do
  let size ← FrameSize.scale width height source.size (modulus.getD FrameSize.standardModulus)
  let aspect := (← p.text .aspectRatio).getD size.aspectRatio
  return ["-s", size.plain, "-aspect", aspect]

/-- The rule reads three sides, one after the other. -/
theorem dimensions_eq_scaled (hp : p.isPassThrough = false) :
    dimensions v ⟨p, source⟩ =
      sideOf .width v >>= fun width => positive? p .height >>= fun height =>
        positive? p .dimensionsModulus >>= fun modulus => scaled p source width height modulus := by
  simp only [dimensions, hp]
  rw [if_neg Bool.false_ne_true, sideOf]
  cases v.asInteger <;> rfl

/-- The settings that give the sides, in the order in which they are read. -/
def sides : List Setting :=
  [.width, .height, .dimensionsModulus]

theorem dimensions_of_sides_error {e : CompileError} (hp : p.isPassThrough = false)
    (hv : p.get? .width = some v) (h : sides.mapM (positive? p) = .error e) :
    dimensions v ⟨p, source⟩ = .error e := by
  rw [dimensions_eq_scaled hp]
  simp only [sides, List.mapM_cons, List.mapM_nil, positive?_of_some hv] at h
  cases hw : sideOf .width v with
  | error e' =>
    rw [hw] at h
    cases h
    rfl
  | ok width =>
    cases hh : positive? p .height with
    | error e' =>
      rw [hw, hh] at h
      cases h
      rfl
    | ok height =>
      cases hm : positive? p .dimensionsModulus with
      | error e' =>
        rw [hw, hh, hm] at h
        cases h
        rfl
      | ok modulus =>
        rw [hw, hh, hm] at h
        cases h

end Flag

/-- **A frame is scaled from exactly the numbers that are given.**  Of a stream that is
    encoded the size is that of the width and, where they have a value, of the height and
    the modulus, each of them a positive number of 32 bits; any other value is refused, and
    the first of the three settings that has one is named. -/
theorem dimensions_of_sides {p : Profile} {v : Value} (hp : p.isPassThrough = false)
    (hv : p.get? .width = some v) (source : Source) :
    (∀ tokens, Flag.dimensions v ⟨p, source⟩ = .ok tokens ↔
      ∃ width height modulus size aspect, p.HasSide .width (some width) ∧ p.HasSide .height height ∧
        p.HasSide .dimensionsModulus modulus ∧
        FrameSize.scale width height source.size (modulus.getD 8) = .ok size ∧
        p.text .aspectRatio = .ok aspect ∧
        tokens = ["-s", size.plain, "-aspect", aspect.getD size.aspectRatio]) ∧
    ∀ before t after, Flag.sides = before ++ t :: after →
      (∀ t' ∈ before, ∃ side, p.HasSide t' side) → (∀ side, ¬ p.HasSide t side) →
        ∃ o, Flag.dimensions v ⟨p, source⟩ = .error (.setting t o) := by
  have hwidth : ∀ {n}, Flag.sideOf .width v = .ok n ↔ p.HasSide .width (some n) := by
    intro n
    rw [← Flag.positive?_eq_ok_iff, Flag.positive?_of_some hv, map_eq_ok_iff]
    simp
  constructor
  · intro tokens
    rw [Flag.dimensions_eq_scaled hp]
    simp only [Flag.scaled, bind_eq_ok_iff, hwidth, Flag.positive?_eq_ok_iff]
    constructor
    · rintro ⟨width, hw, height, hh, modulus, hm, size, hsize, aspect, haspect, ⟨⟩⟩
      exact ⟨width, height, modulus, size, aspect, hw, hh, hm, hsize, haspect, rfl⟩
    · rintro ⟨width, height, modulus, size, aspect, hw, hh, hm, hsize, haspect, rfl⟩
      exact ⟨width, hw, height, hh, modulus, hm, size, hsize, aspect, haspect, rfl⟩
  · intro before t after hsplit hbefore hother
    obtain ⟨o, ho⟩ := Flag.error_of_positive? hother
    refine ⟨o, Flag.dimensions_of_sides_error hp hv ?_⟩
    refine mapM_eq_error_iff.2 ⟨before, t, after, hsplit, fun t' ht' => ?_, ho⟩
    obtain ⟨side, hside⟩ := hbefore t' ht'
    exact ⟨side, Flag.positive?_eq_ok_iff.2 hside⟩

/-- All three sides, two of them as floats. -/
def threeSides : Settings :=
  .ofList [(.width, .float (.ofNat 642)), (.height, .integer 363),
    (.dimensionsModulus, .float (.ofNat 4))]

/-- A height of more than 64 bits, and a modulus that is a text. -/
def twoOdd : Settings :=
  .ofList [(.width, .integer 640), (.height, .float (.ofNat 18446744073709551616)),
    (.dimensionsModulus, .text "8")]

theorem dimensions_of_sides_threeSides :
    Flag.dimensions (.float (.ofNat 642)) ⟨Profile.resolve .empty threeSides, .unknown⟩ =
      .ok ["-s", "640x360", "-aspect", "16:9"] ∧
    ∃ o, Flag.dimensions (.integer 640) ⟨Profile.resolve .empty twoOdd, .unknown⟩ =
      .error (.setting .height o) := by
  have hsides : Flag.sides.map (Flag.positive? (Profile.resolve .empty threeSides)) =
      [.ok (some 642), .ok (some 363), .ok (some 4)] := by decide +kernel
  obtain ⟨hwidth, hheight, hmodulus⟩ : _ ∧ _ ∧ _ := by simpa [Flag.sides] using hsides
  have hwide : (Flag.positive? (Profile.resolve .empty twoOdd) .width) = .ok (some 640) := by
    decide +kernel
  have hodd : (Flag.positive? (Profile.resolve .empty twoOdd) .height).isOk = false := by
    decide +kernel
  obtain ⟨hscaled, -⟩ := dimensions_of_sides (p := Profile.resolve .empty threeSides)
    (by decide +kernel) (v := .float (.ofNat 642)) (by decide +kernel) .unknown
  obtain ⟨-, hrefused⟩ := dimensions_of_sides (p := Profile.resolve .empty twoOdd)
    (by decide +kernel) (v := .integer 640) (by decide +kernel) .unknown
  constructor
  · exact (hscaled _).2 ⟨642, some 363, some 4, ⟨640, 360⟩, none,
      Flag.positive?_eq_ok_iff.1 hwidth, Flag.positive?_eq_ok_iff.1 hheight,
      Flag.positive?_eq_ok_iff.1 hmodulus, by decide +kernel, by decide +kernel, by decide +kernel⟩
  · refine hrefused [.width] .height [.dimensionsModulus] rfl ?_ ?_
    · intro t ht
      obtain rfl := List.mem_singleton.1 ht
      exact ⟨_, Flag.positive?_eq_ok_iff.1 hwide⟩
    · intro side hside
      rw [Flag.positive?_eq_ok_iff.2 hside] at hodd
      cases hodd

end Transcode
