/-
  Transcode — the digits of whole numbers.

  The digits of a number are those of its tenth part and one more.  From this follows
  what they are worth, that there is no zero in front, how many there are, and that ten
  times a number has one more zero behind.  Of a row of digits, zeros in front count for
  nothing, and zeros behind for powers of ten; so a row is the digits of its value behind
  zeros (`exists_zeros_append_digitsOf`).
-/
import Mathlib.Data.List.Induction
import Mathlib.Data.List.TakeDrop
import Mathlib.Data.List.TakeWhile
import Transcode.Binary64.Shortest

namespace Transcode

theorem digitsOf_of_lt {n : Nat} (h : n < 10) : digitsOf n = [Nat.digitChar n] :=
  Nat.toDigits_of_lt_base h

theorem digitsOf_of_le {n : Nat} (h : 10 ≤ n) :
    digitsOf n = digitsOf (n / 10) ++ [Nat.digitChar (n % 10)] :=
  Nat.toDigits_of_base_le (by decide) h

theorem digitsOf_ne_nil (n : Nat) : digitsOf n ≠ [] :=
  Nat.toDigits_ne_nil

/-- No zero is in front of other digits. -/
theorem head?_digitsOf {n : Nat} (hn : 0 < n) : (digitsOf n).head? ≠ some '0' := by
  induction n using Nat.strongRecOn with
  | ind n ih =>
    rcases Nat.lt_or_ge n 10 with h | h
    · have hall : ∀ m < 10, 0 < m → Nat.digitChar m ≠ '0' := by decide
      rw [digitsOf_of_lt h, List.head?_cons, Ne, Option.some.injEq]
      exact hall n h hn
    · obtain ⟨c, cs, hcons⟩ := List.exists_cons_of_ne_nil (digitsOf_ne_nil (n / 10))
      have hhead := ih (n / 10) (by omega) (by omega)
      rw [digitsOf_of_le h]
      rw [hcons] at hhead ⊢
      exact hhead

theorem valueOfDigits_append (cs : List Char) (c : Char) :
    valueOfDigits (cs ++ [c]) = 10 * valueOfDigits cs + digitValue c := by
  rw [valueOfDigits, List.foldl_append]
  rfl

/-- The digits of a number have its value. -/
theorem valueOfDigits_digitsOf (n : Nat) : valueOfDigits (digitsOf n) = n := by
  have hdigit : ∀ m < 10, digitValue (Nat.digitChar m) = m := by decide
  induction n using Nat.strongRecOn with
  | ind n ih =>
    rcases Nat.lt_or_ge n 10 with h | h
    · rw [digitsOf_of_lt h, ← List.nil_append [_], valueOfDigits_append, hdigit n h]
      exact Nat.zero_add n
    · rw [digitsOf_of_le h, valueOfDigits_append, ih (n / 10) (by omega), hdigit _ (by omega)]
      omega

theorem digitValue_lt {c : Char} (h : c.isDigit = true) : digitValue c < 10 := by
  have hhigh : c.toNat ≤ '9'.toNat := of_decide_eq_true (Bool.and_eq_true_iff.1 h).2
  have hnine : '9'.toNat = '0'.toNat + 9 := rfl
  unfold digitValue
  omega

theorem digitsOf_digitValue {c : Char} (h : c.isDigit = true) : digitsOf (digitValue c) = [c] := by
  have hlow : '0'.toNat ≤ c.toNat := of_decide_eq_true (Bool.and_eq_true_iff.1 h).1
  have hzero : '0'.toNat = 48 := rfl
  rw [digitsOf_of_lt (digitValue_lt h), List.singleton_inj, ← Char.toNat_inj,
    Nat.toNat_digitChar_of_lt_ten (digitValue_lt h), digitValue]
  omega

theorem digitsOf_append {n : Nat} (hn : 0 < n) {c : Char} (hc : c.isDigit = true) :
    digitsOf (10 * n + digitValue c) = digitsOf n ++ [c] := by
  rw [← digitsOf_digitValue hc]
  exact (Nat.toDigits_append_toDigits (by decide) hn (digitValue_lt hc)).symm

/-! ## Powers of ten -/

theorem tenTo_zero : tenTo 0 = 1 := rfl

theorem tenTo_succ (k : Nat) : tenTo (k + 1) = tenTo k * 10 := rfl

theorem tenTo_add (m n : Nat) : tenTo (m + n) = tenTo m * tenTo n :=
  Nat.pow_add 10 m n

theorem tenTo_lt_iff {m n : Nat} : tenTo m < tenTo n ↔ m < n :=
  Nat.pow_lt_pow_iff_right (by decide)

theorem digitCount_le_iff {n k : Nat} : digitCount n ≤ k ↔ n < tenTo k := by
  induction k generalizing n with
  | zero =>
    unfold digitCount
    split
    · simp_all [tenTo]
    · simp_all [tenTo]
  | succ k ih =>
    unfold digitCount
    split
    · next hn =>
      have := tenTo_pos (k + 1)
      omega
    · rw [Nat.add_le_add_iff_right, ih, Nat.div_lt_iff_lt_mul (by decide), tenTo_succ]

theorem lt_tenTo_digitCount (n : Nat) : n < tenTo (digitCount n) :=
  digitCount_le_iff.1 (Nat.le_refl _)

theorem tenTo_le_of_lt_digitCount {n k : Nat} (h : k < digitCount n) : tenTo k ≤ n :=
  Nat.le_of_not_lt fun hlt => Nat.not_le_of_lt h (digitCount_le_iff.2 hlt)

theorem digitCount_pos {n : Nat} (hn : 0 < n) : 0 < digitCount n := by
  rw [digitCount, if_neg hn.ne']
  exact Nat.succ_pos _

theorem length_digitsOf {n : Nat} (hn : 0 < n) : (digitsOf n).length = digitCount n := by
  induction n using Nat.strongRecOn with
  | ind n ih =>
    rw [digitCount, if_neg hn.ne']
    rcases Nat.lt_or_ge n 10 with h | h
    · rw [digitsOf_of_lt h, Nat.div_eq_of_lt h, digitCount, if_pos rfl]
      rfl
    · rw [digitsOf_of_le h, List.length_append, ih (n / 10) (by omega) (by omega)]
      rfl

theorem digitsOf_mul_ten {n : Nat} (hn : 0 < n) : digitsOf (n * 10) = digitsOf n ++ ['0'] := by
  rw [Nat.mul_comm]
  exact digitsOf_append hn (c := '0') (by decide)

theorem digitsOf_mul_tenTo {n : Nat} (hn : 0 < n) (e : Nat) :
    digitsOf (n * tenTo e) = digitsOf n ++ zeros e := by
  induction e with
  | zero => simp [tenTo, zeros]
  | succ e ih =>
    rw [tenTo_succ, ← Nat.mul_assoc, digitsOf_mul_ten (Nat.mul_pos hn (tenTo_pos e)), ih,
      List.append_assoc, zeros, zeros, List.replicate_succ']

/-! ## Rows of digits -/

theorem valueOfDigits_append_zeros (cs : List Char) (j : Nat) :
    valueOfDigits (cs ++ zeros j) = valueOfDigits cs * tenTo j := by
  induction j with
  | zero =>
    show valueOfDigits (cs ++ []) = valueOfDigits cs * 1
    rw [List.append_nil, Nat.mul_one]
  | succ j ih =>
    have hzeros : zeros (j + 1) = zeros j ++ ['0'] := List.replicate_succ'
    rw [hzeros, ← List.append_assoc, valueOfDigits_append, ih, tenTo_succ, Nat.mul_comm 10,
      Nat.mul_assoc]
    rfl

theorem valueOfDigits_dropWhile_zero (cs : List Char) :
    valueOfDigits (cs.dropWhile (· == '0')) = valueOfDigits cs := by
  induction cs with
  | nil => rfl
  | cons c cs ih =>
    by_cases hc : c = '0'
    · subst hc
      exact ih
    · rw [List.dropWhile_cons_of_neg (by simpa using hc)]

theorem dropWhile_zeros_append {cs : List Char} (hhead : ∀ c ∈ cs.head?, c ≠ '0') (j : Nat) :
    (zeros j ++ cs).dropWhile (· == '0') = cs := by
  have hzeros : ∀ c ∈ zeros j, (c == '0') = true := by
    intro c hc
    rw [List.eq_of_mem_replicate hc]
    rfl
  rw [List.dropWhile_append_of_pos hzeros]
  cases cs with
  | nil => rfl
  | cons c cs => exact List.dropWhile_cons_of_neg (by simpa using hhead c rfl)

theorem digitValue_pos {c : Char} (hdigit : isDigit c = true) (hne : c ≠ '0') :
    0 < digitValue c := by
  have hlow : '0'.toNat ≤ c.toNat := of_decide_eq_true (Bool.and_eq_true_iff.1 hdigit).1
  have hne : c.toNat ≠ '0'.toNat := fun h => hne (Char.toNat_inj.1 h)
  unfold digitValue
  omega

/-- Digits with no zero in front are worth at least the power of ten of the first. -/
theorem tenTo_le_valueOfDigits {c : Char} (hc : 0 < digitValue c) (cs : List Char) :
    tenTo cs.length ≤ valueOfDigits (c :: cs) := by
  induction cs using List.reverseRecOn with
  | nil =>
    show 1 ≤ 10 * 0 + digitValue c
    omega
  | append_singleton cs d ih =>
    rw [← List.cons_append, valueOfDigits_append, List.length_append, List.length_singleton,
      tenTo_succ]
    omega

/-- A value below a power of ten has no more digits, but for zeros in front. -/
theorem length_dropWhile_zero_le {cs : List Char} {k : Nat} (hcs : ∀ c ∈ cs, c.isDigit = true)
    (h : valueOfDigits cs < tenTo k) : (cs.dropWhile (· == '0')).length ≤ k := by
  rw [← valueOfDigits_dropWhile_zero] at h
  have hhead := List.head?_dropWhile_not (· == '0') cs
  have hmem := (List.dropWhile_sublist (l := cs) (· == '0')).subset
  cases hrest : cs.dropWhile (· == '0') with
  | nil => exact Nat.zero_le k
  | cons c r =>
    rw [hrest] at h hhead hmem
    have hne : c ≠ '0' := by simpa using hhead
    have hpos := digitValue_pos (hcs c (hmem List.mem_cons_self)) hne
    exact tenTo_lt_iff.1 ((tenTo_le_valueOfDigits hpos r).trans_lt h)

theorem valueOfDigits_zeros_append (j : Nat) (cs : List Char) :
    valueOfDigits (zeros j ++ cs) = valueOfDigits cs := by
  induction j with
  | zero => rfl
  | succ j ih => exact ih

/-- **A row of digits is that of its value**, but for zeros in front. -/
theorem exists_zeros_append_digitsOf {cs : List Char} (hne : cs ≠ [])
    (hcs : ∀ c ∈ cs, c.isDigit = true) : ∃ j, cs = zeros j ++ digitsOf (valueOfDigits cs) := by
  induction cs using List.reverseRecOn with
  | nil => exact absurd rfl hne
  | append_singleton cs c ih =>
    obtain ⟨hcs, hc⟩ := List.forall_mem_append.1 hcs
    replace hc : c.isDigit = true := hc c List.mem_cons_self
    rw [valueOfDigits_append]
    by_cases hfirst : cs = []
    · refine ⟨0, ?_⟩
      rw [hfirst]
      show [c] = digitsOf (10 * 0 + digitValue c)
      rw [Nat.mul_zero, Nat.zero_add, digitsOf_digitValue hc]
    · obtain ⟨j, hj⟩ := ih hfirst hcs
      rcases Nat.eq_zero_or_pos (valueOfDigits cs) with hzero | hpos
      · -- all in front of the last digit are zeros
        refine ⟨j + 1, ?_⟩
        have hzeros : cs = zeros (j + 1) := by
          rw [hj, hzero]
          exact List.replicate_succ'.symm
        rw [hzero, Nat.mul_zero, Nat.zero_add, digitsOf_digitValue hc, ← hzeros]
      · refine ⟨j, ?_⟩
        rw [digitsOf_append hpos hc, ← List.append_assoc, ← hj]

/-- A row of digits is read up to where it ends. -/
theorem span_isDigit_append {cs r : List Char} (hcs : ∀ c ∈ cs, c.isDigit = true)
    (hr : ∀ c ∈ r.head?, isDigit c = false) : (cs ++ r).span isDigit = (cs, r) := by
  have hdigits : ∀ c ∈ cs, isDigit c = true := hcs
  rw [List.span_eq_takeWhile_dropWhile, List.takeWhile_append_of_pos hdigits,
    List.dropWhile_append_of_pos hdigits]
  cases r with
  | nil => simp
  | cons c r =>
    have hc : isDigit c = false := hr c rfl
    simp [hc]

end Transcode
