/-
  Transcode — steps that are not defined everywhere.

  Nothing is taken modulo zero or divided by it, no side is taken from a smaller one,
  and no chain has a name before its first.  Here whatever does any of these does it
  step by step, in the order in which the program goes, and comes to nothing at a step
  that is not defined; all else is done with operations that always are.

  * `roundDown?_eq_none_iff`, `follow?_eq_none_iff`: what keeps a step from being
    defined;
  * `FrameSize.scale?_eq`, `Registry.ofEntries?_eq`: what rounds sides looks at the
    modulus first, and what follows aliases starts at names with an entry;
  * `every_step_defined`: so all steps are defined, and come to what the program
    comes to.

  A product of more than 32 bits is an outcome, which the height is refused for.
-/
import Transcode.Encoder
import Transcode.Proofs.Outcome

namespace Transcode

/-- What a computation comes to, unless it takes a step that is not defined. -/
abbrev Stepwise (α : Type) := ExceptT CompileError Option α

namespace Stepwise

variable {α β : Type}

/-- A computation with no such steps. -/
def total (x : Except CompileError α) : Stepwise α :=
  ExceptT.mk (some x)

theorem total_bind {x : Except CompileError α} {f : α → Stepwise β}
    {g : α → Except CompileError β} (h : ∀ a, f a = total (g a)) :
    total x >>= f = total (x >>= g) := by
  cases x with
  | ok a => exact h a
  | error e => rfl

theorem lift_bind {x : Option α} {a : α} {f : α → Stepwise β} (h : x = some a) :
    (liftM x : Stepwise α) >>= f = f a := by
  rw [h]
  rfl

end Stepwise

open Stepwise

/-! ## Arithmetic -/

/-- What remains of a side; nothing does modulo zero. -/
def remainder? (a b : UInt32) : Option UInt32 :=
  if b = 0 then none else some (a % b)

/-- A side divided by another, unless that is zero. -/
def quotient? (a b : UInt32) : Option UInt32 :=
  if b = 0 then none else some (a / b)

/-- A side less another, unless that is greater. -/
def difference? (a b : UInt32) : Option UInt32 :=
  if a < b then none else some (a - b)

theorem mod_lt_of_remainder? {a b r : UInt32} (h : remainder? a b = some r) :
    r.toNat < b.toNat := by
  unfold remainder? at h
  split at h
  · cases h
  · next hb =>
    cases h
    rw [UInt32.toNat_mod]
    exact Nat.mod_lt _ (Nat.pos_of_ne_zero fun h0 => hb (UInt32.toNat_inj.1 h0))

/-- The greatest common divisor, by Euclid's algorithm. -/
def gcd? (a b : UInt32) : Option UInt32 :=
  if b = 0 then some a
  else match _h : remainder? a b with
    | none => none
    | some r => gcd? b r
  termination_by b.toNat
  decreasing_by exact mod_lt_of_remainder? _h

theorem gcd?_eq (a b : UInt32) : gcd? a b = some (FrameSize.gcd a b) := by
  fun_induction gcd? a b with
  | case1 a =>
    rw [Option.some_inj, ← UInt32.toNat_inj, FrameSize.toNat_gcd]
    exact (Nat.gcd_zero_right _).symm
  | case2 a b hb hnone => simp [remainder?, hb] at hnone
  | case3 a b hb r hr ih =>
    rw [ih, Option.some_inj, ← UInt32.toNat_inj, FrameSize.toNat_gcd, FrameSize.toNat_gcd]
    have hmod : r = a % b := by simpa [remainder?, hb, eq_comm] using hr
    rw [hmod, UInt32.toNat_mod, Nat.gcd_comm, ← Nat.gcd_rec, Nat.gcd_comm]

def roundDown? (value modulus : UInt32) : Option UInt32 := do
  difference? value (← remainder? value modulus)

theorem roundDown?_eq (value modulus : UInt32) :
    roundDown? value modulus = roundDown value modulus := by
  unfold roundDown? remainder? roundDown
  by_cases hm : modulus = 0
  · simp [hm]
  · have hle : ¬ value < value % modulus := by
      rw [UInt32.lt_iff_toNat_lt, UInt32.toNat_mod]
      exact Nat.not_lt.2 (Nat.mod_le _ _)
    simp [hm, difference?, hle]

theorem roundDown?_eq_none_iff {value modulus : UInt32} :
    roundDown? value modulus = none ↔ modulus = 0 := by
  rw [roundDown?_eq, roundDown]
  split <;> simp [*]

/-- A side times another, unless that has more than 32 bits. -/
def product? (a b : UInt32) : Option UInt32 :=
  if a.toNat * b.toNat < 4294967296 then some (a * b) else none

def roundNearest? (value : Binary64) (modulus : UInt32) : Option UInt32 :=
  let steps := ((value.div (.ofNat modulus.toNat)).round).max (.ofNat 1)
  if !steps.isFinite || (Binary64.ofNat 4294967295).lt steps then none
  else product? (UInt32.ofNat (steps.clamp 0 4294967295).toNat) modulus

theorem toNat_clamp_lt (x : Binary64) : (x.clamp 0 4294967295).toNat < 4294967296 := by
  unfold Binary64.clamp
  split
  · decide
  · split <;> decide
  · omega

theorem roundNearest?_eq (value : Binary64) (modulus : UInt32) :
    roundNearest? value modulus = roundNearest value modulus := by
  unfold roundNearest? roundNearest
  extract_lets steps n
  split
  · rfl
  · have hsteps : (UInt32.ofNat (steps.clamp 0 4294967295).toNat).toNat =
        (steps.clamp 0 4294967295).toNat := UInt32.toNat_ofNat_of_lt (toNat_clamp_lt steps)
    unfold product?
    rw [hsteps]
    split
    · rw [Option.some_inj, ← UInt32.toNat_inj, UInt32.toNat_mul, hsteps, UInt32.toNat_ofNat']
    · rfl

/-! ## Frame sizes -/

namespace FrameSize

def aspectRatio? (s : FrameSize) : Option String := do
  let d := max (← gcd? s.width s.height) 1
  let w ← quotient? s.width d
  let h ← quotient? s.height d
  return s!"{sideText w}:{sideText h}"

theorem aspectRatio?_eq (s : FrameSize) : s.aspectRatio? = some s.aspectRatio := by
  have hd : max (gcd s.width s.height) 1 ≠ 0 := by
    generalize gcd s.width s.height = d
    show (if d ≤ 1 then 1 else d) ≠ 0
    split
    · decide
    · rintro rfl
      contradiction
  simp [aspectRatio?, gcd?_eq, quotient?, hd, aspectRatio]

def scale? (width : UInt32) (height : Option UInt32) (source : Option FrameSize)
    (modulus : UInt32) : Stepwise FrameSize :=
  if modulus = 0 then throw (.setting .dimensionsModulus .zeroModulus)
  else do
    let w ← roundDown? width modulus
    if w = 0 then throw (.setting .width (.belowModulus modulus))
    else match height, source with
      | some h, _ => do
        let h ← roundDown? h modulus
        if h = 0 then throw (.setting .height (.belowModulus modulus)) else return ⟨w, h⟩
      | none, some src => match roundNearest? (exactHeight src w) modulus with
        | some h => return ⟨w, h⟩
        | none => throw (.setting .height (.derivedHeight src w))
      | none, none => throw (.setting .width .unknownSourceSize)

theorem scale?_eq (w : UInt32) (h : Option UInt32) (source : Option FrameSize) (m : UInt32) :
    scale? w h source m = total (scale w h source m) := by
  have hnearest : roundNearest? = roundNearest := by
    funext value m
    exact roundNearest?_eq value m
  unfold scale? scale
  rw [hnearest]
  -- Rounding is made opaque: no case is to be decided by computing it.
  obtain ⟨round, hround⟩ : ∃ f, f = roundNearest := ⟨_, rfl⟩
  rw [← hround]
  by_cases hm : m = 0
  · rw [if_pos hm, roundDown, if_pos hm]
    rfl
  · have hdown : ∀ value, roundDown value m = some (value - value % m) := fun _ => if_neg hm
    rw [if_neg hm, hdown, lift_bind ((roundDown?_eq w m).trans (hdown w))]
    generalize w - w % m = w
    dsimp only
    by_cases hw : w = 0
    · rw [if_pos hw, if_pos hw]
      rfl
    · rw [if_neg hw, if_neg hw]
      cases h with
      | some h =>
        dsimp only
        rw [hdown, lift_bind ((roundDown?_eq h m).trans (hdown h))]
        generalize h - h % m = h
        dsimp only
        by_cases hh : h = 0
        · rw [if_pos hh, if_pos hh]
          rfl
        · rw [if_neg hh, if_neg hh]
          rfl
      | none =>
        cases source with
        | none => rfl
        | some source =>
          dsimp only
          cases round (exactHeight source w) m with
          | none => rfl
          | some h => rfl

end FrameSize

namespace Flag

def dimensions? (v : Value) (s : Surroundings) : Stepwise (List String) :=
  if s.profile.isPassThrough then return []
  else do
    let width ← match v.asInteger with
      | some n => total (positive .width n)
      | none => throw (.wrongType .width .integer v)
    let height ← total (positive? s.profile .height)
    let modulus ← total (positive? s.profile .dimensionsModulus)
    let size ← FrameSize.scale? width height s.source.size
      (modulus.getD FrameSize.standardModulus)
    let aspect ← match ← total (s.profile.text .aspectRatio) with
      | some aspect => pure aspect
      | none => FrameSize.aspectRatio? size
    return ["-s", size.plain, "-aspect", aspect]

theorem dimensions?_eq (v : Value) (s : Surroundings) :
    dimensions? v s = total (dimensions v s) := by
  unfold dimensions? dimensions
  split
  · rfl
  · extract_lets rest? rest
    have hrest : ∀ w, rest? w = total (rest w) := by
      intro w
      refine total_bind fun height => total_bind fun modulus => ?_
      rw [FrameSize.scale?_eq]
      refine total_bind fun size => total_bind fun aspect => ?_
      cases aspect with
      | some aspect => rfl
      | none => exact lift_bind size.aspectRatio?_eq
    cases v.asInteger with
    | some n => exact total_bind hrest
    | none => rfl

end Flag

/-! ## From a request to a command -/

/-- Of all rules, only that of the width has steps which may be undefined. -/
def Rule.render? (r : Rule) (v : Value) (s : Surroundings) : Stepwise (List String) :=
  if r.setting = .width then Flag.dimensions? v s else total (r.render v s)

theorem Rule.render?_eq {r : Rule} (hr : r ∈ rules) (v : Value) (s : Surroundings) :
    r.render? v s = total (r.render v s) := by
  have hwidth : ∀ r ∈ rules, r.setting = .width → r.manner = .computed Flag.dimensions := by
    simp [rules]
  unfold render?
  split
  · next hs => rw [Flag.dimensions?_eq, render, hwidth r hr hs]
  · rfl

namespace FlagSet

def renderAll? (s : Surroundings) :
    List (Rule × Value) → Stepwise (List (FlagGroup × List String))
  | [] => return []
  | (r, v) :: rest => do
    let tokens ← r.render? v s
    return (r.group, tokens) :: (← renderAll? s rest)

theorem renderAll?_eq (s : Surroundings) {rvs : List (Rule × Value)}
    (h : ∀ rv ∈ rvs, rv.1 ∈ rules) : renderAll? s rvs = total (renderAll s rvs) := by
  induction rvs with
  | nil => rfl
  | cons rv rvs ih =>
    obtain ⟨hr, hrest⟩ := List.forall_mem_cons.1 h
    rw [renderAll?, renderAll, Rule.render?_eq hr, ih hrest]
    cases rv.1.render rv.2 s with
    | error e => rfl
    | ok tokens => cases renderAll s rvs <;> rfl

def ofProfile? (p : Profile) (source : Source) : Stepwise FlagSet :=
  ofParts <$> renderAll? ⟨p, source⟩ (applicable p)

theorem ofProfile?_eq (p : Profile) (source : Source) :
    ofProfile? p source = total (ofProfile p source) := by
  have hrules : ∀ rv ∈ applicable p, rv.1 ∈ rules := by
    intro rv hrv
    obtain ⟨r, hr, hv⟩ := List.mem_filterMap.1 hrv
    obtain ⟨v, -, rfl⟩ := Option.map_eq_some_iff.1 hv
    exact hr
  rw [ofProfile?, renderAll?_eq _ hrules, ofProfile]
  cases renderAll ⟨p, source⟩ (applicable p) <;> rfl

end FlagSet

namespace Encoder

def compile? (e : Encoder) (r : Request) : Stepwise Command := do
  let profile ← total (e.resolve r.preset r.overrides)
  let flags ← FlagSet.ofProfile? profile r.source
  let args ← total (e.recipe.assemble flags r.input r.output)
  return ⟨e.program, args, profile⟩

theorem compile?_eq (e : Encoder) (r : Request) : e.compile? r = total (e.compile r) := by
  refine total_bind fun profile => ?_
  rw [FlagSet.ofProfile?_eq]
  exact total_bind fun flags => total_bind fun args => rfl

end Encoder

/-! ## Chains of aliases -/

/-- The name before the last of a chain, by its place. -/
def beforeLast? (chain : List String) : Option String :=
  if chain.length < 2 then none else chain[chain.length - 2]?

theorem beforeLast?_append (chain : List String) (name target : String) :
    beforeLast? (chain ++ [name, target]) = some name := by
  simp [beforeLast?]

theorem unseen_append (t : NameTable PresetEntry) (chain : List String) (name : String) :
    unseen t (chain ++ [name]) = unseen t (name :: chain) := by
  simp [unseen, or_comm]

/-- Follow the aliases from the last name of a chain. -/
def follow? (t : NameTable PresetEntry) (chain : List String) (current : String) :
    Stepwise (String × Settings) :=
  match _hc : t.get? current with
  | some (.settings values) => return (current, values)
  | some (.aliasOf target) =>
    if _hs : target ∈ chain then throw (.aliasCycle (chain ++ [target]))
    else follow? t (chain ++ [target]) target
  | none => do
    let name ← beforeLast? chain
    throw (.danglingAlias name current)
  -- A target without an entry is no name to be seen, but ends the chain.
  termination_by (unseen t chain).length + (t.contains current).toNat
  decreasing_by
    have hcurrent : t.contains current = true := by simp [NameTable.contains, _hc]
    rw [unseen_append, hcurrent]
    cases ht : t.contains target with
    | true => exact Nat.add_lt_add_right (length_unseen_cons _hs (NameTable.mem_names_iff.2 ht)) _
    | false =>
      rw [unseen_cons]
      exact Nat.lt_succ_of_le (List.length_filter_le _ _)

section
variable {t : NameTable PresetEntry} {chain seen : List String} {current target : String}
  {values : Settings} {entry : PresetEntry}

theorem follow?_settings (h : t.get? current = some (.settings values)) :
    follow? t chain current = return (current, values) := by
  rw [follow?]
  split
  · next hs =>
    cases hs.symm.trans h
    rfl
  · next hs => cases hs.symm.trans h
  · next hs => cases hs.symm.trans h

theorem follow?_aliasOf (h : t.get? current = some (.aliasOf target)) :
    follow? t chain current =
      if target ∈ chain then throw (.aliasCycle (chain ++ [target]))
      else follow? t (chain ++ [target]) target := by
  rw [follow?]
  split
  · next hs => cases hs.symm.trans h
  · next hs =>
    cases hs.symm.trans h
    rfl
  · next hs => cases hs.symm.trans h

theorem follow?_missing (h : t.get? current = none) :
    follow? t chain current =
      liftM (beforeLast? chain) >>= fun name => throw (.danglingAlias name current) := by
  rw [follow?]
  split
  · next hs => cases hs.symm.trans h
  · next hs => cases hs.symm.trans h
  · rfl

/-- Where there is an entry to follow, the chain has two names before it can end at a
    name without one. -/
theorem follow?_eq (h : t.get? current = some entry) :
    follow? t (current :: seen).reverse current = total (chase t seen current entry) := by
  fun_induction chase t seen current entry with
  | case1 seen current values => exact follow?_settings h
  | case2 seen current target hs =>
    rw [follow?_aliasOf h, if_pos (List.mem_reverse.2 hs), ← List.reverse_cons]
    rfl
  | case3 seen current target hs hn =>
    rw [follow?_aliasOf h, if_neg (mt List.mem_reverse.1 hs), follow?_missing hn]
    refine lift_bind ?_
    rw [List.reverse_cons, List.append_assoc]
    exact beforeLast?_append _ _ _
  | case4 seen current target hs entry hn ih =>
    rw [follow?_aliasOf h, if_neg (mt List.mem_reverse.1 hs), ← List.reverse_cons]
    exact ih hn

theorem follow?_singleton {name : String} (h : t.get? name = some entry) :
    follow? t [name] name = total (chase t [] name entry) := by
  rw [← List.reverse_singleton, follow?_eq h]

theorem follow?_eq_none_iff {name : String} :
    (follow? t [name] name).run = none ↔ t.get? name = none := by
  cases h : t.get? name with
  | none =>
    rw [follow?_missing h]
    exact ⟨fun _ => rfl, fun _ => rfl⟩
  | some entry =>
    rw [follow?_singleton h]
    constructor <;> intro hnone <;> cases hnone

end

namespace Registry

/-- Follow the aliases from each of some names, and put what is at their ends in a
    table. -/
def resolveAll? (t : NameTable PresetEntry) :
    List String → NameTable Preset → Stepwise (NameTable Preset)
  | [], presets => return presets
  | name :: names, presets => do
    let (target, values) ← follow? t [name] name
    resolveAll? t names
      (presets.insert name ⟨name, if target = name then none else some target, values⟩)

def ofEntries? (rows : List (String × PresetEntry)) : Stepwise Registry :=
  let t := NameTable.ofList rows
  Registry.mk <$> resolveAll? t t.names .empty

theorem resolveAll?_eq {t : NameTable PresetEntry} {rows : List (String × PresetEntry)}
    (h : ∀ x ∈ rows, t.get? x.1 = some x.2) (presets : NameTable Preset) :
    resolveAll? t (rows.map Prod.fst) presets =
      total ((NameTable.mapRows (Preset.ofEntry t) rows).map presets.insertAll) := by
  induction rows generalizing presets with
  | nil => rfl
  | cons row rows ih =>
    obtain ⟨hrow, hrest⟩ := List.forall_mem_cons.1 h
    rw [List.map_cons, resolveAll?, NameTable.mapRows, follow?_singleton hrow, Preset.ofEntry]
    cases chase t [] row.1 row.2 with
    | error e => rfl
    | ok found =>
      obtain ⟨target, values⟩ := found
      refine (ih hrest _).trans ?_
      cases NameTable.mapRows (Preset.ofEntry t) rows <;> rfl

theorem ofEntries?_eq (rows : List (String × PresetEntry)) :
    ofEntries? rows = total (ofEntries rows) := by
  have hget : ∀ x ∈ (NameTable.ofList rows).entries,
      (NameTable.ofList rows).get? x.1 = some x.2 := by
    intro x hx
    exact (NameTable.find_eq_some_iff (NameTable.ofList rows).ordered).2 hx
  unfold ofEntries? ofEntries
  dsimp only
  rw [NameTable.names, resolveAll?_eq hget, NameTable.mapM_eq_map]
  cases NameTable.mapRows (Preset.ofEntry (NameTable.ofList rows)) (NameTable.ofList rows).entries <;>
    rfl

end Registry

/-- **No step is taken that is not defined**, whichever entries a registry is made of,
    and whatever the presets, the recipe and the program of an encoder, and the
    overrides and the source of a request. -/
theorem every_step_defined :
    (∀ rows, (Registry.ofEntries? rows).run = some (Registry.ofEntries rows)) ∧
    (Registry.ofEntries? Preset.builtin).run = some (.ok Registry.builtin) ∧
    ∀ (e : Encoder) (r : Request), (e.compile? r).run = some (e.compile r) := by
  refine ⟨Registry.ofEntries?_eq, ?_, Encoder.compile?_eq⟩
  rw [Registry.ofEntries?_eq, Registry.ofEntries_builtin]
  rfl

end Transcode
