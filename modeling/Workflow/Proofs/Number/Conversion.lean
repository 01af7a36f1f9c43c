import Mathlib.Tactic.Ring
import Workflow.Number.Single

/-! Exact conversion. A number of single precision is one of double precision too, and it is the nearest
single to that double. -/
namespace Workflow.Number

namespace Format

variable (format : Format)

/-- A rank is its significand in the place of its exponent. -/
theorem exponent_add_significand (rank : Nat) :
    format.exponent rank * Nat.pow 2 format.fraction + format.significand rank = rank := by
  unfold exponent significand
  split
  · omega
  · next large =>
    have two : Nat.pow 2 (format.fraction + 1) = 2 * Nat.pow 2 format.fraction := Nat.pow_succ'
    have positive : 0 < Nat.pow 2 format.fraction := Nat.two_pow_pos _
    have whole := Nat.div_add_mod rank (Nat.pow 2 format.fraction)
    have least : 1 ≤ rank / Nat.pow 2 format.fraction := by
      rw [Nat.le_div_iff_mul_le positive]
      omega
    obtain ⟨binade, eq⟩ := Nat.exists_eq_add_of_le' least
    rw [eq] at whole ⊢
    rw [Nat.add_sub_cancel]
    calc binade * Nat.pow 2 format.fraction +
          (Nat.pow 2 format.fraction + rank % Nat.pow 2 format.fraction)
        = Nat.pow 2 format.fraction * (binade + 1) + rank % Nat.pow 2 format.fraction := by ring
      _ = rank := whole

theorem significand_lt (rank : Nat) : format.significand rank < Nat.pow 2 (format.fraction + 1) := by
  unfold significand
  split
  · assumption
  · have two : Nat.pow 2 (format.fraction + 1) = 2 * Nat.pow 2 format.fraction := Nat.pow_succ'
    have rest := Nat.mod_lt rank (Nat.two_pow_pos format.fraction)
    change rank % Nat.pow 2 format.fraction < Nat.pow 2 format.fraction at rest
    omega

theorem le_significand {rank : Nat} (large : ¬ rank < Nat.pow 2 (format.fraction + 1)) :
    Nat.pow 2 format.fraction ≤ format.significand rank := by
  rw [significand, if_neg large]
  exact Nat.le_add_right _ _

theorem units_of_lt {rank : Nat} (small : rank < Nat.pow 2 (format.fraction + 1)) :
    format.units rank = rank := by
  rw [units, significand, exponent, if_pos small, if_pos small]
  exact Nat.mul_one rank

/-- The exponent is the one that leaves as many bits as a significand has. -/
theorem log2_units (rank : Nat) :
    (format.units rank).log2 - format.fraction = format.exponent rank := by
  by_cases small : rank < Nat.pow 2 (format.fraction + 1)
  · have none : format.exponent rank = 0 := if_pos small
    rw [format.units_of_lt small, none]
    by_cases zero : rank = 0
    · subst zero
      exact Nat.zero_sub _
    · have short := (Nat.log2_lt zero).2 small
      omega
  · have least := format.le_significand small
    have below := format.significand_lt rank
    have bits : (format.units rank).log2 = format.fraction + format.exponent rank := by
      simp only [Nat.pow_eq] at least below
      have positive := Nat.two_pow_pos (format.exponent rank)
      have some : format.units rank ≠ 0 :=
        Nat.mul_ne_zero (by have := Nat.two_pow_pos format.fraction; omega) (Nat.ne_of_gt positive)
      refine (Nat.log2_eq_iff some).2 ⟨?_, ?_⟩
      · rw [Nat.pow_add]
        exact Nat.mul_le_mul_right _ least
      · rw [Nat.add_right_comm, Nat.pow_add]
        exact Nat.mul_lt_mul_of_pos_right below positive
    omega

/-- What is a number of the format is its own nearest number. -/
theorem rankOf_units {rank numerator denominator : Nat} (positive : 0 < denominator)
    (exact : numerator * Nat.pow 2 format.scale = format.units rank * denominator) :
    format.rankOf numerator denominator = rank := by
  have quotient : numerator * Nat.pow 2 format.scale / denominator = format.units rank := by
    rw [exact, Nat.mul_div_cancel _ positive]
  have split : format.units rank * denominator =
      format.significand rank * (denominator * Nat.pow 2 (format.exponent rank)) := by
    rw [units]
    ring
  have some : 0 < denominator * Nat.pow 2 (format.exponent rank) :=
    Nat.mul_pos positive (Nat.two_pow_pos _)
  unfold rankOf
  simp only [quotient, log2_units]
  rw [exact, split, divideRounding_self_mul _ _ some]
  exact format.exponent_add_significand rank

/-- Every number with a full significand has a rank. -/
theorem units_of_significand {significand exponent : Nat}
    (least : Nat.pow 2 format.fraction ≤ significand)
    (below : significand < Nat.pow 2 (format.fraction + 1)) :
    format.units (exponent * Nat.pow 2 format.fraction + significand) =
      significand * Nat.pow 2 exponent := by
  have two : Nat.pow 2 (format.fraction + 1) = 2 * Nat.pow 2 format.fraction := Nat.pow_succ'
  cases exponent with
  | zero =>
    rw [Nat.zero_mul, Nat.zero_add, format.units_of_lt below]
    exact (Nat.mul_one significand).symm
  | succ binade =>
    obtain ⟨low, rfl⟩ := Nat.exists_eq_add_of_le least
    have rest : low < Nat.pow 2 format.fraction := by omega
    have positive : 0 < Nat.pow 2 format.fraction := Nat.two_pow_pos _
    have rank : (binade + 1) * Nat.pow 2 format.fraction + (Nat.pow 2 format.fraction + low) =
        Nat.pow 2 format.fraction * (binade + 2) + low := by ring
    have large : ¬ Nat.pow 2 format.fraction * (binade + 2) + low < Nat.pow 2 (format.fraction + 1) := by
      have enough : Nat.pow 2 format.fraction * 2 ≤ Nat.pow 2 format.fraction * (binade + 2) :=
        Nat.mul_le_mul_left _ (by omega)
      omega
    have quotient : (Nat.pow 2 format.fraction * (binade + 2) + low) / Nat.pow 2 format.fraction =
        binade + 2 := by
      rw [Nat.mul_add_div positive, Nat.div_eq_of_lt rest, Nat.add_zero]
    have remainder : (Nat.pow 2 format.fraction * (binade + 2) + low) % Nat.pow 2 format.fraction =
        low := by
      rw [Nat.mul_add_mod, Nat.mod_eq_of_lt rest]
    rw [rank, units, Format.significand, Format.exponent, if_neg large, if_neg large, quotient,
      remainder]
    rfl

/-- A value that has ranks in two formats is converted from one rank to the other. -/
theorem rankOf_of_units_eq {source target : Format} {shift rank other : Nat}
    (scales : target.scale = shift + source.scale)
    (same : target.units other = source.units rank * Nat.pow 2 shift) :
    target.rankOf (source.units rank) (Nat.pow 2 source.scale) = other ∧
      source.rankOf (target.units other) (Nat.pow 2 target.scale) = rank := by
  have power : Nat.pow 2 target.scale = Nat.pow 2 shift * Nat.pow 2 source.scale := by
    rw [scales]
    exact Nat.pow_add 2 shift source.scale
  constructor
  · refine target.rankOf_units (Nat.two_pow_pos _) ?_
    rw [same, power, Nat.mul_assoc]
  · refine source.rankOf_units (Nat.two_pow_pos _) ?_
    rw [same, power, Nat.mul_assoc]

end Format

theorem Binary.ofRatio?_of_rankOf {format : Format} {negative : Bool}
    {numerator denominator rank : Nat} (nearest : format.rankOf numerator denominator = rank)
    (finite : rank < format.limit) :
    ofRatio? format negative numerator denominator = some ⟨negative, rank, finite⟩ := by
  subst nearest
  exact dif_pos finite

/-- A significand is moved up to a width by the power of two that it lacks. -/
theorem mul_two_pow_of_log2 {significand up width : Nat} (nonzero : significand ≠ 0)
    (lacks : significand.log2 + up = width) :
    Nat.pow 2 width ≤ significand * Nat.pow 2 up ∧
      significand * Nat.pow 2 up < Nat.pow 2 (width + 1) := by
  constructor
  · have leading : 2 ^ significand.log2 ≤ significand := Nat.log2_self_le nonzero
    calc Nat.pow 2 width = 2 ^ significand.log2 * 2 ^ up := by
          rw [← Nat.pow_add, lacks]
          rfl
      _ ≤ significand * 2 ^ up := Nat.mul_le_mul_right _ leading
  · have leading : significand < 2 ^ (significand.log2 + 1) := Nat.lt_log2_self
    calc significand * 2 ^ up < 2 ^ (significand.log2 + 1) * 2 ^ up :=
          Nat.mul_lt_mul_of_pos_right leading (Nat.two_pow_pos up)
      _ = Nat.pow 2 (width + 1) := by
          rw [← Nat.pow_add, Nat.add_right_comm, lacks]
          rfl

/-- What has few digits and no extreme exponent is the value of a rank among the doubles. -/
theorem exists_rank_double {significand exponent : Nat} (few : significand.log2 ≤ 52)
    (low : 52 ≤ exponent + significand.log2) (high : exponent + significand.log2 ≤ 1201) :
    ∃ wide < Format.double.limit, Format.double.units wide = significand * Nat.pow 2 exponent := by
  by_cases zero : significand = 0
  · subst zero
    exact ⟨0, by decide, by rw [Format.units_of_lt _ (by decide), Nat.zero_mul]⟩
  obtain ⟨up, width⟩ : ∃ up, significand.log2 + up = 52 := ⟨52 - significand.log2, by omega⟩
  obtain ⟨binade, place⟩ : ∃ binade, up + binade = exponent := ⟨exponent - up, by omega⟩
  obtain ⟨least, below⟩ := mul_two_pow_of_log2 zero width
  refine ⟨binade * Nat.pow 2 52 + significand * Nat.pow 2 up, ?_, ?_⟩
  · have highest : binade * Nat.pow 2 52 ≤ 1149 * Nat.pow 2 52 :=
      Nat.mul_le_mul_right _ (by omega)
    have limit : Format.double.limit = 2047 * Nat.pow 2 52 := rfl
    have two : Nat.pow 2 (52 + 1) = 2 * Nat.pow 2 52 := rfl
    omega
  · have value : Format.double.units (binade * Nat.pow 2 52 + significand * Nat.pow 2 up) =
        significand * Nat.pow 2 up * Nat.pow 2 binade :=
      Format.double.units_of_significand least below
    rw [value]
    calc significand * 2 ^ up * 2 ^ binade = significand * 2 ^ exponent := by
          rw [Nat.mul_assoc, ← Nat.pow_add, place]

theorem Format.exponent_single_le {rank : Nat} (finite : rank < Format.single.limit) :
    Format.single.exponent rank ≤ 253 := by
  unfold Format.exponent
  split
  · exact Nat.zero_le _
  · have binade : rank / Nat.pow 2 23 < 255 := Nat.div_lt_of_lt_mul (by rwa [Nat.mul_comm])
    change rank / Nat.pow 2 23 - 1 ≤ 253
    omega

/-- Every single is a double: the same value has a rank among the doubles. -/
theorem exists_double {rank : Nat} (finite : rank < Format.single.limit) :
    ∃ shift, Format.double.scale = shift + Format.single.scale ∧
      ∃ wide < Format.double.limit,
        Format.double.units wide = Format.single.units rank * Nat.pow 2 shift := by
  have small : Format.single.significand rank < Nat.pow 2 24 := Format.single.significand_lt rank
  have low : Format.single.exponent rank ≤ 253 := Format.exponent_single_le finite
  -- The powers of two stay behind variables: written out they are large numbers.
  obtain ⟨shift, wide⟩ : ∃ shift, shift = 925 := ⟨925, rfl⟩
  refine ⟨shift, by rw [wide]; rfl, ?_⟩
  rw [Format.units.eq_1 .single]
  generalize Format.single.significand rank = significand at small ⊢
  generalize Format.single.exponent rank = exponent at low ⊢
  have few : significand.log2 ≤ 23 := by
    by_cases zero : significand = 0
    · subst zero
      decide
    · have bits : significand.log2 < 24 := (Nat.log2_lt zero).2 small
      omega
  have least : 52 ≤ exponent + shift + significand.log2 := by omega
  have most : exponent + shift + significand.log2 ≤ 1201 := by omega
  obtain ⟨rank, below, value⟩ := exists_rank_double (by omega) least most
  refine ⟨rank, below, value.trans ?_⟩
  calc significand * 2 ^ (exponent + shift) = significand * 2 ^ exponent * 2 ^ shift := by
        rw [Nat.pow_add, Nat.mul_assoc]

namespace Single

-- The equation is one of functions: on arguments the comparison of a rank with the limit would be
-- unfolded, which is a large number.
theorem ofRatio_eq : ofRatio = fun negative numerator denominator =>
    match Binary.ofRatio? .single negative numerator denominator with
    | some value => .finite value
    | none => .infinite negative := by
  delta ofRatio
  exact Eq.refl _

theorem ofRatio_of_ofRatio? {negative : Bool} {numerator denominator : Nat} {x : Binary .single}
    (nearest : Binary.ofRatio? .single negative numerator denominator = some x) :
    ofRatio negative numerator denominator = .finite x := by
  rw [ofRatio_eq]
  dsimp only
  generalize Binary.ofRatio? .single negative numerator denominator = found at nearest ⊢
  subst nearest
  rfl

/-- A finite single becomes the double of the same value, and that becomes the single again. -/
theorem ofDouble_toDouble? (x : Binary .single) :
    ∃ wide, (Single.finite x).toDouble? = some wide ∧ Single.ofDouble wide = .finite x := by
  obtain ⟨shift, scales, wide, finite, same⟩ := exists_double x.rank_lt
  obtain ⟨forth, back⟩ := Format.rankOf_of_units_eq scales same
  have converted : x.convert? .double = some ⟨x.negative, wide, finite⟩ := by
    rw [Binary.convert?]
    exact Binary.ofRatio?_of_rankOf forth finite
  refine ⟨⟨x.negative, wide, finite⟩, converted, ?_⟩
  have nearest : Binary.ofRatio? .single x.negative (Format.double.units wide)
      (Nat.pow 2 Format.double.scale) = some x := Binary.ofRatio?_of_rankOf back x.rank_lt
  exact ofRatio_of_ofRatio? nearest

end Single

end Workflow.Number
