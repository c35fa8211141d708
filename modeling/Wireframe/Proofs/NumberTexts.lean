import Wireframe.Proofs.CellRoundTrip
import Wireframe.Proofs.LayoutApart

/-! The numbers of a drawing as they are printed. The hundredth nearest to a value is one integer
(`IsNearest`), which never decreases as the value grows, and the printed text has one form for each of
them, from which it can be read back: `reading` knows nothing of how the text was made
(`text_canonical`). -/

namespace Wireframe

/-- The integer is nearest to the number, and it is the even one of two that are equally near. -/
structure IsNearest (q : ℚ) (n : ℤ) : Prop where
  near : |q - n| ≤ 1 / 2
  even : |q - n| = 1 / 2 → Even n

namespace IsNearest

variable {q q' : ℚ} {m n : ℤ}

theorem le_of_le (h : IsNearest q m) (h' : IsNearest q' n) (hle : q ≤ q') : m ≤ n := by
  by_contra hlt
  have hnext : ((n : ℚ) + 1) ≤ m := by exact_mod_cast Int.add_one_le_iff.mpr (not_le.mp hlt)
  have hlow := (abs_le.mp h.near).1
  have hhigh := (abs_le.mp h'.near).2
  -- both are at the middle of two neighbours, which are not both even
  have hm : q - m = -(1 / 2) := by linarith
  have hn : q' - n = 1 / 2 := by linarith
  have hsucc : m = n + 1 := by
    have hcast : (m : ℚ) = ((n + 1 : ℤ) : ℚ) := by push_cast; linarith
    exact_mod_cast hcast
  have heven := h.even (by rw [hm, abs_neg, abs_of_pos (by norm_num)])
  have heven' := h'.even (by rw [hn, abs_of_pos (by norm_num)])
  rw [hsucc, Int.even_add_one] at heven
  exact heven heven'

theorem unique (h : IsNearest q m) (h' : IsNearest q n) : m = n :=
  le_antisymm (h.le_of_le h' le_rfl) (h'.le_of_le h le_rfl)

theorem neg (h : IsNearest q n) : IsNearest (-q) (-n) := by
  have habs : |-q - ((-n : ℤ) : ℚ)| = |q - n| := by
    rw [Int.cast_neg, sub_neg_eq_add, neg_add_eq_sub, abs_sub_comm]
  refine ⟨habs ▸ h.near, fun htie => ?_⟩
  exact (h.even (habs ▸ htie)).neg

end IsNearest

/-- Where the quotient is half-way between two naturals, the even one is taken. -/
theorem even_roundDiv {n d : Nat} (hd : 0 < d)
    (h : 2 * n = 2 * (roundDiv n d * d) + d ∨ 2 * (roundDiv n d * d) = 2 * n + d) :
    Even (roundDiv n d) := by
  have hdiv := Nat.div_add_mod' n d
  have hmod := Nat.mod_lt n hd
  unfold roundDiv at h ⊢
  dsimp only at h ⊢
  split at h <;> rename_i hlow
  · omega
  · rw [if_neg hlow]
    split at h <;> rename_i htie
    · rw [if_pos htie, Nat.even_iff]
      omega
    · rw [Nat.add_mul, Nat.one_mul] at h
      omega

theorem isNearest_roundDiv {n d : Nat} (hd : 0 < d) : IsNearest ((n : ℚ) / d) (roundDiv n d) := by
  have hpos : (0 : ℚ) < d := Nat.cast_pos.mpr hd
  have hquotient : (n : ℚ) / d - (roundDiv n d : ℤ) = (n - roundDiv n d * d) / d := by
    rw [sub_div, mul_div_cancel_right₀ _ hpos.ne', Int.cast_natCast]
  have habs : |(n : ℚ) / d - (roundDiv n d : ℤ)| = |(n : ℚ) - roundDiv n d * d| / d := by
    rw [hquotient, abs_div, abs_of_pos hpos]
  constructor
  · obtain ⟨hhigh, hlow⟩ := roundDiv_near (n := n) hd
    have hhigh' : (2 * n : ℚ) ≤ 2 * (roundDiv n d * d) + d := by exact_mod_cast hhigh
    have hlow' : (2 * (roundDiv n d * d) : ℚ) ≤ 2 * n + d := by exact_mod_cast hlow
    rw [habs, div_le_iff₀ hpos, abs_le]
    constructor <;> linarith
  · intro htie
    rw [habs, div_eq_iff hpos.ne', abs_eq (by linarith)] at htie
    refine (Int.even_coe_nat _).mpr (even_roundDiv hd ?_)
    rcases htie with hover | hunder
    · left
      have hcast : (2 * n : ℚ) = 2 * (roundDiv n d * d) + d := by linarith
      exact_mod_cast hcast
    · right
      have hcast : (2 * (roundDiv n d * d) : ℚ) = 2 * n + d := by linarith
      exact_mod_cast hcast

namespace Hundredths

/-- The digits of a whole number, no zero in front of others. -/
structure IsWhole (ds : List Char) : Prop where
  digits : ∀ d ∈ ds, d.isDigit = true
  ne_nil : ds ≠ []
  head : ds.head? = some '0' → ds = ['0']

/-- The digits behind a point: one or two, of which the last is not zero. -/
structure IsFraction (ds : List Char) : Prop where
  digits : ∀ d ∈ ds, d.isDigit = true
  ne_nil : ds ≠ []
  length_le : ds.length ≤ 2
  last : ds.getLast? ≠ some '0'

/-- A number without a sign. -/
inductive IsUnsigned : List Char → Prop
  | whole {ds : List Char} (h : IsWhole ds) : IsUnsigned ds
  | decimal {ds fs : List Char} (h : IsWhole ds) (h' : IsFraction fs) : IsUnsigned (ds ++ '.' :: fs)

/-- What is read off a number without a sign: the digits before the first point, and those behind it as
a fraction. -/
def magnitude (cs : List Char) : ℚ :=
  let whole := cs.takeWhile (· ≠ '.')
  let fraction := (cs.dropWhile (· ≠ '.')).drop 1
  Numeral.value whole + Numeral.value fraction / 10 ^ fraction.length

/-- What is read off a number. -/
def reading : List Char → ℚ
  | '-' :: cs => -magnitude cs
  | cs => magnitude cs

/-- A number with a sign where it is below zero. -/
inductive IsNumber : List Char → Prop
  | unsigned {cs : List Char} (h : IsUnsigned cs) : IsNumber cs
  | negative {cs : List Char} (h : IsUnsigned cs) (hpos : 0 < magnitude cs) : IsNumber ('-' :: cs)

variable {ds fs cs : List Char} {a b x : Float} {n : Nat}

theorem ne_point_of_isDigit {d : Char} (h : d.isDigit = true) : decide (d ≠ '.') = true := by
  rw [decide_eq_true_eq]
  rintro rfl
  cases h

theorem magnitude_whole (h : ∀ d ∈ ds, d.isDigit = true) : magnitude ds = Numeral.value ds := by
  have hall : ∀ d ∈ ds, decide (d ≠ '.') = true := fun d hd => ne_point_of_isDigit (h d hd)
  rw [magnitude, List.takeWhile_eq_self_iff.mpr hall, List.dropWhile_eq_nil_iff.mpr hall, List.drop_nil,
    Numeral.value_nil, Nat.cast_zero, zero_div, add_zero]

theorem magnitude_decimal (h : ∀ d ∈ ds, d.isDigit = true) :
    magnitude (ds ++ '.' :: fs) = Numeral.value ds + Numeral.value fs / 10 ^ fs.length := by
  have hall : ∀ d ∈ ds, decide (d ≠ '.') = true := fun d hd => ne_point_of_isDigit (h d hd)
  rw [magnitude, List.takeWhile_append_of_pos hall, List.dropWhile_append_of_pos hall]
  rw [List.takeWhile_cons_of_neg (by decide), List.dropWhile_cons_of_neg (by decide), List.append_nil]
  rfl

theorem isWhole_toDigits (n : Nat) : IsWhole (Nat.toDigits 10 n) where
  digits _ := Numeral.isDigit_of_mem_toDigits
  ne_nil := Nat.toDigits_ne_nil
  head hzero := by
    rcases Nat.eq_zero_or_pos n with rfl | hpos
    · rfl
    · exact absurd hzero (Numeral.head?_toDigits_ne_zero hpos)

/-- The decimals of a number of hundredths: none, one or two. -/
theorem toList_decimals (n : Nat) :
    (decimals n).toList = [] ∧ n % 100 = 0 ∨
      (decimals n).toList = ['.', (n / 10 % 10).digitChar] ∧ n % 10 = 0 ∧ n % 100 ≠ 0 ∨
      (decimals n).toList = ['.', (n / 10 % 10).digitChar, (n % 10).digitChar] ∧ n % 10 ≠ 0 := by
  have hone : ∀ k, (toString (k % 10)).toList = [(k % 10).digitChar] := fun k => by
    rw [Numeral.toList_toString, Nat.toDigits_of_lt_base (Nat.mod_lt k (by decide))]
  unfold decimals
  by_cases hwhole : n % 100 = 0
  · rw [if_pos hwhole]
    exact .inl ⟨rfl, hwhole⟩
  · rw [if_neg hwhole]
    by_cases htenth : n % 10 = 0
    · rw [if_pos htenth]
      refine .inr (.inl ⟨?_, htenth, hwhole⟩)
      simp only [String.toList_append, hone]
      rfl
    · rw [if_neg htenth]
      refine .inr (.inr ⟨?_, htenth⟩)
      simp only [String.toList_append, hone]
      rfl

theorem toList_ofNat (n : Nat) : (ofNat n).toList = Nat.toDigits 10 (n / 100) ++ (decimals n).toList := by
  have hwhole : (s!"{n / 100}").toList = Nat.toDigits 10 (n / 100) := by
    rw [← Numeral.toList_toString]
  rw [ofNat, String.toList_append, hwhole]

theorem isDigit_digitChar (k : Nat) : (k % 10).digitChar.isDigit = true := by
  have hall : ∀ d < 10, d.digitChar.isDigit = true := by decide
  exact hall _ (Nat.mod_lt k (by decide))

theorem isFraction_append (hds : ∀ d ∈ ds, d.isDigit = true) (hlength : ds.length ≤ 1) (h : n % 10 ≠ 0) :
    IsFraction (ds ++ [(n % 10).digitChar]) where
  digits := by
    rw [List.forall_mem_append, List.forall_mem_singleton]
    exact ⟨hds, isDigit_digitChar n⟩
  ne_nil := List.append_ne_nil_of_right_ne_nil _ (List.cons_ne_nil _ _)
  length_le := by
    rw [List.length_append, List.length_singleton]
    omega
  last := by
    have hall : ∀ d < 10, d ≠ 0 → d.digitChar ≠ '0' := by decide
    rw [List.getLast?_concat, ne_eq, Option.some.injEq]
    exact hall _ (Nat.mod_lt n (by decide)) h

theorem value_append_digitChar (ds : List Char) (k : Nat) :
    Numeral.value (ds ++ [(k % 10).digitChar]) = 10 * Numeral.value ds + k % 10 := by
  rw [Numeral.value_append_singleton, Numeral.digitValue?_digitChar (Nat.mod_lt k (by decide)),
    Option.getD_some]

/-- The text of a number of hundredths, and what is read off it. -/
theorem ofNat_spec (n : Nat) : IsUnsigned (ofNat n).toList ∧ magnitude (ofNat n).toList = n / 100 := by
  have hwhole := isWhole_toDigits (n / 100)
  have hvalue := Numeral.value_toDigits (n / 100)
  have hsplit : n = 100 * (n / 100) + 10 * (n / 10 % 10) + n % 10 := by omega
  rw [toList_ofNat]
  rcases toList_decimals n with ⟨hdecimals, hn⟩ | ⟨hdecimals, hn, hn'⟩ | ⟨hdecimals, hn⟩
  · have hcast : (n : ℚ) = 100 * (n / 100 : Nat) := by exact_mod_cast (by omega : n = 100 * (n / 100))
    rw [hdecimals, List.append_nil]
    refine ⟨.whole hwhole, ?_⟩
    rw [magnitude_whole hwhole.digits, hvalue]
    linarith
  · have hcast : (n : ℚ) = 100 * (n / 100 : Nat) + 10 * (n / 10 % 10 : Nat) := by
      exact_mod_cast (by omega : n = 100 * (n / 100) + 10 * (n / 10 % 10))
    have hread : Numeral.value [(n / 10 % 10).digitChar] = n / 10 % 10 := by
      rw [← List.nil_append [_], value_append_digitChar, Numeral.value_nil, Nat.mul_zero, Nat.zero_add]
    have hfraction : IsFraction ([] ++ [(n / 10 % 10).digitChar]) :=
      isFraction_append nofun (Nat.zero_le 1) (by omega)
    rw [hdecimals]
    refine ⟨.decimal hwhole hfraction, ?_⟩
    rw [magnitude_decimal hwhole.digits, hvalue, hread, List.length_singleton]
    linarith
  · have hcast : (n : ℚ) = 100 * (n / 100 : Nat) + 10 * (n / 10 % 10 : Nat) + (n % 10 : Nat) := by
      exact_mod_cast hsplit
    have hread : Numeral.value [(n / 10 % 10).digitChar, (n % 10).digitChar] =
        10 * (n / 10 % 10) + n % 10 := by
      rw [← List.singleton_append, value_append_digitChar, ← List.nil_append [_], value_append_digitChar,
        Numeral.value_nil, Nat.mul_zero, Nat.zero_add]
    have htenth : ∀ d ∈ [(n / 10 % 10).digitChar], d.isDigit = true :=
      List.forall_mem_singleton.mpr (isDigit_digitChar (n / 10))
    rw [hdecimals]
    refine ⟨.decimal hwhole (isFraction_append htenth (Nat.le_refl 1) hn), ?_⟩
    rw [magnitude_decimal hwhole.digits, hvalue, hread]
    push_cast
    norm_num
    linarith

theorem reading_of_isUnsigned (h : IsUnsigned cs) : reading cs = magnitude cs := by
  have hfirst : ∀ ds fs, IsWhole ds → reading (ds ++ fs) = magnitude (ds ++ fs) := by
    intro ds fs hds
    obtain ⟨d, ds, rfl⟩ := List.exists_cons_of_ne_nil hds.ne_nil
    have hsign : d ≠ '-' := by
      rintro rfl
      cases hds.digits '-' List.mem_cons_self
    rw [List.cons_append, reading]
    exact fun _ hcons => hsign (List.cons.inj hcons).1
  cases h with
  | whole h =>
      rw [← List.append_nil cs]
      exact hfirst cs [] h
  | decimal h _ => exact hfirst _ _ h

/-- The text of an integer of hundredths. -/
def ofInt (z : ℤ) : String := signed (decide (z < 0)) z.natAbs

theorem ofInt_of_nonneg {z : ℤ} (h : 0 ≤ z) : ofInt z = ofNat z.natAbs := by
  rw [ofInt, decide_eq_false (not_lt.mpr h)]
  rfl

theorem toList_ofInt_of_neg {z : ℤ} (h : z < 0) : (ofInt z).toList = '-' :: (ofNat z.natAbs).toList := by
  rw [ofInt, decide_eq_true h, signed, Bool.true_and, if_pos (decide_eq_true (by omega)),
    String.toList_append]
  rfl

theorem signed_eq (negative : Bool) (n : Nat) : signed negative n = ofInt (if negative then -n else n) := by
  cases negative with
  | false => exact (ofInt_of_nonneg (Int.natCast_nonneg n)).symm
  | true =>
      cases n with
      | zero => rfl
      | succ n =>
          have hsign : -((n + 1 : Nat) : ℤ) < 0 := by omega
          rw [if_pos rfl, ofInt, decide_eq_true hsign, Int.natAbs_neg, Int.natAbs_natCast]

/-- The text is that of a number of hundredths. -/
structure IsPrinted (text : String) (z : ℤ) : Prop where
  form : IsNumber text.toList
  exact : reading text.toList = z / 100
  zero : z = 0 → text = "0"

theorem isPrinted_ofInt (z : ℤ) : IsPrinted (ofInt z) z := by
  obtain ⟨hform, hvalue⟩ := ofNat_spec z.natAbs
  rcases Int.lt_or_le z 0 with hz | hz
  · have hcast : (z : ℚ) = -(z.natAbs : ℚ) := by
      rw [← Int.cast_natCast, Int.ofNat_natAbs_of_nonpos hz.le, Int.cast_neg, neg_neg]
    have hpos : (0 : ℚ) < z.natAbs := Nat.cast_pos.mpr (Int.natAbs_pos.mpr hz.ne)
    refine ⟨?_, ?_, fun hzero => absurd hzero hz.ne⟩
    · rw [toList_ofInt_of_neg hz]
      exact .negative hform (hvalue ▸ div_pos hpos (by norm_num))
    · rw [toList_ofInt_of_neg hz, reading, hvalue, hcast, neg_div]
  · have hcast : (z : ℚ) = z.natAbs := by
      rw [← Int.cast_natCast, Int.natAbs_of_nonneg hz]
    rw [ofInt_of_nonneg hz]
    refine ⟨.unsigned hform, ?_, ?_⟩
    · rw [reading_of_isUnsigned hform, hvalue, hcast]
    · rintro rfl
      rfl

/-- A finite number is printed as the hundredth nearest to it. -/
theorem exists_nearest (h : x.isFinite = true) :
    ∃ z, IsNearest (100 * (Binary64.ofFloat x).toRat) z ∧ text x = ofInt z := by
  obtain ⟨negative, units, hx⟩ : ∃ negative units, Binary64.ofFloat x = .finite negative units := by
    change x.toModel.unpack.isFinite = true at h
    unfold Binary64.ofFloat
    cases hu : x.toModel.unpack with
    | infinity | notANumber =>
        rw [hu] at h
        cases h
    | zero s => exact ⟨_, _, rfl⟩
    | finite s m e hm => exact ⟨_, _, rfl⟩
  have hcount : IsNearest (100 * (units / Binary64.one : ℚ)) (count units) := by
    have hnear := isNearest_roundDiv (n := 100 * units) Binary64.one_pos
    rw [Nat.cast_mul, mul_div_assoc] at hnear
    exact hnear
  refine ⟨if negative then -count units else count units, ?_, ?_⟩
  · rw [hx, Binary64.toRat, Rat.mkRat_eq_div]
    cases negative with
    | false => exact hcount
    | true =>
        rw [if_pos rfl, if_pos rfl, Int.cast_neg, neg_div, mul_neg]
        exact hcount.neg
  · rw [text, hx]
    exact signed_eq negative (count units)

theorem le_iff_toRat_le (ha : a.isFinite = true) (hb : b.isFinite = true) :
    a ≤ b ↔ (Binary64.ofFloat a).toRat ≤ (Binary64.ofFloat b).toRat := by
  rw [Binary64.toRat_ofFloat ha, Binary64.toRat_ofFloat hb, div_le_div_iff_of_pos_right Binary64.cast_one_pos,
    Int.cast_le]
  exact Binary64.le_iff (Binary64.isNumber_of_isFinite ha) (Binary64.isNumber_of_isFinite hb)

/-- A finite number is printed as its nearest hundredth in the one form of that hundredth. So two numbers
are printed alike when they have the nearest hundredth in common, and a greater number is not printed as
a smaller one. -/
theorem text_canonical :
    (∀ x : Float, x.isFinite = true →
      ∃ z : ℤ, (∀ k, IsNearest (100 * (Binary64.ofFloat x).toRat) k ↔ k = z) ∧ IsPrinted (text x) z) ∧
    ∀ a b : Float, a.isFinite = true → b.isFinite = true →
      (text a = text b ↔ ∃ z, IsNearest (100 * (Binary64.ofFloat a).toRat) z ∧
        IsNearest (100 * (Binary64.ofFloat b).toRat) z) ∧
      (a ≤ b → reading (text a).toList ≤ reading (text b).toList) := by
  refine ⟨fun x hx => ?_, fun a b ha hb => ?_⟩
  · obtain ⟨z, hz, htext⟩ := exists_nearest hx
    refine ⟨z, fun k => ⟨fun hk => hk.unique hz, ?_⟩, htext ▸ isPrinted_ofInt z⟩
    rintro rfl
    exact hz
  · obtain ⟨y, hy, hya⟩ := exists_nearest ha
    obtain ⟨z, hz, hzb⟩ := exists_nearest hb
    have hreads := (isPrinted_ofInt y).exact
    have hreads' := (isPrinted_ofInt z).exact
    rw [hya, hzb]
    refine ⟨⟨fun heq => ?_, ?_⟩, fun hle => ?_⟩
    · have hsame : (y : ℚ) / 100 = z / 100 := by rw [← hreads, heq, hreads']
      have hyz : y = z := by exact_mod_cast (div_left_inj' (by norm_num)).mp hsame
      exact ⟨z, hyz ▸ hy, hz⟩
    · rintro ⟨k, hka, hkb⟩
      rw [hy.unique hka, hz.unique hkb]
    · have hle' : 100 * (Binary64.ofFloat a).toRat ≤ 100 * (Binary64.ofFloat b).toRat :=
        mul_le_mul_of_nonneg_left ((le_iff_toRat_le ha hb).mp hle) (by norm_num)
      have hyz : (y : ℚ) ≤ z := Int.cast_le.mpr (hy.le_of_le hz hle')
      rw [hreads, hreads']
      exact div_le_div_of_nonneg_right hyz (by norm_num)

/-- Two numbers half-way between hundredths, and one below zero that is printed without a sign. -/
theorem text_canonical_of_ties :
    text 0.125 = "0.12" ∧ text 0.375 = "0.38" ∧ text (-0.001) = "0" ∧
      (∃ z : ℤ, (∀ k, IsNearest (100 * (Binary64.ofFloat (-0.001)).toRat) k ↔ k = z) ∧ IsPrinted "0" z) ∧
      text 0.125 ≠ text 0.375 ∧ reading "0.12".toList ≤ reading "0.38".toList := by
  have hlow : text 0.125 = "0.12" := by decide +kernel
  have hhigh : text 0.375 = "0.38" := by decide +kernel
  have hzero : text (-0.001) = "0" := by decide +kernel
  have hnear := text_canonical.1 (-0.001) (by decide +kernel)
  have horder := (text_canonical.2 0.125 0.375 (by decide +kernel) (by decide +kernel)).2 (by decide +kernel)
  refine ⟨hlow, hhigh, hzero, hzero ▸ hnear, ?_, ?_⟩
  · rw [hlow, hhigh]
    decide
  · rw [hlow, hhigh] at horder
    exact horder

end Hundredths
end Wireframe
