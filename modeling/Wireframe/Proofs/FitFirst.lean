import Wireframe.Proofs.FitMonotone

/-! The size at which a text is set. The search tries one size after the other, each two below the one
before and none below the least, and it ends with the first at which the text fits or which is not above
the least (`fit_first`). The sizes fall all the way down, as two is taken off exactly enough from whole
numbers of 53 bits and from what is between them (`smaller_lt`). -/

namespace Wireframe.Typeset

open Binary64 (level IsNumber le_iff lt_iff isNumber_of_le)

variable {width height size : Float} {cs : List Char} {found : Fitted Float}

/-- The lines of a text at a size, one line height each, are not higher than the height. -/
def Fits (width height : Float) (cs : List Char) (size : Float) : Prop :=
  Float.ofNat (wrap width size cs).length * size * 1.2 ≤ height

/-- The search from a size ends with the one that it comes to after `n` others. -/
structure EndsAt (width height : Float) (cs : List Char) (size : Float) (found : Fitted Float) (n : Nat) :
    Prop where
  size_eq : found.size = smaller^[n] size
  lines_eq : found.lines = wrap width found.size cs
  ends : Fits width height cs found.size ∨ found.size ≤ 8
  goes : ∀ m < n, ¬Fits width height cs (smaller^[m] size) ∧ 8 < smaller^[m] size
  larger : ∀ m < n, found.size < smaller^[m] size

theorem stops_iff : Stops width height cs size ↔ Fits width height cs size ∨ size ≤ 8 := by
  rw [Stops, Bool.or_eq_true]
  exact or_congr decide_eq_true_iff decide_eq_true_iff

theorem isNumber_least : IsNumber 8 := level_minSize.1

theorem level_least : level 8 = Binary64.magnitude 8 0 := level_minSize.2

theorem lt_of_not_le (hsize : size ≤ Float.ofNat (2 ^ 53)) (h : ¬size ≤ 8) : 8 < size := by
  have hnumber := (isNumber_of_le hsize).1
  rw [le_iff hnumber isNumber_least] at h
  rw [lt_iff isNumber_least hnumber]
  omega

theorem positive_of_lt (hsize : size ≤ Float.ofNat (2 ^ 53)) (h : 8 < size) : Positive size := by
  have hnumber := (isNumber_of_le hsize).1
  have hpos : 0 < Binary64.magnitude 8 0 := Binary64.magnitude_pos (by decide) 0
  rw [lt_iff isNumber_least hnumber, level_least] at h
  have hzero : 0.0 < size := by
    rw [lt_iff Binary64.isNumber_zero hnumber, Binary64.level_zero]
    omega
  have hnonneg : 0.0 ≤ size := by
    rw [le_iff Binary64.isNumber_zero hnumber, Binary64.level_zero]
    omega
  exact ⟨hzero, Binary64.isFinite_of_le hnonneg hsize (Binary64.isFinite_ofNat (Nat.le_refl _))⟩

/-- Above the least size the next one is smaller, and not below the least. -/
theorem smaller_lt (hsize : size ≤ Float.ofNat (2 ^ 53)) (h : 8 < size) :
    smaller size < size ∧ 8 ≤ smaller size := by
  have hpos := positive_of_lt hsize h
  have hnumber := Binary64.isNumber_of_isFinite hpos.2
  obtain ⟨hsmaller, hlevel⟩ := level_smaller hpos
  have hmost := Binary64.level_le hsize
  have hwhole : 2 ^ 53 = 8 + 2 * (2 ^ 52 - 5 + 1) := by decide
  rw [Binary64.level_ofNat_of_le (Nat.le_refl _), hwhole] at hmost
  have habove := h
  rw [lt_iff isNumber_least hnumber, level_least] at habove
  -- the size is between two numbers that are two apart, and what is next is at most the lower one
  have hbracket : ∃ n, level size ≤ Binary64.magnitude (8 + 2 * (n + 1)) 0 :=
    ⟨2 ^ 52 - 5, hmost⟩
  have hn : level size ≤ Binary64.magnitude (8 + 2 * (Nat.find hbracket + 1)) 0 := Nat.find_spec hbracket
  have hbound : Nat.find hbracket ≤ 2 ^ 52 - 5 := Nat.find_min' hbracket hmost
  have hlower : Binary64.magnitude (8 + 2 * Nat.find hbracket) 0 < level size := by
    cases hfind : Nat.find hbracket with
    | zero => exact habove
    | succ m =>
        have hmin := Nat.find_min hbracket (m := m) (by omega)
        omega
  have hle := level_smaller_le hpos (by omega) hn
  refine ⟨(lt_iff hsmaller hnumber).mpr (by omega), (le_iff isNumber_least hsmaller).mpr ?_⟩
  have hleast : level (minSize : Float) = level 8 := rfl
  omega

/-- The unbounded search from a size of at most 53 bits. -/
theorem Settles.exists_endsAt (h : Settles width height cs size found)
    (hsize : size ≤ Float.ofNat (2 ^ 53)) :
    (∃ n, EndsAt width height cs size found n) ∧ found.size ≤ size ∧ (8 ≤ size → 8 ≤ found.size) := by
  induction h with
  | @stop size hstops =>
      have hself := Binary64.le_self (isNumber_of_le hsize).1
      exact ⟨⟨0, rfl, rfl, stops_iff.mp hstops, nofun, nofun⟩, hself, fun hleast => hleast⟩
  | @next size found hgoes rest ih =>
      rw [stops_iff, not_or] at hgoes
      have habove := lt_of_not_le hsize hgoes.2
      obtain ⟨hlt, hleast⟩ := smaller_lt hsize habove
      have hle := (smaller_le (positive_of_lt hsize habove) hgoes.2).2
      obtain ⟨⟨n, hends⟩, hfound, hfloor⟩ := ih (Binary64.le_trans hle hsize)
      have hbelow : found.size < size := Binary64.lt_of_le_of_lt (isNumber_of_le hsize).1 hfound hlt
      refine ⟨⟨n + 1, hends.size_eq, hends.lines_eq, hends.ends, ?_, ?_⟩, Binary64.le_trans hfound hle,
        fun _ => hfloor hleast⟩
      · intro m hm
        cases m with
        | zero => exact ⟨hgoes.1, habove⟩
        | succ m => exact hends.goes m (by omega)
      · intro m hm
        cases m with
        | zero => exact hbelow
        | succ m => exact hends.larger m (by omega)

theorem settles_fit (hsize : size ≤ Float.ofNat (2 ^ 53)) (width height padding : Float) (cs : List Char) :
    Settles (inside width padding) (inside height padding) cs size (fit width height padding size cs) := by
  refine settles_fitFrom ?_
  by_cases hleast : size ≤ 8
  · exact reachesLeast_mono (n := 0) (decide_eq_true hleast) (Nat.zero_le _)
  · exact reachesLeast_bound (positive_of_lt hsize (lt_of_not_le hsize hleast)) hsize

/-- From a size of at most 53 bits the search ends in every box, with the first size at which the text fits
or which is not above the least, and with the lines of the text at that size. -/
theorem fit_first (hsize : size ≤ Float.ofNat (2 ^ 53)) (width height padding : Float) (cs : List Char) :
    (∃ n, EndsAt (inside width padding) (inside height padding) cs size
        (fit width height padding size cs) n) ∧
      (8 ≤ size → 8 ≤ (fit width height padding size cs).size ∧
        (fit width height padding size cs).size ≤ size) ∧
      (size < 8 → (fit width height padding size cs).size = size) := by
  obtain ⟨⟨n, hends⟩, hle, hleast⟩ := (settles_fit hsize width height padding cs).exists_endsAt hsize
  refine ⟨⟨n, hends⟩, fun h => ⟨hleast h, hle⟩, fun h => ?_⟩
  cases n with
  | zero => exact hends.size_eq
  | succ n =>
      have hnumber := (isNumber_of_le hsize).1
      have habove := (hends.goes 0 (Nat.succ_pos n)).2
      rw [Function.iterate_zero_apply, lt_iff isNumber_least hnumber] at habove
      rw [lt_iff hnumber isNumber_least] at h
      omega

/-- A text that is set three steps below the size it is given. -/
theorem fit_first_of_words :
    (24.0 : Float) ≤ Float.ofNat (2 ^ 53) ∧
      (fit 120.5 60.0 8.0 24.0 "Hello wide world".toList).size = 18.0 ∧
      (∃ n, EndsAt (inside 120.5 8.0) (inside 60.0 8.0) "Hello wide world".toList 24.0
        (fit 120.5 60.0 8.0 24.0 "Hello wide world".toList) n) ∧
      (8 ≤ (fit 120.5 60.0 8.0 24.0 "Hello wide world".toList).size ∧
        (fit 120.5 60.0 8.0 24.0 "Hello wide world".toList).size ≤ 24.0) := by
  have hsize : (24.0 : Float) ≤ Float.ofNat (2 ^ 53) := by decide +kernel
  have hleast : (8 : Float) ≤ 24.0 := by decide +kernel
  obtain ⟨hends, hbounds, -⟩ := fit_first hsize 120.5 60.0 8.0 "Hello wide world".toList
  refine ⟨hsize, ?_, hends, hbounds hleast⟩
  decide +kernel

end Wireframe.Typeset
