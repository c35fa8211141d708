import Wireframe.Proofs.MarkupGrammar
import Wireframe.Svg.Attribute

/-! Texts that are escaped. A text of characters stands in markup for itself, without the characters that XML
does not have (`Svg.shows_escape`). Of the code points that are no characters the surrogates are kept, which
XML does not have either (`Svg.isLegal_iff`), and they are all that tells the two apart
(`Svg.isChar_escapePoints_iff`, `Svg.escapePoints_filter_iff`). -/

namespace Wireframe.Svg

open Markup (IsChar IsSurrogate Shows legal)

theorem isLegal_iff {n : Nat} (h : n < 0x110000) : isLegal n = true ↔ IsChar n ∨ IsSurrogate n := by
  simp only [isLegal, IsChar, IsSurrogate, Bool.and_eq_true, Bool.or_eq_true, decide_eq_true_eq]
  constructor
  · intro hlegal
    omega
  · intro hchar
    omega

theorem not_isChar_of_isSurrogate {n : Nat} (h : IsSurrogate n) : ¬IsChar n := by
  rw [IsSurrogate] at h
  rw [IsChar]
  omega

section Characters

variable {c : Char}

theorem isLegal_toNat_iff : isLegal c.toNat = true ↔ IsChar c.toNat := by
  have hvalid : c.toNat < 0xD800 ∨ (0xDFFF < c.toNat ∧ c.toNat < 0x110000) := c.valid
  rw [isLegal_iff (by omega), IsSurrogate]
  exact or_iff_left (by omega)

theorem shows_written (h : isLegal c.toNat = true) : Shows [c] (written Char.toNat id c) := by
  rw [written, entity?]
  split
  · next hc => exact Char.toNat_inj.mp hc ▸ Markup.shows_entity (by decide)
  split
  · next hc => exact Char.toNat_inj.mp hc ▸ Markup.shows_entity (by decide)
  split
  · next hc => exact Char.toNat_inj.mp hc ▸ Markup.shows_entity (by decide)
  split
  · next hc => exact Char.toNat_inj.mp hc ▸ Markup.shows_entity (by decide)
  split
  · next hc => exact Char.toNat_inj.mp hc ▸ Markup.shows_entity (by decide)
  · next hamp hlt hgt hquot _ =>
    refine .plain (isLegal_toNat_iff.mp h) ?_ .nil
    rw [Char.toNat_inj] at hamp hlt hgt hquot
    simp [Markup.reserved, hamp, hlt, hgt, hquot]

/-- A text that is escaped stands for itself, without the characters that XML does not have. -/
theorem shows_escape (s : String) : Shows (legal s).toList (escape s).toList := by
  have hall : ∀ cs : List Char, (∀ c ∈ cs, isLegal c.toNat = true) →
      Shows cs (cs.flatMap (written Char.toNat id)) := by
    intro cs hcs
    induction cs with
    | nil => exact .nil
    | cons c rest ih =>
        obtain ⟨hc, hrest⟩ := List.forall_mem_cons.mp hcs
        exact (shows_written hc).append (ih hrest)
  have hsame : (fun c : Char => decide (IsChar c.toNat)) = isLegal ∘ Char.toNat := by
    funext c
    rw [Bool.eq_iff_iff, decide_eq_true_eq]
    exact isLegal_toNat_iff.symm
  rw [legal, hsame, escape, String.toList_ofList, String.toList_ofList, escapeAll]
  exact hall _ fun c hc => (List.mem_filter.mp hc).2

end Characters

section Points

variable {n : Nat} {ps : List Nat}

/-- A text of characters is escaped as the text of their code points. -/
theorem escapePoints_toNat (s : String) :
    escapePoints (s.toList.map Char.toNat) = (escape s).toList.map Char.toNat := by
  have hwritten (c : Char) : written id Char.toNat c.toNat = (written Char.toNat id c).map Char.toNat := by
    simp only [written, id_eq, List.map_id_fun]
    cases entity? c.toNat <;> rfl
  rw [escape, String.toList_ofList, escapePoints, escapeAll, escapeAll, List.filter_map, List.flatMap_map,
    List.map_flatMap]
  simp only [hwritten]
  rfl

/-- A code point stands for itself, unless it is one of those that entities stand for. -/
theorem written_eq_or (n : Nat) : written id Char.toNat n = [n] ∨
    n < 0x80 ∧ ∀ m ∈ written id Char.toNat n, IsChar m := by
  have hreserved : (['&', '<', '>', '"', '\''].all fun c => c.toNat < 0x80 &&
      (written id Char.toNat c.toNat).all fun m => IsChar m) = true := by decide
  by_cases h : ∃ c ∈ ['&', '<', '>', '"', '\''], n = c.toNat
  · obtain ⟨c, hc, rfl⟩ := h
    have hentity := List.all_eq_true.mp hreserved c hc
    rw [Bool.and_eq_true, decide_eq_true_eq, List.all_eq_true] at hentity
    exact Or.inr ⟨hentity.1, fun m hm => of_decide_eq_true (hentity.2 m hm)⟩
  · refine Or.inl ?_
    simp only [List.mem_cons, List.not_mem_nil, or_false, exists_eq_or_imp, exists_eq_left, not_or] at h
    obtain ⟨hamp, hlt, hgt, hquot, happos⟩ := h
    rw [written, entity?, id_eq, if_neg hamp, if_neg hlt, if_neg hgt, if_neg hquot, if_neg happos]
    rfl

theorem mem_escapePoints : n ∈ escapePoints ps ↔
    ∃ p ∈ ps, isLegal p = true ∧ n ∈ written id Char.toNat p := by
  simp only [escapePoints, escapeAll, List.mem_flatMap, List.mem_filter, Function.comp, id_eq, and_assoc]

/-- Surrogates are kept, and none is made. -/
theorem mem_escapePoints_iff_of_isSurrogate (h : IsSurrogate n) : n ∈ escapePoints ps ↔ n ∈ ps := by
  have hlow : ¬n < 0x80 := by
    have := h.1
    omega
  have hlegal : isLegal n = true := (isLegal_iff (by have := h.2; omega)).mpr (Or.inr h)
  rw [mem_escapePoints]
  constructor
  · rintro ⟨p, hp, -, hn⟩
    rcases written_eq_or p with hself | ⟨-, hchars⟩
    · rw [hself, List.mem_singleton] at hn
      exact hn ▸ hp
    · exact absurd (hchars n hn) (not_isChar_of_isSurrogate h)
  · intro hn
    have hself := (written_eq_or n).resolve_right fun hentity => hlow hentity.1
    exact ⟨n, hn, hlegal, hself ▸ List.mem_singleton_self n⟩

/-- A text leaves only characters of XML in markup exactly when there is no surrogate in it. -/
theorem isChar_escapePoints_iff (h : ∀ n ∈ ps, n < 0x110000) :
    (∀ n ∈ escapePoints ps, IsChar n) ↔ ∀ n ∈ ps, ¬IsSurrogate n := by
  constructor
  · intro hchars n hn hsurrogate
    exact not_isChar_of_isSurrogate hsurrogate (hchars n ((mem_escapePoints_iff_of_isSurrogate hsurrogate).mpr hn))
  · intro hnone n hn
    obtain ⟨p, hp, hlegal, hwritten⟩ := mem_escapePoints.mp hn
    rcases written_eq_or p with hself | ⟨-, hchars⟩
    · rw [hself, List.mem_singleton] at hwritten
      exact hwritten ▸ ((isLegal_iff (h p hp)).mp hlegal).resolve_right (hnone p hp)
    · exact hchars n hwritten

/-- Exactly the texts without a surrogate are shown as what XML has of them. -/
theorem escapePoints_filter_iff (h : ∀ n ∈ ps, n < 0x110000) :
    escapePoints ps = escapePoints (ps.filter fun n => IsChar n) ↔ ∀ n ∈ ps, ¬IsSurrogate n := by
  constructor
  · intro hsame n hn hsurrogate
    rw [← mem_escapePoints_iff_of_isSurrogate hsurrogate, hsame, mem_escapePoints_iff_of_isSurrogate hsurrogate,
      List.mem_filter, decide_eq_true_eq] at hn
    exact not_isChar_of_isSurrogate hsurrogate hn.2
  · intro hnone
    have hfilter : (ps.filter fun n => IsChar n).filter isLegal = ps.filter isLegal := by
      rw [List.filter_filter]
      refine List.filter_congr fun n hn => ?_
      rw [Bool.eq_iff_iff, Bool.and_eq_true, decide_eq_true_eq, isLegal_iff (h n hn)]
      exact and_iff_left_of_imp fun hlegal => hlegal.resolve_right (hnone n hn)
    exact congrArg (List.flatMap (written id Char.toNat)) hfilter.symm

end Points

end Wireframe.Svg
