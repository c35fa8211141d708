/-! Text cut at separators and filled up to a width. -/

namespace Wireframe.Text

/-- The pieces between the occurrences of `sep`, one more than there are occurrences. -/
def splitAt (sep : Char) : List Char → List (List Char)
  | [] => [[]]
  | c :: cs =>
    if c = sep then [] :: splitAt sep cs
    else match splitAt sep cs with
      | [] => [[c]]
      | piece :: pieces => (c :: piece) :: pieces

theorem splitAt_ne_nil (sep : Char) (cs : List Char) : splitAt sep cs ≠ [] := by
  cases cs with
  | nil => simp [splitAt]
  | cons c cs =>
    simp only [splitAt]
    split
    · simp
    · split <;> simp

/-- Joining the pieces with the separator gives the text back. -/
theorem intercalate_splitAt (sep : Char) (cs : List Char) :
    [sep].intercalate (splitAt sep cs) = cs := by
  induction cs with
  | nil => rfl
  | cons c cs ih =>
    simp only [splitAt]
    split
    · next h =>
      subst h
      cases hs : splitAt c cs with
      | nil => exact absurd hs (splitAt_ne_nil c cs)
      | cons p ps => rw [hs] at ih; simp [List.intercalate, List.intersperse] at ih ⊢; exact ih
    · cases hs : splitAt sep cs with
      | nil => exact absurd hs (splitAt_ne_nil sep cs)
      | cons p ps =>
        rw [hs] at ih
        cases ps with
        | nil => simp [List.intercalate, List.intersperse] at ih ⊢; exact ih
        | cons q qs => simp [List.intercalate, List.intersperse] at ih ⊢; exact ih

/-- The pieces between the leftmost occurrences of two dots that do not overlap. -/
def splitDots : List Char → List (List Char)
  | [] => [[]]
  | '.' :: '.' :: cs => [] :: splitDots cs
  | c :: cs => match splitDots cs with
    | [] => [[c]]
    | piece :: pieces => (c :: piece) :: pieces

/-- The text with spaces after it up to the given width. -/
def padRight (width : Nat) (s : String) : String :=
  s ++ String.ofList (List.replicate (width - s.length) ' ')

/-- The text with spaces before it up to the given width. -/
def padLeft (width : Nat) (s : String) : String :=
  String.ofList (List.replicate (width - s.length) ' ') ++ s

def spaces (n : Nat) : String := String.ofList (List.replicate n ' ')

end Wireframe.Text
