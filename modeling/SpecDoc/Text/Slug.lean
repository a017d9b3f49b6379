/-!
# Slugs

The slug of a text is what stands for it in an anchor: letters, digits, `_` and `-` of ASCII as they
are, and one `-` for each run of anything else.
-/

namespace SpecDoc.Text

/-- The characters that a slug keeps. -/
def isSlugChar (c : Char) : Bool := c.isAlphanum || c == '_' || c == '-'

/-- The slug of what follows a character, which was part of a run to be replaced iff `inRun`. -/
def slugFrom (inRun : Bool) : List Char → List Char
  | [] => []
  | c :: r =>
    if isSlugChar c then c :: slugFrom false r
    else if inRun then slugFrom true r
    else '-' :: slugFrom true r

/-- The slug of a text. -/
def slugChars (s : List Char) : List Char := slugFrom false s

/-- The slug of a text. -/
def slug (s : String) : String := String.ofList (slugChars s.toList)

/-- A slug holds only the characters that a slug keeps. -/
theorem isSlugChar_of_mem_slugFrom {b : Bool} {s : List Char} {c : Char}
    (h : c ∈ slugFrom b s) : isSlugChar c = true := by
  induction s generalizing b with
  | nil => simp [slugFrom] at h
  | cons d r ih =>
    unfold slugFrom at h
    split at h
    · next hd =>
      rcases List.mem_cons.1 h with rfl | h
      · exact hd
      · exact ih h
    · split at h
      · exact ih h
      · rcases List.mem_cons.1 h with rfl | h
        · decide
        · exact ih h

/-- A text of slug characters is its own slug. -/
theorem slugFrom_eq_self {b : Bool} {s : List Char} (h : ∀ c ∈ s, isSlugChar c = true) :
    slugFrom b s = s := by
  induction s generalizing b with
  | nil => rfl
  | cons d r ih =>
    simp [slugFrom, h d List.mem_cons_self, ih fun c hc => h c (List.mem_cons_of_mem _ hc)]

end SpecDoc.Text
