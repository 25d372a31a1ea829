/-!
# Layout between lexemes

Blanks and comments may stand before every lexeme and at the end. A comment runs from a number
sign to the end of its line.
-/

set_option autoImplicit false

namespace WireModules.Layout

def isBlank (char : Char) : Bool :=
  char = ' ' || char = '\t' || char = '\x0c' || char = '\r' || char = '\n'

/-- The layout at the start of a text and the text after it; `inComment` tells that a comment has
been begun before the text. -/
def splitAfter : Bool → List Char → List Char × List Char
  | _, [] => ([], [])
  | inComment, char :: rest =>
    if inComment then
      let (layout, after) := splitAfter (char ≠ '\n') rest
      (char :: layout, after)
    else if isBlank char then
      let (layout, after) := splitAfter false rest
      (char :: layout, after)
    else if char = '#' then
      let (layout, after) := splitAfter true rest
      (char :: layout, after)
    else ([], char :: rest)

def split (text : List Char) : List Char × List Char :=
  splitAfter false text

theorem splitAfter_append (inComment : Bool) (text : List Char) :
    (splitAfter inComment text).1 ++ (splitAfter inComment text).2 = text := by
  induction text generalizing inComment with
  | nil => rfl
  | cons char rest ih =>
    unfold splitAfter
    split
    · simp [ih]
    · split
      · simp [ih]
      · split
        · simp [ih]
        · rfl

/-- Nothing of a text is lost when its layout is split off. -/
theorem split_append (text : List Char) : (split text).1 ++ (split text).2 = text :=
  splitAfter_append false text

theorem length_split_le (text : List Char) : (split text).2.length ≤ text.length := by
  have whole := congrArg List.length (split_append text)
  rw [List.length_append] at whole
  omega

end WireModules.Layout
