/-!
# Cutting text at a separator
-/

set_option autoImplicit false

namespace WireModules.Text

/-- The pieces of a text between occurrences of a separator; there is always one more piece than
there are separators. -/
def segments (separator : Char) : List Char → List (List Char)
  | [] => [[]]
  | char :: rest =>
    if char = separator then
      [] :: segments separator rest
    else
      match segments separator rest with
      | [] => [[char]]
      | first :: more => (char :: first) :: more

end WireModules.Text
