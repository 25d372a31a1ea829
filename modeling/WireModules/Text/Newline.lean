/-!
# Line endings

Text files are read with every line ending as one line feed, whether it is stored as a line
feed, a carriage return or the pair of both.
-/

set_option autoImplicit false

namespace WireModules.Text

def unifyNewlines : List Char → List Char
  | [] => []
  | '\r' :: '\n' :: rest => '\n' :: unifyNewlines rest
  | '\r' :: rest => '\n' :: unifyNewlines rest
  | char :: rest => char :: unifyNewlines rest

end WireModules.Text
