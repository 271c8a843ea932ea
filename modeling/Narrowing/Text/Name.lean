/-!
# Names

A name starts with an ASCII letter or an underscore and goes on with letters, digits and underscores.  The name of an
operand may also hold points after its first character.
-/

namespace Narrowing.Text

/-- A character a name may start with. -/
def isNameStart (c : Char) : Bool := c.isAlpha || c == '_'

/-- A character a name may go on with. -/
def isNameRest (c : Char) : Bool := c.isAlphanum || c == '_'

/-- The whole text is one name. -/
def isName (s : String) : Bool :=
  match s.toList with
  | [] => false
  | c :: cs => isNameStart c && cs.all isNameRest

/-- The whole text is a name with points. -/
def isDottedName (s : String) : Bool :=
  match s.toList with
  | [] => false
  | c :: cs => isNameStart c && cs.all fun d => isNameRest d || d == '.'

end Narrowing.Text
