/-!
# Columns

Texts moved to one end of a column of given width.  A text that is wider than the column
stays whole.
-/

namespace AmqpEnvelope.Text

/-- A text at the right end of a column. -/
def padLeft (width : Nat) (text : String) : String :=
  String.ofList (List.replicate (width - text.length) ' ') ++ text

/-- A text at the left end of a column. -/
def padRight (width : Nat) (text : String) : String :=
  text ++ String.ofList (List.replicate (width - text.length) ' ')

end AmqpEnvelope.Text
