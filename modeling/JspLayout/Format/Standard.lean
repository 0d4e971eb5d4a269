import JspLayout.Command.Attributes
import JspLayout.Format.Page
import JspLayout.Markup.Pretty

/-! The library that the program comes with.

    Markup of any depth is laid out; the only markup that cannot be read is a marked section of an unknown
    kind. The attributes of numbers are known that are numbers themselves. Any other attribute counts as
    missing. -/

namespace JspLayout

/-- The library that the program comes with. -/
def Library.standard : Library where
  reflow unit text := (Markup.reflow unit text).mapError fun _ => .unreadable "unknown marked section"
  attributes := Template.numberAttributes

end JspLayout
