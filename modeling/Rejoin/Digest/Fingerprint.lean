import Rejoin.Digest.Md5
import Rejoin.Hexadecimal
import Rejoin.Json.Text
import Rejoin.View.Json

/-!
# Fingerprints

The fingerprint of a view is a digest of its compact text, so equal views have
equal fingerprints.
-/

namespace Rejoin.View

/-- The text under the fingerprint. -/
def text (view : View) : String :=
  view.toJson.compact

/-- The MD5 of the view's text in UTF-8, in hexadecimal. -/
def fingerprint (view : View) : String :=
  Hexadecimal.ofBytes (Md5.digest view.text.toUTF8.toList)

end Rejoin.View
