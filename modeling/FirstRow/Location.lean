/-!
# Store locations

A configured location is a path, or a path behind the marker `sqlite://`. The marker counts only in front of an
absolute path and only in exactly this spelling; anything else is a path as it stands.
-/
namespace FirstRow.Location

/-- What stands in front of a path written as a location: the third slash is the root of the path. -/
def marker : List Char := "sqlite:///".toList

/-- The path of a location, as characters. -/
def pathChars (url : List Char) : List Char :=
  if marker.isPrefixOf url then '/' :: url.drop marker.length else url

/-- The path of a location. Nothing is decoded, and nothing is looked up. -/
def path (url : String) : String :=
  String.ofList (pathChars url.toList)

theorem pathChars_marker (rest : List Char) : pathChars (marker ++ rest) = '/' :: rest := by
  have h : marker.isPrefixOf (marker ++ rest) = true := by simp
  simp [pathChars, h]

theorem pathChars_of_not_prefix {url : List Char} (h : marker.isPrefixOf url = false) : pathChars url = url := by
  simp [pathChars, h]

end FirstRow.Location
