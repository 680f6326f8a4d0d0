import Bindery.Value.Basic
import Bindery.Text.Basic

/-!
# References out of a document

The references in a document that point at other documents, in the order of a
walk that meets a reference before the values beside it.
-/

namespace Bindery.Location

/-- The reference of a map if it points out of its document. -/
def externalReference (entries : Entries) : List String :=
  match entries.get? "$ref" with
  | some (.str reference) => if Text.beginsWith reference "#" then [] else [reference]
  | _ => []

mutual

def externalReferences : Value → List String
  | .map entries => externalReference entries ++ externalInEntries entries
  | .list items => externalInList items
  | .scalar _ => []

def externalInList : List Value → List String
  | [] => []
  | item :: rest => externalReferences item ++ externalInList rest

def externalInEntries : List (Scalar × Value) → List String
  | [] => []
  | (_, value) :: rest => externalReferences value ++ externalInEntries rest

end

end Bindery.Location
