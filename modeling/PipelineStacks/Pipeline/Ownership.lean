import PipelineStacks.Cluster.Object
import PipelineStacks.Text.Blank
import PipelineStacks.Text.Chars

/-!
# Who owns an object

An object may have several owners.  An owner of the same namespace is recorded by an owner
reference; a reference cannot cross namespaces, so other owners are recorded by their uid in an
annotation, a list with commas between.  `Owner.mark` and `Owner.unmark` add and remove one owner
and tell whether that changed the object.
-/

namespace PipelineStacks

/-- The annotation that lists owners of other namespaces. -/
def Metadata.ownerAnnotation : String := "kabanero.io/owner-uids"

namespace Object

/-! ## Owner references -/

/-- The owner references, none if there is no list of them. -/
def references (o : Object) : List OwnerReference :=
  o.metadata.ownerReferences.getD []

/-- The object with other owner references. -/
def withReferences (o : Object) (refs : Option (List OwnerReference)) : Object :=
  { o with metadata := { o.metadata with ownerReferences := refs } }

/-- A reference names the owner. -/
def hasReference (o : Object) (uid : String) : Bool :=
  o.references.any fun r => r.uid = uid

/-- Adds a reference unless its owner is named already. -/
def addReference (o : Object) (r : OwnerReference) : Bool × Object :=
  if o.hasReference r.uid then (false, o)
  else (true, o.withReferences (some (o.references ++ [r])))

/-- Removes the references to an owner. -/
def removeReference (o : Object) (uid : String) : Bool × Object :=
  if o.hasReference uid then
    (true, o.withReferences (some (o.references.filter fun r => r.uid ≠ uid)))
  else (false, o)

/-! ## The annotation -/

/-- The uids of a list with commas between; blanks around them and empty parts do not count. -/
def splitOwners (text : String) : List String :=
  let parts := Text.splitWhere (· = ',') text.toList
  ((parts.map Text.trim).filter (· ≠ [])).map String.ofList

/-- The list of uids with commas between. -/
def joinOwners (uids : List String) : String :=
  String.intercalate "," uids

/-- The annotations, none if there is no map of them. -/
def annotations (o : Object) : SortedMap String String :=
  o.metadata.annotations.getD {}

/-- The object with other annotations. -/
def withAnnotations (o : Object) (annotations : Option (SortedMap String String)) : Object :=
  { o with metadata := { o.metadata with annotations } }

/-- The owners that the annotation lists. -/
def annotatedOwners (o : Object) : List String :=
  match o.annotations.get? Metadata.ownerAnnotation with
  | some text => splitOwners text
  | none => []

/-- The annotation lists the owner. -/
def hasAnnotatedOwner (o : Object) (uid : String) : Bool :=
  o.annotatedOwners.any (· = uid)

/-- Writes the annotation; for no owners it is taken away. -/
def setAnnotatedOwners (o : Object) (uids : List String) : Object :=
  if uids = [] then
    o.withAnnotations (o.metadata.annotations.map (·.erase Metadata.ownerAnnotation))
  else
    o.withAnnotations (some (o.annotations.insert Metadata.ownerAnnotation (joinOwners uids)))

/-- Adds an owner to the annotation unless it is listed already. -/
def addAnnotatedOwner (o : Object) (uid : String) : Bool × Object :=
  if o.hasAnnotatedOwner uid then (false, o)
  else (true, o.setAnnotatedOwners (o.annotatedOwners ++ [uid]))

/-- Removes an owner from the annotation. -/
def removeAnnotatedOwner (o : Object) (uid : String) : Bool × Object :=
  if o.hasAnnotatedOwner uid then
    (true, o.setAnnotatedOwners (o.annotatedOwners.filter (· ≠ uid)))
  else (false, o)

/-- How many owners are recorded in both places. -/
def ownerCount (o : Object) : Nat :=
  o.references.length + o.annotatedOwners.length

end Object

/-! ## Owners -/

/-- Who owns the assets of a pass: a stack, named by a reference, and its namespace. -/
structure Owner where
  reference : OwnerReference
  namespaceName : String
deriving DecidableEq, Repr, Inhabited

namespace Owner

/-- The uid that the owner is recorded by. -/
def uid (w : Owner) : String :=
  w.reference.uid

/-- The owner can be referred to by objects of the namespace. -/
def canOwn (w : Owner) (inNamespace : String) : Bool :=
  w.namespaceName = inNamespace

/-- Records the owner on an object of a namespace. -/
def mark (w : Owner) (inNamespace : String) (o : Object) : Bool × Object :=
  if w.canOwn inNamespace then o.addReference w.reference else o.addAnnotatedOwner w.uid

/-- The owner is recorded on the object. -/
def isMarked (w : Owner) (o : Object) : Bool :=
  o.hasReference w.uid || o.hasAnnotatedOwner w.uid

/-- Removes every record of the owner from the object. -/
def unmark (w : Owner) (o : Object) : Bool × Object :=
  let (referred, o) := o.removeReference w.uid
  let (listed, o) := o.removeAnnotatedOwner w.uid
  (referred || listed, o)

end Owner

end PipelineStacks
