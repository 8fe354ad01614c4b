import PropCatalog.Document.Heading

/-!
# The managed region

A document has one region that this library owns. It is delimited by two markers; a document that
has no markers yet may have a section under the legacy heading instead, which is taken over. A
document with only one of the markers, or with neither a marker nor the section, has no region.
-/

namespace PropCatalog.Document

/-- The document to update and what delimits its region. -/
structure Target where
  file : Text
  startMarker : Text
  endMarker : Text
  /-- The heading of the section that is taken over when there are no markers. -/
  legacyHeading : Text
  deriving DecidableEq, Repr

/-- How a region was found. -/
inductive RegionKind where
  | markers
  | legacy
  deriving DecidableEq, Repr

/-- A region together with the rest of its document. -/
structure Region where
  kind : RegionKind
  before : Text
  inside : Text
  after : Text
  deriving DecidableEq, Repr

namespace Region

/-- The byte position where the region starts. -/
def start (r : Region) : Nat :=
  Text.utf8Length r.before

/-- The byte position where the region ends. -/
def stop (r : Region) : Nat :=
  r.start + Text.utf8Length r.inside

end Region

/-- Why a document has no region. -/
inductive RegionProblem where
  /-- There is neither a marker nor the legacy section. -/
  | missing (target : Target)
  /-- There is one marker, `found`, without the other one, `expected`, in its place. -/
  | unbalanced (file found expected : Text)
  deriving DecidableEq, Repr

def RegionProblem.message : RegionProblem → Text
  | .missing target =>
    "No insertion point in ".toList ++ target.file ++ ": expected '".toList ++ target.startMarker ++
      "' ... '".toList ++ target.endMarker ++ "' or a '".toList ++ target.legacyHeading ++
      "' section".toList
  | .unbalanced file found expected =>
    "Unbalanced markers in ".toList ++ file ++ ": found '".toList ++ found ++
      "' without a matching '".toList ++ expected ++ "'".toList

/-- Finds the region of a document. The end marker is the first one after the start marker. -/
def locate (target : Target) (document : Text) : Except RegionProblem Region :=
  match Text.cut? target.startMarker document with
  | some (before, rest) =>
    match Text.cut? target.endMarker rest with
    | some (body, after) =>
      .ok ⟨.markers, before, target.startMarker ++ body ++ target.endMarker, after⟩
    | none => .error (.unbalanced target.file target.startMarker target.endMarker)
  | none =>
    if Text.contains target.endMarker document then
      .error (.unbalanced target.file target.endMarker target.startMarker)
    else
      match section? target.legacyHeading document with
      | some (before, inside, after) => .ok ⟨.legacy, before, inside, after⟩
      | none => .error (.missing target)

/-- The region and what is around it make up the document. -/
theorem locate_eq_ok {target : Target} {document : Text} {r : Region}
    (h : locate target document = .ok r) : document = r.before ++ r.inside ++ r.after := by
  unfold locate at h
  split at h
  · next before rest hstart =>
    split at h
    · next body after hend =>
      cases h
      simp [Text.cut?_eq_some hstart, Text.cut?_eq_some hend]
    · cases h
  · split at h
    · cases h
    · split at h
      · next before inside after hsection =>
        cases h
        exact section?_eq_some hsection
      · cases h

/-- What the section is followed by in the place of a region: a legacy section reached up to the
next heading, so the blank line before that heading is put back, or the newline at the end of the
document. -/
def Region.separator (r : Region) : Text :=
  match r.kind with
  | .markers => []
  | .legacy => if r.after = [] then ['\n'] else ['\n', '\n']

/-- The document with `newSection` in the place of the region. -/
def Region.replace (r : Region) (newSection : Text) : Text :=
  r.before ++ newSection ++ r.separator ++ r.after

/-- The outcome of putting a section into a document. -/
structure Splice where
  content : Text
  region : Region
  /-- Whether the new document differs from the old one. -/
  changed : Bool

/-- Puts a section into the place of the region of a document. -/
def splice (target : Target) (document newSection : Text) : Except RegionProblem Splice := do
  let region ← locate target document
  let content := region.replace newSection
  return ⟨content, region, content ≠ document⟩

end PropCatalog.Document
